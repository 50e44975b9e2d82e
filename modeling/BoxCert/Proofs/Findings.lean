import BoxCert.Proofs.Certification
import BoxCert.Proofs.Decision.Leads

/-!
# Well-formed findings

Whoever reads a finding relies on its parts fitting together: the classes that
it names compete with the label, the open ones are listed in order, and there
are some; the verdicts are those on all competing classes, and then the outcome
is what they amount to, or there are none because the simple check was enough.

The part that could fail is the simple check. It compares the label with one
greatest score and lists the open classes by a comparison of its own, so that
the list is not empty has to be found out from the order of the ends.
-/

namespace BoxCert

open Binary64

/-- Whether an outcome names only classes that compete with the label, and the
open ones in ascending order. A single score tells two classes apart. -/
def Outcome.WellFormed (outputs label : Nat) : Outcome → Prop
  | robust => True
  | notRobust i => i < max outputs 2 ∧ i ≠ label
  | unresolved undecided =>
      undecided ≠ [] ∧ undecided.Pairwise (· < ·) ∧
        ∀ i ∈ undecided, i < max outputs 2 ∧ i ≠ label

/-- Whether the verdicts of a finding are those on all classes that compete
with its label, and its outcome is what they amount to. -/
structure Finding.IsTold (f : Finding) (outputs : Nat) : Prop where
  ascending : (f.verdicts.map (·.competitor)).Pairwise (· < ·)
  complete : ∀ i, i ∈ f.verdicts.map (·.competitor) ↔
    i < max outputs 2 ∧ i ≠ f.label
  robust_iff : f.outcome = .robust ↔ ∀ v ∈ f.verdicts, v.verdict = .no
  notRobust_iff : ∀ i, f.outcome = .notRobust i ↔
    ∃ v, f.verdicts.find? (·.verdict == .yes) = some v ∧ v.competitor = i
  unresolved_iff : ∀ undecided, f.outcome = .unresolved undecided ↔
    (∀ v ∈ f.verdicts, v.verdict ≠ .yes) ∧
    (∃ v ∈ f.verdicts, v.verdict = .maybe) ∧
    undecided = (f.verdicts.filter (·.verdict == .maybe)).map (·.competitor)

/-! ## Classes in order -/

theorem pairwise_map_of_pairwise_map {α : Type} {f : α → Nat} {items : List α}
    (h : (items.map f).Pairwise (· < ·)) (p : α → Bool) :
    ((items.filter p).map f).Pairwise (· < ·) :=
  h.sublist (List.filter_sublist.map f)

theorem wellFormed_aggregate {outputs label : Nat}
    {verdicts : List DisjunctVerdict}
    (hascending : (verdicts.map (·.competitor)).Pairwise (· < ·))
    (hcompeting : ∀ v ∈ verdicts,
      v.competitor < max outputs 2 ∧ v.competitor ≠ label) :
    (aggregate verdicts).WellFormed outputs label := by
  cases h : aggregate verdicts with
  | robust => trivial
  | notRobust i =>
      obtain ⟨v, hv, -, rfl⟩ := exists_of_aggregate_eq_notRobust h
      exact hcompeting v hv
  | unresolved undecided =>
      obtain ⟨-, ⟨v, hv, hmaybe⟩, rfl⟩ := aggregate_eq_unresolved_iff.1 h
      refine ⟨?_, pairwise_map_of_pairwise_map hascending _, fun i hi => ?_⟩
      · exact List.ne_nil_of_mem
          (List.mem_map_of_mem (List.mem_filter.2 ⟨hv, by simp [hmaybe]⟩))
      · obtain ⟨v, hv, rfl⟩ := List.mem_map.1 hi
        exact hcompeting v (List.mem_filter.1 hv).1

namespace Box

variable {b : Box} {label : Nat} {threshold : Binary64}
  {verdicts : List DisjunctVerdict} {outcome : Outcome}

/-! ## The simple check -/

theorem exists_rival_of_not_separates (hbox : b.Proper) {own : Interval}
    (hown : b.lower.cells[label]? = some own) (h : ¬ b.Separates label) :
    ∃ i rival, i ≠ label ∧ b.upper.cells[i]? = some rival ∧
      own.inf ≤ rival.sup := by
  unfold Separates at h
  push Not at h
  obtain ⟨own', hown', i, rival, hi, hrival, hle⟩ := h
  cases hown.symm.trans hown'
  have hinf := (isNan_of_le (hbox.lower_proper own
    (List.mem_of_getElem? hown))).1
  have hsup := (isNan_of_le (hbox.upper_proper rival
    (List.mem_of_getElem? hrival))).2
  exact ⟨i, rival, hi, hrival, (not_below_iff hinf hsup).1 hle⟩

/-- With two or more scores the open classes are those whose highest score is
not below the label's lowest one. There are some, since otherwise the box
separates the label. -/
theorem wellFormed_rivals (hbox : b.Proper) {own : Interval}
    (hown : b.lower.cells[label]? = some own) (h : ¬ b.Separates label) :
    (Outcome.unresolved ((b.upperEnds.zipIdx.filter fun rival =>
      rival.2 != label && Decidable.decide (own.inf ≤ rival.1)).map
        (·.2))).WellFormed b.dim label := by
  refine ⟨?_, pairwise_map_of_pairwise_map ?_ _, fun i hi => ?_⟩
  · obtain ⟨i, rival, hi, hrival, hle⟩ :=
      exists_rival_of_not_separates hbox hown h
    have hmem : (rival.sup, i) ∈ b.upperEnds.zipIdx := by
      rw [List.mem_zipIdx_iff_getElem?, upperEnds, List.getElem?_map, hrival]
      rfl
    exact List.ne_nil_of_mem (List.mem_map_of_mem
      (List.mem_filter.2 ⟨hmem, by simp [hi, hle]⟩))
  · rw [List.zipIdx_map_snd]
    exact List.pairwise_lt_range'
  · obtain ⟨⟨sup, j⟩, hmem, rfl⟩ := List.mem_map.1 hi
    obtain ⟨hmem, hrival⟩ := List.mem_filter.1 hmem
    have hlt := List.snd_lt_of_mem_zipIdx hmem
    rw [upperEnds, List.length_map, hbox.length_upper] at hlt
    simp at hrival hlt ⊢
    omega

theorem wellFormed_checkSimple (hbox : b.Proper)
    (hlabel : checkLabel b.dim label = .ok ())
    (h : b.checkSimple label = .ok outcome) :
    outcome.WellFormed b.dim label := by
  obtain ⟨hpos, hclass⟩ := checkLabel_eq_ok.1 hlabel
  by_cases hone : b.dim = 1
  · rw [checkSimple, hlabel, if_pos hone] at h
    cases h
    rw [classCount, if_pos hone] at hclass
    simp [Outcome.WellFormed]
    omega
  · rw [classCount, if_neg hone, ← hbox.length_lower] at hclass
    have hown := List.getElem?_eq_getElem hclass
    rw [checkSimple_eq hbox.toAccepted hlabel hone hown] at h
    split at h
    · cases h
      trivial
    · next hopen =>
        rw [maxUpperExcluding_lt_iff_separates hbox hpos hone hown] at hopen
        cases h
        exact wellFormed_rivals hbox hown hopen

/-! ## The full check -/

theorem mem_verdicts_iff (hbox : b.Accepted)
    (hlabel : checkLabel b.dim label = .ok ())
    (h : b.checkFull label threshold = .ok verdicts) (i : Nat) :
    i ∈ verdicts.map (·.competitor) ↔ i < max b.dim 2 ∧ i ≠ label := by
  rw [checkFull_eq_ok hbox hlabel threshold] at h
  cases h
  rw [map_competitor_verdicts,
    mem_competitors_of_pos (checkLabel_eq_ok.1 hlabel).1]

theorem verdicts_pairwise (hbox : b.Accepted)
    (hlabel : checkLabel b.dim label = .ok ())
    (h : b.checkFull label threshold = .ok verdicts) :
    (verdicts.map (·.competitor)).Pairwise (· < ·) := by
  rw [checkFull_eq_ok hbox hlabel threshold] at h
  cases h
  rw [map_competitor_verdicts]
  exact competitors_pairwise _ _

/-- Each label has a competitor, so the full check has something to say. -/
theorem verdicts_ne_nil (hbox : b.Accepted)
    (hlabel : checkLabel b.dim label = .ok ())
    (h : b.checkFull label threshold = .ok verdicts) : verdicts ≠ [] := by
  rintro rfl
  have hmem := mem_verdicts_iff hbox hlabel h (if label = 0 then 1 else 0)
  simp at hmem
  split at hmem <;> omega

end Box

namespace Settings

variable {s : Settings} {layer : Layer} {p : Property} {finding : Finding}

/-- A finding is well formed: its outcome names competing classes only, and it
shows no verdicts if the simple check was enough, or else those on all
competing classes, which its outcome sums up. The simple check by itself calls
no label lost. -/
theorem certify_wellFormed (h : s.certify layer p = .ok finding) :
    finding.label = p.label ∧
    finding.outcome.WellFormed layer.outputs p.label ∧
    (finding.verdicts = [] ↔ finding.decidedBy = .simple) ∧
    (finding.verdicts ≠ [] → finding.IsTold layer.outputs) ∧
    (s.mode = .simple →
      finding.verdicts = [] ∧ ∀ i, finding.outcome ≠ .notRobust i) := by
  obtain ⟨box, decision, hstages, rfl⟩ := certify_eq_ok_iff.1 h
  have himage := hstages.proper_image
  have hlabel := hstages.label
  rw [← layer.dim_image box] at hlabel ⊢
  rcases Box.decide_cases hstages.decide with
    ⟨simple, hsimple, rfl, -⟩ | ⟨verdicts, hfull, rfl, hmode⟩
  · obtain ⟨outcome, houtcome, hlost, -⟩ :=
      Box.checkSimple_eq_ok himage hlabel
    cases hsimple.symm.trans houtcome
    exact ⟨rfl, Box.wellFormed_checkSimple himage hlabel hsimple,
      iff_of_true rfl rfl, fun hne => absurd rfl hne,
      fun _ => ⟨rfl, hlost⟩⟩
  · have hpairwise := Box.verdicts_pairwise himage.toAccepted hlabel hfull
    have hmem := Box.mem_verdicts_iff himage.toAccepted hlabel hfull
    refine ⟨rfl, wellFormed_aggregate hpairwise fun v hv =>
        (hmem _).1 (List.mem_map_of_mem hv),
      iff_of_false (Box.verdicts_ne_nil himage.toAccepted hlabel hfull) nofun,
      fun _ => ?_, fun hsimple => absurd hsimple hmode⟩
    exact ⟨hpairwise, hmem, aggregate_eq_robust,
      fun i => aggregate_eq_notRobust_iff,
      fun undecided => aggregate_eq_unresolved_iff⟩

/-- Three scores that are zero on every input. -/
def level : Layer where
  weightPoints := .column [0, 0, 0]
  biasPoints := [0, 0, 0]
  tolerance := 0
  order := .byRow
  isTolerance_tolerance := isTolerance_zero
  nonempty := by decide
  length_biasPoints := by decide
  finite := by decide

/-- A tie is open for the simple check and lost for the full one. -/
theorem certify_wellFormed_level :
    ∃ tied lost,
      ({ tolerance := some 0, mode := .simple } : Settings).certify level
        ⟨[1], [1], 1⟩ = .ok tied ∧
      tied.outcome = .unresolved [0, 2] ∧
      tied.outcome.WellFormed level.outputs 1 ∧ tied.verdicts = [] ∧
      ({ tolerance := some 0, mode := .full } : Settings).certify level
        ⟨[1], [1], 1⟩ = .ok lost ∧
      lost.outcome = .notRobust 0 ∧ lost.IsTold level.outputs := by
  obtain ⟨tied, htied, hopen⟩ := exists_ok_of_toOption
    (show (({ tolerance := some 0, mode := .simple } : Settings).certify level
      ⟨[1], [1], 1⟩).toOption.map (fun f => (f.outcome, f.decidedBy)) =
        some (.unresolved [0, 2], .simple) by decide +kernel)
  obtain ⟨lost, hlost, hfull⟩ := exists_ok_of_toOption
    (show (({ tolerance := some 0, mode := .full } : Settings).certify level
      ⟨[1], [1], 1⟩).toOption.map (fun f => (f.outcome, f.decidedBy)) =
        some (.notRobust 0, .full) by decide +kernel)
  obtain ⟨hopen, hsimple⟩ := Prod.mk.inj hopen
  obtain ⟨hfound, hfull⟩ := Prod.mk.inj hfull
  obtain ⟨-, hformed, hnone, -⟩ := certify_wellFormed htied
  obtain ⟨-, -, hsome, htold, -⟩ := certify_wellFormed hlost
  refine ⟨tied, lost, htied, hopen, hformed, hnone.2 hsimple, hlost, hfound,
    htold fun hnil => ?_⟩
  cases (hsome.1 hnil).symm.trans hfull

end Settings

end BoxCert
