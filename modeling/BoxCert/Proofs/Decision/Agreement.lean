import BoxCert.Proofs.Decision.Points
import BoxCert.Proofs.Findings
import BoxCert.Proofs.Number.Sharp

/-!
# The two checks agree

The simple check compares ends of scores, the full one bounds a lead from
products with one and a directed difference. A lead that is never lost always
separates the ends, so the full check cannot rule out every competitor without
the simple one calling the label robust.

The converse needs threshold zero, and ends that a product with one leaves as
they are. The lower end of a product with one depends on the lower end of the
score alone, whatever the other end is, and the difference has the sign of the
exact one, spilled or not. So it is enough that the ends which the simple check
compares are zero, infinite or not below the underflow guard. Then each check
leaves open what the other one does.
-/

namespace BoxCert

open Binary64 BoxCert.Interval

namespace Binary64

variable {x y : Binary64}

/-- Whether a number is out of reach of the underflow guard. -/
inductive IsGuarded (x : Binary64) : Prop where
  | zero (h : x.isZero = true)
  | unbounded (h : x.isFinite = false)
  | large (h : 2 ^ (-960 : ℤ) ≤ |x.toReal|)

theorem isGuarded_iff :
    x.IsGuarded ↔ x.isZero = true ∨ ¬ x.abs < underflowGuard := by
  constructor
  · intro h
    cases h with
    | zero h => exact .inl h
    | unbounded h => exact .inr (not_abs_lt_guard (.inl h))
    | large h => exact .inr (not_abs_lt_guard (.inr h))
  · rintro (hzero | hlarge)
    · exact .zero hzero
    · cases hfin : x.isFinite with
      | true =>
          exact .large (not_lt.1 (mt (abs_lt_guard_iff_toReal hfin).2 hlarge))
      | false => exact .unbounded hfin

instance : Decidable x.IsGuarded := decidable_of_iff _ isGuarded_iff.symm

theorem directed_one_of_not_finite (hx : x.isNan = false)
    (hfin : x.isFinite = false) :
    (mulDown 1 x).toEReal = x.toEReal ∧ (mulUp 1 x).toEReal = x.toEReal := by
  rw [toEReal_mulUp, toEReal_mulDown_of_infinite rfl hx (.inr hfin),
    toEReal_mulDown_of_infinite rfl hx (.inr hfin), toEReal_neg, toEReal_one,
    EReal.neg_mul, one_mul, neg_neg]
  exact ⟨rfl, rfl⟩

theorem IsGuarded.directed_one (h : x.IsGuarded) (hx : x.isNan = false) :
    (mulDown 1 x).toEReal = x.toEReal ∧ (mulUp 1 x).toEReal = x.toEReal := by
  cases hfin : x.isFinite with
  | true => exact directed_one_of_large hfin (isGuarded_iff.1 h)
  | false => exact directed_one_of_not_finite hx hfin

theorem vanishes_one (x : Binary64) : vanishes 1 x = false := by
  rw [vanishes, one_mul_eq]
  cases x.isZero <;> rfl

theorem mulDown_one_mono (h : x ≤ y) : mulDown 1 x ≤ mulDown 1 y := by
  obtain ⟨hx, hy, hle⟩ := le_iff.1 h
  exact mulDown_mono rfl hy rfl hx (by simpa [toEReal_one] using hle)
    (vanishes_one y)

theorem mulUp_one_mono (h : x ≤ y) : mulUp 1 x ≤ mulUp 1 y := by
  obtain ⟨hx, hy, hle⟩ := le_iff.1 h
  exact mulUp_mono rfl hx rfl hy (by simpa [toEReal_one] using hle)
    (vanishes_one x)

end Binary64

namespace Interval

variable {a own rival : Interval}

/-- The ends of a product with one are the directed products with one of the
ends. -/
theorem one_mul_ends (ha : a.inf ≤ a.sup) :
    (point 1 * a).inf.toEReal = (mulDown 1 a.inf).toEReal ∧
      (point 1 * a).sup.toEReal = (mulUp 1 a.sup).toEReal := by
  obtain ⟨hinf, hsup⟩ := point_mul_ends (x := 1) rfl ha
  rw [hinf, hsup]
  exact ⟨min_eq_left (le_iff.1 (mulDown_one_mono ha)).2.2,
    max_eq_right (le_iff.1 (mulUp_one_mono ha)).2.2⟩

theorem isNan_lead_sup (hown : own.inf ≤ own.sup)
    (hrival : rival.inf ≤ rival.sup) : (lead own rival).sup.isNan = false :=
  isNan_addUp (mem_point_one_mul (sup_mem hown)).sup_isNan
    (neg_mem_point_neg_one_mul (inf_mem hrival)).sup_isNan

/-- The lead between guarded ends is positive if and only if the ends are in
order. -/
theorem zero_lt_lead_iff_of_guarded (hown : own.inf ≤ own.sup)
    (hrival : rival.inf ≤ rival.sup) (hguard : own.inf.IsGuarded)
    (hguard' : rival.sup.IsGuarded) :
    0 < (lead own rival).inf ↔ rival.sup < own.inf := by
  have hinf := (isNan_of_le hown).1
  have hsup := (isNan_of_le hrival).2
  rw [zero_lt_lead_iff hown hrival, (one_mul_ends hown).1,
    (one_mul_ends hrival).2, (hguard.directed_one hinf).1,
    (hguard'.directed_one hsup).2, lt_iff, hinf, hsup]
  simp

end Interval

theorem classify_nonStrict_no_iff {lower upper threshold : Binary64}
    (hupper : upper.isNan = false) :
    classify .nonStrict lower upper threshold = .no ↔ threshold < lower := by
  refine ⟨classify_nonStrict_no, fun h => ?_⟩
  rw [classify, (isNan_of_lt h).2, hupper]
  exact if_pos h

namespace Box

variable {box : Box} {label i : Nat} {threshold : Binary64}

/-- Whether the ends that the simple check compares are out of reach of the
underflow guard: the lowest score of the label and the highest scores of the
other classes. -/
structure EndsGuarded (box : Box) (label : Nat) : Prop where
  own : ∀ own, box.lower.cells[label]? = some own → own.inf.IsGuarded
  rivals : ∀ i rival, i ≠ label → box.upper.cells[i]? = some rival →
    rival.sup.IsGuarded

theorem mem_rivals {own : Interval} :
    i ∈ (box.upperEnds.zipIdx.filter fun rival =>
      rival.2 != label && Decidable.decide (own.inf ≤ rival.1)).map (·.2) ↔
    i ≠ label ∧ ∃ rival, box.upper.cells[i]? = some rival ∧
      own.inf ≤ rival.sup := by
  have hmem : ∀ sup j, (sup, j) ∈ box.upperEnds.zipIdx ↔
      ∃ rival, box.upper.cells[j]? = some rival ∧ rival.sup = sup := by
    intro sup j
    rw [List.mem_zipIdx_iff_getElem?, upperEnds, List.getElem?_map,
      Option.map_eq_some_iff]
  constructor
  · intro h
    obtain ⟨⟨sup, j⟩, hfilter, rfl⟩ := List.mem_map.1 h
    obtain ⟨hsup, hopen⟩ := List.mem_filter.1 hfilter
    obtain ⟨rival, hrival, rfl⟩ := (hmem _ _).1 hsup
    rw [Bool.and_eq_true, bne_iff_ne, decide_eq_true_eq] at hopen
    exact ⟨hopen.1, rival, hrival, hopen.2⟩
  · rintro ⟨hne, rival, hrival, hle⟩
    have hopen : (i != label && Decidable.decide (own.inf ≤ rival.sup)) =
        true := by
      rw [Bool.and_eq_true, bne_iff_ne, decide_eq_true_eq]
      exact ⟨hne, hle⟩
    exact List.mem_map.2 ⟨(rival.sup, i),
      List.mem_filter.2 ⟨(hmem _ _).2 ⟨rival, hrival, rfl⟩, hopen⟩, rfl⟩

theorem mem_undecided :
    i ∈ (((competitors box.dim label).map
      (box.verdictOn label threshold)).filter (·.verdict != .no)).map
        (·.competitor) ↔
    i ∈ competitors box.dim label ∧
      (box.verdictOn label threshold i).verdict ≠ .no := by
  rw [List.filter_map, List.map_map]
  show i ∈ ((competitors box.dim label).filter _).map id ↔ _
  rw [List.map_id, List.mem_filter]
  simp

section Wide

variable (hbox : box.Proper) (hone : box.dim ≠ 1)

include hbox hone

theorem verdict_eq_no_iff (hzero : threshold.isZero = true)
    (hguard : box.EndsGuarded label) (hne : i ≠ label) {own rival : Interval}
    (hown : box.lower.cells[label]? = some own)
    (hrival : box.upper.cells[i]? = some rival) :
    (box.verdictOn label threshold i).verdict = .no ↔
      rival.sup < own.inf := by
  have hlabel := hbox.exists_lower_iff.1 ⟨own, hown⟩
  have hi := hbox.exists_upper_iff.1 ⟨rival, hrival⟩
  obtain ⟨u, hu⟩ := hbox.exists_upper_iff.2 hlabel
  obtain ⟨l, hl⟩ := hbox.exists_lower_iff.2 hi
  have hnan := isNan_lead_sup
    (hbox.upper_proper u (List.mem_of_getElem? hu))
    (hbox.lower_proper l (List.mem_of_getElem? hl))
  have hlt : threshold < (lead own rival).inf ↔ 0 < (lead own rival).inf := by
    have hnan : threshold.isNan = false := by
      cases threshold with
      | nan => cases hzero
      | _ => rfl
    rw [lt_iff, lt_iff, toEReal_of_isZero hzero, toEReal_zero, hnan]
    rfl
  rw [verdict_of_wide hbox hone hne hown hu hl hrival,
    classify_nonStrict_no_iff hnan, hlt]
  exact zero_lt_lead_iff_of_guarded
    (hbox.lower_proper own (List.mem_of_getElem? hown))
    (hbox.upper_proper rival (List.mem_of_getElem? hrival))
    (hguard.own own hown) (hguard.rivals i rival hne hrival)

theorem separates_iff_verdicts (hzero : threshold.isZero = true)
    (hguard : box.EndsGuarded label) {own : Interval}
    (hown : box.lower.cells[label]? = some own) :
    box.Separates label ↔ ∀ v ∈ (competitors box.dim label).map
      (box.verdictOn label threshold), v.verdict = .no := by
  constructor
  · intro h v hv
    obtain ⟨i, hi, rfl⟩ := List.mem_map.1 hv
    obtain ⟨hlt, hne⟩ := (mem_competitors_of_wide hone).1 hi
    obtain ⟨rival, hrival⟩ := hbox.exists_upper_iff.2 hlt
    exact (verdict_eq_no_iff hbox hone hzero hguard hne hown hrival).2
      (h own hown i rival hne hrival)
  · intro h
    exact separates_of_verdicts hbox hone (toEReal_of_isZero hzero).ge
      (aggregate_eq_robust.2 h)

/-- The classes that the simple check leaves open are those that the full one
does not rule out. -/
theorem rivals_eq_undecided (hzero : threshold.isZero = true)
    (hguard : box.EndsGuarded label) {own : Interval}
    (hown : box.lower.cells[label]? = some own) :
    (box.upperEnds.zipIdx.filter fun rival =>
      rival.2 != label && Decidable.decide (own.inf ≤ rival.1)).map (·.2) =
    (((competitors box.dim label).map
      (box.verdictOn label threshold)).filter (·.verdict != .no)).map
        (·.competitor) := by
  refine List.Pairwise.eq_of_mem_iff (r := (· < ·))
    (pairwise_map_of_pairwise_map ?_ _) (pairwise_map_of_pairwise_map ?_ _)
    fun i => ?_
  · rw [List.zipIdx_map_snd]
    exact List.pairwise_lt_range'
  · rw [map_competitor_verdicts]
    exact competitors_pairwise _ _
  have hinf := (isNan_of_le
    (hbox.lower_proper own (List.mem_of_getElem? hown))).1
  rw [mem_rivals, mem_undecided, mem_competitors_of_wide hone,
    ← hbox.exists_upper_iff]
  constructor
  · rintro ⟨hne, rival, hrival, hle⟩
    refine ⟨⟨⟨rival, hrival⟩, hne⟩, fun hno => ?_⟩
    rw [verdict_eq_no_iff hbox hone hzero hguard hne hown hrival] at hno
    exact (lt_iff.1 hno).2.2.not_ge (le_iff.1 hle).2.2
  · rintro ⟨⟨⟨rival, hrival⟩, hne⟩, hopen⟩
    have hsup := (isNan_of_le
      (hbox.upper_proper rival (List.mem_of_getElem? hrival))).2
    refine ⟨hne, rival, hrival, ?_⟩
    rw [ne_eq, verdict_eq_no_iff hbox hone hzero hguard hne hown hrival,
      not_below_iff hinf hsup] at hopen
    exact hopen

end Wide

/-- On every accepted box of two or more scores the full check rules out every
competitor only if the simple one calls the label robust. With threshold zero
and guarded ends that is an equivalence, and otherwise the simple check lists
the classes that the full one leaves open or calls lost. -/
theorem checkSimple_agrees
    (haccepted : ofColumns box.lower box.upper = .ok box)
    (hcells : ∀ a ∈ box.lower.cells ++ box.upper.cells, a.inf ≤ a.sup)
    (hdim : 2 ≤ box.dim) (hlabel : label < box.dim) :
    ∃ simple, box.checkSimple label = .ok simple ∧
      (∀ threshold, threshold.isFinite = true → 0 ≤ threshold →
        ∃ verdicts, box.checkFull label threshold = .ok verdicts ∧
          ((∀ v ∈ verdicts, v.verdict = .no) → simple = .robust)) ∧
      (box.EndsGuarded label → ∀ threshold, threshold.isZero = true →
        ∃ verdicts, box.checkFull label threshold = .ok verdicts ∧
          (verdicts.map (·.competitor)).Pairwise (· < ·) ∧
          (simple = .robust ↔ ∀ v ∈ verdicts, v.verdict = .no) ∧
          (simple ≠ .robust → simple = .unresolved
            ((verdicts.filter (·.verdict != .no)).map (·.competitor)))) := by
  have hbox := proper_of_cells haccepted hcells
  have hone : box.dim ≠ 1 := by omega
  have hclass : checkLabel box.dim label = .ok () := by
    rw [checkLabel_eq_ok, classCount, if_neg hone]
    omega
  obtain ⟨own, hown⟩ := hbox.exists_lower_iff.2 hlabel
  have hseparates := maxUpperExcluding_lt_iff_separates hbox (by omega) hone hown
  refine ⟨_, checkSimple_eq hbox.toAccepted hclass hone hown, ?_, ?_⟩
  · intro threshold _ hpos
    refine ⟨_, checkFull_eq_ok hbox.toAccepted hclass threshold, fun hno => ?_⟩
    have hpos := (le_iff.1 hpos).2.2
    rw [toEReal_zero] at hpos
    exact if_pos (hseparates.2 (separates_of_verdicts hbox hone hpos
      (aggregate_eq_robust.2 hno)))
  · intro hguard threshold hzero
    refine ⟨_, checkFull_eq_ok hbox.toAccepted hclass threshold, ?_, ?_, ?_⟩
    · rw [map_competitor_verdicts]
      exact competitors_pairwise _ _
    · rw [← separates_iff_verdicts hbox hone hzero hguard hown, ← hseparates]
      split
      · next h => exact iff_of_true rfl h
      · next h => exact iff_of_false (by simp) h
    · split
      · exact fun hopen => absurd rfl hopen
      · rw [rivals_eq_undecided hbox hone hzero hguard hown]
        exact fun _ => rfl

/-- A score of one at least, one that may reach it, one just below it, and one
from four on. -/
def tieSample : Box :=
  ⟨.column [⟨1, 1⟩, ⟨negInfinity, 0⟩, ⟨0, 0⟩,
      ⟨ofBits 0x4010000000000000, ofBits 0x4010000000000000⟩],
    .column [⟨1, ofBits 0x4000000000000000⟩, ⟨0, 1⟩,
      ⟨0, ofBits 0x3fefffffffffffff⟩, ⟨infinity, infinity⟩]⟩

theorem checkSimple_agrees_tieSample :
    ofColumns tieSample.lower tieSample.upper = .ok tieSample ∧
    (∀ a ∈ tieSample.lower.cells ++ tieSample.upper.cells, a.inf ≤ a.sup) ∧
    2 ≤ tieSample.dim ∧ 3 < tieSample.dim ∧ tieSample.EndsGuarded 0 ∧
    tieSample.checkSimple 3 = .ok .robust ∧
    ∃ verdicts, tieSample.checkFull 0 0 = .ok verdicts ∧
      (verdicts.filter (·.verdict != .no)).map (·.competitor) = [1, 3] := by
  have haccepted : ofColumns tieSample.lower tieSample.upper = .ok tieSample :=
    rfl
  have hcells : ∀ a ∈ tieSample.lower.cells ++ tieSample.upper.cells,
      a.inf ≤ a.sup := by decide
  have hdim : 2 ≤ tieSample.dim := by decide
  have hguard : tieSample.EndsGuarded 0 := by
    constructor
    · rintro _ ⟨⟩
      decide
    · intro i rival _ hrival
      have hall : ∀ c ∈ tieSample.upper.cells, c.sup.IsGuarded := by decide
      exact hall rival (List.mem_of_getElem? hrival)
  have hrun : (tieSample.checkSimple 0).toOption =
      some (.unresolved [1, 3]) := by decide +kernel
  have hno : (tieSample.checkFull 3 1).toOption.map
      (·.all (·.verdict == .no)) = some true := by decide +kernel
  refine ⟨haccepted, hcells, hdim, by decide, hguard, ?_, ?_⟩
  · obtain ⟨simple, hsimple, hfull, -⟩ := checkSimple_agrees haccepted hcells
      hdim (show 3 < tieSample.dim by decide)
    obtain ⟨verdicts, hverdicts, hrobust⟩ := hfull 1 rfl (by decide)
    rw [hverdicts] at hno
    have hno : verdicts.all (·.verdict == .no) = true := Option.some.inj hno
    rw [hsimple, hrobust (by simpa using hno)]
  · obtain ⟨simple, hsimple, -, hfull⟩ := checkSimple_agrees haccepted hcells
      hdim (show 0 < tieSample.dim by decide)
    obtain ⟨verdicts, hverdicts, -, -, hopen⟩ := hfull hguard 0 rfl
    rw [hsimple] at hrun
    obtain rfl : simple = .unresolved [1, 3] := Option.some.inj hrun
    exact ⟨verdicts, hverdicts, (Outcome.unresolved.inj (hopen nofun)).symm⟩

end Box

end BoxCert
