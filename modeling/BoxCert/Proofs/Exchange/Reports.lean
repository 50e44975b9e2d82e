import BoxCert.Exchange.Records
import BoxCert.Proofs.Findings
import BoxCert.Proofs.Json.Shape

/-!
# Reports that read back

A report is written with everything in it that can be read, except that an end
which is not finite becomes a null. Such ends are no mistake: where the scores
leave the range, a run ends with open ends and says so. Its report is then one
that nobody can read, and those are the only ones.
-/

namespace BoxCert

open Json (required)
open Numeral (indexBound)

/-! ## Words -/

theorem spelled_wordIn {α : Type} [DecidableEq α] (table : List (String × α))
    (a : α) : (wordIn table a).Spelled := by
  unfold wordIn
  cases (table.find? fun entry => entry.2 = a).map (·.1) with
  | none => exact trivial
  | some => exact rfl

theorem Verdict.ofJson?_toJson (v : Verdict) : ofJson? v.toJson = some v := by
  cases v <;> rfl

theorem DecidedBy.ofJson?_toJson (d : DecidedBy) :
    ofJson? d.toJson = some d := by
  cases d <;> rfl

/-! ## Outcomes -/

namespace Outcome

/-- The classes that an outcome names. -/
def classes : Outcome → List Nat
  | robust => []
  | notRobust competitor => [competitor]
  | unresolved undecided => undecided

/-- The members that an outcome is written with. -/
def members : Outcome → List (String × Json)
  | robust => [("status", .text "robust")]
  | notRobust competitor =>
      [("status", .text "not_robust"), ("class", .nat competitor)]
  | unresolved undecided =>
      [("status", .text "unresolved"),
        ("undecided", .array (undecided.map Json.nat))]

variable {o : Outcome}

theorem toJson_eq_record (o : Outcome) : o.toJson = .record o.members := by
  cases o <;> rfl

theorem spelled_toJson (o : Outcome) : o.toJson.Spelled := by
  rw [toJson_eq_record]
  refine Json.spelled_record ?_
  cases o with
  | robust => exact List.forall_mem_singleton.2 rfl
  | notRobust i =>
      simp only [members, List.forall_mem_cons]
      exact ⟨rfl, Json.spelled_nat i, nofun⟩
  | unresolved undecided =>
      simp only [members, List.forall_mem_cons]
      exact ⟨rfl, Json.spelled_map fun i _ => Json.spelled_nat i, nofun⟩

theorem isSound_toJson (h : ∀ i ∈ o.classes, i ≤ indexBound) :
    o.toJson.isSound = true := by
  rw [toJson_eq_record]
  refine Json.isSound_record ?_
  cases o with
  | robust => exact List.forall_mem_singleton.2 rfl
  | notRobust i =>
      simp only [members, List.forall_mem_cons]
      exact ⟨rfl, Json.isSound_nat (h i List.mem_cons_self), nofun⟩
  | unresolved undecided =>
      simp only [members, List.forall_mem_cons]
      exact ⟨rfl, Json.isSound_map fun i hi => Json.isSound_nat (h i hi),
        nofun⟩

theorem depth_toJson_le (o : Outcome) : o.toJson.depth ≤ 2 := by
  rw [toJson_eq_record]
  refine Json.depth_record_le ?_
  cases o with
  | robust => exact List.forall_mem_singleton.2 (Nat.zero_le 1)
  | notRobust i =>
      simp only [members, List.forall_mem_cons]
      exact ⟨Nat.zero_le 1, Nat.zero_le 1, nofun⟩
  | unresolved undecided =>
      simp only [members, List.forall_mem_cons]
      exact ⟨Nat.zero_le 1, Json.depth_map_le fun _ _ => le_refl 0, nofun⟩

/-- An outcome reads back as it was, unless it is nested too deeply. -/
theorem ofJsonAt?_toJson {depth : Nat} (hdepth : depth + 2 ≤ nestingLimit)
    (h : ∀ i ∈ o.classes, i ≤ indexBound) :
    ofJsonAt? depth o.toJson = some o := by
  have hle := depth_toJson_le o
  unfold ofJsonAt?
  rw [isSound_toJson h, if_neg (by simp; omega), toJson_eq_record]
  cases o with
  | robust => rfl
  | notRobust i =>
      show (Json.toIndex? (.nat i)).bind (fun c => some (notRobust c)) = _
      rw [Json.toIndex?_nat (h i List.mem_cons_self)]
      rfl
  | unresolved undecided =>
      show (Json.toList? Json.toIndex? (.array (undecided.map Json.nat))).bind
        (fun cs => some (unresolved cs)) = _
      have hclasses : ∀ i ∈ undecided, i ≤ indexBound := h
      rw [Json.toList?_nats hclasses]
      rfl

theorem classes_lt_of_wellFormed {outputs label : Nat} {o : Outcome}
    (h : o.WellFormed outputs label) : ∀ i ∈ o.classes, i < max outputs 2 := by
  cases o with
  | robust => exact nofun
  | notRobust i => exact List.forall_mem_singleton.2 h.1
  | unresolved undecided => exact fun i hi => (h.2.2 i hi).1

end Outcome

/-! ## Verdicts -/

/-- Whether a float that is written reads back as another. -/
def Binary64.ReadsAs (x y : Binary64) : Prop :=
  Json.toFloat? (.float x) = some y

theorem Binary64.exists_readsAs_iff {x : Binary64} :
    (∃ y, x.ReadsAs y) ↔ x.isFinite = true := by
  rw [← Json.isSome_toFloat?_float, Option.isSome_iff_exists]
  rfl

namespace DisjunctVerdict

/-- Whether a verdict that is written reads back as another. -/
structure ReadsAs (v w : DisjunctVerdict) : Prop where
  competitor : w.competitor = v.competitor
  verdict : w.verdict = v.verdict
  lower : v.lower.ReadsAs w.lower
  upper : v.upper.ReadsAs w.upper

variable {v w : DisjunctVerdict}

theorem spelled_toJson (v : DisjunctVerdict) : v.toJson.Spelled := by
  refine Json.spelled_record ?_
  simp only [List.forall_mem_cons]
  exact ⟨Json.spelled_nat _, spelled_wordIn _ _, Json.spelled_float _,
    Json.spelled_float _, nofun⟩

theorem ofJson?_toJson_iff (h : v.competitor ≤ indexBound) :
    ofJson? v.toJson = some w ↔ v.ReadsAs w := by
  have hfields := Json.fields?_record [
    ("class", .nat v.competitor), ("verdict", v.verdict.toJson),
    ("lower", .float v.lower), ("upper", .float v.upper)] (by simp)
  unfold ofJson? toJson
  simp only [List.map_cons, List.map_nil] at hfields
  simp only [hfields, required, Option.bind_eq_bind, Option.bind_some,
    Json.toIndex?_nat h, Verdict.ofJson?_toJson, Option.bind_eq_some_iff]
  constructor
  · rintro ⟨lower, hlower, upper, hupper, ⟨⟩⟩
    exact ⟨rfl, rfl, hlower, hupper⟩
  · rintro ⟨hcompetitor, hverdict, hlower, hupper⟩
    refine ⟨_, hlower, _, hupper, ?_⟩
    rw [← hcompetitor, ← hverdict]
    rfl

theorem exists_readsAs_iff : (∃ w, v.ReadsAs w) ↔
    v.lower.isFinite = true ∧ v.upper.isFinite = true := by
  rw [← Binary64.exists_readsAs_iff, ← Binary64.exists_readsAs_iff]
  constructor
  · rintro ⟨w, hw⟩
    exact ⟨⟨_, hw.lower⟩, _, hw.upper⟩
  · rintro ⟨⟨lower, hlower⟩, upper, hupper⟩
    exact ⟨⟨v.competitor, v.verdict, lower, upper⟩, rfl, rfl, hlower, hupper⟩

end DisjunctVerdict

/-! ## Reports -/

/-- Whether all ends that a finding shows are finite. -/
structure Finding.Bounded (f : Finding) : Prop where
  outputLower : ∀ x ∈ f.outputLower, x.isFinite = true
  outputUpper : ∀ x ∈ f.outputUpper, x.isFinite = true
  verdicts : ∀ v ∈ f.verdicts, v.lower.isFinite = true ∧ v.upper.isFinite = true

instance (f : Finding) : Decidable f.Bounded :=
  decidable_of_iff ((∀ x ∈ f.outputLower, x.isFinite = true) ∧
    (∀ x ∈ f.outputUpper, x.isFinite = true) ∧
    ∀ v ∈ f.verdicts, v.lower.isFinite = true ∧ v.upper.isFinite = true)
    ⟨fun h => ⟨h.1, h.2.1, h.2.2⟩, fun h => ⟨h.1, h.2, h.3⟩⟩

/-- Whether two findings give the same answer, for as many scores. -/
structure Finding.Agrees (f g : Finding) : Prop where
  outcome : g.outcome = f.outcome
  label : g.label = f.label
  decidedBy : g.decidedBy = f.decidedBy
  verdicts : g.verdicts.map (fun v => (v.competitor, v.verdict)) =
    f.verdicts.map (fun v => (v.competitor, v.verdict))
  outputLower : g.outputLower.length = f.outputLower.length
  outputUpper : g.outputUpper.length = f.outputUpper.length

/-- The classes that a finding names. -/
def Finding.classes (f : Finding) : List Nat :=
  f.label :: f.outcome.classes ++ f.verdicts.map (·.competitor)

namespace Report

/-- Whether a report that is written reads back as another. -/
structure ReadsAs (r q : Report) : Prop where
  outcome : q.outcome = r.outcome
  label : q.label = r.label
  verdicts : List.Forall₂ DisjunctVerdict.ReadsAs r.verdicts q.verdicts
  outputLower : List.Forall₂ Binary64.ReadsAs r.outputLower q.outputLower
  outputUpper : List.Forall₂ Binary64.ReadsAs r.outputUpper q.outputUpper
  decidedBy : q.decidedBy = r.decidedBy
  tolerance : r.tolerance.ReadsAs q.tolerance
  elapsed : r.elapsed.ReadsAs q.elapsed

variable {r q : Report}

theorem spelled_toJson (r : Report) : r.toJson.Spelled := by
  refine Json.spelled_record ?_
  simp only [members, List.forall_mem_cons]
  exact ⟨Outcome.spelled_toJson _, Json.spelled_nat _,
    Json.spelled_map fun v _ => v.spelled_toJson, Json.spelled_floats _,
    Json.spelled_floats _, spelled_wordIn _ _, Json.spelled_float _,
    Json.spelled_float _, nofun⟩

theorem toList?_floats_iff {xs ys : List Binary64} :
    Json.toList? Json.toFloat? (.floats xs) = some ys ↔
      List.Forall₂ Binary64.ReadsAs xs ys := by
  rw [Json.floats, Json.toList?_map]
  exact Json.mapM_eq_some_iff fun _ _ _ => Iff.rfl

theorem toList?_verdicts_iff {vs ws : List DisjunctVerdict}
    (h : ∀ v ∈ vs, v.competitor ≤ indexBound) :
    Json.toList? DisjunctVerdict.ofJson? (.array (vs.map (·.toJson))) =
      some ws ↔ List.Forall₂ DisjunctVerdict.ReadsAs vs ws := by
  rw [Json.toList?_map]
  exact Json.mapM_eq_some_iff fun v hv w =>
    DisjunctVerdict.ofJson?_toJson_iff (h v hv)

theorem ofJson?_toJson_iff (h : ∀ i ∈ r.classes, i ≤ indexBound) :
    ofJson? r.toJson = some q ↔ r.ReadsAs q := by
  have hfields := Json.fields?_record r.members (by simp [members])
  have hlabel : r.label ≤ indexBound := h _ (by simp [Finding.classes])
  have houtcome : Outcome.ofJsonAt? 1 r.outcome.toJson = some r.outcome :=
    Outcome.ofJsonAt?_toJson (by decide)
      fun i hi => h i (by simp [Finding.classes, hi])
  have hverdicts : ∀ v ∈ r.verdicts, v.competitor ≤ indexBound :=
    fun v hv => h _ (List.mem_append_right _ (List.mem_map_of_mem hv))
  unfold ofJson? toJson
  simp only [members, List.map_cons, List.map_nil] at hfields
  simp only [members, hfields, required, Option.bind_eq_bind, Option.bind_some,
    Json.toIndex?_nat hlabel, houtcome, DecidedBy.ofJson?_toJson,
    Option.bind_eq_some_iff, toList?_floats_iff,
    toList?_verdicts_iff hverdicts]
  constructor
  · rintro ⟨verdicts, hverdicts, lower, hlower, upper, hupper, tolerance,
      htolerance, elapsed, helapsed, ⟨⟩⟩
    exact ⟨rfl, rfl, hverdicts, hlower, hupper, rfl, htolerance, helapsed⟩
  · rintro ⟨houtcome, hlabel, hverdicts, hlower, hupper, hdecided, htolerance,
      helapsed⟩
    refine ⟨_, hverdicts, _, hlower, _, hupper, _, htolerance, _, helapsed, ?_⟩
    rw [← houtcome, ← hlabel, ← hdecided]
    rfl

theorem ReadsAs.agrees (h : r.ReadsAs q) :
    r.toFinding.Agrees q.toFinding where
  outcome := h.outcome
  label := h.label
  decidedBy := h.decidedBy
  verdicts := by
    have hverdicts := h.verdicts
    generalize q.verdicts = ws at hverdicts ⊢
    generalize r.verdicts = vs at hverdicts ⊢
    induction hverdicts with
    | nil => rfl
    | cons hv _ ih => rw [List.map_cons, List.map_cons, hv.1, hv.2, ih]
  outputLower := h.outputLower.length_eq.symm
  outputUpper := h.outputUpper.length_eq.symm

/-- Only the ends decide whether a report can be read. -/
theorem exists_readsAs_iff (htolerance : r.tolerance.isFinite = true)
    (helapsed : r.elapsed.isFinite = true) :
    (∃ q, r.ReadsAs q) ↔ r.toFinding.Bounded := by
  constructor
  · rintro ⟨q, hq⟩
    refine ⟨fun x hx => ?_, fun x hx => ?_, fun v hv => ?_⟩
    · exact Binary64.exists_readsAs_iff.1
        (Json.exists_forall₂_iff.1 ⟨_, hq.outputLower⟩ x hx)
    · exact Binary64.exists_readsAs_iff.1
        (Json.exists_forall₂_iff.1 ⟨_, hq.outputUpper⟩ x hx)
    · exact DisjunctVerdict.exists_readsAs_iff.1
        (Json.exists_forall₂_iff.1 ⟨_, hq.verdicts⟩ v hv)
  · rintro ⟨hlower, hupper, hverdicts⟩
    obtain ⟨lower, hlower⟩ := Json.exists_forall₂_iff.2 fun x hx =>
      Binary64.exists_readsAs_iff.2 (hlower x hx)
    obtain ⟨upper, hupper⟩ := Json.exists_forall₂_iff.2 fun x hx =>
      Binary64.exists_readsAs_iff.2 (hupper x hx)
    obtain ⟨verdicts, hverdicts⟩ := Json.exists_forall₂_iff.2 fun v hv =>
      DisjunctVerdict.exists_readsAs_iff.2 (hverdicts v hv)
    obtain ⟨tolerance, htolerance⟩ :=
      Binary64.exists_readsAs_iff.2 htolerance
    obtain ⟨elapsed, helapsed⟩ := Binary64.exists_readsAs_iff.2 helapsed
    exact ⟨⟨⟨r.outcome, r.label, verdicts, lower, upper, r.decidedBy,
      tolerance⟩, elapsed⟩, rfl, rfl, hverdicts, hlower, hupper, rfl,
      htolerance, helapsed⟩

theorem read?_iff {text : List Char} (h : ∀ i ∈ r.classes, i ≤ indexBound)
    (htext : r.toJson.WrittenAs text) :
    (Json.read? text).bind ofJson? = some q ↔ r.ReadsAs q := by
  rw [htext.read? (spelled_toJson r), Option.bind_some,
    ofJson?_toJson_iff h]

end Report

/-! ## Reports of runs -/

namespace Settings

variable {s : Settings} {layer : Layer} {property : Property}
  {finding : Finding}

/-- A run names only classes that there are. -/
theorem classes_lt_of_certify (h : s.certify layer property = .ok finding) :
    ∀ i ∈ finding.classes, i < max layer.outputs 2 := by
  obtain ⟨box, decision, hstages, rfl⟩ := certify_eq_ok_iff.1 h
  have himage := hstages.proper_image
  have hlabel := hstages.label
  rw [← layer.dim_image box] at hlabel ⊢
  have hclass : property.label < max (layer.image box).dim 2 := by
    have hlt := (checkLabel_eq_ok.1 hlabel).2
    unfold classCount at hlt
    split at hlt <;> omega
  simp only [Finding.classes, findingOf, List.forall_mem_append,
    List.forall_mem_cons, List.forall_mem_map]
  rcases Box.decide_cases hstages.decide with
    ⟨simple, hsimple, rfl, -⟩ | ⟨verdicts, hfull, rfl, -⟩
  · exact ⟨⟨hclass, Outcome.classes_lt_of_wellFormed
      (Box.wellFormed_checkSimple himage hlabel hsimple)⟩, nofun⟩
  · have hpairwise := Box.verdicts_pairwise himage.toAccepted hlabel hfull
    have hcompeting : ∀ v ∈ verdicts, v.competitor <
        max (layer.image box).dim 2 ∧ v.competitor ≠ property.label :=
      fun v hv => (Box.mem_verdicts_iff himage.toAccepted hlabel hfull _).1
        (List.mem_map_of_mem hv)
    exact ⟨⟨hclass, Outcome.classes_lt_of_wellFormed
      (wellFormed_aggregate hpairwise hcompeting)⟩,
      fun v hv => (hcompeting v hv).1⟩

/-- The report of a run can be read exactly if its ends are finite, and what is
read gives the same answer. -/
theorem report_read_iff_bounded (h : s.certify layer property = .ok finding)
    (hsize : layer.outputs ≤ 2 ^ 64) {elapsed : Binary64}
    (helapsed : elapsed.isFinite = true) {text : List Char}
    (htext : (Report.toJson ⟨finding, elapsed⟩).WrittenAs text) :
    (((Json.read? text).bind Report.ofJson?).isSome = true ↔
      finding.Bounded) ∧
    ∀ r, (Json.read? text).bind Report.ofJson? = some r →
      finding.Agrees r.toFinding := by
  have htolerance : finding.tolerance.isFinite = true := by
    obtain ⟨box, decision, hstages, rfl⟩ := certify_eq_ok_iff.1 h
    exact hstages.tolerance.1
  have hclasses : ∀ i ∈ finding.classes, i ≤ indexBound := by
    intro i hi
    have := classes_lt_of_certify h i hi
    rw [indexBound]
    omega
  have hread := fun r => Report.read?_iff (q := r) hclasses htext
  refine ⟨?_, fun r hr => ((hread r).1 hr).agrees⟩
  rw [Option.isSome_iff_exists, exists_congr hread]
  exact Report.exists_readsAs_iff htolerance helapsed

/-- A run on three equal scores; its report reads back from either layout. -/
theorem report_read_iff_bounded_level :
    ∃ finding r q,
      ({ tolerance := some 0, mode := .full } : Settings).certify level
        ⟨[1], [1], 1⟩ = .ok finding ∧
      (Json.read? (Report.toJson ⟨finding, 1⟩).compact).bind Report.ofJson? =
        some r ∧
      (Json.read? ((Report.toJson ⟨finding, 1⟩).indented 0)).bind
        Report.ofJson? = some q ∧
      r.outcome = .notRobust 0 ∧ q.outcome = .notRobust 0 ∧
      r.verdicts.map (fun v => (v.competitor, v.verdict)) =
        [(0, .yes), (2, .yes)] := by
  obtain ⟨finding, hrun, hfinding⟩ := exists_ok_of_toOption
    (show (({ tolerance := some 0, mode := .full } : Settings).certify level
      ⟨[1], [1], 1⟩).toOption.map (fun f => (f.outcome,
        f.verdicts.map fun v => (v.competitor, v.verdict), decide f.Bounded)) =
        some (.notRobust 0, [(0, .yes), (2, .yes)], true) by decide +kernel)
  obtain ⟨houtcome, hfinding⟩ := Prod.mk.inj hfinding
  obtain ⟨hverdicts, hbounded⟩ := Prod.mk.inj hfinding
  have hone : (1 : Binary64).isFinite = true := rfl
  obtain ⟨hcompact, hr⟩ := report_read_iff_bounded hrun (by decide) hone
    (.inl rfl)
  obtain ⟨hindented, hq⟩ := report_read_iff_bounded hrun (by decide) hone
    (.inr ⟨0, rfl⟩)
  obtain ⟨r, hread⟩ := Option.isSome_iff_exists.1
    (hcompact.2 (of_decide_eq_true hbounded))
  obtain ⟨q, hreadq⟩ := Option.isSome_iff_exists.1
    (hindented.2 (of_decide_eq_true hbounded))
  have hagrees := hr r hread
  refine ⟨finding, r, q, hrun, hread, hreadq,
    hagrees.outcome.trans houtcome, (hq q hreadq).outcome.trans houtcome,
    hagrees.verdicts.trans hverdicts⟩

/-- Two scores that double and treble the only input. -/
def steep : Layer where
  weightPoints := .column [2.0, 3.0]
  biasPoints := [0, 0]
  tolerance := 0
  order := .byRow
  isTolerance_tolerance := isTolerance_zero
  nonempty := by decide
  length_biasPoints := by decide
  finite := by decide +kernel

/-- Where both scores leave the range, the run ends undecided, and its report
cannot be read from any text that it is written as. -/
theorem report_lost_by_overflow :
    ∃ finding, ({ tolerance := some 0 } : Settings).certify steep
        ⟨[-1e308], [-1e308], 0⟩ = .ok finding ∧
      finding.outcome = .unresolved [1] ∧
      finding.outputLower = [.negInfinity, .negInfinity] ∧
      ∀ text, (Report.toJson ⟨finding, 0⟩).WrittenAs text →
        (Json.read? text).bind Report.ofJson? = none := by
  obtain ⟨finding, hrun, hfinding⟩ := exists_ok_of_toOption
    (show (({ tolerance := some 0 } : Settings).certify steep
      ⟨[-1e308], [-1e308], 0⟩).toOption.map
        (fun f => (f.outcome, f.outputLower)) =
        some (.unresolved [1], [.negInfinity, .negInfinity]) by decide +kernel)
  obtain ⟨houtcome, hlower⟩ := Prod.mk.inj hfinding
  refine ⟨finding, hrun, houtcome, hlower, fun text htext => ?_⟩
  have hclasses : ∀ i ∈ (⟨finding, 0⟩ : Report).classes, i ≤ indexBound :=
    fun i hi => (classes_lt_of_certify hrun i hi).le.trans (by decide)
  rw [Option.eq_none_iff_forall_ne_some]
  intro r hr
  have hreads := (Report.read?_iff hclasses htext).1 hr
  have hinfinite := Binary64.exists_readsAs_iff.1
    (Json.exists_forall₂_iff.1 ⟨_, hreads.outputLower⟩ .negInfinity
      (hlower ▸ List.mem_cons_self))
  cases hinfinite

end Settings

end BoxCert
