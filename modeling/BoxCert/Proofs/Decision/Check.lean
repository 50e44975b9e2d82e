import BoxCert.Certification
import BoxCert.Proofs.Checked
import BoxCert.Proofs.Interval.Matrix

/-!
# What a decision says about the box

Both checks never fail on an accepted box and a label that is a class, and
what they answer is a statement about the ends of the box. The simple check
answers robust if and only if the box separates the label: each competitor's
highest score lies below the label's lowest one. The full check bounds leads
by directed sums, and its answers are read back through the sign of those
sums, which holds spilled or not.
-/

namespace BoxCert

open Binary64 BoxCert.Interval

/-! ## Comparisons of the classification -/

section Classify

variable {lower upper threshold : Binary64}

theorem classify_nonStrict_no
    (h : classify .nonStrict lower upper threshold = .no) :
    threshold < lower := by
  unfold classify at h
  split at h
  · cases h
  · dsimp only at h
    split at h
    · assumption
    · split at h <;> cases h

theorem classify_nonStrict_yes
    (h : classify .nonStrict lower upper threshold = .yes)
    (ht : threshold.isNan = false) : upper ≤ threshold := by
  unfold classify at h
  split at h
  · cases h
  · next hnan =>
      dsimp only at h
      split at h
      · cases h
      · split at h
        · cases h
        · next hlt =>
            have hupper : upper.isNan = false := by
              rw [Bool.or_eq_true, not_or] at hnan
              simpa using hnan.2
            exact (not_below_iff hupper ht).1 hlt

theorem classify_strict_no (h : classify .strict lower upper threshold = .no) :
    threshold ≤ lower := by
  unfold classify at h
  split at h
  · cases h
  · dsimp only at h
    split at h
    · assumption
    · split at h <;> cases h

theorem classify_strict_yes
    (h : classify .strict lower upper threshold = .yes) :
    upper < threshold := by
  unfold classify at h
  split at h
  · cases h
  · dsimp only at h
    split at h
    · cases h
    · split at h
      · assumption
      · cases h

end Classify

/-! ## Aggregation -/

theorem aggregate_eq_robust {verdicts : List DisjunctVerdict} :
    aggregate verdicts = .robust ↔ ∀ v ∈ verdicts, v.verdict = .no := by
  unfold aggregate
  split
  · next v hfind =>
      refine iff_of_false (by simp) fun hall => ?_
      have hv := List.find?_some hfind
      rw [hall v (List.mem_of_find?_eq_some hfind)] at hv
      cases hv
  · next hfind =>
      have hyes : ∀ v ∈ verdicts, v.verdict ≠ .yes := by
        simpa using List.find?_eq_none.1 hfind
      dsimp only
      split
      · next hempty =>
          refine iff_of_true rfl fun v hv => ?_
          rw [List.isEmpty_iff, List.filter_eq_nil_iff] at hempty
          have hmaybe := hempty v hv
          have := hyes v hv
          cases hverdict : v.verdict with
          | no => rfl
          | yes => exact absurd hverdict this
          | maybe => rw [hverdict] at hmaybe; exact absurd rfl hmaybe
      · next hempty =>
          refine iff_of_false (by simp) fun hall => hempty ?_
          rw [List.isEmpty_iff, List.filter_eq_nil_iff]
          intro v hv
          rw [hall v hv]
          exact Bool.false_ne_true

theorem aggregate_eq_notRobust_iff {verdicts : List DisjunctVerdict} {i : Nat} :
    aggregate verdicts = .notRobust i ↔
      ∃ v, verdicts.find? (·.verdict == .yes) = some v ∧ v.competitor = i := by
  unfold aggregate
  split
  · next v hfind => simp [hfind]
  · next hfind =>
      refine iff_of_false (fun h => ?_) (by simp [hfind])
      dsimp only at h
      split at h <;> cases h

theorem aggregate_eq_unresolved_iff {verdicts : List DisjunctVerdict}
    {undecided : List Nat} :
    aggregate verdicts = .unresolved undecided ↔
      (∀ v ∈ verdicts, v.verdict ≠ .yes) ∧
      (∃ v ∈ verdicts, v.verdict = .maybe) ∧
      undecided =
        (verdicts.filter (·.verdict == .maybe)).map (·.competitor) := by
  have hsome : (verdicts.filter (·.verdict == .maybe)).isEmpty = false ↔
      ∃ v ∈ verdicts, v.verdict = .maybe := by
    simp
  have hnone : verdicts.find? (·.verdict == .yes) = none ↔
      ∀ v ∈ verdicts, v.verdict ≠ .yes := by
    simp
  rw [← hsome, ← hnone, aggregate]
  split
  · next v hfind => simp [hfind]
  · next hfind =>
      dsimp only
      split
      · next hempty => simp [hempty]
      · next hempty => simp [hfind, hempty, eq_comm]

theorem exists_of_aggregate_eq_notRobust {verdicts : List DisjunctVerdict}
    {i : Nat} (h : aggregate verdicts = .notRobust i) :
    ∃ v ∈ verdicts, v.verdict = .yes ∧ v.competitor = i := by
  obtain ⟨v, hfind, hv⟩ := aggregate_eq_notRobust_iff.1 h
  have hyes := List.find?_some hfind
  exact ⟨v, List.mem_of_find?_eq_some hfind, eq_of_beq hyes, hv⟩

theorem verdict_of_aggregate {verdicts : List DisjunctVerdict} {v : Verdict}
    (hv : verdicts.map (·.verdict) = [v]) :
    (aggregate verdicts = .robust → v = .no) ∧
      (∀ i, aggregate verdicts = .notRobust i → v = .yes) := by
  have hall : ∀ d ∈ verdicts, d.verdict = v := fun d hd =>
    List.mem_singleton.1 (hv ▸ List.mem_map_of_mem hd)
  have hmem : v ∈ verdicts.map (·.verdict) := hv ▸ List.mem_singleton_self v
  obtain ⟨d, hd, hdv⟩ := List.mem_map.1 hmem
  refine ⟨fun h => hdv ▸ aggregate_eq_robust.1 h d hd, fun i h => ?_⟩
  obtain ⟨d, hd, hyes, -⟩ := exists_of_aggregate_eq_notRobust h
  rw [← hall d hd, hyes]

/-- Which of the outcomes of the two checks a mode reports. -/
def DecisionMode.select (mode : DecisionMode) (simple full : Outcome) :
    Outcome :=
  match mode with
  | .simple => simple
  | .full => full
  | .auto => if simple.isDecided then simple else full

theorem DecisionMode.select_eq_or (mode : DecisionMode)
    (simple full : Outcome) :
    mode.select simple full = simple ∨ mode.select simple full = full := by
  cases mode with
  | simple => exact .inl rfl
  | full => exact .inr rfl
  | auto =>
      rw [select]
      split
      · exact .inl rfl
      · exact .inr rfl

/-! ## Labels and rows of signs -/

theorem checkLabel_eq_ok {outputs label : Nat} :
    checkLabel outputs label = .ok () ↔
      outputs ≠ 0 ∧ label < classCount outputs := by
  unfold checkLabel
  split
  · next h => exact iff_of_false (by simp) (by omega)
  · next h => exact iff_of_true rfl (by omega)

theorem checkLabel_of_lt {outputs label : Nat} (hone : outputs ≠ 1)
    (h : label < outputs) : checkLabel outputs label = .ok () :=
  checkLabel_eq_ok.2 ⟨Nat.ne_zero_of_lt h, by rwa [classCount, if_neg hone]⟩

namespace Disjunction

/-- The row of signs of one disjunct. -/
def form (outputs label competitor : Nat) : List Interval :=
  if outputs = 1 then [.point (if label = 1 then 1 else -1)]
  else leadRow outputs label competitor

/-- When the lead of a label counts as lost. -/
def comparisonOf (outputs label : Nat) : Comparison :=
  if outputs = 1 ∧ label = 1 then .strict else .nonStrict

theorem length_form (outputs label competitor : Nat) :
    (form outputs label competitor).length = outputs := by
  unfold form
  split
  · next hone => exact hone.symm
  · rw [leadRow, List.length_map, List.length_range]

theorem rows_leadMatrix (outputs label : Nat) :
    (leadMatrix outputs label).rowList =
      ((List.range outputs).filter (· != label)).map
        (leadRow outputs label) := by
  have hlines : ∀ xs ∈ ((List.range outputs).filter (· != label)).map
      (leadRow outputs label), xs.length = outputs := by
    intro xs hxs
    obtain ⟨i, -, rfl⟩ := List.mem_map.1 hxs
    rw [leadRow, List.length_map, List.length_range]
  have hgrid : leadMatrix outputs label =
      ⟨_, _, _, Grid.length_flatten_of_forall hlines⟩ :=
    Grid.ext (List.length_map _).symm rfl rfl
  exact (congrArg Grid.rowList hgrid).trans (Grid.rowList_flatten hlines)

/-- A label that is a class has its disjunction: the competitors of the label,
each with its row of signs at its own place. -/
theorem ofLabel_eq_ok {outputs label : Nat}
    (h : checkLabel outputs label = .ok ()) :
    ∃ d, ofLabel outputs label = .ok d ∧
      d.comparison = comparisonOf outputs label ∧
      d.competitors = BoxCert.competitors outputs label ∧
      ∀ i competitor, d.competitors[i]? = some competitor →
        d.row i = .ok (Grid.singleRow (form outputs label competitor)) := by
  rw [ofLabel, signMatrix, h]
  obtain ⟨-, hlabel⟩ := checkLabel_eq_ok.1 h
  by_cases hone : outputs = 1
  · subst hone
    refine ⟨_, rfl, rfl, rfl, fun i competitor hi => ?_⟩
    have hclass : label = 0 ∨ label = 1 := by
      have : label < 2 := hlabel
      omega
    -- There is one competitor, so only the first place is taken.
    cases i with
    | zero => rcases hclass with rfl | rfl <;> rfl
    | succ i => rcases hclass with rfl | rfl <;> cases hi
  · refine ⟨⟨leadMatrix outputs label, BoxCert.competitors outputs label,
      comparisonOf outputs label⟩, ?_, rfl, rfl, fun i competitor hi => ?_⟩
    · show (if outputs = 1 then _ else _ : Checked IntervalMatrix) >>= _ = _
      rw [if_neg hone]
      rfl
    · change (BoxCert.competitors outputs label)[i]? = some competitor at hi
      rw [BoxCert.competitors, classCount, if_neg hone] at hi
      have hrow : (leadMatrix outputs label).rowList[i]? =
          some (leadRow outputs label competitor) := by
        rw [rows_leadMatrix, List.getElem?_map, hi]
        rfl
      have hlt : i < (leadMatrix outputs label).rows :=
        (List.getElem?_eq_some_iff.1 hi).1
      rw [Grid.getElem?_rowList hlt, Option.some.injEq] at hrow
      rw [row, Grid.row?, if_pos hlt]
      dsimp only
      rw [hrow, form, if_neg hone]

end Disjunction

namespace Box

variable {b : Box} {label : Nat} {threshold : Binary64}

/-! ## The full check -/

theorem signedDot_singleRow {row : List Interval} {first second : IntervalMatrix}
    (hfirst : first.isColumn = true) (hsecond : second.isColumn = true)
    (hrows : row.length = first.rows) (hrows' : row.length = second.rows) :
    signedDot (Grid.singleRow row) first second =
      .ok (splitDot row first.cells second.cells) := by
  rw [signedDot, IntervalMatrix.product_of_isColumn
      (a := IntervalMatrix.positivePart (Grid.singleRow row))
      hrows hfirst,
    IntervalMatrix.product_of_isColumn
      (a := IntervalMatrix.negativePart (Grid.singleRow row))
      hrows' hsecond,
    IntervalMatrix.rowList_positivePart, IntervalMatrix.rowList_negativePart,
    Grid.rowList_singleRow]
  dsimp only [bind, Except.bind]
  rw [IntervalMatrix.sumAll_two]
  · rfl
  · rfl

def verdictOn (b : Box) (label : Nat) (threshold : Binary64)
    (competitor : Nat) : DisjunctVerdict :=
  let row := Disjunction.form b.dim label competitor
  let lowest := splitDot row b.lower.cells b.upper.cells
  let highest := splitDot row b.upper.cells b.lower.cells
  ⟨competitor, classify (Disjunction.comparisonOf b.dim label) lowest.inf
    highest.sup threshold, lowest.inf, highest.sup⟩

/-- The full check answers on every competitor of a class. -/
theorem checkFull_eq_ok (hbox : b.Accepted)
    (hlabel : checkLabel b.dim label = .ok ()) (threshold : Binary64) :
    b.checkFull label threshold =
      .ok ((competitors b.dim label).map (b.verdictOn label threshold)) := by
  obtain ⟨d, hd, hcomparison, hcompetitors, hrow⟩ :=
    Disjunction.ofLabel_eq_ok hlabel
  have hone : ∀ pair ∈ d.competitors.zipIdx,
      (d.row pair.2 >>= b.checkDisjunct d.comparison threshold pair.1) =
        .ok (b.verdictOn label threshold pair.1) := by
    intro pair hpair
    rw [hrow _ _ (List.mem_zipIdx_iff_getElem?.1 hpair)]
    have hlower := Disjunction.length_form b.dim label pair.1
    have hupper := hlower.trans hbox.rows_eq
    show b.checkDisjunct d.comparison threshold pair.1 _ = _
    rw [checkDisjunct, minOf, maxOf, signedDot_singleRow hbox.lower_isColumn
      hbox.upper_isColumn hlower hupper, signedDot_singleRow
      hbox.upper_isColumn hbox.lower_isColumn hupper hlower, hcomparison]
    rfl
  rw [checkFull, hd]
  show d.competitors.zipIdx.mapM _ = _
  rw [mapM_eq_pure hone, ← hcompetitors]
  show Except.ok (d.competitors.zipIdx.map
    (b.verdictOn label threshold ∘ Prod.fst)) = _
  rw [← List.map_map, List.zipIdx_map_fst]

/-! ## The simple check -/

/-- Whether the label's lowest score is above each competitor's highest
one. -/
def Separates (b : Box) (label : Nat) : Prop :=
  ∀ own, b.lower.cells[label]? = some own → ∀ i rival, i ≠ label →
    b.upper.cells[i]? = some rival → rival.sup < own.inf

theorem maxUpperExcluding_lt_iff {a : IntervalMatrix} {skip : Nat}
    {x : Binary64} (ha : a.isColumn = true)
    (hcells : ∀ c ∈ a.cells, c.sup.isNan = false) :
    a.maxUpperExcluding skip < x ↔ negInfinity < x ∧
      ∀ i c, i ≠ skip → a.cells[i]? = some c → c.sup < x := by
  have hrows : (a.rowList.eraseIdx skip).flatten = a.cells.eraseIdx skip := by
    rw [Grid.rowList_of_isColumn ha, List.eraseIdx_map, ← List.flatMap_def,
      List.flatMap_singleton']
  have hnan : ∀ e ∈ (a.cells.eraseIdx skip).map Interval.sup,
      e.isNan = false := by
    intro e he
    obtain ⟨c, hc, rfl⟩ := List.mem_map.1 he
    exact hcells c (List.mem_of_mem_eraseIdx hc)
  rw [IntervalMatrix.maxUpperExcluding, hrows, IntervalMatrix.greatestOf,
    lt_iff, isNan_unsignedZero, toEReal_unsignedZero, ← lt_iff,
    foldl_max_lt_iff rfl hnan, List.forall_mem_map]
  refine and_congr_right fun _ => ?_
  simp only [List.mem_eraseIdx_iff_getElem?]
  exact ⟨fun h i c hi hc => h c ⟨i, hi, hc⟩,
    fun h c ⟨i, hi, hc⟩ => h i c hi hc⟩

theorem exists_competitor (hbox : b.Accepted) (hpos : b.dim ≠ 0)
    (hone : b.dim ≠ 1) (label : Nat) :
    ∃ i rival, i ≠ label ∧ b.upper.cells[i]? = some rival := by
  have hlength := hbox.length_upper
  rcases Nat.eq_zero_or_pos label with rfl | hlabel
  · exact ⟨1, _, Nat.one_ne_zero, List.getElem?_eq_getElem (by omega)⟩
  · exact ⟨0, _, hlabel.ne, List.getElem?_eq_getElem (by omega)⟩

theorem maxUpperExcluding_lt_iff_separates (hbox : b.Proper)
    (hpos : b.dim ≠ 0) (hone : b.dim ≠ 1) {own : Interval}
    (hown : b.lower.cells[label]? = some own) :
    b.upper.maxUpperExcluding label < own.inf ↔ b.Separates label := by
  have hnan : ∀ c ∈ b.upper.cells, c.sup.isNan = false := fun c hc =>
    (isNan_of_le (hbox.upper_proper c hc)).2
  rw [maxUpperExcluding_lt_iff hbox.upper_isColumn hnan]
  constructor
  · rintro ⟨-, hlt⟩ own' hown'
    cases hown.symm.trans hown'
    exact hlt
  · intro h
    obtain ⟨i, rival, hi, hrival⟩ :=
      exists_competitor hbox.toAccepted hpos hone label
    have hlt := h own hown i rival hi hrival
    refine ⟨lt_iff.2 ⟨rfl, (lt_iff.1 hlt).2.1, ?_⟩, h own hown⟩
    exact bot_le.trans_lt (lt_iff.1 hlt).2.2

theorem checkSimple_eq (hbox : b.Accepted)
    (hlabel : checkLabel b.dim label = .ok ()) (hone : b.dim ≠ 1)
    {own : Interval} (hown : b.lower.cells[label]? = some own) :
    b.checkSimple label =
      .ok (if b.upper.maxUpperExcluding label < own.inf then .robust
        else .unresolved ((b.upperEnds.zipIdx.filter fun rival =>
          rival.2 != label && Decidable.decide (own.inf ≤ rival.1)).map
            (·.2))) := by
  rw [checkSimple, hlabel, if_neg hone,
    Grid.cell?_of_isColumn hbox.lower_isColumn, hown]
  show (if _ then _ else _ : Checked Outcome) = _
  split
  · rfl
  · rfl

/-- The simple check answers on every class. It finds nothing lost; it leaves
a single score open, and otherwise calls the label robust if and only if the
box separates it. -/
theorem checkSimple_eq_ok (hbox : b.Proper)
    (hlabel : checkLabel b.dim label = .ok ()) :
    ∃ outcome, b.checkSimple label = .ok outcome ∧
      (∀ i, outcome ≠ .notRobust i) ∧
      (b.dim = 1 → outcome.isDecided = false) ∧
      (b.dim ≠ 1 → (outcome = .robust ↔ b.Separates label)) := by
  by_cases hone : b.dim = 1
  · refine ⟨.unresolved [1 - label], ?_, by simp, fun _ => rfl, absurd hone⟩
    rw [checkSimple, hlabel, if_pos hone]
    rfl
  · obtain ⟨hpos, hclass⟩ := checkLabel_eq_ok.1 hlabel
    rw [classCount, if_neg hone, ← hbox.length_lower] at hclass
    have hown := List.getElem?_eq_getElem hclass
    rw [checkSimple_eq hbox.toAccepted hlabel hone hown,
      ← maxUpperExcluding_lt_iff_separates hbox hpos hone hown]
    refine ⟨_, rfl, ?_⟩
    split
    · next h => exact ⟨by simp, fun h => absurd h hone, fun _ => by simp [h]⟩
    · next h => exact ⟨by simp, fun h => absurd h hone, fun _ => by simp [h]⟩

/-! ## The modes -/

def fullOutcome (b : Box) (label : Nat) (threshold : Binary64) : Outcome :=
  aggregate ((competitors b.dim label).map (b.verdictOn label threshold))

theorem decideFull_eq_ok (hbox : b.Accepted)
    (hlabel : checkLabel b.dim label = .ok ()) (threshold : Binary64) :
    ∃ d, b.decideFull label threshold = .ok d ∧
      d.outcome = b.fullOutcome label threshold := by
  rw [decideFull, checkFull_eq_ok hbox hlabel threshold]
  exact ⟨_, rfl, rfl⟩

/-- Every mode decides, and selects from the same two outcomes. -/
theorem decide_eq_ok (hbox : b.Proper)
    (hlabel : checkLabel b.dim label = .ok ()) (threshold : Binary64) :
    ∃ simple, (∀ i, simple ≠ .notRobust i) ∧
      (b.dim = 1 → simple.isDecided = false) ∧
      (b.dim ≠ 1 → (simple = .robust ↔ b.Separates label)) ∧
      ∀ mode, ∃ d, b.decide mode label threshold = .ok d ∧
        d.outcome = mode.select simple (b.fullOutcome label threshold) := by
  obtain ⟨simple, hsimple, hlost, hsingle, hwide⟩ :=
    checkSimple_eq_ok hbox hlabel
  obtain ⟨full, hfull, houtcome⟩ :=
    decideFull_eq_ok hbox.toAccepted hlabel threshold
  refine ⟨simple, hlost, hsingle, hwide, fun mode => ?_⟩
  cases mode with
  | simple =>
      rw [decide, hsimple]
      exact ⟨_, rfl, rfl⟩
  | full => exact ⟨full, hfull, houtcome⟩
  | auto =>
      rw [decide, hsimple, DecisionMode.select]
      dsimp only [bind, Except.bind]
      split
      · exact ⟨_, rfl, rfl⟩
      · exact ⟨full, hfull, houtcome⟩

/-- A decision comes from one check or the other. The full check decides alone
where a mode asks for it, or where the simple one leaves the label open. -/
theorem decide_cases {mode : DecisionMode} {d : Decision}
    (h : b.decide mode label threshold = .ok d) :
    (∃ simple, b.checkSimple label = .ok simple ∧ d = ⟨simple, [], .simple⟩ ∧
      (mode = .simple ∨ simple.isDecided = true)) ∨
    (∃ verdicts, b.checkFull label threshold = .ok verdicts ∧
      d = ⟨aggregate verdicts, verdicts, .full⟩ ∧ mode ≠ .simple) := by
  have hfull : ∀ d, b.decideFull label threshold = .ok d →
      ∃ verdicts, b.checkFull label threshold = .ok verdicts ∧
        d = ⟨aggregate verdicts, verdicts, .full⟩ := by
    intro d hd
    obtain ⟨verdicts, hverdicts, hd⟩ := bind_eq_ok.1 hd
    cases hd
    exact ⟨verdicts, hverdicts, rfl⟩
  cases mode with
  | simple =>
      obtain ⟨simple, hsimple, h⟩ := bind_eq_ok.1 h
      cases h
      exact .inl ⟨simple, hsimple, rfl, .inl rfl⟩
  | full =>
      obtain ⟨verdicts, hverdicts, rfl⟩ := hfull d h
      exact .inr ⟨verdicts, hverdicts, rfl, nofun⟩
  | auto =>
      obtain ⟨simple, hsimple, h⟩ := bind_eq_ok.1 h
      split at h
      · next hdecided =>
          cases h
          exact .inl ⟨simple, hsimple, rfl, .inr hdecided⟩
      · obtain ⟨verdicts, hverdicts, rfl⟩ := hfull d h
        exact .inr ⟨verdicts, hverdicts, rfl, nofun⟩

end Box

end BoxCert
