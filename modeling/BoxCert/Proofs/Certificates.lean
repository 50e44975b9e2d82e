import BoxCert.Proofs.Certification

/-!
# What an outcome promises about the exact scores

A robust outcome promises that the label wins at every real point between the
corners, and a lost one that the competitor is ahead everywhere, by the
tolerance even. Both rest on the output box enclosing the exact scores, so
both hold in every run in which no addition of propagation spills.

That condition is needed. A sum with the largest number as its second operand
can come out too high, and a cancellation after it leaves a lower bound above
the exact score.
-/

namespace BoxCert.Settings

open Binary64 BoxCert.Interval

variable {s : Settings} {weight : Grid Binary64} {bias : List Binary64}
  {order : StorageOrder} {layer : Layer} {property : Property} {box : Box}
  {decision : Decision} {finding : Finding}

namespace Stages

variable {x : Fin layer.inputs → ℝ}

theorem encloses_score (h : s.Stages layer property box decision)
    (hspill : SpillFree (layer.additions box)) (hx : property.Covers x)
    {d : Fin layer.outputs → ℝ} (hd : ∀ i, |d i| ≤ layer.tolerance.toReal) :
    (layer.image box).Encloses fun i =>
      score layer.weightPoints layer.biasPoints x i + d i := by
  obtain ⟨hbox, -, hcovers⟩ := inputBox_eq_ok h.check h.input
  exact Layer.image_encloses_score hbox h.dim hspill (hcovers x hx) hd

theorem score_lt_of_robust (h : s.Stages layer property box decision)
    (hspill : SpillFree (layer.additions box)) (hx : property.Covers x)
    (hrobust : decision.outcome = .robust) (hone : layer.outputs ≠ 1) {i : Nat}
    (hi : i < layer.outputs) (hne : i ≠ property.label) :
    score layer.weightPoints layer.biasPoints x i <
      score layer.weightPoints layer.biasPoints x property.label := by
  have hlabel := (checkLabel_eq_ok.1 h.label).2
  rw [classCount, if_neg hone] at hlabel
  have hcovers := h.encloses_score hspill hx (d := fun _ => 0)
    fun _ => by rw [abs_zero]; exact layer.toReal_tolerance_nonneg
  have hdim := layer.dim_image box
  obtain ⟨l, hl⟩ :=
    h.proper_image.exists_lower_iff.2 (hlabel.trans_eq hdim.symm)
  obtain ⟨u, hu⟩ := h.proper_image.exists_upper_iff.2 (hi.trans_eq hdim.symm)
  have hlt := (lt_iff.1 (h.separates_of_robust hone hrobust l hl i u hne hu)).2.2
  have hlow := hcovers.lower_le ⟨_, hlabel⟩ l hl
  have hhigh := hcovers.le_upper ⟨i, hi⟩ u hu
  rw [add_zero] at hlow hhigh
  exact EReal.coe_lt_coe_iff.1 (hhigh.trans_lt (hlt.trans_le hlow))

theorem sign_of_robust (h : s.Stages layer property box decision)
    (hspill : SpillFree (layer.additions box)) (hx : property.Covers x)
    (hrobust : decision.outcome = .robust) (hone : layer.outputs = 1) :
    (property.label = 1 →
      0 ≤ score layer.weightPoints layer.biasPoints x 0) ∧
    (property.label = 0 →
      score layer.weightPoints layer.biasPoints x 0 < 0) := by
  have hcovers := h.encloses_score hspill hx (d := fun _ => 0)
    fun _ => by rw [abs_zero]; exact layer.toReal_tolerance_nonneg
  have hpos : 0 < layer.outputs := hone ▸ Nat.one_pos
  obtain ⟨l, u, hl, hu⟩ := h.proper_image.exists_cells (by rwa [layer.dim_image])
  have hlow := hcovers.lower_le ⟨0, hpos⟩ l (by rw [hl]; rfl)
  have hhigh := hcovers.le_upper ⟨0, hpos⟩ u (by rw [hu]; rfl)
  rw [add_zero] at hlow hhigh
  obtain ⟨hclassOne, hclassZero⟩ := Box.ends_of_single_robust h.proper_image
    (by rw [layer.dim_image, hone]) hl hu (h.full_of_robust_single hone hrobust)
  have ht := h.tolerance.2
  constructor
  · intro hlabel
    exact EReal.coe_nonneg.1 (ht.trans ((hclassOne hlabel).trans hlow))
  · intro hlabel
    have hneg := ht.trans_lt (hclassZero hlabel)
    have hlt := hhigh.trans_lt (EReal.neg_pos.1 hneg)
    exact EReal.coe_neg'.1 hlt

/-- With two or more scores, the competitor a label is lost to is ahead of it
by the tolerance. The bias is taken at the top of its interval for the label
and at the bottom for the competitor: that is twice the tolerance, and the
threshold of the check takes one of them back. -/
theorem score_le_of_notRobust (h : s.Stages layer property box decision)
    (htolerance : layer.tolerance = s.effectiveTolerance)
    (hspill : SpillFree (layer.additions box)) (hx : property.Covers x) {i : Nat}
    (hlost : decision.outcome = .notRobust i) (hone : layer.outputs ≠ 1) :
    i < layer.outputs ∧ i ≠ property.label ∧
      score layer.weightPoints layer.biasPoints x property.label +
          s.effectiveTolerance.toReal ≤
        score layer.weightPoints layer.biasPoints x i := by
  have hlabel := (checkLabel_eq_ok.1 h.label).2
  rw [classCount, if_neg hone] at hlabel
  have hdim := layer.dim_image box
  obtain ⟨hfin, hpos⟩ := h.tolerance
  obtain ⟨hi, hne, u, l, hu, hl, hle⟩ := Box.exists_reached_of_verdicts
    h.proper_image (by rwa [hdim]) hfin hpos (by rwa [hdim])
    (h.full_of_notRobust hlost)
  rw [hdim] at hi
  have hshift : ∀ j : Fin layer.outputs,
      |(if j.val = property.label then s.effectiveTolerance.toReal
        else -s.effectiveTolerance.toReal)| ≤ layer.tolerance.toReal := by
    intro j
    have hnonneg := layer.toReal_tolerance_nonneg
    rw [htolerance] at hnonneg ⊢
    split
    · exact (abs_of_nonneg hnonneg).le
    · rw [abs_neg]
      exact (abs_of_nonneg hnonneg).le
  -- The map with the label's bias at the top and all others at the bottom is
  -- one of those that the layer stands for.
  have hcovers := h.encloses_score hspill hx hshift
  have hhigh := hcovers.le_upper ⟨_, hlabel⟩ u hu
  have hlow := hcovers.lower_le ⟨i, hi⟩ l hl
  rw [if_pos rfl] at hhigh
  rw [if_neg hne] at hlow
  refine ⟨hi, hne, ?_⟩
  rw [toEReal_of_isFinite hfin] at hle
  have hchain := hhigh.trans (hle.trans (add_le_add_left hlow _))
  rw [← EReal.coe_add, EReal.coe_le_coe_iff] at hchain
  linarith

theorem sign_of_notRobust (h : s.Stages layer property box decision)
    (htolerance : layer.tolerance = s.effectiveTolerance)
    (hspill : SpillFree (layer.additions box)) (hx : property.Covers x) {i : Nat}
    (hlost : decision.outcome = .notRobust i) (hone : layer.outputs = 1) :
    (property.label = 1 →
      score layer.weightPoints layer.biasPoints x 0 < 0) ∧
    (property.label = 0 →
      0 ≤ score layer.weightPoints layer.biasPoints x 0) := by
  have hpos : 0 < layer.outputs := hone ▸ Nat.one_pos
  have hnonneg := layer.toReal_tolerance_nonneg
  obtain ⟨hfin, -⟩ := h.tolerance
  obtain ⟨l, u, hl, hu⟩ := h.proper_image.exists_cells (by rwa [layer.dim_image])
  obtain ⟨hclassOne, hclassZero⟩ := Box.ends_of_single_notRobust h.proper_image
    (by rw [layer.dim_image, hone]) hl hu (isNan_of_isFinite hfin)
    (h.full_of_notRobust hlost)
  rw [toEReal_of_isFinite hfin, ← htolerance] at hclassOne hclassZero
  constructor
  · intro hlabel
    have hcovers := h.encloses_score hspill hx
      (d := fun _ => layer.tolerance.toReal)
      fun _ => (abs_of_nonneg hnonneg).le
    have hhigh := hcovers.le_upper ⟨0, hpos⟩ u (by rw [hu]; rfl)
    have hlt := EReal.coe_lt_coe_iff.1 (hhigh.trans_lt (hclassOne hlabel))
    linarith
  · intro hlabel
    have hcovers := h.encloses_score hspill hx
      (d := fun _ => -layer.tolerance.toReal)
      fun _ => by rw [abs_neg]; exact (abs_of_nonneg hnonneg).le
    have hlow := hcovers.lower_le ⟨0, hpos⟩ l (by rw [hl]; rfl)
    have hneg := EReal.neg_le_neg_iff.2 hlow
    have hle := hneg.trans (hclassZero hlabel)
    rw [← EReal.coe_neg, EReal.coe_le_coe_iff] at hle
    linarith

end Stages

/-! ## No false answers -/

/-- A robust outcome is never false in a run in which no addition of
propagation spills: at every real point between the corners the label's exact
score is above all others, or has the sign of its class if it is the only
one. -/
theorem label_wins_of_robust
    (hbuild : s.buildLayer weight bias order = .ok layer)
    (hcertify : s.certify layer property = .ok finding)
    (hrobust : finding.outcome = .robust)
    (hinput : s.inputBox property = .ok box)
    (hspill : SpillFree (layer.additions box)) {x : Fin weight.cols → ℝ}
    (hx : property.Covers x) :
    property.label < classCount weight.rows ∧
    (weight.rows ≠ 1 → ∀ i < weight.rows, i ≠ property.label →
      score weight bias x i < score weight bias x property.label) ∧
    (weight.rows = 1 →
      (property.label = 1 → 0 ≤ score weight bias x 0) ∧
      (property.label = 0 → score weight bias x 0 < 0)) := by
  obtain ⟨rfl, rfl, -⟩ := buildLayer_eq_ok hbuild
  obtain ⟨box', decision, hstages, rfl⟩ := certify_eq_ok_iff.1 hcertify
  cases hinput.symm.trans hstages.input
  refine ⟨(checkLabel_eq_ok.1 hstages.label).2, ?_, ?_⟩
  · intro hone i hi hne
    exact hstages.score_lt_of_robust hspill hx hrobust hone hi hne
  · intro hone
    exact hstages.sign_of_robust hspill hx hrobust hone

theorem label_wins_of_robust_sample :
    ∃ finding box,
      sampleSettings.buildLayer Layer.sample.weightPoints
        Layer.sample.biasPoints = .ok Layer.sample ∧
      sampleSettings.certify Layer.sample (sampleProperty 0) = .ok finding ∧
      finding.outcome = .robust ∧
      sampleSettings.inputBox (sampleProperty 0) = .ok box ∧
      SpillFree (Layer.sample.additions box) ∧
      score Layer.sample.weightPoints Layer.sample.biasPoints
          (fun _ => toReal 1) 1 <
        score Layer.sample.weightPoints Layer.sample.biasPoints
          (fun _ => toReal 1) 0 := by
  obtain ⟨finding, hcertify, hrobust⟩ := exists_ok_of_toOption
    (show (sampleSettings.certify Layer.sample (sampleProperty 0)).toOption.map
      (·.outcome) = some .robust by decide +kernel)
  obtain ⟨box, hinput, hspill⟩ := exists_ok_of_toOption
    (show (sampleSettings.inputBox (sampleProperty 0)).toOption.map
      (fun box => decide (SpillFree (Layer.sample.additions box))) = some true
      by decide +kernel)
  have hspill := of_decide_eq_true hspill
  have hwins := label_wins_of_robust sample_buildLayer hcertify hrobust hinput
    hspill (sampleProperty_covers 0 _)
  exact ⟨finding, box, sample_buildLayer, hcertify, hrobust, hinput, hspill,
    hwins.2.1 (by decide) 1 (by decide) (by decide)⟩

/-- A single score whose first sum spills and whose bias cancels it. -/
def cancelling : Layer where
  weightPoints := .singleRow [1, 1]
  biasPoints := [ofBits 0xFFEFFFFFFFFFFFFE]
  tolerance := 0
  order := .byRow
  isTolerance_tolerance := by decide
  nonempty := by decide
  length_biasPoints := by decide
  finite := by decide

/-- Minus three times `2 ^ 970`, and the largest number. -/
def cancellingCorner : List Binary64 :=
  [ofBits 0xFCA8000000000000, greatest false]

/-- Where an addition spills, a robust outcome can be false: at the only point
of this box the exact score is negative, yet class one is certified. -/
theorem false_certificate_of_spill :
    ∃ finding, ∃ x : Fin cancelling.weightPoints.cols → ℝ,
      ({ tolerance := some 0 } : Settings).buildLayer cancelling.weightPoints
        cancelling.biasPoints = .ok cancelling ∧
      ({ tolerance := some 0 } : Settings).certify cancelling
        ⟨cancellingCorner, cancellingCorner, 1⟩ = .ok finding ∧
      finding.outcome = .robust ∧
      Property.Covers ⟨cancellingCorner, cancellingCorner, 1⟩ x ∧
      score cancelling.weightPoints cancelling.biasPoints x 0 < 0 := by
  obtain ⟨finding, hcertify, hrobust⟩ := exists_ok_of_toOption
    (show (({ tolerance := some 0 } : Settings).certify cancelling
      ⟨cancellingCorner, cancellingCorner, 1⟩).toOption.map (·.outcome) =
        some .robust by decide +kernel)
  refine ⟨finding, fun k => (cancellingCorner[k.val]?).elim 0 toReal, rfl,
    hcertify, hrobust, ⟨fun k a ha => ?_, fun k a ha => ?_⟩, ?_⟩
  · dsimp only at ha
    rw [ha]
    exact le_rfl
  · dsimp only at ha
    rw [ha]
    exact le_rfl
  · -- The three summands, added up in units, are decided by evaluation.
    have hunits : (units? (ofBits 0xFCA8000000000000)).getD 0 +
        (units? (greatest false)).getD 0 +
        (units? (ofBits 0xFFEFFFFFFFFFFFFE)).getD 0 < 0 := by decide +kernel
    show ∑ k : Fin 2, _ + _ < (0 : ℝ)
    rw [Fin.sum_univ_two]
    show toReal 1 * toReal (ofBits 0xFCA8000000000000) +
      toReal 1 * toReal (greatest false) +
        toReal (ofBits 0xFFEFFFFFFFFFFFFE) < 0
    rw [toReal_one, one_mul, one_mul, toReal, toReal, toReal, ← add_mul,
      ← add_mul]
    exact mul_neg_of_neg_of_pos (by exact_mod_cast hunits) unit_pos

/-- A lost outcome is genuine on the whole box: at every real point between
the corners the competitor's exact score is ahead by the tolerance, or the
single score has the sign of the other class, in every run in which no
right-hand operand of an addition of propagation has a largest number as an
end. -/
theorem competitor_ahead_of_notRobust
    (hbuild : s.buildLayer weight bias order = .ok layer)
    (hcertify : s.certify layer property = .ok finding) {i : Nat}
    (hlost : finding.outcome = .notRobust i)
    (hinput : s.inputBox property = .ok box)
    (hlargest : ∀ pair ∈ layer.additions box,
      pair.2.inf.abs ≠ greatest false ∧ pair.2.sup.abs ≠ greatest false)
    {x : Fin weight.cols → ℝ} (hx : property.Covers x) :
    property.label < classCount weight.rows ∧
    (weight.rows ≠ 1 → i < weight.rows ∧ i ≠ property.label ∧
      score weight bias x property.label + s.effectiveTolerance.toReal ≤
        score weight bias x i) ∧
    (weight.rows = 1 →
      (property.label = 1 → score weight bias x 0 < 0) ∧
      (property.label = 0 → 0 ≤ score weight bias x 0)) := by
  have hspill := spillFree_of_ne_greatest hlargest
  obtain ⟨rfl, rfl, htolerance⟩ := buildLayer_eq_ok hbuild
  obtain ⟨box', decision, hstages, rfl⟩ := certify_eq_ok_iff.1 hcertify
  cases hinput.symm.trans hstages.input
  refine ⟨(checkLabel_eq_ok.1 hstages.label).2, ?_, ?_⟩
  · intro hone
    exact hstages.score_le_of_notRobust htolerance hspill hx hlost hone
  · intro hone
    exact hstages.sign_of_notRobust htolerance hspill hx hlost hone

theorem competitor_ahead_of_notRobust_sample :
    ∃ finding box,
      sampleSettings.buildLayer Layer.sample.weightPoints
        Layer.sample.biasPoints = .ok Layer.sample ∧
      sampleSettings.certify Layer.sample (sampleProperty 1) = .ok finding ∧
      finding.outcome = .notRobust 0 ∧
      sampleSettings.inputBox (sampleProperty 1) = .ok box ∧
      (∀ pair ∈ Layer.sample.additions box,
        pair.2.inf.abs ≠ greatest false ∧ pair.2.sup.abs ≠ greatest false) ∧
      score Layer.sample.weightPoints Layer.sample.biasPoints
          (fun _ => toReal 1) 1 + sampleSettings.effectiveTolerance.toReal ≤
        score Layer.sample.weightPoints Layer.sample.biasPoints
          (fun _ => toReal 1) 0 := by
  obtain ⟨finding, hcertify, hlost⟩ := exists_ok_of_toOption
    (show (sampleSettings.certify Layer.sample (sampleProperty 1)).toOption.map
      (·.outcome) = some (.notRobust 0) by decide +kernel)
  obtain ⟨box, hinput, hlargest⟩ := exists_ok_of_toOption
    (show (sampleSettings.inputBox (sampleProperty 1)).toOption.map
      (fun box => decide (∀ pair ∈ Layer.sample.additions box,
        pair.2.inf.abs ≠ greatest false ∧ pair.2.sup.abs ≠ greatest false)) =
        some true by decide +kernel)
  have hlargest := of_decide_eq_true hlargest
  have hahead := competitor_ahead_of_notRobust sample_buildLayer hcertify hlost
    hinput hlargest (sampleProperty_covers 1 _)
  exact ⟨finding, box, sample_buildLayer, hcertify, hlost, hinput, hlargest,
    (hahead.2.1 (by decide)).2.2⟩

end BoxCert.Settings
