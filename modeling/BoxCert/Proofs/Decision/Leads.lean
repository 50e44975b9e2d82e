import BoxCert.Proofs.Decision.Verdict

/-!
# Verdicts and exact leads

The full check is right about the box it is given, whatever made that box and
whether or not its own sums spill. At every real point of the box a verdict of
no puts the exact lead of the label above the threshold and a verdict of yes
keeps it from there; a box of one score is read by the sign of the score.

Both ends of a lead round to the wrong side only where that does not show. A
lower end that spills is the number nearest to the exact difference, and no
number lies in between; an upper end that spills belongs to a difference that
is not positive.
-/

namespace BoxCert

open Binary64 BoxCert.Interval

namespace Interval

variable {own rival : Interval} {threshold : Binary64} {a b : ℝ}

theorem lt_sub_of_lead (hown : own.inf ≤ own.sup)
    (hrival : rival.inf ≤ rival.sup) (ht : threshold.isFinite = true)
    (h : threshold < (lead own rival).inf) (ha : own.inf.toEReal ≤ a)
    (hb : b ≤ rival.sup.toEReal) : threshold.toReal < a - b := by
  have hlt := lt_ends_of_lead hown hrival ht (lt_iff.1 h).2.2
  have hle := hlt.trans_le (add_le_add ha (EReal.neg_le_neg_iff.2 hb))
  rwa [toEReal_of_isFinite ht, ← EReal.coe_neg, ← EReal.coe_add,
    EReal.coe_lt_coe_iff, ← sub_eq_add_neg] at hle

theorem sub_le_of_lead (hown : own.inf ≤ own.sup)
    (hrival : rival.inf ≤ rival.sup) (ht : threshold.isFinite = true)
    (hpos : 0 ≤ threshold.toEReal) (h : (lead own rival).sup ≤ threshold)
    (ha : a ≤ own.sup.toEReal) (hb : rival.inf.toEReal ≤ b) :
    a - b ≤ threshold.toReal := by
  have hle := ends_le_of_lead hown hrival hpos (le_iff.1 h).2.2
  have hle := (add_le_add ha (EReal.neg_le_neg_iff.2 hb)).trans hle
  rwa [toEReal_of_isFinite ht, ← EReal.coe_neg, ← EReal.coe_add,
    EReal.coe_le_coe_iff, ← sub_eq_add_neg] at hle

end Interval

namespace Box

variable {box : Box} {label : Nat} {threshold : Binary64}

/-! ## The competing classes -/

theorem competitors_pairwise (outputs label : Nat) :
    (competitors outputs label).Pairwise (· < ·) :=
  List.pairwise_lt_range.filter _

theorem map_competitor_verdicts (box : Box) (label : Nat)
    (threshold : Binary64) :
    ((competitors box.dim label).map (box.verdictOn label threshold)).map
      (·.competitor) = competitors box.dim label := by
  rw [List.map_map]
  exact List.map_id _

/-! ## Verdicts at a point -/

section Point

variable {y : Nat → ℝ} (hbox : box.Proper) (ht : threshold.isFinite = true)
  (hy : box.Encloses fun k : Fin box.dim => y k)

include hbox ht hy

theorem lead_of_verdict (hpos : 0 ≤ threshold.toEReal) (hone : box.dim ≠ 1)
    (hlabel : label < box.dim) {i : Nat} (hi : i < box.dim) (hne : i ≠ label) :
    ((box.verdictOn label threshold i).verdict = .no →
      threshold.toReal < y label - y i) ∧
    ((box.verdictOn label threshold i).verdict = .yes →
      y label - y i ≤ threshold.toReal) := by
  obtain ⟨l, u, hl, hu⟩ := hbox.exists_ends hlabel
  obtain ⟨l', u', hl', hu'⟩ := hbox.exists_ends hi
  rw [verdict_of_wide hbox hone hne hl hu hl' hu']
  constructor
  · intro hno
    exact lt_sub_of_lead (hbox.lower_inf_le_sup hl)
      (hbox.upper_inf_le_sup hu') ht
      (classify_nonStrict_no hno) (hy.lower_le ⟨label, hlabel⟩ l hl)
      (hy.le_upper ⟨i, hi⟩ u' hu')
  · intro hyes
    exact sub_le_of_lead (hbox.upper_inf_le_sup hu)
      (hbox.lower_inf_le_sup hl') ht hpos
      (classify_nonStrict_yes hyes (isNan_of_isFinite ht))
      (hy.le_upper ⟨label, hlabel⟩ u hu) (hy.lower_le ⟨i, hi⟩ l' hl')

theorem score_of_verdict (hone : box.dim = 1) {i : Nat}
    (hi : i ∈ competitors box.dim label) :
    (label = 1 →
      ((box.verdictOn label threshold i).verdict = .no →
        threshold.toReal ≤ y 0) ∧
      ((box.verdictOn label threshold i).verdict = .yes →
        y 0 < threshold.toReal)) ∧
    (label = 0 →
      ((box.verdictOn label threshold i).verdict = .no →
        threshold.toReal < -y 0) ∧
      ((box.verdictOn label threshold i).verdict = .yes →
        -y 0 ≤ threshold.toReal)) := by
  obtain ⟨l, u, hl, hu⟩ := hbox.exists_cells hone
  have hlower := hbox.lower_proper l (hl ▸ List.mem_singleton_self l)
  have hupper := hbox.upper_proper u (hu ▸ List.mem_singleton_self u)
  have hlow := hy.lower_le ⟨0, hone ▸ Nat.one_pos⟩ l (by rw [hl]; rfl)
  have hhigh := hy.le_upper ⟨0, hone ▸ Nat.one_pos⟩ u (by rw [hu]; rfl)
  obtain ⟨hvone, hvzero⟩ := verdicts_of_single hone hl hu threshold
  have hmem := List.mem_map_of_mem (f := (·.verdict))
    (List.mem_map_of_mem (f := box.verdictOn label threshold) hi)
  constructor
  · rintro rfl
    obtain ⟨hno, hyes⟩ := ends_of_classify_score hlower hupper threshold
    rw [hvone, List.mem_singleton] at hmem
    rw [hmem, ← EReal.coe_le_coe_iff, ← EReal.coe_lt_coe_iff,
      ← toEReal_of_isFinite ht]
    exact ⟨fun h => (hno h).trans hlow, fun h => hhigh.trans_lt (hyes h)⟩
  · rintro rfl
    obtain ⟨hno, hyes⟩ := ends_of_classify_negated hlower hupper threshold
    have hlow := EReal.neg_le_neg_iff.2 hlow
    have hhigh := EReal.neg_le_neg_iff.2 hhigh
    rw [hvzero, List.mem_singleton] at hmem
    rw [hmem, ← EReal.coe_le_coe_iff, ← EReal.coe_lt_coe_iff,
      ← toEReal_of_isFinite ht, EReal.coe_neg]
    exact ⟨fun h => (hno h).trans_le hhigh,
      fun h => hlow.trans (hyes h (isNan_of_isFinite ht))⟩

end Point

/-! ## The verdicts of a check -/

/-- The verdicts of the full check are right about every accepted box: there is
one for each competing class, in ascending order, and at every real point of
the box they tell on which side of the threshold the exact lead lies, or the
sign of a single score. -/
theorem checkFull_decides
    (haccepted : Box.ofColumns box.lower box.upper = .ok box)
    (hcells : ∀ a ∈ box.lower.cells ++ box.upper.cells, a.inf ≤ a.sup)
    (hlabel : label < classCount box.dim) (ht : threshold.isFinite = true)
    (hpos : 0 ≤ threshold) :
    ∃ verdicts, box.checkFull label threshold = .ok verdicts ∧
      (verdicts.map (·.competitor)).Pairwise (· < ·) ∧
      (∀ i, i ∈ verdicts.map (·.competitor) ↔
        i < classCount box.dim ∧ i ≠ label) ∧
      ∀ y : Nat → ℝ, (box.Encloses fun k : Fin box.dim => y k) →
        ∀ v ∈ verdicts,
          (box.dim ≠ 1 →
            (v.verdict = .no → threshold.toReal < y label - y v.competitor) ∧
            (v.verdict = .yes →
              y label - y v.competitor ≤ threshold.toReal)) ∧
          (box.dim = 1 → label = 1 →
            (v.verdict = .no → threshold.toReal ≤ y 0) ∧
            (v.verdict = .yes → y 0 < threshold.toReal)) ∧
          (box.dim = 1 → label = 0 →
            (v.verdict = .no → threshold.toReal < -y 0) ∧
            (v.verdict = .yes → -y 0 ≤ threshold.toReal)) := by
  have hbox : box.Proper :=
    ⟨(Box.ofColumns_eq_ok.1 haccepted).2,
      fun a ha => hcells a (List.mem_append_left _ ha),
      fun a ha => hcells a (List.mem_append_right _ ha)⟩
  have hpos := (le_iff.1 hpos).2.2
  rw [toEReal_zero] at hpos
  have hclass : checkLabel box.dim label = .ok () := by
    refine checkLabel_eq_ok.2 ⟨?_, hlabel⟩
    intro hzero
    rw [hzero] at hlabel
    cases hlabel
  refine ⟨_, checkFull_eq_ok hbox.toAccepted hclass threshold, ?_, ?_, ?_⟩
  · rw [map_competitor_verdicts]
    exact competitors_pairwise _ _
  · intro i
    rw [map_competitor_verdicts, mem_competitors]
  · intro y hy v hv
    obtain ⟨i, hi, rfl⟩ := List.mem_map.1 hv
    refine ⟨fun hone => ?_, fun hone => ?_, fun hone => ?_⟩
    · obtain ⟨hlt, hne⟩ := (mem_competitors_of_wide hone).1 hi
      rw [classCount, if_neg hone] at hlabel
      exact lead_of_verdict hbox ht hy hpos hone hlabel hlt hne
    · exact (score_of_verdict hbox ht hy hone hi).1
    · exact (score_of_verdict hbox ht hy hone hi).2

/-- A score between four and five, one that is two at most, and one beyond the
largest number. -/
def leadSample : Box :=
  ⟨.column [⟨ofBits 0x4010000000000000, ofBits 0x4010000000000000⟩,
      ⟨negInfinity, 0⟩, ⟨greatest false, infinity⟩],
    .column [⟨1, ofBits 0x4014000000000000⟩,
      ⟨0, ofBits 0x4000000000000000⟩, ⟨infinity, infinity⟩]⟩

theorem checkFull_decides_leadSample :
    Box.ofColumns leadSample.lower leadSample.upper = .ok leadSample ∧
    (∀ a ∈ leadSample.lower.cells ++ leadSample.upper.cells, a.inf ≤ a.sup) ∧
    0 < classCount leadSample.dim ∧
    ∃ verdicts, leadSample.checkFull 0 1 = .ok verdicts ∧
      (∃ v ∈ verdicts, v.competitor = 1 ∧ v.verdict = .no) ∧
      (∃ v ∈ verdicts, v.competitor = 2 ∧ v.verdict = .yes) ∧
      ∀ y : Nat → ℝ, (leadSample.Encloses fun k : Fin leadSample.dim => y k) →
        toReal 1 < y 0 - y 1 ∧ y 0 - y 2 ≤ toReal 1 := by
  have haccepted : Box.ofColumns leadSample.lower leadSample.upper =
      .ok leadSample := rfl
  have hcells : ∀ a ∈ leadSample.lower.cells ++ leadSample.upper.cells,
      a.inf ≤ a.sup := by decide
  have hlabel : 0 < classCount leadSample.dim := by decide
  obtain ⟨verdicts, hverdicts, -, -, hdecides⟩ :=
    checkFull_decides haccepted hcells hlabel
      (show Binary64.isFinite 1 = true from rfl) (by decide)
  have hrun : (leadSample.checkFull 0 1).toOption.map
      (·.map fun v => (v.competitor, v.verdict)) =
        some [(1, .no), (2, .yes)] := by decide +kernel
  rw [hverdicts] at hrun
  have hrun : verdicts.map (fun v => (v.competitor, v.verdict)) =
      [(1, .no), (2, .yes)] := Option.some.inj hrun
  obtain ⟨first, hfirst, hno⟩ := List.mem_map.1
    (hrun ▸ List.mem_cons_self : (1, Verdict.no) ∈ verdicts.map _)
  obtain ⟨second, hsecond, hyes⟩ := List.mem_map.1
    (hrun ▸ List.mem_cons_of_mem _ List.mem_cons_self :
      (2, Verdict.yes) ∈ verdicts.map _)
  rw [Prod.mk.injEq] at hno hyes
  refine ⟨haccepted, hcells, hlabel, verdicts, hverdicts,
    ⟨first, hfirst, hno⟩, ⟨second, hsecond, hyes⟩, fun y hy => ⟨?_, ?_⟩⟩
  · have hlead := ((hdecides y hy first hfirst).1 (by decide)).1 hno.2
    rwa [hno.1] at hlead
  · have hlead := ((hdecides y hy second hsecond).1 (by decide)).2 hyes.2
    rwa [hyes.1] at hlead

end Box

end BoxCert
