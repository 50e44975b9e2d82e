import BoxCert.Proofs.Decision.Check
import BoxCert.Proofs.Number.One

/-!
# What verdicts say about the ends

The lead of a label over a competitor is bounded by two directed sums of a
score and a negated score, and a single score by itself or its negation. Each
verdict then compares ends: a lead that is never lost puts the competitor's
highest score below the label's lowest one, and one that is always lost puts
the label's highest score at most the threshold above the competitor's lowest
one.
-/

namespace BoxCert

open Binary64 BoxCert.Interval

namespace Interval

variable {a own rival : Interval} {x t : EReal}

theorem mem_point_one_mul (hx : x ∈ a) : x ∈ point 1 * a := by
  have hone : (1 : EReal) ∈ point 1 :=
    ⟨rfl, rfl, toEReal_one.le, toEReal_one.ge⟩
  simpa using mul_mem hone hx

theorem neg_mem_point_neg_one_mul (hx : x ∈ a) : -x ∈ point (-1) * a := by
  have hone : (-1 : EReal) ∈ point (-1) := by
    have hneg : (-1 : Binary64).toEReal = -1 := by
      rw [toEReal_neg, toEReal_one]
    exact ⟨rfl, rfl, hneg.le, hneg.ge⟩
  simpa using mul_mem hone hx

/-- The interval of the lead of one score over another. -/
def lead (own rival : Interval) : Interval :=
  point 1 * own + point (-1) * rival

/-- The scores are as far apart as any finite number below the lower end of
their lead, spilled or not. -/
theorem lt_ends_of_lead {t : Binary64} (hown : own.inf ≤ own.sup)
    (hrival : rival.inf ≤ rival.sup) (ht : t.isFinite = true)
    (h : t.toEReal < (lead own rival).inf.toEReal) :
    t.toEReal < own.inf.toEReal + -rival.sup.toEReal := by
  have hp := mem_point_one_mul (inf_mem hown)
  have hq := neg_mem_point_neg_one_mul (sup_mem hrival)
  have hlt := lt_add_of_lt_addDown hp.inf_isNan hq.inf_isNan ht h
  exact hlt.trans_le (add_le_add hp.inf_le hq.inf_le)

/-- The scores are no further apart than a tolerance that the upper end of
their lead stays within, spilled or not. -/
theorem ends_le_of_lead (hown : own.inf ≤ own.sup)
    (hrival : rival.inf ≤ rival.sup) (ht : 0 ≤ t)
    (h : (lead own rival).sup.toEReal ≤ t) :
    own.sup.toEReal + -rival.inf.toEReal ≤ t := by
  have hp := mem_point_one_mul (sup_mem hown)
  have hq := neg_mem_point_neg_one_mul (inf_mem hrival)
  have hsum := add_le_of_addUp_le hp.sup_isNan hq.sup_isNan ht h
  exact (add_le_add hp.le_sup hq.le_sup).trans hsum

/-- A lead whose lower end is positive separates the scores. -/
theorem sup_lt_inf_of_lead (hown : own.inf ≤ own.sup)
    (hrival : rival.inf ≤ rival.sup) (h : 0 < (lead own rival).inf.toEReal) :
    rival.sup < own.inf := by
  have hlt := lt_ends_of_lead (t := 0) hown hrival rfl (by rwa [toEReal_zero])
  rw [toEReal_zero, ← sub_eq_add_neg, EReal.sub_pos] at hlt
  exact lt_iff.2 ⟨(isNan_of_le hrival).2, (isNan_of_le hown).1, hlt⟩

/-- A lead whose upper end stays within a tolerance leaves the label's highest
score at most that far above the competitor's lowest one. -/
theorem sup_le_of_lead (hown : own.inf ≤ own.sup)
    (hrival : rival.inf ≤ rival.sup) (ht : 0 ≤ t) (htop : t ≠ ⊤)
    (h : (lead own rival).sup.toEReal ≤ t) :
    own.sup.toEReal ≤ rival.inf.toEReal + t := by
  have hle := ends_le_of_lead hown hrival ht h
  rw [← sub_eq_add_neg, EReal.sub_le_iff_le_add (.inr htop)
    (.inr (ne_bot_of_le_ne_bot EReal.zero_ne_bot ht))] at hle
  rwa [add_comm]

end Interval

namespace Disjunction

theorem positivePart_sign (label competitor j : Nat) :
    (sign label competitor j).positivePart =
      if j = label then .point 1 else 0 := by
  unfold sign
  split
  · rfl
  · split <;> rfl

theorem negativePart_sign {label competitor : Nat} (h : competitor ≠ label)
    (j : Nat) : (sign label competitor j).negativePart =
      if j = competitor then .point (-1) else 0 := by
  unfold sign
  split
  · next hj => rw [if_neg (by omega)]; rfl
  · split <;> rfl

theorem splitDot_leadRow {outputs label competitor : Nat}
    {first second : List Interval} {own rival : Interval}
    (hlabel : label < outputs) (hcompetitor : competitor < outputs)
    (hne : competitor ≠ label) (hfirst : first[label]? = some own)
    (hsecond : second[competitor]? = some rival) :
    splitDot (leadRow outputs label competitor) first second =
      lead own rival := by
  have hcell : ∀ part : Interval → Interval, ∀ j, j < outputs →
      ((leadRow outputs label competitor).map part)[j]? =
        some (part (sign label competitor j)) := by
    intro part j hj
    rw [leadRow, List.map_map, List.getElem?_map, List.getElem?_range hj]
    rfl
  have hzero : ∀ part : Interval → Interval, ∀ k,
      (∀ j, j ≠ k → part (sign label competitor j) = 0) → ∀ j c, j ≠ k →
      ((leadRow outputs label competitor).map part)[j]? = some c → c = 0 := by
    intro part k hpart j c hj hc
    rw [leadRow, List.map_map, List.getElem?_map, Option.map_eq_some_iff] at hc
    obtain ⟨i, hi, rfl⟩ := hc
    rw [List.getElem?_eq_some_iff] at hi
    obtain ⟨hlt, rfl⟩ := hi
    rw [Function.comp_apply, List.getElem_range]
    exact hpart j hj
  rw [splitDot, lead, dot_eq_of_single (k := label) (a := point 1)
      (by rw [hcell _ _ hlabel, positivePart_sign, if_pos rfl]) hfirst
      (hzero _ _ fun j hj => by rw [positivePart_sign, if_neg hj]),
    dot_eq_of_single (k := competitor) (a := point (-1))
      (by rw [hcell _ _ hcompetitor, negativePart_sign hne, if_pos rfl])
      hsecond (hzero _ _ fun j hj => by rw [negativePart_sign hne, if_neg hj])]

end Disjunction

namespace Box

variable {b : Box} {label i : Nat} {threshold : Binary64}

section Competitors

variable {outputs : Nat}

theorem mem_competitors : i ∈ competitors outputs label ↔
    i < classCount outputs ∧ i ≠ label := by
  rw [competitors, List.mem_filter, List.mem_range, bne_iff_ne]

theorem mem_competitors_of_wide (hone : outputs ≠ 1) :
    i ∈ competitors outputs label ↔ i < outputs ∧ i ≠ label := by
  rw [mem_competitors, classCount, if_neg hone]

/-- A single score tells two classes apart, as two scores do. -/
theorem mem_competitors_of_pos (hpos : outputs ≠ 0) :
    i ∈ competitors outputs label ↔ i < max outputs 2 ∧ i ≠ label := by
  rw [mem_competitors, classCount]
  split
  · next hone => simp [hone]
  · simp
    omega

end Competitors

/-! ## Two or more scores -/

section Wide

variable (hbox : b.Proper) (hone : b.dim ≠ 1)

include hbox hone

/-- The verdict on a competitor rests on four intervals: both of the label and
both of the competitor. -/
theorem verdictOn_of_wide {l u l' u' : Interval} (hne : i ≠ label)
    (hl : b.lower.cells[label]? = some l) (hu : b.upper.cells[label]? = some u)
    (hl' : b.lower.cells[i]? = some l') (hu' : b.upper.cells[i]? = some u') :
    b.verdictOn label threshold i =
      ⟨i, classify .nonStrict (lead l u').inf (lead u l').sup threshold,
        (lead l u').inf, (lead u l').sup⟩ := by
  have hlabel := hbox.exists_lower_iff.1 ⟨l, hl⟩
  have hi := hbox.exists_lower_iff.1 ⟨l', hl'⟩
  rw [verdictOn, Disjunction.form, if_neg hone, Disjunction.comparisonOf,
    if_neg fun h => hone h.1, Disjunction.splitDot_leadRow hlabel hi hne hl hu',
    Disjunction.splitDot_leadRow hlabel hi hne hu hl']

theorem verdict_of_wide {l u l' u' : Interval} (hne : i ≠ label)
    (hl : b.lower.cells[label]? = some l) (hu : b.upper.cells[label]? = some u)
    (hl' : b.lower.cells[i]? = some l') (hu' : b.upper.cells[i]? = some u') :
    (b.verdictOn label threshold i).verdict = classify .nonStrict
      (lead l u').inf (lead u l').sup threshold := by
  rw [verdictOn_of_wide hbox hone hne hl hu hl' hu']

/-- If the full check calls a label robust, the box separates it. -/
theorem separates_of_verdicts (ht : 0 ≤ threshold.toEReal)
    (h : b.fullOutcome label threshold = .robust) : b.Separates label := by
  intro l hl i u' hne hu'
  have hi := hbox.exists_upper_iff.1 ⟨u', hu'⟩
  obtain ⟨u, hu⟩ := hbox.exists_upper_iff.2 (hbox.exists_lower_iff.1 ⟨l, hl⟩)
  obtain ⟨l', hl'⟩ := hbox.exists_lower_iff.2 hi
  have hno := aggregate_eq_robust.1 h _ (List.mem_map_of_mem
    ((mem_competitors_of_wide hone).2 ⟨hi, hne⟩))
  rw [verdict_of_wide hbox hone hne hl hu hl' hu'] at hno
  -- The lower end of the lead is above the threshold, and so above zero.
  have hpos := (lt_iff.1 (classify_nonStrict_no hno)).2.2
  exact sup_lt_inf_of_lead (hbox.lower_inf_le_sup hl)
    (hbox.upper_inf_le_sup hu') (ht.trans_lt hpos)

/-- If the full check calls a label lost to a competitor, the label's highest
score is at most the threshold above the competitor's lowest one. -/
theorem exists_reached_of_verdicts (htop : threshold.isFinite = true)
    (ht : 0 ≤ threshold.toEReal) (hlabel : label < b.dim)
    (h : b.fullOutcome label threshold = .notRobust i) :
    i < b.dim ∧ i ≠ label ∧ ∃ u l', b.upper.cells[label]? = some u ∧
      b.lower.cells[i]? = some l' ∧
      u.sup.toEReal ≤ l'.inf.toEReal + threshold.toEReal := by
  obtain ⟨v, hv, hyes, hcompetitor⟩ := exists_of_aggregate_eq_notRobust h
  obtain ⟨j, hj, rfl⟩ := List.mem_map.1 hv
  obtain rfl : j = i := hcompetitor
  obtain ⟨hi, hne⟩ := (mem_competitors_of_wide hone).1 hj
  obtain ⟨l, u, hl, hu⟩ := hbox.exists_ends hlabel
  obtain ⟨l', u', hl', hu'⟩ := hbox.exists_ends hi
  rw [verdict_of_wide hbox hone hne hl hu hl' hu'] at hyes
  refine ⟨hi, hne, u, l', hu, hl', ?_⟩
  obtain ⟨n, hn⟩ := exists_units htop
  have hle := (le_iff.1 (classify_nonStrict_yes hyes (isNan_of_units hn))).2.2
  refine sup_le_of_lead (hbox.upper_inf_le_sup hu) (hbox.lower_inf_le_sup hl')
    ht ?_ hle
  rw [toEReal_of_units hn]
  exact EReal.coe_ne_top _

end Wide

/-! ## A single score -/

theorem splitDot_positive (f g : Interval) :
    splitDot [point 1] [f] [g] = point 1 * f := by
  obtain ⟨hright, hleft⟩ := mul_add_zero (point 1) f
  show 0 + point 1 * f + (0 + 0 * g) = _
  rw [hleft, zero_mul_eq, show (0 : Interval) + 0 = 0 by decide, hright]

theorem splitDot_negative (f g : Interval) :
    splitDot [point (-1)] [f] [g] = point (-1) * g := by
  obtain ⟨-, hleft⟩ := mul_add_zero (point (-1)) g
  show 0 + 0 * f + (0 + point (-1) * g) = _
  rw [hleft, zero_mul_eq, show (0 : Interval) + 0 = 0 by decide, hleft]

theorem ends_of_classify_score {l u : Interval} (hl : l.inf ≤ l.sup)
    (hu : u.inf ≤ u.sup) (threshold : Binary64) :
    (classify .strict (point 1 * l).inf (point 1 * u).sup threshold = .no →
      threshold.toEReal ≤ l.inf.toEReal) ∧
    (classify .strict (point 1 * l).inf (point 1 * u).sup threshold = .yes →
      u.sup.toEReal < threshold.toEReal) := by
  have hlow := (mem_point_one_mul (inf_mem hl)).inf_le
  have hhigh := (mem_point_one_mul (sup_mem hu)).le_sup
  constructor
  · intro hno
    exact (le_iff.1 (classify_strict_no hno)).2.2.trans hlow
  · intro hyes
    exact hhigh.trans_lt (lt_iff.1 (classify_strict_yes hyes)).2.2

theorem ends_of_classify_negated {l u : Interval} (hl : l.inf ≤ l.sup)
    (hu : u.inf ≤ u.sup) (threshold : Binary64) :
    (classify .nonStrict (point (-1) * u).inf (point (-1) * l).sup threshold =
      .no → threshold.toEReal < -u.sup.toEReal) ∧
    (classify .nonStrict (point (-1) * u).inf (point (-1) * l).sup threshold =
      .yes → threshold.isNan = false → -l.inf.toEReal ≤ threshold.toEReal) := by
  have hlow := (neg_mem_point_neg_one_mul (sup_mem hu)).inf_le
  have hhigh := (neg_mem_point_neg_one_mul (inf_mem hl)).le_sup
  constructor
  · intro hno
    exact (lt_iff.1 (classify_nonStrict_no hno)).2.2.trans_le hlow
  · intro hyes hthreshold
    exact hhigh.trans (le_iff.1 (classify_nonStrict_yes hyes hthreshold)).2.2

/-- The verdicts on a single score: its sign is the score for class one and the
negated score for class zero. -/
theorem verdicts_of_single {l u : Interval} (hone : b.dim = 1)
    (hl : b.lower.cells = [l]) (hu : b.upper.cells = [u])
    (threshold : Binary64) :
    (((competitors b.dim 1).map (b.verdictOn 1 threshold)).map (·.verdict) =
      [classify .strict (point 1 * l).inf (point 1 * u).sup threshold]) ∧
    (((competitors b.dim 0).map (b.verdictOn 0 threshold)).map (·.verdict) =
      [classify .nonStrict (point (-1) * u).inf (point (-1) * l).sup
        threshold]) := by
  rw [hone]
  constructor
  · show [(b.verdictOn 1 threshold 0).verdict] = _
    rw [verdictOn, hone, hl, hu]
    show [classify .strict (splitDot [point 1] [l] [u]).inf
      (splitDot [point 1] [u] [l]).sup threshold] = _
    rw [splitDot_positive, splitDot_positive]
  · show [(b.verdictOn 0 threshold 1).verdict] = _
    rw [verdictOn, hone, hl, hu]
    show [classify .nonStrict (splitDot [point (-1)] [l] [u]).inf
      (splitDot [point (-1)] [u] [l]).sup threshold] = _
    rw [splitDot_negative, splitDot_negative]

section Single

variable {l u : Interval} (hbox : b.Proper) (hone : b.dim = 1)
  (hl : b.lower.cells = [l]) (hu : b.upper.cells = [u])

include hbox hone hl hu

/-- A single score that is never lost is at least the threshold for class one
and below its negation for class zero. -/
theorem ends_of_single_robust
    (h : b.fullOutcome label threshold = .robust) :
    (label = 1 → threshold.toEReal ≤ l.inf.toEReal) ∧
      (label = 0 → threshold.toEReal < -u.sup.toEReal) := by
  have hlower := hbox.lower_proper l (hl ▸ List.mem_singleton_self l)
  have hupper := hbox.upper_proper u (hu ▸ List.mem_singleton_self u)
  obtain ⟨hvone, hvzero⟩ := verdicts_of_single hone hl hu threshold
  constructor
  · rintro rfl
    exact (ends_of_classify_score hlower hupper threshold).1
      ((verdict_of_aggregate hvone).1 h)
  · rintro rfl
    exact (ends_of_classify_negated hlower hupper threshold).1
      ((verdict_of_aggregate hvzero).1 h)

theorem ends_of_single_notRobust (hthreshold : threshold.isNan = false)
    (h : b.fullOutcome label threshold = .notRobust i) :
    (label = 1 → u.sup.toEReal < threshold.toEReal) ∧
      (label = 0 → -l.inf.toEReal ≤ threshold.toEReal) := by
  have hlower := hbox.lower_proper l (hl ▸ List.mem_singleton_self l)
  have hupper := hbox.upper_proper u (hu ▸ List.mem_singleton_self u)
  obtain ⟨hvone, hvzero⟩ := verdicts_of_single hone hl hu threshold
  constructor
  · rintro rfl
    exact (ends_of_classify_score hlower hupper threshold).2
      ((verdict_of_aggregate hvone).2 i h)
  · rintro rfl
    exact (ends_of_classify_negated hlower hupper threshold).2
      ((verdict_of_aggregate hvzero).2 i h) hthreshold

end Single

end Box

end BoxCert
