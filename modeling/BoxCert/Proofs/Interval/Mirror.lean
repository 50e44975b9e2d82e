import Mathlib.Data.Int.ConditionallyCompleteOrder
import BoxCert.Interval.Basic
import BoxCert.Proofs.Number.Mirror

/-!
# Intervals mirrored in zero

Negation swaps the ends of an interval, so the lower end of a result on
negated operands has to come from the upper end of the result on the operands.
For sums that is the mirroring of the two directions itself. A product takes
the extremes of four candidates, which stand in another order on the two
sides, and an extreme passes over NaNs. The order does not matter: `lowKey`
turns the lesser of two numbers into a minimum in a linear order.
-/

namespace BoxCert

namespace Binary64

variable {x y : Binary64}

/-- The place of a number in the order of all numbers, and for a NaN a place
beyond all of them: the lesser of two numbers has the lesser key. -/
def lowKey (x : Binary64) : WithTop Int :=
  match x.place? with
  | some i => i
  | none => ⊤

theorem agrees_iff_lowKey : x.Agrees y ↔ x.lowKey = y.lowKey := by
  rw [agrees_iff_place, lowKey, lowKey]
  cases x.place? with
  | none => cases y.place? <;> simp
  | some i => cases y.place? <;> simp

theorem lt_iff_lowKey (hy : y.isNan = false) :
    x < y ↔ x.lowKey < y.lowKey := by
  obtain ⟨j, hj⟩ := exists_place_of_isNan hy
  show x.below y = true ↔ _
  rw [below, lowKey, lowKey, hj]
  cases x.place? <;> simp

theorem lowKey_min (x y : Binary64) :
    (min x y).lowKey = min x.lowKey y.lowKey := by
  cases hx : x.isNan with
  | true =>
      rw [eq_nan_of_isNan hx]
      exact (top_inf_eq y.lowKey).symm
  | false =>
      rw [min_of_isNan hx]
      split
      · next hlt => rw [min_eq_right ((lt_iff_lowKey hx).1 hlt).le]
      · next hge => rw [min_eq_left (not_lt.1 (mt (lt_iff_lowKey hx).2 hge))]

/-- The negated greater number is the lesser negated one. -/
theorem neg_max_eq (x y : Binary64) : -max x y = min (-x) (-y) := by
  cases hx : x.isNan with
  | true =>
      rw [eq_nan_of_isNan hx]
      rfl
  | false =>
      rw [max_of_isNan hx, min_of_isNan ((isNan_neg x).trans hx),
        apply_ite Neg.neg]
      exact if_congr neg_below_neg_iff.symm rfl rfl

/-- The negated upper product is the lower one of the negated factor. -/
theorem lowKey_neg_mulUp (x y : Binary64) :
    (-mulUp x y).lowKey = (mulDown (-x) y).lowKey :=
  agrees_iff_lowKey.1 (mulUp_agrees x y).neg_left

end Binary64

namespace Interval

open Binary64

variable {a b c : Interval}

/-- Whether two intervals are the same one, end by end. -/
def Agrees (a b : Interval) : Prop :=
  a.inf.Agrees b.inf ∧ a.sup.Agrees b.sup

theorem Agrees.symm (h : a.Agrees b) : b.Agrees a := ⟨h.1.symm, h.2.symm⟩

theorem Agrees.trans (h : a.Agrees b) (h' : b.Agrees c) : a.Agrees c :=
  ⟨h.1.trans h'.1, h.2.trans h'.2⟩

theorem neg_inf_eq (a : Interval) : (-a).inf = -a.sup := rfl

theorem neg_sup_eq (a : Interval) : (-a).sup = -a.inf := rfl

theorem neg_twice (a : Interval) : - -a = a := by
  show (⟨- -a.inf, - -a.sup⟩ : Interval) = a
  rw [neg_neg_eq, neg_neg_eq]

/-! ## Sums -/

theorem neg_add_neg_agrees (a b : Interval) : (-a + -b).Agrees (-(a + b)) := by
  constructor
  · exact (addUp_agrees a.sup b.sup).neg_left.symm
  · have h := addUp_agrees (-a.inf) (-b.inf)
    rwa [neg_neg_eq, neg_neg_eq] at h

/-! ## Products -/

/-- The lower end of a product, as the least of four keys. -/
theorem lowKey_mul_inf (a b : Interval) : (a * b).inf.lowKey =
    min (min (min (mulDown a.inf b.inf).lowKey (mulDown a.inf b.sup).lowKey)
      (mulDown a.sup b.inf).lowKey) (mulDown a.sup b.sup).lowKey := by
  show (unsignedZero _).lowKey = _
  rw [agrees_iff_lowKey.1 (unsignedZero_agrees _), lowKey_min, lowKey_min,
    lowKey_min]

/-- The negated upper end, likewise: the factors are those of the lower end
with the first one negated. -/
theorem lowKey_neg_mul_sup (a b : Interval) : (-(a * b).sup).lowKey =
    min (min (min (mulDown (-a.inf) b.inf).lowKey
      (mulDown (-a.inf) b.sup).lowKey) (mulDown (-a.sup) b.inf).lowKey)
      (mulDown (-a.sup) b.sup).lowKey := by
  show (-unsignedZero _).lowKey = _
  rw [agrees_iff_lowKey.1 (unsignedZero_agrees _).neg]
  simp only [neg_max_eq, lowKey_min, lowKey_neg_mulUp]

theorem neg_mul_inf_agrees (a b : Interval) :
    (-a * b).inf.Agrees (-(a * b).sup) := by
  rw [agrees_iff_lowKey, lowKey_neg_mul_sup, lowKey_mul_inf, neg_inf_eq,
    neg_sup_eq]
  ac_rfl

theorem mul_neg_inf_agrees (a b : Interval) :
    (a * -b).inf.Agrees (-a * b).inf := by
  rw [agrees_iff_lowKey, lowKey_mul_inf, lowKey_mul_inf]
  simp only [neg_inf_eq, neg_sup_eq, mulDown_neg]
  ac_rfl

/-- An upper end is a lower end of the product with the first factor negated,
so that what holds of lower ends passes to upper ones. -/
theorem mul_sup_agrees (a b : Interval) :
    (a * b).sup.Agrees (-(-a * b).inf) :=
  (neg_mul_inf_agrees a b).neg_left.symm

theorem neg_mul_agrees (a b : Interval) : (-a * b).Agrees (-(a * b)) := by
  have hsup := mul_sup_agrees (-a) b
  rw [neg_twice] at hsup
  exact ⟨neg_mul_inf_agrees a b, hsup⟩

theorem mul_neg_agrees (a b : Interval) : (a * -b).Agrees (-a * b) := by
  refine ⟨mul_neg_inf_agrees a b, ?_⟩
  have hinf := (mul_neg_inf_agrees (-a) b).neg
  exact ((mul_sup_agrees a (-b)).trans hinf).trans (mul_sup_agrees (-a) b).symm

/-- The upward operations are the downward ones mirrored in zero, for all
numbers, and so negation passes through sums and products of intervals. -/
theorem mirror_of_neg :
    (∀ x y : Binary64, (addUp x y).Agrees (-addDown (-x) (-y)) ∧
      (mulUp x y).Agrees (-mulDown (-x) y) ∧
      (mulUp x y).Agrees (-mulDown x (-y))) ∧
    ∀ a b : Interval, (-a + -b).Agrees (-(a + b)) ∧
      (-a * b).Agrees (a * -b) ∧ (-a * b).Agrees (-(a * b)) ∧
      (a * -b).Agrees (-(a * b)) := by
  constructor
  · intro x y
    have hmul := mulUp_agrees x y
    exact ⟨addUp_agrees x y, hmul, (mulDown_neg x y).symm ▸ hmul⟩
  · intro a b
    have hleft := neg_mul_agrees a b
    have hright := mul_neg_agrees a b
    exact ⟨neg_add_neg_agrees a b, hright.symm, hleft, hright.trans hleft⟩

end Interval

end BoxCert
