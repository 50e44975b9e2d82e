import BoxCert.Proofs.Interval.Linear
import BoxCert.Proofs.Number.Integer

/-!
# Integers as intervals

An interval whose ends both have the value of one integer is exact. Parts by
sign, products and sums of exact intervals are exact as long as the integers
stay within `2 ^ 53`, and products and sums are point intervals then. A row
against a column stays exact if the magnitudes of its products fit the bound
together: they bound every partial sum, in whatever order the sum is taken.
-/

namespace BoxCert.Interval

open Binary64

variable {a b : Interval} {m n s : Int} {x t : Binary64}

/-- Whether both ends have the value of one integer. -/
structure IsInteger (a : Interval) (n : Int) : Prop where
  inf : a.inf.IsInteger n
  sup : a.sup.IsInteger n

theorem isInteger_zero : IsInteger 0 0 :=
  ⟨Binary64.isInteger_zero, Binary64.isInteger_zero⟩

theorem isInteger_point (hn : |n| ≤ 2 ^ 53) : (point (ofInt n)).IsInteger n :=
  ⟨isInteger_ofInt hn, isInteger_ofInt hn⟩

/-- A tolerance of zero, of whatever sign, leaves an integer exact. -/
theorem isInteger_around (hx : x.IsInteger n) (ht : t.isZero = true) :
    (around x t).IsInteger n :=
  have ⟨hinf, hsup⟩ := units?_around hx ht
  ⟨hinf, hsup⟩

/-! ## Parts by sign -/

theorem IsInteger.isNonnegative_iff (h : a.IsInteger n) :
    a.isNonnegative = true ↔ 0 ≤ n := by
  rw [Interval.isNonnegative_iff, ← not_below_iff rfl (isNan_of_units h.inf),
    h.inf.lt_zero_iff, not_lt]

theorem IsInteger.not_straddlesZero (h : a.IsInteger n) :
    ¬ a.straddlesZero = true := by
  rw [straddlesZero_iff, h.sup.zero_lt_iff, h.inf.lt_zero_iff]
  omega

theorem IsInteger.positivePart (h : a.IsInteger n) :
    a.positivePart.IsInteger (max n 0) := by
  rw [Interval.positivePart, if_neg h.not_straddlesZero]
  split
  · next hpos => rwa [max_eq_left (h.isNonnegative_iff.1 hpos)]
  · next hneg =>
      rw [h.isNonnegative_iff, not_le] at hneg
      rw [max_eq_right hneg.le]
      exact isInteger_zero

theorem IsInteger.negativePart (h : a.IsInteger n) :
    a.negativePart.IsInteger (min n 0) := by
  rw [Interval.negativePart, if_neg h.not_straddlesZero]
  split
  · next hpos =>
      rw [min_eq_right (h.isNonnegative_iff.1 hpos)]
      exact isInteger_zero
  · next hneg =>
      rw [h.isNonnegative_iff, not_le] at hneg
      rwa [min_eq_left hneg.le]

/-! ## Sums and products -/

theorem add_eq_point (hm : |m| ≤ 2 ^ 53) (hb : b.IsInteger n)
    (hsum : |m + n| ≤ 2 ^ 53) :
    point (ofInt m) + b = point (ofInt (m + n)) := by
  show Interval.mk (addDown _ _) (addUp _ _) = _
  rw [point, (hb.inf.directed_add hm hsum).1, (hb.sup.directed_add hm hsum).2,
    point]

theorem mul_eq_point (ha : a.IsInteger m) (hb : b.IsInteger n)
    (hprod : |m * n| ≤ 2 ^ 53) : a * b = point (ofInt (m * n)) := by
  have hii := ha.inf.directed_mul hb.inf hprod
  have his := ha.inf.directed_mul hb.sup hprod
  have hsi := ha.sup.directed_mul hb.inf hprod
  have hss := ha.sup.directed_mul hb.sup hprod
  show Interval.mk (Binary64.unsignedZero _) (Binary64.unsignedZero _) = _
  rw [(((hii.1.min his.1).min hsi.1).min hss.1).unsignedZero_eq hprod,
    (((hii.2.max his.2).max hsi.2).max hss.2).unsignedZero_eq hprod, point]

/-- A running sum of products is exact if the magnitudes of the products fit
the bound together with what was summed before. -/
theorem foldl_mul_eq_point {row column : List Interval} {ws xs : List Int}
    (hrow : List.Forall₂ IsInteger row ws)
    (hcolumn : List.Forall₂ IsInteger column xs)
    (hsum : |s| + ((List.zipWith (· * ·) ws xs).map (|·|)).sum ≤ 2 ^ 53) :
    (List.zipWith (· * ·) row column).foldl (· + ·) (point (ofInt s)) =
      point (ofInt (s + (List.zipWith (· * ·) ws xs).sum)) := by
  induction hrow generalizing column xs s with
  | nil => simp
  | @cons a w row ws ha _ ih =>
      cases hcolumn with
      | nil => simp
      | @cons b x column xs hb hcolumn =>
          simp only [List.zipWith_cons_cons, List.map_cons, List.sum_cons,
            List.foldl_cons] at hsum ⊢
          have hrest : 0 ≤ ((List.zipWith (· * ·) ws xs).map (|·|)).sum := by
            refine List.sum_nonneg fun z hz => ?_
            obtain ⟨p, -, rfl⟩ := List.mem_map.1 hz
            exact abs_nonneg p
          have htriangle := abs_add_le s (w * x)
          have hs := abs_nonneg s
          have hwx := abs_nonneg (w * x)
          rw [mul_eq_point ha hb (by omega),
            add_eq_point (by omega) (isInteger_point (by omega)) (by omega),
            ih hcolumn (by omega), Int.add_assoc]

end BoxCert.Interval
