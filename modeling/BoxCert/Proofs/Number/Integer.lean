import BoxCert.Proofs.Number.Sharp

/-!
# Integers

An integer of magnitude at most `2 ^ 53` is a number. Where the exact sum or
product of two integers is such an integer again, no direction rounds it: the
directed results are the number for that integer, with a positive zero. The
operands themselves may be larger: what is zero times a number beyond the
bound is still exact.
-/

namespace BoxCert.Binary64

variable {x y : Binary64} {m n : Int}

/-- The number for an integer. Its zero is positive. -/
def ofInt (n : Int) : Binary64 := ofScaledInt false (n * oneUnits) 1

/-- Whether the value of a number is the given integer. -/
def IsInteger (x : Binary64) (n : Int) : Prop := x.units? = some (n * oneUnits)

theorem oneUnits_mul_unit : (oneUnits : ℝ) * unit = 1 :=
  mul_inv_cancel₀ (Nat.cast_ne_zero.2 oneUnits_pos.ne')

theorem IsInteger.toReal_eq (h : x.IsInteger n) : x.toReal = n := by
  rw [toReal_of_units h, Int.cast_mul, Int.cast_natCast, mul_assoc,
    oneUnits_mul_unit, mul_one]

theorem IsInteger.toEReal_eq (h : x.IsInteger n) :
    x.toEReal = ((n : ℝ) : EReal) := by
  rw [toEReal_of_isFinite (isFinite_of_units h), h.toReal_eq]

theorem isInteger_iff :
    x.IsInteger n ↔ x.isFinite = true ∧ x.toReal = n := by
  refine ⟨fun h => ⟨isFinite_of_units h, h.toReal_eq⟩, fun ⟨hfin, h⟩ => ?_⟩
  obtain ⟨k, hk⟩ := exists_units hfin
  rw [toReal_of_units hk, ← mul_one (n : ℝ), ← oneUnits_mul_unit, ← mul_assoc,
    mul_left_inj' unit_pos.ne', ← Int.cast_natCast, ← Int.cast_mul,
    Int.cast_inj] at h
  rwa [IsInteger, ← h]

theorem IsInteger.isZero_iff (h : x.IsInteger n) : x.isZero = true ↔ n = 0 := by
  have hpos : (oneUnits : Int) ≠ 0 := Int.natCast_ne_zero.2 oneUnits_pos.ne'
  rw [Binary64.isZero_iff h, Int.mul_eq_zero, or_iff_left hpos]

theorem IsInteger.zero_lt_iff (h : x.IsInteger n) : 0 < x ↔ 0 < n := by
  rw [Binary64.zero_lt_iff h]
  exact mul_pos_iff_of_pos_right (Int.natCast_pos.2 oneUnits_pos)

theorem IsInteger.lt_zero_iff (h : x.IsInteger n) : x < 0 ↔ n < 0 := by
  rw [Binary64.lt_zero_iff h, ← not_le, ← not_le]
  exact not_congr
    (mul_nonneg_iff_of_pos_right (Int.natCast_pos.2 oneUnits_pos))

theorem isInteger_zero : IsInteger 0 0 := by
  rw [IsInteger, Int.zero_mul, units?_zero]

theorem isInteger_unsignedZero : x.unsignedZero.IsInteger n ↔ x.IsInteger n := by
  rw [IsInteger, units?_unsignedZero, IsInteger]

theorem isInteger_of_isZero (h : x.isZero = true) : x.IsInteger 0 := by
  rw [IsInteger, Int.zero_mul, units?_of_isZero h]

theorem IsInteger.min (hx : x.IsInteger n) (hy : y.IsInteger n) :
    (min x y).IsInteger n := by
  rw [min_of_isNan (isNan_of_units hx)]
  split
  · exact hy
  · exact hx

theorem IsInteger.max (hx : x.IsInteger n) (hy : y.IsInteger n) :
    (max x y).IsInteger n := by
  rw [max_of_isNan (isNan_of_units hx)]
  split
  · exact hy
  · exact hx

/-! ## Integers that are numbers -/

theorem ofInt_zero : ofInt 0 = 0 := by
  rw [ofInt, Int.zero_mul]
  rfl

section Bounded

theorem oneUnits_lt_topStep : oneUnits < topStep := by
  obtain ⟨e, he, hexp⟩ := exists_oneUnits_eq
  rw [he, topStep]
  refine Nat.pow_lt_pow_right (by decide) ?_
  unfold topShift
  omega

variable (hn : |n| ≤ 2 ^ 53)

include hn

theorem isInteger_ofInt : (ofInt n).IsInteger n := by
  have hle : n.natAbs ≤ 2 ^ 53 := by
    rw [Int.abs_eq_natAbs] at hn
    omega
  have hrepresentable : Representable (n * oneUnits) := by
    obtain ⟨e, he, -⟩ := exists_oneUnits_eq
    rw [he, Nat.cast_pow, Nat.cast_two, Int.mul_comm]
    exact .two_pow_mul e hle
  have hclamps := clamps_ofScaledInt false (n * oneUnits) 1
  rw [roundUnits_eq hrepresentable] at hclamps
  refine hclamps.units_eq ?_
  rw [Int.natAbs_mul, Int.natAbs_natCast, overflowUnits_eq]
  exact Nat.lt_of_le_of_lt (Nat.mul_le_mul_right _ hle)
    (Nat.mul_lt_mul_of_pos_left oneUnits_lt_topStep (by decide))

theorem unsignedZero_ofInt : (ofInt n).unsignedZero = ofInt n := by
  unfold unsignedZero
  split
  · next hzero =>
      rw [(isInteger_ofInt hn).isZero_iff.1 hzero, ofInt_zero]
  · rfl

theorem IsInteger.unsignedZero_eq (h : x.IsInteger n) :
    x.unsignedZero = ofInt n := by
  have hint := isInteger_ofInt hn
  rw [← unsignedZero_ofInt hn]
  exact unsignedZero_congr (isNan_of_units h) (isNan_of_units hint)
    (by rw [toEReal_of_units h, toEReal_of_units hint])

end Bounded

/-! ## Sums and products -/

/-- Only two negative zeros make a negative zero. -/
theorem add_eq_zero_of_units (hx : x.units? = some m)
    (hy : y.units? = some (-m)) (hz : x.unsignedZero = x) : x + y = 0 := by
  have hor := eq_zero_or_units hx hz
  obtain ⟨s, a, rfl, hxm⟩ := exists_rank_of_units hx
  obtain ⟨t, b, rfl, hym⟩ := exists_rank_of_units hy
  show ofScaledInt (s && t) (signed s _ + signed t _) 1 = _
  rw [hxm, hym, Int.add_right_neg, ofScaledInt, if_pos rfl]
  have hsign : (s && t) = false := by
    rcases hor with hzero | hne
    · cases hzero
      rfl
    · by_contra hst
      rw [Bool.not_eq_false, Bool.and_eq_true] at hst
      obtain ⟨rfl, rfl⟩ := hst
      simp only [signed, if_true] at hxm hym
      omega
  rw [hsign]
  rfl

/-- A sum that is an integer within the bound is not rounded in either
direction. -/
theorem IsInteger.directed_add (hm : |m| ≤ 2 ^ 53) (hy : y.IsInteger n)
    (hsum : |m + n| ≤ 2 ^ 53) :
    addDown (ofInt m) y = ofInt (m + n) ∧
      addUp (ofInt m) y = ofInt (m + n) := by
  have hx := isInteger_ofInt hm
  have hz := isInteger_ofInt hsum
  obtain ⟨hdown, hup, hval⟩ := add_of_toReal_eq (isFinite_of_units hx)
    (isFinite_of_units hy) (isFinite_of_units hz)
    (by rw [hx.toReal_eq, hy.toReal_eq, hz.toReal_eq, Int.cast_add])
  rw [unsignedZero_ofInt hsum] at hval
  have hcanon : ofInt m + y = ofInt (m + n) := by
    by_cases hzero : m + n = 0
    · obtain rfl : n = -m := by omega
      rw [IsInteger, Int.neg_mul] at hy
      rw [add_eq_zero_of_units hx hy (unsignedZero_ofInt hm), hzero, ofInt_zero]
    · have hint : (ofInt m + y).IsInteger (m + n) := by
        rwa [← isInteger_unsignedZero, hval]
      rwa [unsignedZero, if_neg (mt hint.isZero_iff.1 hzero)] at hval
  rw [hdown, hup, hcanon]
  exact ⟨rfl, rfl⟩

theorem IsInteger.mul (hx : x.IsInteger m) (hy : y.IsInteger n)
    (hprod : |m * n| ≤ 2 ^ 53) : (x * y).IsInteger (m * n) := by
  have hz := isInteger_ofInt hprod
  have hclamps := clamps_mul hx hy
  have hunits : ∀ o : Int, m * o * (n * o) = o * (m * n * o) :=
    fun o => by ring
  rw [hunits, roundUnits_one_mul (representable_of_units hz)] at hclamps
  exact hclamps.units_eq (natAbs_lt_of_units hz)

theorem IsInteger.not_abs_lt_guard (hx : x.IsInteger n) (hn : n ≠ 0) :
    ¬ x.abs < underflowGuard := by
  obtain ⟨e, he, hexp⟩ := exists_oneUnits_eq
  rw [abs_lt_guard_iff hx, not_lt, Int.natAbs_mul, Int.natAbs_natCast, he]
  exact (Nat.pow_le_pow_right (by decide) (by omega)).trans
    (Nat.le_mul_of_pos_left _ (Int.natAbs_pos.2 hn))

/-- A product that is an integer within the bound is not rounded in either
direction, and a zero factor makes it zero whatever the other one is. -/
theorem IsInteger.directed_mul (hx : x.IsInteger m) (hy : y.IsInteger n)
    (hprod : |m * n| ≤ 2 ^ 53) :
    (mulDown x y).IsInteger (m * n) ∧ (mulUp x y).IsInteger (m * n) := by
  have hz := isInteger_ofInt hprod
  by_cases hzero : m * n = 0
  · have hfactor : (x.isZero || y.isZero) = true := by
      rw [Bool.or_eq_true, hx.isZero_iff, hy.isZero_iff]
      exact Int.mul_eq_zero.1 hzero
    rw [mulDown_of_zero hfactor, mulUp_of_zero hfactor, hzero]
    exact ⟨isInteger_zero, isInteger_zero⟩
  · have hlarge := (hx.mul hy hprod).not_abs_lt_guard hzero
    have hfactor := mul_ne_zero_of_large hx hy hlarge
    have hval : (ofInt (m * n)).toReal = x.toReal * y.toReal := by
      rw [hx.toReal_eq, hy.toReal_eq, hz.toReal_eq, Int.cast_mul]
    have hdown := (mulDown_isFloor hx hy hfactor hlarge).unsignedZero_eq
      (isFinite_of_units hz) hval
    have hup := (mulUp_isCeiling hx hy hfactor hlarge).unsignedZero_eq
      (isFinite_of_units hz) hval
    rw [← isInteger_unsignedZero, ← isInteger_unsignedZero (x := mulUp x y),
      hdown, hup, isInteger_unsignedZero]
    exact ⟨hz, hz⟩

end BoxCert.Binary64
