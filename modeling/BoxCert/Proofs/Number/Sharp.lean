import BoxCert.Proofs.Number.One
import BoxCert.Proofs.Number.Spill

/-!
# Directed results are sharp

Rounding downwards should give the greatest number at or below the exact
result, and rounding upwards the least one at or above it. Sums do so unless
they spill, whatever cancels or leaves the range on the way; a sum that is a
number is that number. Products do so from the underflow guard on and where
they leave the range. Below the guard the two results are the neighbours of the
rounded product, which still lie on either side of the exact one.
-/

namespace BoxCert.Binary64

variable {x y z : Binary64} {m n : Int} {r : ℝ}

/-- Whether `x` is the greatest number at or below a real number. -/
structure IsFloor (x : Binary64) (r : ℝ) : Prop where
  isNan_eq : x.isNan = false
  le : x.toEReal ≤ r
  greatest : ∀ t : Binary64, t.isNan = false → t.toEReal ≤ r → t ≤ x

/-- Whether `x` is the least number at or above a real number. -/
structure IsCeiling (x : Binary64) (r : ℝ) : Prop where
  isNan_eq : x.isNan = false
  le : r ≤ x.toEReal
  least : ∀ t : Binary64, t.isNan = false → r ≤ t.toEReal → x ≤ t

/-- Whether no number lies between `x` and the greater `y`. -/
structure StepsTo (x y : Binary64) : Prop where
  lt : x < y
  le_of_lt : ∀ t : Binary64, t < y → t ≤ x

theorem toReal_neg (hx : x.isFinite = true) : (-x).toReal = -x.toReal := by
  obtain ⟨n, hn⟩ := exists_units hx
  rw [toReal_of_units hn, toReal_of_units (units?_neg hn), Int.cast_neg,
    neg_mul]

/-- A floor with its sign turned around is a ceiling. -/
theorem IsFloor.isCeiling_of_neg (h : x.IsFloor (-r)) (hy : y.isNan = false)
    (hval : y.toEReal = -x.toEReal) : y.IsCeiling r where
  isNan_eq := hy
  le := by
    rw [hval, EReal.le_neg]
    exact h.le
  least t ht hle := by
    have hgreatest := h.greatest (-t) (by rwa [isNan_neg])
      (by rw [toEReal_neg, EReal.coe_neg]; exact EReal.neg_le_neg_iff.2 hle)
    have hle := (le_iff.1 hgreatest).2.2
    rw [toEReal_neg, EReal.neg_le, ← hval] at hle
    exact le_iff.2 ⟨hy, ht, hle⟩

/-- A real number that is a number is its own floor and ceiling. -/
theorem IsFloor.unsignedZero_eq (h : x.IsFloor r) (hz : z.isFinite = true)
    (hr : z.toReal = r) : x.unsignedZero = z.unsignedZero := by
  have hval := toEReal_of_isFinite hz
  have hnan := isNan_of_isFinite hz
  rw [hr] at hval
  exact unsignedZero_congr h.isNan_eq hnan (le_antisymm (h.le.trans hval.ge)
    (le_iff.1 (h.greatest z hnan hval.le)).2.2)

theorem IsCeiling.unsignedZero_eq (h : x.IsCeiling r) (hz : z.isFinite = true)
    (hr : z.toReal = r) : x.unsignedZero = z.unsignedZero := by
  have hval := toEReal_of_isFinite hz
  have hnan := isNan_of_isFinite hz
  rw [hr] at hval
  exact unsignedZero_congr h.isNan_eq hnan
    (le_antisymm (le_iff.1 (h.least z hnan hval.ge)).2.2 (hval.le.trans h.le))

/-! ## Sums -/

section Sums

variable (hx : x.isFinite = true) (hy : y.isFinite = true)

include hx hy

theorem toEReal_add_of_isFinite :
    x.toEReal + y.toEReal = ((x.toReal + y.toReal : ℝ) : EReal) := by
  rw [toEReal_of_isFinite hx, toEReal_of_isFinite hy, EReal.coe_add]

theorem addDown_isFloor_iff :
    (addDown x y).IsFloor (x.toReal + y.toReal) ↔
      ¬ (y = greatest false ∧ (-x).IsOddHalfSteps) := by
  have hxn := isNan_of_isFinite hx
  have hyn := isNan_of_isFinite hy
  have hsum := toEReal_add_of_isFinite hx hy
  rw [← spillsBelow_iff_isOddHalfSteps hx hy, Bool.not_eq_true]
  constructor
  · intro h
    rw [← Bool.not_eq_true, spillsBelow_iff hxn hyn, hsum, not_lt]
    exact h.le
  · intro h
    exact ⟨isNan_addDown hxn hyn, hsum ▸ addDown_le hxn hyn h,
      fun t ht hle => le_addDown hxn hyn ht (hle.trans hsum.ge)⟩

theorem addUp_isCeiling_iff :
    (addUp x y).IsCeiling (x.toReal + y.toReal) ↔
      ¬ (y = greatest true ∧ x.IsOddHalfSteps) := by
  have hxn := isNan_of_isFinite hx
  have hyn := isNan_of_isFinite hy
  have hsum := toEReal_add_of_isFinite hx hy
  rw [← spillsAbove_iff_isOddHalfSteps hx hy, Bool.not_eq_true]
  constructor
  · intro h
    rw [← Bool.not_eq_true, spillsAbove_iff hxn hyn, hsum, not_lt]
    exact h.le
  · intro h
    exact ⟨isNan_addUp hxn hyn, hsum ▸ le_addUp hxn hyn h,
      fun t ht hle => addUp_le hx hy ht (hsum.le.trans hle)⟩

/-- A sum that is a number is not rounded, so it does not spill either. -/
theorem add_of_toReal_eq (hz : z.isFinite = true)
    (hsum : z.toReal = x.toReal + y.toReal) :
    addDown x y = x + y ∧ addUp x y = x + y ∧
      (x + y).unsignedZero = z.unsignedZero := by
  obtain ⟨m, hm⟩ := exists_units hx
  obtain ⟨n, hn⟩ := exists_units hy
  obtain ⟨k, hk⟩ := exists_units hz
  rw [toReal_of_units hm, toReal_of_units hn, toReal_of_units hk, ← add_mul,
    mul_left_inj' unit_pos.ne', ← Int.cast_add, Int.cast_inj] at hsum
  subst hsum
  have hunits := units?_of_clamps (clamps_add hm hn)
    (representable_of_units hk) (natAbs_lt_of_units hk)
  have hspill : sumSpills x y = false := by
    by_contra hspill
    rw [Bool.not_eq_false] at hspill
    obtain ⟨v, hv, hup, hdown, -⟩ := rounded_of_sumSpills hm hn hspill
    cases hunits.symm.trans hv
    omega
  obtain ⟨hlow, hhigh⟩ := directed_of_exact hm hn hunits hspill
  refine ⟨hlow, hhigh, unsignedZero_congr (isNan_of_units hunits)
    (isNan_of_units hk) ?_⟩
  rw [toEReal_of_units hunits, toEReal_of_units hk]

end Sums

/-- Directed sums and differences of finite numbers are sharp, unless a largest
number is added to a number of half steps that is negative against it and
leaves three when divided by four. A sum that is a number comes back unchanged
in any case. -/
theorem directed_sum_sharp (hx : x.isFinite = true) (hy : y.isFinite = true) :
    ((addDown x y).IsFloor (x.toReal + y.toReal) ↔
      ¬ (y = greatest false ∧ (-x).IsOddHalfSteps)) ∧
    ((addUp x y).IsCeiling (x.toReal + y.toReal) ↔
      ¬ (y = greatest true ∧ x.IsOddHalfSteps)) ∧
    ((subDown x y).IsFloor (x.toReal - y.toReal) ↔
      ¬ (y = greatest true ∧ (-x).IsOddHalfSteps)) ∧
    ((subUp x y).IsCeiling (x.toReal - y.toReal) ↔
      ¬ (y = greatest false ∧ x.IsOddHalfSteps)) ∧
    (∀ z : Binary64, z.isFinite = true → z.toReal = x.toReal + y.toReal →
      addDown x y = x + y ∧ addUp x y = x + y ∧
        (x + y).unsignedZero = z.unsignedZero) ∧
    (∀ z : Binary64, z.isFinite = true → z.toReal = x.toReal - y.toReal →
      subDown x y = x - y ∧ subUp x y = x - y ∧
        (x - y).unsignedZero = z.unsignedZero) := by
  have hneg : (-y).isFinite = true := by rwa [isFinite_neg]
  have hsub : x.toReal - y.toReal = x.toReal + (-y).toReal := by
    rw [toReal_neg hy, sub_eq_add_neg]
  refine ⟨addDown_isFloor_iff hx hy, addUp_isCeiling_iff hx hy, ?_, ?_,
    fun z => add_of_toReal_eq hx hy, fun z hz h => ?_⟩
  · rw [hsub, subDown, addDown_isFloor_iff hx hneg, neg_eq_greatest_iff]
    rfl
  · rw [hsub, subUp, addUp_isCeiling_iff hx hneg, neg_eq_greatest_iff]
    rfl
  · rw [hsub] at h
    exact add_of_toReal_eq hx hneg hz h

/-- A number that is tiny against one, ten to the minus thirtieth. -/
def tinyAddend : Binary64 := ofBits 0x39b4484bfeebc2a0

theorem directed_sum_sharp_tinyAddend :
    isFinite 1 = true ∧ tinyAddend.isFinite = true ∧
    addDown 1 tinyAddend = 1 ∧
    IsFloor 1 (toReal 1 + tinyAddend.toReal) ∧
    addUp 1 tinyAddend = ofBits 0x3ff0000000000001 ∧
    (ofBits 0x3ff0000000000001).IsCeiling (toReal 1 + tinyAddend.toReal) := by
  have hx : isFinite 1 = true := rfl
  have hy : tinyAddend.isFinite = true := by decide
  have hdown : addDown 1 tinyAddend = 1 := by decide +kernel
  have hup : addUp 1 tinyAddend = ofBits 0x3ff0000000000001 := by
    decide +kernel
  obtain ⟨hfloor, hceiling, -⟩ := directed_sum_sharp hx hy
  rw [hdown] at hfloor
  rw [hup] at hceiling
  exact ⟨hx, hy, hdown, hfloor.2 (by rintro ⟨h, -⟩; exact absurd h (by decide)),
    hup, hceiling.2 (by rintro ⟨h, -⟩; exact absurd h (by decide))⟩

/-- Three half steps taken from the largest number leave less than the sum
rounded downwards. -/
theorem sum_below_addDown :
    (ofBits 0xfca8000000000000).isFinite = true ∧
    (greatest false).isFinite = true ∧
    ¬ (addDown (ofBits 0xfca8000000000000) (greatest false)).IsFloor
      ((ofBits 0xfca8000000000000).toReal + (greatest false).toReal) := by
  have hx : (ofBits 0xfca8000000000000).isFinite = true := by decide
  have hspill : spillsBelow (ofBits 0xfca8000000000000) (greatest false) =
      true := by decide +kernel
  rw [spillsBelow_iff (isNan_of_isFinite hx) rfl,
    toEReal_add_of_isFinite hx rfl] at hspill
  exact ⟨hx, rfl, fun h => hspill.not_ge h.le⟩

/-! ## Products -/

section Products

variable (hx : x.units? = some m) (hy : y.units? = some n)

include hx hy

theorem toEReal_mul_of_units :
    x.toEReal * y.toEReal = ((x.toReal * y.toReal : ℝ) : EReal) := by
  rw [toEReal_of_isFinite (isFinite_of_units hx),
    toEReal_of_isFinite (isFinite_of_units hy), EReal.coe_mul]

/-- The product rounded to nearest is not below a number that the exact product
is not below. -/
theorem le_mul_of_le {k : Int} (ht : z.units? = some k)
    (hle : k * oneUnits ≤ m * n) : z ≤ x * y := by
  have hround := roundUnits_mono oneUnits_pos hle
  rw [Int.mul_comm, roundUnits_one_mul (representable_of_units ht)] at hround
  have hclamps := clamps_mul hx hy
  exact le_iff.2 ⟨isNan_of_units ht, hclamps.isNan_eq,
    (clamps_of_units ht).toEReal_mono hclamps hround⟩

/-- A product that is not below the guard has no zero factor. -/
theorem mul_ne_zero_of_large (hlarge : ¬ (x * y).abs < underflowGuard) :
    (x.isZero || y.isZero) = false := by
  refine Bool.eq_false_iff.2 fun h => hlarge ?_
  have hclamps := clamps_mul hx hy
  rw [units_mul_of_zero hx hy h,
    show roundUnits 0 oneUnits = 0 by decide +kernel] at hclamps
  exact (abs_lt_guard_iff (hclamps.units_eq overflowUnits_pos)).2 (by decide)

theorem mulDown_isFloor (hzero : (x.isZero || y.isZero) = false)
    (hlarge : ¬ (x * y).abs < underflowGuard) :
    (mulDown x y).IsFloor (x.toReal * y.toReal) := by
  have hprod := toEReal_mul_of_units hx hy
  have hclamps := clamps_mul hx hy
  have hnan := (mulDown_isBelow hx hy).isNan_eq
  refine ⟨hnan, hprod ▸ mulDown_le (isNan_of_units hx) (isNan_of_units hy),
    fun t ht hle => ?_⟩
  rcases infinity_or_units ht with rfl | rfl | ⟨k, hk⟩
  · exact absurd hle (not_le.2 (EReal.coe_lt_top _))
  · exact le_iff.2 ⟨rfl, hnan, bot_le⟩
  rw [← hprod, ← mul_one t.toEReal, ← toEReal_one,
    mul_toEReal_le_iff hx hy hk units?_one] at hle
  have hmul := le_mul_of_le hx hy hk hle
  cases hfin : (x * y).isFinite with
  | false =>
      rw [mulDown_of_not_finite hzero hfin]
      refine le_lowerUnbounded (isFinite_of_units hx) (isFinite_of_units hy)
        hfin hmul ?_
      rintro rfl
      cases hk
  | true =>
      have hunits := hclamps.units_of_isFinite hfin
      rw [mulDown_of_finite hx hy hzero hfin]
      split
      · next hlow =>
          -- The number lies below the exact product, which is rounded up.
          have hlt := hle.trans_lt (hlow.resolve_left hlarge)
          refine le_nextDown_of_lt hfin
            ((lt_iff_reach ht hclamps.isNan_eq).2 ?_)
          rw [reach_of_units hk, reach_of_units hunits]
          exact Int.lt_of_mul_lt_mul_right hlt (Int.natCast_nonneg _)
      · exact hmul

theorem mulUp_isCeiling (hzero : (x.isZero || y.isZero) = false)
    (hlarge : ¬ (x * y).abs < underflowGuard) :
    (mulUp x y).IsCeiling (x.toReal * y.toReal) := by
  have hfloor := mulDown_isFloor (units?_neg hx) hy (by rwa [isZero_neg])
    (by rwa [neg_mul_eq, abs_neg_eq])
  rw [toReal_neg (isFinite_of_units hx), neg_mul] at hfloor
  exact hfloor.isCeiling_of_neg
    (isNan_mulUp (isNan_of_units hx) (isNan_of_units hy)) (toEReal_mulUp x y)

end Products

/-! ## Below the guard -/

theorem nextDown_stepsTo (hx : x.isFinite = true) : x.nextDown.StepsTo x := by
  obtain ⟨i, hi⟩ := exists_place_of_isNan (isNan_of_isFinite hx)
  refine ⟨(lt_iff_place (place?_nextDown hx hi) hi).2 (by omega), ?_⟩
  exact fun t => le_nextDown_of_lt hx

theorem stepsTo_nextUp (hx : x.isFinite = true) : x.StepsTo x.nextUp := by
  obtain ⟨i, hi⟩ := exists_place_of_isNan (isNan_of_isFinite hx)
  have hnext := place?_nextUp hx hi
  refine ⟨(lt_iff_place hi hnext).2 (by omega), fun t ht => ?_⟩
  obtain ⟨j, hj⟩ := exists_place_of_isNan (isNan_of_lt ht).1
  rw [lt_iff_place hj hnext] at ht
  exact (le_iff_place hj hi).2 (by omega)

theorem toReal_eq_zero_iff (hx : x.isFinite = true) :
    x.toReal = 0 ↔ x.isZero = true := by
  obtain ⟨n, hn⟩ := exists_units hx
  rw [toReal_of_units hn, isZero_iff hn, mul_eq_zero_iff_right unit_pos.ne',
    Int.cast_eq_zero]

theorem two_pow_mul_unit : (2 : ℝ) ^ 114 * unit = 2 ^ (-960 : ℤ) := by
  obtain ⟨e, he, hsum⟩ := exists_oneUnits_eq
  rw [show 1074 = 114 + 960 by decide] at hsum
  rw [unit, he, Nat.cast_pow, Nat.cast_two, hsum, pow_add, mul_inv,
    mul_inv_cancel_left₀ (pow_ne_zero _ two_ne_zero), zpow_neg]
  rfl

/-- The underflow guard in real numbers. -/
theorem abs_lt_guard_iff_toReal (hx : x.isFinite = true) :
    x.abs < underflowGuard ↔ |x.toReal| < 2 ^ (-960 : ℤ) := by
  obtain ⟨n, hn⟩ := exists_units hx
  rw [abs_lt_guard_iff hn, toReal_of_units hn, abs_mul, abs_of_pos unit_pos,
    ← two_pow_mul_unit, mul_lt_mul_iff_left₀ unit_pos, ← Int.cast_abs,
    Int.abs_eq_natAbs]
  norm_cast

theorem not_abs_lt_guard (hx : x.isFinite = false ∨
    2 ^ (-960 : ℤ) ≤ |x.toReal|) : ¬ x.abs < underflowGuard := by
  cases hfin : x.isFinite with
  | true =>
      rw [abs_lt_guard_iff_toReal hfin, not_lt]
      exact hx.resolve_left (by simp [hfin])
  | false =>
      cases x with
      | nan => decide
      | infinite s => cases s <;> decide
      | finite s r => cases hfin

/-- Directed products of finite numbers lie on either side of the exact
product. A zero factor makes them zero. They are sharp where the product
rounded to nearest is not below the underflow guard or leaves the range, and
elsewhere the neighbours of that product. -/
theorem directed_product_sharp (hx : x.isFinite = true)
    (hy : y.isFinite = true) :
    ((mulDown x y).isNan = false ∧ (mulUp x y).isNan = false ∧
      (mulDown x y).toEReal ≤ (x.toReal * y.toReal : ℝ) ∧
      (x.toReal * y.toReal : ℝ) ≤ (mulUp x y).toEReal) ∧
    (x.toReal = 0 ∨ y.toReal = 0 → mulDown x y = 0 ∧ mulUp x y = 0) ∧
    ((x * y).isFinite = false ∨ 2 ^ (-960 : ℤ) ≤ |(x * y).toReal| →
      (mulDown x y).IsFloor (x.toReal * y.toReal) ∧
      (mulUp x y).IsCeiling (x.toReal * y.toReal) ∧
      ∀ z : Binary64, z.isFinite = true → z.toReal = x.toReal * y.toReal →
        (mulDown x y).unsignedZero = z.unsignedZero ∧
        (mulUp x y).unsignedZero = z.unsignedZero) ∧
    (x.toReal ≠ 0 → y.toReal ≠ 0 → (x * y).isFinite = true →
      |(x * y).toReal| < 2 ^ (-960 : ℤ) →
      (mulDown x y).StepsTo (x * y) ∧ (x * y).StepsTo (mulUp x y)) := by
  obtain ⟨m, hm⟩ := exists_units hx
  obtain ⟨n, hn⟩ := exists_units hy
  have hxn := isNan_of_isFinite hx
  have hyn := isNan_of_isFinite hy
  have hprod := toEReal_mul_of_units hm hn
  rw [ne_eq, ne_eq, toReal_eq_zero_iff hx, toReal_eq_zero_iff hy]
  refine ⟨⟨isNan_mulDown hxn hyn, isNan_mulUp hxn hyn,
    hprod ▸ mulDown_le hxn hyn, hprod ▸ le_mulUp hxn hyn⟩, fun hfactor => ?_,
    fun hlarge => ?_, fun hfactor hfactor' hfin hsmall => ?_⟩
  · rw [← Bool.or_eq_true] at hfactor
    exact ⟨mulDown_of_zero hfactor, mulUp_of_zero hfactor⟩
  · have hbig := not_abs_lt_guard hlarge
    have hzero := mul_ne_zero_of_large hm hn hbig
    have hfloor := mulDown_isFloor hm hn hzero hbig
    have hceiling := mulUp_isCeiling hm hn hzero hbig
    exact ⟨hfloor, hceiling, fun z hz hval =>
      ⟨hfloor.unsignedZero_eq hz hval, hceiling.unsignedZero_eq hz hval⟩⟩
  · have hzero : (x.isZero || y.isZero) = false := by simp [hfactor, hfactor']
    rw [← abs_lt_guard_iff_toReal hfin] at hsmall
    rw [mulDown_of_small hzero hfin hsmall, mulUp_of_small hzero hfin hsmall]
    exact ⟨nextDown_stepsTo hfin, stepsTo_nextUp hfin⟩

/-- The square of a tenth is no number, so the two results are the numbers next
to it. The square of the least positive number rounds to zero, and the results
are that number under either sign. -/
theorem directed_product_sharp_squares :
    mulDown (ofBits 0x3fb999999999999a) (ofBits 0x3fb999999999999a) =
      ofBits 0x3f847ae147ae147b ∧
    mulUp (ofBits 0x3fb999999999999a) (ofBits 0x3fb999999999999a) =
      ofBits 0x3f847ae147ae147c ∧
    (ofBits 0x3f847ae147ae147b).IsFloor
      ((ofBits 0x3fb999999999999a).toReal *
        (ofBits 0x3fb999999999999a).toReal) ∧
    (ofBits 0x3f847ae147ae147c).IsCeiling
      ((ofBits 0x3fb999999999999a).toReal *
        (ofBits 0x3fb999999999999a).toReal) ∧
    (ofBits 0x8000000000000001).StepsTo (ofBits 1 * ofBits 1) ∧
    (ofBits 1 * ofBits 1).StepsTo (ofBits 1) := by
  have htenth : (ofBits 0x3fb999999999999a).isFinite = true := by decide
  have htiny : (ofBits 1).isFinite = true := by decide
  have hdown : mulDown (ofBits 0x3fb999999999999a)
      (ofBits 0x3fb999999999999a) = ofBits 0x3f847ae147ae147b := by
    decide +kernel
  have hup : mulUp (ofBits 0x3fb999999999999a)
      (ofBits 0x3fb999999999999a) = ofBits 0x3f847ae147ae147c := by
    decide +kernel
  have hdown' : mulDown (ofBits 1) (ofBits 1) = ofBits 0x8000000000000001 := by
    decide +kernel
  have hup' : mulUp (ofBits 1) (ofBits 1) = ofBits 1 := by decide +kernel
  have hlarge : 2 ^ (-960 : ℤ) ≤
      |(ofBits 0x3fb999999999999a * ofBits 0x3fb999999999999a).toReal| :=
    not_lt.1 (mt (abs_lt_guard_iff_toReal (by decide +kernel)).2
      (by decide +kernel))
  have hfin : (ofBits 1 * ofBits 1).isFinite = true := by decide +kernel
  have hsmall : |(ofBits 1 * ofBits 1).toReal| < 2 ^ (-960 : ℤ) :=
    (abs_lt_guard_iff_toReal hfin).1 (by decide +kernel)
  have hne : (ofBits 1).toReal ≠ 0 :=
    mt (toReal_eq_zero_iff htiny).1 (by decide)
  obtain ⟨-, -, hsharp, -⟩ := directed_product_sharp htenth htenth
  obtain ⟨hfloor, hceiling, -⟩ := hsharp (.inr hlarge)
  obtain ⟨-, -, -, hnext⟩ := directed_product_sharp htiny htiny
  obtain ⟨hbelow, habove⟩ := hnext hne hne hfin hsmall
  rw [hdown] at hfloor
  rw [hup] at hceiling
  rw [hdown'] at hbelow
  rw [hup'] at habove
  exact ⟨hdown, hup, hfloor, hceiling, hbelow, habove⟩

end BoxCert.Binary64
