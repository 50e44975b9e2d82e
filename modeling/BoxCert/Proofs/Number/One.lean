import BoxCert.Proofs.Number.Monotone

/-!
# Multiplying by one, and the sign of a sum

A product with one is exact, so rounding it to nearest gives the other factor
back. The directed products do so too, except below the underflow guard. There
they step away from the rounded product without asking whether it is exact, and
a tiny number times one is no longer that number.

The sign of a directed sum is the sign of the exact one, spilled or not. That
is what makes a comparison by subtraction right.
-/

namespace BoxCert.Binary64

variable {x y z : Binary64} {m n : Int}

/-! ## One -/

theorem units?_one : units? 1 = some (oneUnits : Int) := by decide +kernel

theorem toEReal_one : toEReal 1 = 1 := by
  rw [toEReal_of_units units?_one, unit, Int.cast_natCast,
    mul_inv_cancel₀ (Nat.cast_ne_zero.2 oneUnits_pos.ne')]
  rfl

theorem toReal_one : toReal 1 = 1 := by
  rw [← EReal.coe_eq_coe_iff, ← toEReal_of_isFinite rfl, toEReal_one,
    EReal.coe_one]

theorem roundUnits_one_mul (h : Representable n) :
    roundUnits (oneUnits * n) oneUnits = n := by
  have hpos : (oneUnits : Int) ≠ 0 := Int.natCast_ne_zero.2 oneUnits_pos.ne'
  have hclosest := (nearest_roundUnits (oneUnits * n) oneUnits_pos).closest n h
  rw [Int.mul_comm n, Int.sub_self, Int.natAbs_zero, Nat.le_zero,
    Int.natAbs_eq_zero, Int.sub_eq_zero, Int.mul_comm _ (oneUnits : Int)]
    at hclosest
  exact (Int.eq_of_mul_eq_mul_left hpos hclosest).symm

/-- A product with one gives every number back, also one that is not finite. -/
theorem one_mul_eq (x : Binary64) : 1 * x = x := by
  cases x with
  | nan => rfl
  | infinite s =>
      show (if 1023 * 2 ^ 52 = 0 then nan else infinite (false != s)) = _
      rw [if_neg (by decide), Bool.false_bne]
  | finite s r =>
      by_cases hzero : r.val = 0
      · obtain rfl : r = ⟨0, by decide⟩ := Fin.ext hzero
        cases s <;> decide +kernel
      · have hx := units?_finite s r
        have hclamps := clamps_mul units?_one hx
        rw [roundUnits_one_mul (representable_of_units hx)] at hclamps
        refine eq_of_units (hclamps.units_eq (natAbs_lt_of_units hx)) hx ?_
        intro hn
        rw [← isZero_iff hx] at hn
        exact hzero (by simpa [isZero] using hn)

theorem mul_one_eq (x : Binary64) : x * 1 = x := by
  rw [mul_comm_eq, one_mul_eq]

section Nonzero

variable (hx : x.units? = some n) (hzero : x.isZero = false)

include hx hzero

/-- The error of a product with one is zero, so only the guard is left to
move it. -/
theorem mulDown_one :
    mulDown 1 x = if x.abs < underflowGuard then x.nextDown else x := by
  have hfin : (1 * x).isFinite = true := by
    rw [one_mul_eq, isFinite_of_units hx]
  have hfactor : ((1 : Binary64).isZero || x.isZero) = false := by
    rw [hzero]
    rfl
  rw [mulDown_of_finite units?_one hx hfactor hfin,
    roundUnits_one_mul (representable_of_units hx), Int.mul_comm n, one_mul_eq]
  simp only [Int.lt_irrefl, or_false]

theorem mulUp_one :
    mulUp 1 x = if x.abs < underflowGuard then x.nextUp else x := by
  have hdown := mulDown_one (units?_neg hx) ((isZero_neg x).trans hzero)
  have hfactor : ((1 : Binary64).isZero || x.isZero) = false := by
    rw [hzero]
    rfl
  rw [mulUp_eq_neg hfactor, ← mulDown_neg, hdown, abs_neg_eq,
    apply_ite Neg.neg, nextDown, neg_neg_eq, neg_neg_eq]

end Nonzero

/-- The numbers that the directed products with one leave as they are. -/
theorem directed_one_of_large (hx : x.isFinite = true)
    (h : x.isZero = true ∨ ¬ x.abs < underflowGuard) :
    (mulDown 1 x).toEReal = x.toEReal ∧ (mulUp 1 x).toEReal = x.toEReal := by
  obtain ⟨n, hn⟩ := exists_units hx
  cases hzero : x.isZero with
  | true =>
      have hfactor : ((1 : Binary64).isZero || x.isZero) = true := by
        rw [hzero]
        rfl
      rw [mulDown_of_zero hfactor, mulUp_of_zero hfactor, toEReal_zero,
        toEReal_of_isZero hzero]
      exact ⟨rfl, rfl⟩
  | false =>
      have hlarge := h.resolve_left (by rw [hzero]; exact Bool.false_ne_true)
      rw [mulDown_one hn hzero, mulUp_one hn hzero, if_neg hlarge,
        if_neg hlarge]
      exact ⟨rfl, rfl⟩

theorem mulDown_one_le (hx : x.isNan = false) :
    (mulDown 1 x).toEReal ≤ x.toEReal := by
  have hle := mulDown_le (x := 1) rfl hx
  rwa [toEReal_one, one_mul] at hle

theorem le_mulUp_one (hx : x.isNan = false) :
    x.toEReal ≤ (mulUp 1 x).toEReal := by
  have hle := le_mulUp (x := 1) rfl hx
  rwa [toEReal_one, one_mul] at hle

/-! ## Numbers of one value -/

theorem isFinite_of_le_of_le (hxy : x ≤ y) (hyz : y ≤ z)
    (hx : x.isFinite = true) (hz : z.isFinite = true) : y.isFinite = true := by
  obtain ⟨-, hy, hxy⟩ := le_iff.1 hxy
  have hyz := (le_iff.1 hyz).2.2
  rw [toEReal_of_isFinite hx] at hxy
  rw [toEReal_of_isFinite hz] at hyz
  rcases infinity_or_units hy with rfl | rfl | ⟨n, hn⟩
  · exact absurd hyz (not_le.2 (EReal.coe_lt_top _))
  · exact absurd hxy (not_le.2 (EReal.bot_lt_coe _))
  · exact isFinite_of_units hn

/-! ## The sign of a sum -/

theorem zero_lt_addDown_iff (hx : x.isNan = false) (hy : y.isNan = false) :
    0 < addDown x y ↔ 0 < x.toEReal + y.toEReal := by
  rw [lt_iff, toEReal_zero]
  constructor
  · intro h
    have hlt := lt_add_of_lt_addDown (t := 0) hx hy rfl
      (by rw [toEReal_zero]; exact h.2.2)
    rwa [toEReal_zero] at hlt
  · intro h
    refine ⟨rfl, isNan_addDown hx hy, ?_⟩
    rcases finite_or_infinite x y with ⟨m, n, hm, hn⟩ | hinf
    · -- A positive sum is one unit at least, and that is a number.
      have hunits : (finite false ⟨1, by decide⟩).units? = some 1 := by decide
      have hone : (1 : Int) ≤ m + n := by
        rw [toEReal_of_units hm, toEReal_of_units hn, ← EReal.coe_add,
          ← add_mul, EReal.coe_pos, mul_pos_iff_of_pos_right unit_pos] at h
        exact_mod_cast h
      have hle := le_addDown hx hy (isNan_of_units hunits) (by
        rw [toEReal_of_units hunits, toEReal_of_units hm, toEReal_of_units hn,
          ← EReal.coe_add, ← add_mul, EReal.coe_le_coe_iff,
          mul_le_mul_iff_left₀ unit_pos]
        exact_mod_cast hone)
      refine lt_of_lt_of_le ?_ (le_iff.1 hle).2.2
      rw [toEReal_of_units hunits, EReal.coe_pos, Int.cast_one, one_mul]
      exact unit_pos
    · rwa [addDown_of_infinite hx hy hinf]

theorem addUp_le_zero_iff (hx : x.isFinite = true) (hy : y.isFinite = true) :
    addUp x y ≤ 0 ↔ x.toEReal + y.toEReal ≤ 0 := by
  constructor
  · intro h
    refine add_le_of_addUp_le (isNan_of_isFinite hx) (isNan_of_isFinite hy)
      le_rfl ?_
    rw [← toEReal_zero]
    exact (le_iff.1 h).2.2
  · intro h
    exact addUp_le hx hy rfl (by rwa [toEReal_zero])

end BoxCert.Binary64
