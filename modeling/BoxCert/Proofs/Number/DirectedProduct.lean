import BoxCert.Proofs.Number.DirectedSum

/-!
# Directed products

The products rounded downwards and upwards bound the exact product, for all
operands. The error of a product comes from one fused operation, which rounds
it once more; it keeps its sign because above the underflow guard both factors
together have enough trailing zeros for the exact product to be a whole number
of units, and so is its error. Below the guard the error is not asked.

A zero factor makes the product zero whatever the other factor is, as in the
extended reals.
-/

namespace BoxCert.Binary64

variable {x y : Binary64} {m n : Int}

/-! ## The recovered error -/

theorem units?_abs (hx : x.units? = some n) : x.abs.units? = some n.natAbs := by
  obtain ⟨s, r, rfl, rfl⟩ := exists_rank_of_units hx
  rw [signed_natAbs]
  rfl

theorem units?_underflowGuard : underflowGuard.units? = some (2 ^ 114) := by
  decide

theorem abs_lt_guard_iff (hx : x.units? = some n) :
    x.abs < underflowGuard ↔ n.natAbs < 2 ^ 114 := by
  rw [lt_iff_reach (isNan_of_units (units?_abs hx)) rfl,
    reach_of_units (units?_abs hx), reach_of_units units?_underflowGuard]
  omega

/-- The exact product of two numbers is a whole number of units once the
rounded one is as large as the guard. -/
theorem oneUnits_dvd_mul {v : Int} (hm : Representable m)
    (hn : Representable n) (hv : Nearest v (m * n) oneUnits)
    (hguard : 2 ^ 114 ≤ v.natAbs) : (oneUnits : Int) ∣ m * n := by
  have hpos := oneUnits_pos
  have hlarge : 2 ^ 113 * oneUnits ≤ (m * n).natAbs := by
    by_contra hlt
    have hup := hv.le_of_le (u := 2 ^ 113) (.two_pow_mul 113 (q := 1) (by decide))
      hpos (by omega)
    have hdown := hv.ge_of_ge (u := -2 ^ 113)
      (.two_pow_mul 113 (q := -1) (by decide)) hpos (by omega)
    omega
  obtain ⟨k, hk, hmk⟩ := hm.exists_step
  obtain ⟨l, hl, hnl⟩ := hn.exists_step
  have hsmall : (m * n).natAbs < 2 ^ 106 * 2 ^ (k + l) := by
    rw [Int.natAbs_mul, Nat.pow_add 2 k l]
    calc m.natAbs * n.natAbs < 2 ^ 53 * 2 ^ k * (2 ^ 53 * 2 ^ l) :=
          Nat.mul_lt_mul'' hmk hnl
      _ = 2 ^ 106 * (2 ^ k * 2 ^ l) := by ring
  -- The product lies on the grid of both factors; being this large, that grid
  -- is at least as coarse as the units of a product.
  have hdvd : (2 : Int) ^ (k + l) ∣ m * n := by
    rw [pow_add]
    exact mul_dvd_mul hk hl
  obtain ⟨e, he⟩ : ∃ e, oneUnits = 2 ^ e := ⟨1074, rfl⟩
  rw [he] at hlarge ⊢
  have hle : e ≤ k + l := by
    by_contra hlt
    have := Nat.pow_le_pow_right (n := 2) (by decide) (Nat.le_of_not_le hlt)
    omega
  rw [Int.natCast_pow]
  exact dvd_trans (pow_dvd_pow 2 hle) hdvd

/-- A whole number of units keeps its sign when it is rounded. -/
theorem lt_zero_iff_of_nearest_mul {w k : Int} {den : Nat}
    (h : Nearest w (k * den) den) (hden : 0 < den) : w < 0 ↔ k < 0 := by
  have hmul := fun {a b : Int} (hab : a ≤ b) =>
    Int.mul_le_mul_of_nonneg_right hab (Int.natCast_nonneg den)
  rcases Int.lt_or_le k 0 with hneg | hnonneg
  · have := h.le_of_le (u := -1) (.of_natAbs_le (by decide)) hden
      (hmul (by omega))
    omega
  · have := h.ge_of_ge .zero hden (hmul hnonneg)
    omega

/-- Above the guard the fused operation finds the sign of the error. -/
theorem mulAdd_lt_zero_iff {v : Int} (hx : x.units? = some m)
    (hy : y.units? = some n) (hp : (x * y).units? = some v)
    (hv : Nearest v (m * n) oneUnits) (hguard : 2 ^ 114 ≤ v.natAbs) :
    mulAdd x y (-(x * y)) < 0 ↔ m * n < v * oneUnits := by
  have hpos : (0 : Int) < oneUnits := Int.natCast_pos.2 oneUnits_pos
  have hclamps := clamps_mulAdd hx hy (units?_neg hp)
  have hnear := nearest_roundUnits (m * n + -v * oneUnits) oneUnits_pos
  rw [hclamps.lt_zero_iff]
  obtain ⟨q, hq⟩ := oneUnits_dvd_mul (representable_of_units hx)
    (representable_of_units hy) hv hguard
  -- What is rounded is a whole number of units, so its sign survives.
  rw [hq, Int.mul_comm, ← Int.add_mul] at hnear ⊢
  rw [lt_zero_iff_of_nearest_mul hnear oneUnits_pos, Int.mul_lt_mul_right hpos]
  omega

/-! ## Finite operands -/

theorem nearest_mul : Nearest (roundUnits (m * n) oneUnits) (m * n) oneUnits :=
  nearest_roundUnits _ oneUnits_pos

theorem units_mul_of_zero (hx : x.units? = some m) (hy : y.units? = some n)
    (h : (x.isZero || y.isZero) = true) : m * n = 0 := by
  rw [Bool.or_eq_true, isZero_iff hx, isZero_iff hy] at h
  exact Int.mul_eq_zero.2 h

theorem mulDown_isBelow (hx : x.units? = some m) (hy : y.units? = some n) :
    (mulDown x y).IsBelow (m * n) oneUnits := by
  have hpos := oneUnits_pos
  have hclamps := clamps_mul hx hy
  cases hzero : (x.isZero || y.isZero) with
  | true =>
      rw [mulDown_of_zero hzero]
      refine .inr ⟨0, units?_zero, ?_⟩
      rw [units_mul_of_zero hx hy hzero, Int.zero_mul]
  | false =>
      cases hfin : (x * y).isFinite with
      | false =>
          rw [mulDown_of_not_finite hzero hfin]
          exact lowerUnbounded_isBelow hx hy hclamps hfin nearest_mul hpos
      | true =>
          have hp := hclamps.units_of_isFinite hfin
          by_cases hsmall : (x * y).abs < underflowGuard
          · rw [mulDown_of_small hzero hfin hsmall]
            exact nextDown_isBelow hp nearest_mul hpos
          · rw [mulDown_of_large hzero hfin hsmall]
            rw [abs_lt_guard_iff hp, not_lt] at hsmall
            have hsign := mulAdd_lt_zero_iff hx hy hp nearest_mul hsmall
            split
            · exact nextDown_isBelow hp nearest_mul hpos
            · next hneg =>
                rw [hsign, not_lt] at hneg
                exact .inr ⟨_, hp, hneg⟩

/-! ## All operands -/

theorem quotient_mul (m n : Int) : (quotient (m * n) oneUnits : EReal) =
    ((m * unit : ℝ) : EReal) * (n * unit : ℝ) := by
  rw [← EReal.coe_mul, quotient, unit, div_eq_mul_inv, Int.cast_mul]
  generalize ((oneUnits : Nat) : ℝ)⁻¹ = u
  congr 1
  ring

theorem infinite_mul (s : Bool) (hy : y.isNan = false)
    (hzero : y.isZero = false) :
    ∃ t, infinite s * y = infinite t ∧ y * infinite s = infinite t ∧
      (infinite t).toEReal = (infinite s).toEReal * y.toEReal := by
  cases y with
  | nan => cases hy
  | infinite t =>
      refine ⟨s != t, rfl, by cases s <;> cases t <;> rfl, ?_⟩
      cases s <;> cases t <;> rfl
  | finite t b =>
      have hb : b.val ≠ 0 := by simpa [isZero] using hzero
      refine ⟨s != t, if_neg hb, ?_, ?_⟩
      · rw [show (s != t) = (t != s) from bne_comm]
        exact if_neg hb
      · have hpos := magnitudeUnits_strictMono (Nat.pos_of_ne_zero hb)
        rw [toEReal_of_units (units?_finite t b)]
        cases t with
        | false =>
            have hv : 0 < ((signed false (magnitudeUnits b) : Int) : ℝ) * unit :=
              mul_pos (Int.cast_pos.2 (Int.natCast_pos.2 hpos)) unit_pos
            cases s
            · exact (EReal.top_mul_coe_of_pos hv).symm
            · exact (EReal.bot_mul_coe_of_pos hv).symm
        | true =>
            have hv : ((signed true (magnitudeUnits b) : Int) : ℝ) * unit < 0 :=
              mul_neg_of_neg_of_pos (Int.cast_lt_zero.2
                (Int.neg_neg_of_pos (Int.natCast_pos.2 hpos))) unit_pos
            cases s
            · exact (EReal.top_mul_coe_of_neg hv).symm
            · exact (EReal.bot_mul_coe_of_neg hv).symm

theorem exists_mul_eq_infinite (hx : x.isNan = false) (hy : y.isNan = false)
    (hinf : x.isFinite = false ∨ y.isFinite = false)
    (hzero : (x.isZero || y.isZero) = false) :
    ∃ t, x * y = infinite t ∧
      (infinite t).toEReal = x.toEReal * y.toEReal := by
  rw [Bool.or_eq_false_iff] at hzero
  rcases hinf with hinf | hinf
  · cases x with
    | nan => cases hx
    | finite s a => cases hinf
    | infinite s =>
        obtain ⟨t, hprod, -, hval⟩ := infinite_mul s hy hzero.2
        exact ⟨t, hprod, hval⟩
  · cases y with
    | nan => cases hy
    | finite s a => cases hinf
    | infinite s =>
        obtain ⟨t, -, hprod, hval⟩ := infinite_mul s hx hzero.1
        exact ⟨t, hprod, by rw [hval, mul_comm]⟩

theorem mulDown_of_infinite (hx : x.isNan = false) (hy : y.isNan = false)
    (hinf : x.isFinite = false ∨ y.isFinite = false)
    (hzero : (x.isZero || y.isZero) = false) :
    ∃ t, mulDown x y = infinite t ∧
      (infinite t).toEReal = x.toEReal * y.toEReal := by
  obtain ⟨t, hprod, hval⟩ := exists_mul_eq_infinite hx hy hinf hzero
  have hfin : (x * y).isFinite = false := by
    rw [hprod]
    rfl
  have hoperands : (x.isFinite && y.isFinite) = false := by
    rcases hinf with hinf | hinf <;> simp [hinf]
  refine ⟨t, ?_, hval⟩
  rw [mulDown_of_not_finite hzero hfin, hprod, lowerUnbounded, hx, hy,
    hoperands, Bool.and_false]
  rfl

theorem mul_toEReal_of_zero (h : (x.isZero || y.isZero) = true) :
    x.toEReal * y.toEReal = 0 := by
  rw [Bool.or_eq_true] at h
  rcases h with h | h
  · rw [toEReal_of_isZero h, zero_mul]
  · rw [toEReal_of_isZero h, mul_zero]

/-- An infinite factor leaves nothing to round, also against a zero. -/
theorem toEReal_mulDown_of_infinite (hx : x.isNan = false)
    (hy : y.isNan = false) (hinf : x.isFinite = false ∨ y.isFinite = false) :
    (mulDown x y).toEReal = x.toEReal * y.toEReal := by
  cases hzero : (x.isZero || y.isZero) with
  | true => rw [mulDown_of_zero hzero, mul_toEReal_of_zero hzero, toEReal_zero]
  | false =>
      obtain ⟨t, hdown, hval⟩ := mulDown_of_infinite hx hy hinf hzero
      rw [hdown, hval]

theorem isNan_mulDown (hx : x.isNan = false) (hy : y.isNan = false) :
    (mulDown x y).isNan = false := by
  rcases finite_or_infinite x y with ⟨m, n, hm, hn⟩ | hinf
  · exact (mulDown_isBelow hm hn).isNan_eq
  · cases hzero : (x.isZero || y.isZero) with
    | true => rw [mulDown_of_zero hzero]; rfl
    | false =>
        obtain ⟨t, hdown, -⟩ := mulDown_of_infinite hx hy hinf hzero
        rw [hdown]
        rfl

theorem isNan_mulUp (hx : x.isNan = false) (hy : y.isNan = false) :
    (mulUp x y).isNan = false := by
  rw [(mulUp_agrees x y).isNan_eq, isNan_neg]
  exact isNan_mulDown ((isNan_neg x).trans hx) hy

/-- The product rounded downwards is a lower bound of the exact product. -/
theorem mulDown_le (hx : x.isNan = false) (hy : y.isNan = false) :
    (mulDown x y).toEReal ≤ x.toEReal * y.toEReal := by
  rcases finite_or_infinite x y with ⟨m, n, hm, hn⟩ | hinf
  · rw [toEReal_of_units hm, toEReal_of_units hn, ← quotient_mul]
    exact (mulDown_isBelow hm hn).toEReal_le oneUnits_pos
  · exact (toEReal_mulDown_of_infinite hx hy hinf).le

theorem le_mulUp (hx : x.isNan = false) (hy : y.isNan = false) :
    x.toEReal * y.toEReal ≤ (mulUp x y).toEReal := by
  rw [toEReal_mulUp, EReal.le_neg, ← EReal.neg_mul, ← toEReal_neg]
  exact mulDown_le ((isNan_neg x).trans hx) hy

end BoxCert.Binary64
