import BoxCert.Proofs.Number.DirectedProduct
import BoxCert.Proofs.Number.SumSign

/-!
# Directed operations keep order

A sum rounded downwards is the greatest number below the exact sum, or above
that where it spills. So lower operands give a lower result unless the lower
sum spills.

A product rounded downwards is determined by the number nearest to the exact
product and by the side that lies on, so a lower exact product gives a lower
result, across the underflow guard and beyond the range. A factor that is zero
is the exception: it gives zero exactly, while a positive product too small to
be told from zero is rounded to the number below zero. So order needs one
condition more: that the greater product does not vanish.

Results for the upper direction follow by turning the signs around.
-/

namespace BoxCert.Binary64

variable {x y x' y' t : Binary64} {m n : Int} {i j : Int}

/-! ## Neighbours -/

theorem le_of_le_of_le (hxy : x ≤ y) (hyt : y ≤ t) : x ≤ t := by
  obtain ⟨hx, -, hxy⟩ := le_iff.1 hxy
  obtain ⟨-, ht, hyt⟩ := le_iff.1 hyt
  exact le_iff.2 ⟨hx, ht, hxy.trans hyt⟩

/-- The next number up takes the next place. -/
theorem place?_nextUp (hfin : x.isFinite = true) (hx : x.place? = some i) :
    x.nextUp.place? = some (i + 1) := by
  cases x with
  | nan => cases hx
  | infinite s => cases hfin
  | finite s r =>
      cases hx
      have hlt := r.isLt
      cases s with
      | false =>
          show (ofRank false (r + 1)).place? = some ((r : Int) + 1)
          unfold ofRank
          split
          · rfl
          · show some (magnitudeCount : Int) = _
            congr 1
            omega
      | true =>
          show (if r.val = 0 then ofRank false 1 else ofRank true (r - 1)).place?
            = some (-(r : Int) + 1)
          split
          · next h =>
              rw [h]
              decide
          · rw [ofRank, dif_pos (by omega)]
            show some (-((r.val - 1 : Nat) : Int)) = _
            congr 1
            omega

theorem place?_nextDown (hfin : x.isFinite = true) (hx : x.place? = some i) :
    x.nextDown.place? = some (i - 1) := by
  have hneg : (-x).isFinite = true := by
    cases x with
    | finite s r => rfl
    | _ => cases hfin
  rw [nextDown, place?_neg (place?_nextUp hneg (place?_neg hx))]
  congr 1
  omega

theorem le_nextDown_of_lt (hfin : x.isFinite = true) (h : t < x) :
    t ≤ x.nextDown := by
  obtain ⟨ht, hx⟩ := isNan_of_lt h
  obtain ⟨i, hi⟩ := exists_place_of_isNan ht
  obtain ⟨j, hj⟩ := exists_place_of_isNan hx
  rw [lt_iff_place hi hj] at h
  rw [le_iff_place hi (place?_nextDown hfin hj)]
  omega

theorem nextUp_le_of_lt (hfin : x.isFinite = true) (h : x < t) :
    x.nextUp ≤ t := by
  obtain ⟨hx, ht⟩ := isNan_of_lt h
  obtain ⟨i, hi⟩ := exists_place_of_isNan hx
  obtain ⟨j, hj⟩ := exists_place_of_isNan ht
  rw [lt_iff_place hi hj] at h
  rw [le_iff_place (place?_nextUp hfin hi) hj]
  omega

theorem nextDown_mono (hfin : x.isFinite = true) (hfin' : x'.isFinite = true)
    (h : x' ≤ x) : x'.nextDown ≤ x.nextDown := by
  obtain ⟨hx', hx⟩ := isNan_of_le h
  obtain ⟨i, hi⟩ := exists_place_of_isNan hx'
  obtain ⟨j, hj⟩ := exists_place_of_isNan hx
  rw [le_iff_place hi hj] at h
  rw [le_iff_place (place?_nextDown hfin' hi) (place?_nextDown hfin hj)]
  omega

theorem le_greatest (ht : t.isNan = false) (htop : t ≠ infinity) :
    t ≤ greatest false := by
  refine le_iff.2 ⟨ht, rfl, ?_⟩
  cases t with
  | nan => cases ht
  | infinite s =>
      cases s with
      | false => exact absurd rfl htop
      | true => exact bot_le
  | finite s r => exact le_toEReal_greatest rfl

/-- Beyond the range the lower result is as high as a number can be. -/
theorem le_lowerUnbounded (hx : x.isFinite = true) (hy : y.isFinite = true)
    {s : Binary64} (hs : s.isFinite = false) (h : t ≤ s) (htop : t ≠ infinity) :
    t ≤ lowerUnbounded x y s := by
  obtain ⟨ht, hnan⟩ := isNan_of_le h
  simp only [lowerUnbounded, isNan_of_isFinite hx, isNan_of_isFinite hy, hx, hy]
  cases s with
  | nan => cases hnan
  | finite u r => cases hs
  | infinite u =>
      cases u with
      | false => exact le_greatest ht htop
      | true => exact h

/-! ## Sums -/

/-- The sum rounded downwards is at least every number below the exact sum,
spilled or not. -/
theorem le_addDown (hx : x.isNan = false) (hy : y.isNan = false)
    (ht : t.isNan = false) (h : t.toEReal ≤ x.toEReal + y.toEReal) :
    t ≤ addDown x y := by
  have hnan := isNan_addDown hx hy
  rcases finite_or_infinite x y with ⟨m, n, hm, hn⟩ | hinf
  · rw [toEReal_of_units hm, toEReal_of_units hn, ← EReal.coe_add,
      ← add_mul] at h
    rcases infinity_or_units ht with rfl | rfl | ⟨k, hk⟩
    · exact absurd h (not_le.2 (EReal.coe_lt_top _))
    · exact le_iff.2 ⟨rfl, hnan, bot_le⟩
    rw [toEReal_of_units hk, EReal.coe_le_coe_iff,
      mul_le_mul_iff_left₀ unit_pos] at h
    have hkmn : k ≤ m + n := by exact_mod_cast h
    have hclamps := clamps_add hm hn
    have hround := roundUnits_mono Nat.one_pos hkmn
    rw [roundUnits_eq (representable_of_units hk)] at hround
    have hle : t ≤ x + y := le_iff.2 ⟨ht, hclamps.isNan_eq,
      (clamps_of_units hk).toEReal_mono hclamps hround⟩
    cases hsum : (x + y).isFinite with
    | false =>
        rw [addDown_of_not_finite hsum]
        refine le_lowerUnbounded (isFinite_of_units hm) (isFinite_of_units hn)
          hsum hle ?_
        rintro rfl
        cases hk
    | true =>
        cases hspill : sumSpills x y with
        | true =>
            rw [addDown_of_finite hsum (sumWithError_spilled hm hn hspill),
              if_neg (by decide)]
            exact hle
        | false =>
            obtain ⟨v, e, he, hv, -, heu⟩ :=
              sumWithError_exact hm hn hsum hspill
            rw [addDown_of_finite hsum he]
            split
            · next hneg =>
                rw [lt_zero_iff heu] at hneg
                refine le_nextDown_of_lt hsum
                  ((lt_iff_reach ht hclamps.isNan_eq).2 ?_)
                rw [reach_of_units hk, reach_of_units hv]
                omega
            · exact hle
  · refine le_iff.2 ⟨ht, hnan, ?_⟩
    rwa [addDown_of_infinite hx hy hinf]

theorem addDown_mono (hxx : x' ≤ x) (hyy : y' ≤ y)
    (hspill : spillsBelow x' y' = false) : addDown x' y' ≤ addDown x y := by
  obtain ⟨hx', hx, hxx⟩ := le_iff.1 hxx
  obtain ⟨hy', hy, hyy⟩ := le_iff.1 hyy
  exact le_addDown hx hy (isNan_addDown hx' hy')
    ((addDown_le hx' hy' hspill).trans (add_le_add hxx hyy))

theorem addUp_le (hx : x.isFinite = true) (hy : y.isFinite = true)
    (ht : t.isNan = false) (h : x.toEReal + y.toEReal ≤ t.toEReal) :
    addUp x y ≤ t := by
  have hxn := isNan_of_isFinite hx
  have hyn := isNan_of_isFinite hy
  refine le_iff.2 ⟨isNan_addUp hxn hyn, ht, ?_⟩
  have hdown := le_addDown (t := -t) ((isNan_neg x).trans hxn)
    ((isNan_neg y).trans hyn) ((isNan_neg t).trans ht) (by
      rw [neg_toEReal_add hx, toEReal_neg, EReal.neg_le_neg_iff]
      exact h)
  have hdown := (le_iff.1 hdown).2.2
  rwa [toEReal_neg, EReal.neg_le, ← toEReal_addUp] at hdown

theorem addUp_infinity (hy : y.isNan = false) :
    addUp infinity y = infinity ∧ addUp y infinity = infinity := by
  cases y with
  | nan => cases hy
  | infinite s => cases s <;> exact ⟨rfl, rfl⟩
  | finite s r => exact ⟨rfl, rfl⟩

theorem eq_infinity_of_le (h : infinity ≤ x) : x = infinity := by
  obtain ⟨-, hx, hle⟩ := le_iff.1 h
  rcases infinity_or_units hx with rfl | rfl | ⟨n, hn⟩
  · rfl
  · exact absurd hle (not_le.2 bot_lt_top)
  · rw [toEReal_of_units hn] at hle
    exact absurd hle (not_le.2 (EReal.coe_lt_top _))

theorem addUp_mono (hxx : x ≤ x') (hyy : y ≤ y')
    (hspill : spillsAbove x' y' = false) : addUp x y ≤ addUp x' y' := by
  rw [spillsAbove_eq] at hspill
  have hdown := addDown_mono (neg_atMost_neg_iff.2 hxx)
    (neg_atMost_neg_iff.2 hyy) hspill
  exact ((addUp_agrees x y).le_iff (addUp_agrees x' y')).2
    (neg_atMost_neg_iff.2 hdown)

/-! ## Products -/

/-- Whether the product of two numbers that are not zero is rounded to zero. -/
def vanishes (x y : Binary64) : Bool :=
  !x.isZero && !y.isZero && (x * y).isZero

section Nonzero

variable (hx : x.units? = some m) (hy : y.units? = some n)
  (hzero : (x.isZero || y.isZero) = false)

include hx hy hzero

/-- A product of finite numbers is lowered where it is small, and else where
the number nearest to the exact product lies above it. -/
theorem mulDown_of_finite (hp : (x * y).isFinite = true) :
    mulDown x y = if (x * y).abs < underflowGuard ∨
      m * n < roundUnits (m * n) oneUnits * oneUnits then (x * y).nextDown
      else x * y := by
  have hunits := (clamps_mul hx hy).units_of_isFinite hp
  by_cases hsmall : (x * y).abs < underflowGuard
  · rw [mulDown_of_small hzero hp hsmall, if_pos (.inl hsmall)]
  · have hguard := hsmall
    rw [abs_lt_guard_iff hunits, not_lt] at hguard
    rw [mulDown_of_large hzero hp hsmall]
    simp only [mulAdd_lt_zero_iff hx hy hunits nearest_mul hguard, hsmall,
      false_or]

theorem mulDown_le_mul : mulDown x y ≤ x * y := by
  have hclamps := clamps_mul hx hy
  refine le_iff.2 ⟨(mulDown_isBelow hx hy).isNan_eq, hclamps.isNan_eq, ?_⟩
  cases hp : (x * y).isFinite with
  | true =>
      rw [mulDown_of_finite hx hy hzero hp]
      split
      · exact nextDown_le (hclamps.units_of_isFinite hp)
      · exact le_rfl
  | false =>
      rw [mulDown_of_not_finite hzero hp]
      exact lowerUnbounded_le (isFinite_of_units hx) (isFinite_of_units hy) hp
        hclamps.isNan_eq

theorem le_mulDown_of_lt (h : t < x * y) : t ≤ mulDown x y := by
  obtain ⟨ht, -, hlt⟩ := lt_iff.1 h
  have hle : t ≤ x * y := le_iff.2 ⟨ht, (clamps_mul hx hy).isNan_eq, hlt.le⟩
  cases hp : (x * y).isFinite with
  | true =>
      rw [mulDown_of_finite hx hy hzero hp]
      split
      · exact le_nextDown_of_lt hp h
      · exact hle
  | false =>
      rw [mulDown_of_not_finite hzero hp]
      refine le_lowerUnbounded (isFinite_of_units hx) (isFinite_of_units hy) hp
        hle ?_
      rintro rfl
      exact absurd hlt (not_lt.2 le_top)

end Nonzero

theorem mulDown_ne_infinity (hx : x.units? = some m) (hy : y.units? = some n) :
    mulDown x y ≠ infinity := by
  rcases mulDown_isBelow hx hy with h | ⟨k, hk, -⟩
  · rw [h]
    decide
  · rintro h
    rw [h] at hk
    cases hk

/-- Finite products that are not zero keep order: what is not told apart by
rounding to nearest is lowered where the greater one is. -/
theorem mulDown_mono_of_units {m' n' : Int} (hx : x.units? = some m)
    (hy : y.units? = some n) (hzero : (x.isZero || y.isZero) = false)
    (hx' : x'.units? = some m') (hy' : y'.units? = some n')
    (hzero' : (x'.isZero || y'.isZero) = false) (hle : m' * n' ≤ m * n) :
    mulDown x' y' ≤ mulDown x y := by
  have hclamps := clamps_mul hx hy
  have hclamps' := clamps_mul hx' hy'
  have hround := roundUnits_mono oneUnits_pos hle
  have hdown := mulDown_le_mul hx' hy' hzero'
  have hmul : x' * y' ≤ x * y := le_iff.2 ⟨hclamps'.isNan_eq,
    hclamps.isNan_eq, hclamps'.toEReal_mono hclamps hround⟩
  by_cases hlt : x' * y' < x * y
  · exact le_of_le_of_le hdown (le_mulDown_of_lt hx hy hzero hlt)
  cases hp : (x * y).isFinite with
  | false =>
      rw [mulDown_of_not_finite hzero hp]
      exact le_lowerUnbounded (isFinite_of_units hx) (isFinite_of_units hy) hp
        (le_of_le_of_le hdown hmul) (mulDown_ne_infinity hx' hy')
  | true =>
      rw [mulDown_of_finite hx hy hzero hp]
      split
      · next hlow =>
          -- Both products are rounded to the same finite number.
          have hunits := hclamps.units_of_isFinite hp
          have hrange := natAbs_lt_of_units hunits
          rw [lt_iff_reach hclamps'.isNan_eq hclamps.isNan_eq,
            hclamps'.reach_eq, hclamps.reach_eq] at hlt
          have hsame : roundUnits (m' * n') oneUnits =
              roundUnits (m * n) oneUnits := by omega
          rw [hsame] at hclamps'
          have hunits' := hclamps'.units_eq hrange
          have hp' := isFinite_of_units hunits'
          rw [mulDown_of_finite hx' hy' hzero' hp', if_pos]
          · exact nextDown_mono hp hp' hmul
          · rw [abs_lt_guard_iff hunits', hsame, ← abs_lt_guard_iff hunits]
            exact hlow.imp_right hle.trans_lt
      · exact le_of_le_of_le hdown hmul

theorem mul_toEReal_le_iff {m' n' : Int} (hx : x.units? = some m)
    (hy : y.units? = some n) (hx' : x'.units? = some m')
    (hy' : y'.units? = some n') :
    x'.toEReal * y'.toEReal ≤ x.toEReal * y.toEReal ↔ m' * n' ≤ m * n := by
  have hden : (0 : ℝ) < oneUnits := Nat.cast_pos.2 oneUnits_pos
  rw [toEReal_of_units hx, toEReal_of_units hy, toEReal_of_units hx',
    toEReal_of_units hy', ← quotient_mul, ← quotient_mul,
    EReal.coe_le_coe_iff, quotient, quotient, mul_le_mul_iff_left₀ unit_pos,
    div_le_div_iff_of_pos_right hden, Int.cast_le]

/-- A product that is not negative and does not vanish is not lowered below
zero. -/
theorem zero_le_mulDown (hx : x.units? = some m) (hy : y.units? = some n)
    (hzero : (x.isZero || y.isZero) = false) (hvanish : vanishes x y = false)
    (hle : 0 ≤ x.toEReal * y.toEReal) : 0 ≤ mulDown x y := by
  have hclamps := clamps_mul hx hy
  rw [← zero_mul (0 : EReal), ← toEReal_zero,
    mul_toEReal_le_iff hx hy units?_zero units?_zero, Int.zero_mul] at hle
  have hround := roundUnits_mono oneUnits_pos hle
  rw [show roundUnits 0 oneUnits = 0 from Int.zero_mul _] at hround
  refine le_mulDown_of_lt hx hy hzero (hclamps.zero_lt_iff.2 ?_)
  refine lt_of_le_of_ne hround fun heq => ?_
  -- A product rounded to zero would have vanished.
  rw [← heq] at hclamps
  have hunits := hclamps.units_eq overflowUnits_pos
  rw [Bool.or_eq_false_iff] at hzero
  rw [vanishes, hzero.1, hzero.2, (isZero_iff hunits).2 rfl] at hvanish
  cases hvanish

/-- Products rounded downwards are ordered like the exact ones, unless the
greater one vanishes. -/
theorem mulDown_mono (hx : x.isNan = false) (hy : y.isNan = false)
    (hx' : x'.isNan = false) (hy' : y'.isNan = false)
    (hle : x'.toEReal * y'.toEReal ≤ x.toEReal * y.toEReal)
    (hvanish : vanishes x y = false) : mulDown x' y' ≤ mulDown x y := by
  have hdown := (mulDown_le hx' hy').trans hle
  have hnan := isNan_mulDown hx hy
  have hnan' := isNan_mulDown hx' hy'
  cases hzero : (x.isZero || y.isZero) with
  | true =>
      rw [mul_toEReal_of_zero hzero, ← toEReal_zero] at hdown
      rw [mulDown_of_zero hzero]
      exact le_iff.2 ⟨hnan', rfl, hdown⟩
  | false =>
      rcases finite_or_infinite x y with ⟨m, n, hm, hn⟩ | hinf
      · cases hzero' : (x'.isZero || y'.isZero) with
        | true =>
            rw [mul_toEReal_of_zero hzero'] at hle
            rw [mulDown_of_zero hzero']
            exact zero_le_mulDown hm hn hzero hvanish hle
        | false =>
            rcases finite_or_infinite x' y' with ⟨k, l, hk, hl⟩ | hinf
            · exact mulDown_mono_of_units hm hn hzero hk hl hzero'
                ((mul_toEReal_le_iff hm hn hk hl).1 hle)
            · -- An infinite product below a finite one is the least there is.
              obtain ⟨t, ht, hval⟩ := mulDown_of_infinite hx' hy' hinf hzero'
              rw [toEReal_of_units hm, toEReal_of_units hn, ← EReal.coe_mul,
                ← hval] at hle
              cases t with
              | false => exact absurd hle (not_le.2 (EReal.coe_lt_top _))
              | true =>
                  refine le_iff.2 ⟨hnan', hnan, ?_⟩
                  rw [ht]
                  exact bot_le
      · refine le_iff.2 ⟨hnan', hnan, ?_⟩
        rwa [toEReal_mulDown_of_infinite hx hy hinf]

/-! ## Products rounded upwards -/

theorem vanishes_neg (x y : Binary64) : vanishes (-x) y = vanishes x y := by
  rw [vanishes, vanishes, neg_mul_eq, isZero_neg, isZero_neg]

theorem mulUp_mono (hx : x.isNan = false) (hy : y.isNan = false)
    (hx' : x'.isNan = false) (hy' : y'.isNan = false)
    (hle : x.toEReal * y.toEReal ≤ x'.toEReal * y'.toEReal)
    (hvanish : vanishes x y = false) : mulUp x y ≤ mulUp x' y' := by
  have hdown : mulDown (-x') y' ≤ mulDown (-x) y := by
    refine mulDown_mono (by rwa [isNan_neg]) hy (by rwa [isNan_neg]) hy' ?_
      (by rwa [vanishes_neg])
    rw [toEReal_neg, toEReal_neg, EReal.neg_mul, EReal.neg_mul,
      EReal.neg_le_neg_iff]
    exact hle
  exact ((mulUp_agrees x y).le_iff (mulUp_agrees x' y')).2
    (neg_atMost_neg_iff.2 hdown)

end BoxCert.Binary64
