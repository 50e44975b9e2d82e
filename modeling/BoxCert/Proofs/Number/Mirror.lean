import BoxCert.Number.Directed
import BoxCert.Proofs.Number.Place

/-!
# Rounding upwards mirrors rounding downwards

Upper results are computed by definitions of their own, branch by branch. This
file shows that they are the lower results of negated operands, negated, for
all operands: NaNs, infinities, results beyond the range, products below the
underflow guard, and sums whose error is lost. Whatever is shown of lower
results therefore holds of upper ones with the signs turned around.

The argument follows the computation and asks of no step what it computes:
on operands that agree with negated ones, each step agrees with the negated
step. The one thing that is not mirrored is the sign of a zero, because a sum
that cancels is a positive zero on both sides. Applied twice the argument says
that the signs of zero operands do not matter either.
-/

namespace BoxCert.Binary64

variable {x y x' y' s s' : Binary64} {m n : Int}

/-! ## Rounding to nearest -/

theorem ofRank_not (t : Bool) (rank : Nat) :
    ofRank (!t) rank = -ofRank t rank := by
  unfold ofRank
  split
  · rfl
  · rfl

theorem ofScaledInt_neg (s t : Bool) (n : Int) (den : Nat) :
    (ofScaledInt s (-n) den).Agrees (-ofScaledInt t n den) := by
  unfold ofScaledInt
  by_cases hn : n = 0
  · rw [if_pos hn, if_pos (by omega)]
    exact agrees_of_isZero rfl rfl
  · rw [if_neg hn, if_neg (by omega), Int.natAbs_neg]
    have hsign : decide (-n < 0) = !decide (n < 0) := by
      rw [← decide_not]
      exact decide_eq_decide.2 (by omega)
    rw [hsign]
    exact agrees_of_eq (ofRank_not _ _)

theorem exists_add_eq (hx : x.units? = some m) (hy : y.units? = some n) :
    ∃ s, x + y = ofScaledInt s (m + n) 1 := by
  obtain ⟨s, a, rfl, rfl⟩ := exists_rank_of_units hx
  obtain ⟨t, b, rfl, rfl⟩ := exists_rank_of_units hy
  exact ⟨s && t, rfl⟩

theorem neg_add_neg_eq (h : x.isFinite = false ∨ y.isFinite = false) :
    -x + -y = -(x + y) := by
  cases x with
  | nan => rfl
  | infinite s =>
      cases y with
      | infinite t => cases s <;> cases t <;> rfl
      | _ => rfl
  | finite s a =>
      cases y with
      | finite t b => rcases h with h | h <;> cases h
      | _ => rfl

theorem add_of_isZero (hx : x.isZero = true) (hy : y.isFinite = false) :
    x + y = y ∧ y + x = y := by
  cases x with
  | finite s a =>
      cases y with
      | finite t b => cases hy
      | _ => exact ⟨rfl, rfl⟩
  | _ => cases hx

section Sums

variable (hx : x'.Agrees (-x)) (hy : y'.Agrees (-y))

include hx hy

/-- The sum of negated operands is the negated sum, zeros apart. -/
theorem add_mirror : (x' + y').Agrees (-(x + y)) := by
  rcases finite_or_infinite x y with ⟨m, n, hm, hn⟩ | hinf
  · obtain ⟨s, hsum⟩ := exists_add_eq hm hn
    obtain ⟨t, hsum'⟩ := exists_add_eq (hx.units?_eq.trans (units?_neg hm))
      (hy.units?_eq.trans (units?_neg hn))
    rw [hsum, hsum', ← Int.neg_add]
    exact ofScaledInt_neg _ _ _ _
  · -- An operand that is not finite makes the sum, whatever zero is added.
    refine agrees_of_eq ?_
    rcases hx.eq_or_isZero with rfl | ⟨hzero, hzero'⟩
    · rcases hy.eq_or_isZero with rfl | ⟨hzero, hzero'⟩
      · exact neg_add_neg_eq hinf
      · rw [isZero_neg] at hzero'
        have hx := hinf.resolve_right (by
          rw [isFinite_of_units (units?_of_isZero hzero')]
          decide)
        rw [(add_of_isZero hzero' hx).2,
          (add_of_isZero hzero ((isFinite_neg x).trans hx)).2]
    · rw [isZero_neg] at hzero'
      have hyf := hinf.resolve_left (by
        rw [isFinite_of_units (units?_of_isZero hzero')]
        decide)
      have hyf' := (isFinite_neg y).trans hyf
      rw [hy.eq_of_not_finite hyf', (add_of_isZero hzero' hyf).1,
        (add_of_isZero hzero hyf').1]

theorem sub_mirror : (x' - y').Agrees (-(x - y)) := add_mirror hx hy.neg

theorem sumWithError_mirror :
    (sumWithError x' y').1.Agrees (-(sumWithError x y).1) ∧
      (sumWithError x' y').2.Agrees (-(sumWithError x y).2) := by
  have hs := add_mirror hx hy
  have hfin := hs.isFinite_eq
  rw [isFinite_neg] at hfin
  unfold sumWithError
  simp only [hfin]
  split
  · have hrest := sub_mirror hs hx
    exact ⟨hs, add_mirror (sub_mirror hx (sub_mirror hs hrest))
      (sub_mirror hy hrest)⟩
  · exact ⟨hs, agrees_of_isZero rfl rfl⟩

end Sums

/-! ## Directed sums -/

/-- Beyond the range only the kind of the operands matters. -/
theorem lowerUnbounded_congr (hx : x.isNan = x'.isNan) (hy : y.isNan = y'.isNan)
    (hxf : x.isFinite = x'.isFinite) (hyf : y.isFinite = y'.isFinite)
    (s : Binary64) : lowerUnbounded x y s = lowerUnbounded x' y' s := by
  rw [lowerUnbounded, lowerUnbounded, hx, hy, hxf, hyf]

theorem upperUnbounded_eq_neg (x y : Binary64) (hs : s.isFinite = false) :
    upperUnbounded x y s = -lowerUnbounded (-x) y (-s) := by
  unfold upperUnbounded lowerUnbounded
  rw [isNan_neg, isNan_neg, isFinite_neg]
  split
  · rfl
  · cases s with
    | nan => rfl
    | finite t r => cases hs
    | infinite t =>
        cases t <;> cases (x.isFinite && y.isFinite) <;> rfl

theorem Agrees.neg_nextDown (h : s'.Agrees (-s)) : -s'.nextDown = s.nextUp := by
  rw [nextDown, neg_neg_eq, h.neg_left.nextUp]

/-- A sum rounded upwards mirrors the one rounded downwards, also of operands
that are only known to agree with the negated ones. -/
theorem addUp_mirror (hx : x'.Agrees (-x)) (hy : y'.Agrees (-y)) :
    (addUp x y).Agrees (-addDown x' y') := by
  obtain ⟨hs, he⟩ := sumWithError_mirror hx hy
  unfold addUp addDown
  generalize sumWithError x y = rounded at hs he ⊢
  generalize sumWithError x' y' = rounded' at hs he ⊢
  have hfin := hs.isFinite_eq
  rw [isFinite_neg] at hfin
  cases hsf : rounded.1.isFinite with
  | true =>
      have herror : rounded'.2 < 0 ↔ 0 < rounded.2 :=
        (he.lt_iff (agrees_of_eq rfl)).trans neg_below_zero_iff
      simp only [hfin, hsf, herror, if_true]
      split
      · exact agrees_of_eq hs.neg_nextDown.symm
      · exact hs.neg_left.symm
  | false =>
      have heq := hs.eq_of_not_finite ((isFinite_neg _).trans hsf)
      simp only [hfin, hsf, Bool.false_eq_true, if_false]
      rw [upperUnbounded_eq_neg x y hsf, ← heq]
      exact agrees_of_eq (congrArg _ (lowerUnbounded_congr hx.symm.isNan_eq
        (hy.isNan_eq.trans (isNan_neg y)).symm hx.symm.isFinite_eq
        (hy.isFinite_eq.trans (isFinite_neg y)).symm _))

theorem addUp_agrees (x y : Binary64) :
    (addUp x y).Agrees (-addDown (-x) (-y)) :=
  addUp_mirror (agrees_of_eq rfl) (agrees_of_eq rfl)

theorem toEReal_addUp (x y : Binary64) :
    (addUp x y).toEReal = -(addDown (-x) (-y)).toEReal := by
  rw [(addUp_agrees x y).toEReal_eq, toEReal_neg]

/-- Directed sums do not tell operands apart that agree: both sums mirror one
and the same. -/
theorem add_agrees (hx : x.Agrees x') (hy : y.Agrees y') :
    (addDown x y).Agrees (addDown x' y') ∧
      (addUp x y).Agrees (addUp x' y') := by
  have hneg := fun z : Binary64 => agrees_of_eq (neg_neg_eq z).symm
  have hdown := (addUp_mirror (hneg x) (hneg y)).symm.trans
    (addUp_mirror (hx.symm.trans (hneg x)) (hy.symm.trans (hneg y)))
  have hup := (addUp_agrees x y).trans (addUp_mirror hx.neg hy.neg).symm
  exact ⟨by simpa using hdown.neg, hup⟩

/-! ## Directed products -/

theorem mulDown_of_zero (h : (x.isZero || y.isZero) = true) :
    mulDown x y = 0 := by
  rw [mulDown, productWithError?, if_pos h]
  rfl

theorem mulUp_of_zero (h : (x.isZero || y.isZero) = true) :
    mulUp x y = 0 := by
  rw [mulUp, productWithError?, if_pos h]
  rfl

section Nonzero

variable (h : (x.isZero || y.isZero) = false)

include h

theorem mulDown_of_not_finite (hp : (x * y).isFinite = false) :
    mulDown x y = lowerUnbounded x y (x * y) := by
  simp [mulDown, productWithError?, h, hp]

theorem mulUp_of_not_finite (hp : (x * y).isFinite = false) :
    mulUp x y = upperUnbounded x y (x * y) := by
  simp [mulUp, productWithError?, h, hp]

theorem mulDown_of_small (hp : (x * y).isFinite = true)
    (hsmall : (x * y).abs < underflowGuard) :
    mulDown x y = (x * y).nextDown := by
  simp [mulDown, productWithError?, h, hp, hsmall]

theorem mulUp_of_small (hp : (x * y).isFinite = true)
    (hsmall : (x * y).abs < underflowGuard) :
    mulUp x y = (x * y).nextUp := by
  simp [mulUp, productWithError?, h, hp, hsmall]

theorem mulDown_of_large (hp : (x * y).isFinite = true)
    (hlarge : ¬ (x * y).abs < underflowGuard) :
    mulDown x y = if mulAdd x y (-(x * y)) < 0 then (x * y).nextDown
      else x * y := by
  simp [mulDown, productWithError?, h, hp, hlarge]

theorem mulUp_of_large (hp : (x * y).isFinite = true)
    (hlarge : ¬ (x * y).abs < underflowGuard) :
    mulUp x y = if 0 < mulAdd x y (-(x * y)) then (x * y).nextUp
      else x * y := by
  simp [mulUp, productWithError?, h, hp, hlarge]

end Nonzero

theorem neg_mul_eq (x y : Binary64) : -x * y = -(x * y) := by
  have hsign : ∀ s t : Bool, ((!s) != t) = !(s != t) := by decide
  cases x with
  | nan => rfl
  | infinite s =>
      cases y with
      | nan => rfl
      | infinite t => exact congrArg infinite (hsign s t)
      | finite t b =>
          show (if b.val = 0 then nan else infinite ((!s) != t)) =
            -(if b.val = 0 then nan else infinite (s != t))
          split
          · rfl
          · exact congrArg infinite (hsign s t)
  | finite s a =>
      cases y with
      | nan => rfl
      | infinite t =>
          show (if a.val = 0 then nan else infinite ((!s) != t)) =
            -(if a.val = 0 then nan else infinite (s != t))
          split
          · rfl
          · exact congrArg infinite (hsign s t)
      | finite t b =>
          show ofRatio ((!s) != t) _ _ = -ofRatio (s != t) _ _
          rw [hsign]
          exact ofRank_not _ _

theorem mulAdd_neg_agrees (x y z : Binary64) :
    (mulAdd (-x) y (-z)).Agrees (-mulAdd x y z) := by
  have hsign : ∀ s t : Bool, ((!s) != t) = !(s != t) := by decide
  -- Unless both factors are finite, the product is rounded on its own.
  have hsum : (-x * y + -z).Agrees (-(x * y + z)) :=
    add_mirror (agrees_of_eq (neg_mul_eq x y)) (agrees_of_eq rfl)
  cases x with
  | finite s a =>
      cases y with
      | finite t b =>
          cases z with
          | finite u c =>
              show (ofScaledInt _ (signed ((!s) != t) _ + signed (!u) _ * _)
                _).Agrees (-ofScaledInt _ (signed (s != t) _ + signed u _ * _) _)
              rw [hsign, signed_not, signed_not, Int.neg_mul, ← Int.neg_add]
              exact ofScaledInt_neg _ _ _ _
          | _ => exact agrees_of_eq rfl
      | _ => exact hsum
  | _ => exact hsum

/-- Unless a factor is zero, a product rounded upwards is one rounded downwards
with the signs turned around. -/
theorem mulUp_eq_neg (h : (x.isZero || y.isZero) = false) :
    mulUp x y = -mulDown (-x) y := by
  have h' : ((-x).isZero || y.isZero) = false := by rwa [isZero_neg]
  have hprod := neg_mul_eq x y
  have hfin : (-x * y).isFinite = (x * y).isFinite := by rw [hprod, isFinite_neg]
  have habs : (-x * y).abs = (x * y).abs := by rw [hprod, abs_neg_eq]
  have hnext := (agrees_of_eq hprod).neg_nextDown
  cases hp : (x * y).isFinite with
  | false =>
      rw [mulUp_of_not_finite h hp, mulDown_of_not_finite h' (hfin.trans hp),
        upperUnbounded_eq_neg x y hp, hprod]
  | true =>
      by_cases hsmall : (x * y).abs < underflowGuard
      · rw [mulUp_of_small h hp hsmall,
          mulDown_of_small h' (hfin.trans hp) (by rwa [habs]), hnext]
      · have herror : mulAdd (-x) y (-(-x * y)) < 0 ↔
            0 < mulAdd x y (-(x * y)) := by
          rw [hprod]
          exact ((mulAdd_neg_agrees x y _).lt_iff (agrees_of_eq rfl)).trans
            neg_below_zero_iff
        rw [mulUp_of_large h hp hsmall,
          mulDown_of_large h' (hfin.trans hp) (by rwa [habs])]
        simp only [herror]
        split
        · exact hnext.symm
        · rw [hprod, neg_neg_eq]

/-- A product rounded upwards mirrors the one rounded downwards. -/
theorem mulUp_agrees (x y : Binary64) :
    (mulUp x y).Agrees (-mulDown (-x) y) := by
  cases hzero : (x.isZero || y.isZero) with
  | true =>
      rw [mulUp_of_zero hzero, mulDown_of_zero (by rwa [isZero_neg])]
      exact agrees_of_isZero rfl rfl
  | false => exact agrees_of_eq (mulUp_eq_neg hzero)

theorem toEReal_mulUp (x y : Binary64) :
    (mulUp x y).toEReal = -(mulDown (-x) y).toEReal := by
  rw [(mulUp_agrees x y).toEReal_eq, toEReal_neg]

/-- A zero factor decides a product, so the sign of a zero does not matter. -/
theorem mul_congr (h : x.sameValue y = true) (z : Binary64) :
    mulDown z x = mulDown z y ∧ mulUp z x = mulUp z y := by
  rcases eq_or_isZero_of_sameValue h with rfl | ⟨hx, hy⟩
  · exact ⟨rfl, rfl⟩
  · have hfactor : ∀ {w : Binary64}, w.isZero = true →
        (z.isZero || w.isZero) = true := fun hw => by rw [hw, Bool.or_true]
    rw [mulDown_of_zero (hfactor hx), mulDown_of_zero (hfactor hy),
      mulUp_of_zero (hfactor hx), mulUp_of_zero (hfactor hy)]
    exact ⟨rfl, rfl⟩

theorem mul_comm_eq (x y : Binary64) : x * y = y * x := by
  have hsign : ∀ s t : Bool, (s != t) = (t != s) := by decide
  cases x with
  | nan => cases y <;> rfl
  | infinite s =>
      cases y with
      | nan => rfl
      | infinite t => exact congrArg infinite (hsign s t)
      | finite t b =>
          show (if b.val = 0 then nan else infinite (s != t)) =
            if b.val = 0 then nan else infinite (t != s)
          rw [hsign]
  | finite s a =>
      cases y with
      | nan => rfl
      | infinite t =>
          show (if a.val = 0 then nan else infinite (s != t)) =
            if a.val = 0 then nan else infinite (t != s)
          rw [hsign]
      | finite t b =>
          show ofRatio (s != t) _ _ = ofRatio (t != s) _ _
          rw [hsign, Nat.mul_comm]

theorem mul_neg_eq (x y : Binary64) : x * -y = -x * y := by
  rw [mul_comm_eq, neg_mul_eq, mul_comm_eq, ← neg_mul_eq]

theorem mulAdd_neg (x y z : Binary64) : mulAdd x (-y) z = mulAdd (-x) y z := by
  have hsign : ∀ s t : Bool, (s != !t) = ((!s) != t) := by decide
  cases x with
  | finite s a =>
      cases y with
      | finite t b =>
          cases z with
          | finite u c =>
              show ofScaledInt ((s != !t) && u) (signed (s != !t) _ + _) _ =
                ofScaledInt (((!s) != t) && u) (signed ((!s) != t) _ + _) _
              rw [hsign]
          | _ => rfl
      | _ => cases z <;> exact congrArg (· + _) (mul_neg_eq _ _)
  | _ => cases y <;> cases z <;> exact congrArg (· + _) (mul_neg_eq _ _)

/-- It does not matter which factor carries the sign. -/
theorem mulDown_neg (x y : Binary64) : mulDown x (-y) = mulDown (-x) y := by
  have hwith : productWithError? x (-y) = productWithError? (-x) y := by
    simp only [productWithError?, isZero_neg, mul_neg_eq, mulAdd_neg]
  simp only [mulDown, hwith, mul_neg_eq,
    lowerUnbounded_congr (isNan_neg x).symm (isNan_neg y)
      (isFinite_neg x).symm (isFinite_neg y)]

end BoxCert.Binary64
