import BoxCert.Proofs.Number.DirectedSum

/-!
# What a directed sum tells of its operands

A directed sum that has spilled bounds nothing by itself, yet its sign can
still be trusted: the sum rounded to nearest is positive only if the exact sum
is, and an upper sum that is too small for its operands is negative anyway.
Adding zero gives the other operand back, whichever way the sum is rounded.

The last section makes the spill exact: a directed sum is on the wrong side of
the exact sum if and only if it spills there.
-/

namespace BoxCert.Binary64

variable {x y z : Binary64} {m n : Int}

/-! ## Signs and thresholds -/

/-- The exact sum is above every finite number that the sum rounded downwards
is above, spilled or not: no number lies between a value and the number nearest
to it. -/
theorem lt_add_of_lt_addDown {t : Binary64} (hx : x.isNan = false)
    (hy : y.isNan = false) (ht : t.isFinite = true)
    (h : t.toEReal < (addDown x y).toEReal) :
    t.toEReal < x.toEReal + y.toEReal := by
  rcases finite_or_infinite x y with ⟨m, n, hm, hn⟩ | hinf
  · obtain ⟨k, hk⟩ := exists_units ht
    have hsum := h.trans_le (addDown_le_add hm hn)
    have hlt : k < m + n := by
      by_contra hle
      have hround := roundUnits_mono Nat.one_pos (Int.not_lt.1 hle)
      rw [roundUnits_eq (representable_of_units hk)] at hround
      exact hsum.not_ge
        ((clamps_add hm hn).toEReal_mono (clamps_of_units hk) hround)
    rw [toEReal_of_units hk, toEReal_of_units hm, toEReal_of_units hn,
      ← EReal.coe_add, ← add_mul, EReal.coe_lt_coe_iff]
    exact mul_lt_mul_of_pos_right (by exact_mod_cast hlt) unit_pos
  · rwa [addDown_of_infinite hx hy hinf] at h

theorem le_toEReal_greatest (hx : x.isFinite = true) :
    x.toEReal ≤ (greatest false).toEReal := by
  obtain ⟨m, hm⟩ := exists_units hx
  rw [toEReal_le_iff_reach (isNan_of_units hm) rfl, reach_of_units hm,
    reach_of_units (units?_greatest false)]
  have := natAbs_le_greatestUnits hm
  show m ≤ (greatestUnits : Int)
  omega

theorem eq_greatest_of_abs (h : y.abs = greatest false) :
    y = greatest false ∨ y = greatest true := by
  cases y with
  | finite s r =>
      cases h
      cases s
      · exact .inl rfl
      · exact .inr rfl
  | _ => cases h

theorem eq_greatest_of_spillsBelow (h : spillsBelow x y = true) :
    x.isFinite = true ∧ y = greatest false := by
  simp only [spillsBelow, Bool.and_eq_true, decide_eq_true_eq] at h
  obtain ⟨hspill, hpos⟩ := h
  obtain ⟨m, n, hx, hy⟩ := exists_units_of_sumSpills hspill
  obtain ⟨_, _, _, _, habs⟩ := rounded_of_sumSpills hx hy hspill
  refine ⟨isFinite_of_units hx, (eq_greatest_of_abs habs).resolve_right ?_⟩
  rintro rfl
  exact absurd hpos (by decide)

theorem neg_eq_greatest_iff {t : Bool} : -y = greatest t ↔ y = greatest (!t) :=
  ⟨fun h => by rw [← neg_neg_eq y, h]; rfl,
    fun h => by rw [h]; cases t <;> rfl⟩

theorem eq_greatest_of_spillsAbove (h : spillsAbove x y = true) :
    x.isFinite = true ∧ y = greatest true := by
  rw [spillsAbove_eq] at h
  obtain ⟨hx, hy⟩ := eq_greatest_of_spillsBelow h
  exact ⟨(isFinite_neg x).symm.trans hx, neg_eq_greatest_iff.1 hy⟩

/-- A sum rounded upwards that stays within a tolerance bounds the exact sum by
it, spilled or not: where it spills, the exact sum is not even positive. -/
theorem add_le_of_addUp_le {t : EReal} (hx : x.isNan = false)
    (hy : y.isNan = false) (ht : 0 ≤ t) (h : (addUp x y).toEReal ≤ t) :
    x.toEReal + y.toEReal ≤ t := by
  cases hspill : spillsAbove x y with
  | false => exact (le_addUp hx hy hspill).trans h
  | true =>
      -- The second operand cancels whatever the first one can be.
      obtain ⟨hfin, rfl⟩ := eq_greatest_of_spillsAbove hspill
      have hle := le_toEReal_greatest hfin
      refine le_trans ?_ ht
      calc x.toEReal + (greatest true).toEReal
        _ ≤ (greatest false).toEReal + (-greatest false).toEReal :=
            add_le_add_left hle _
        _ = (greatest false).toEReal - (greatest false).toEReal := by
            rw [toEReal_neg, sub_eq_add_neg]
        _ ≤ 0 := EReal.sub_self_le_zero

/-! ## Adding zero -/

theorem eq_zero_or_units (hx : x.units? = some n) (hz : x.unsignedZero = x) :
    x = 0 ∨ n ≠ 0 := by
  unfold unsignedZero at hz
  split at hz
  · exact .inl hz.symm
  · next h =>
      refine .inr fun hn => h ?_
      rwa [isZero_iff hx]

/-- Where a sum of finite numbers is exact, so are the directed sums. -/
theorem directed_of_exact (hx : x.units? = some m) (hy : y.units? = some n)
    (hsum : (x + y).units? = some (m + n)) (hspill : sumSpills x y = false) :
    addDown x y = x + y ∧ addUp x y = x + y := by
  have hfin := isFinite_of_units hsum
  obtain ⟨v, e, he, hv, -, heu⟩ := sumWithError_exact hx hy hfin hspill
  rw [hsum, Option.some.injEq] at hv
  have hzero : e.units? = some 0 := by rw [heu, hv, Int.sub_self]
  rw [addDown_of_finite hfin he, addUp_of_finite hfin he,
    if_neg fun h => Int.lt_irrefl 0 ((lt_zero_iff hzero).1 h),
    if_neg fun h => Int.lt_irrefl 0 ((zero_lt_iff hzero).1 h)]
  exact ⟨rfl, rfl⟩

theorem sumSpills_of_isZero (h : x.isZero = true ∨ y.isZero = true) :
    sumSpills x y = false := by
  rcases h with h | h
  · exact sumSpills_of_zero (units?_of_isZero h)
  · refine sumSpills_eq_false fun hgreatest => ?_
    rcases eq_greatest_of_abs hgreatest with rfl | rfl
    · exact absurd h (by decide)
    · exact absurd h (by decide)

/-- Adding a zero of either sign changes at most the sign of a zero. -/
theorem addDown_of_isZero (hz : z.isZero = true) (x : Binary64) :
    (addDown x z).Agrees x ∧ (addDown z x).Agrees x := by
  cases hfin : x.isFinite with
  | true =>
      obtain ⟨n, hn⟩ := exists_units hfin
      have hzero := units?_of_isZero hz
      have hrep := representable_of_units hn
      have hlt := natAbs_lt_of_units hn
      have hright : (x + z).units? = some (n + 0) :=
        units?_of_clamps (clamps_add hn hzero) (by rwa [Int.add_zero])
          (by rwa [Int.add_zero])
      have hleft : (z + x).units? = some (0 + n) :=
        units?_of_clamps (clamps_add hzero hn) (by rwa [Int.zero_add])
          (by rwa [Int.zero_add])
      rw [(directed_of_exact hn hzero hright (sumSpills_of_isZero (.inr hz))).1,
        (directed_of_exact hzero hn hleft (sumSpills_of_isZero (.inl hz))).1]
      rw [Int.add_zero] at hright
      rw [Int.zero_add] at hleft
      exact ⟨agrees_of_units hright hn, agrees_of_units hleft hn⟩
  | false =>
      cases z with
      | finite t r =>
          cases x with
          | nan => exact ⟨agrees_of_eq rfl, agrees_of_eq rfl⟩
          | infinite s =>
              cases s <;> exact ⟨agrees_of_eq rfl, agrees_of_eq rfl⟩
          | finite s a => cases hfin
      | _ => cases hz

theorem addUp_of_isZero (hz : z.isZero = true) (x : Binary64) :
    (addUp x z).Agrees x ∧ (addUp z x).Agrees x := by
  obtain ⟨hright, hleft⟩ :=
    addDown_of_isZero (z := -z) (by rwa [isZero_neg]) (-x)
  exact ⟨(addUp_agrees x z).trans hright.neg_left,
    (addUp_agrees z x).trans hleft.neg_left⟩

/-- Adding a positive zero changes nothing but a negative zero. -/
theorem directed_zero_eq (hx : x.unsignedZero = x) :
    (addDown x 0 = x ∧ addDown 0 x = x) ∧ addUp x 0 = x ∧ addUp 0 x = x := by
  cases hzero : x.isZero with
  | true =>
      rw [← hx, unsignedZero, if_pos hzero]
      decide
  | false =>
      have heq := fun {y : Binary64} (h : y.Agrees x) =>
        h.eq_or_isZero.resolve_right (by simp [hzero])
      obtain ⟨hdown, hdown'⟩ := addDown_of_isZero (z := 0) rfl x
      obtain ⟨hup, hup'⟩ := addUp_of_isZero (z := 0) rfl x
      exact ⟨⟨heq hdown, heq hdown'⟩, heq hup, heq hup'⟩

/-! ## Where a directed sum is wrong -/

/-- A sum rounded downwards exceeds the exact sum exactly where it spills. -/
theorem spillsBelow_iff (hx : x.isNan = false) (hy : y.isNan = false) :
    spillsBelow x y = true ↔
      x.toEReal + y.toEReal < (addDown x y).toEReal := by
  constructor
  · intro h
    simp only [spillsBelow, Bool.and_eq_true, decide_eq_true_eq] at h
    obtain ⟨hspill, hpos⟩ := h
    obtain ⟨m, n, hm, hn⟩ := exists_units_of_sumSpills hspill
    obtain ⟨v, hv, hup, -, -⟩ := rounded_of_sumSpills hm hn hspill
    have hlt := hup ((zero_lt_iff hn).1 hpos).le
    rw [addDown_of_finite (isFinite_of_units hv) (sumWithError_spilled hm hn
      hspill), if_neg (by decide), toEReal_of_units hm, toEReal_of_units hn,
      toEReal_of_units hv, ← EReal.coe_add, ← add_mul, EReal.coe_lt_coe_iff]
    exact mul_lt_mul_of_pos_right (by exact_mod_cast hlt) unit_pos
  · intro h
    by_contra hspill
    rw [Bool.not_eq_true] at hspill
    exact (addDown_le hx hy hspill).not_gt h

theorem spillsAbove_iff (hx : x.isNan = false) (hy : y.isNan = false) :
    spillsAbove x y = true ↔
      (addUp x y).toEReal < x.toEReal + y.toEReal := by
  constructor
  · intro h
    have hfin := (eq_greatest_of_spillsAbove h).1
    rw [spillsAbove_eq, spillsBelow_iff ((isNan_neg x).trans hx)
      ((isNan_neg y).trans hy), neg_toEReal_add hfin] at h
    rwa [toEReal_addUp, EReal.neg_lt_comm]
  · intro h
    by_contra hspill
    rw [Bool.not_eq_true] at hspill
    exact (le_addUp hx hy hspill).not_gt h

end BoxCert.Binary64
