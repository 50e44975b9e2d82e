import BoxCert.Proofs.Number.ErrorFree
import BoxCert.Proofs.Number.Mirror
import BoxCert.Proofs.Number.Outward

/-!
# Directed sums

The sum rounded downwards is a lower bound of the exact sum, and the one
rounded upwards an upper bound, with one exception. Recovering the error
subtracts the first operand from the rounded sum; if that leaves the range
(`sumSpills`), every later step is an infinity or a NaN, the error has no sign
and the rounded sum is taken for exact. It happens only where the second
operand is the largest finite number of either sign, and it spoils only one of
the two bounds: the lower one if the second operand is positive, the upper one
if it is negative.

Each fact is shown of the sum rounded downwards; the one on sums rounded upwards
is its mirror image.

What survives every exception is order: directed sums of ordered operands are
ordered, because both lie on their side of the sum rounded to nearest.
-/

namespace BoxCert.Binary64

variable {x y z w x' y' : Binary64} {m n : Int}

/-- Whether the error of a sum is lost because the first subtraction that is
to recover it leaves the range. -/
def sumSpills (x y : Binary64) : Bool :=
  (x + y).isFinite && !(x + y - x).isFinite

/-- Whether the sum rounded downwards may exceed the exact sum. -/
def spillsBelow (x y : Binary64) : Bool := sumSpills x y && decide (0 < y)

/-- Whether the sum rounded upwards may fall short of the exact sum. -/
def spillsAbove (x y : Binary64) : Bool := sumSpills x y && decide (y < 0)

theorem sumSpills_iff : sumSpills x y = true ↔
    (x + y).isFinite = true ∧ (x + y - x).isFinite = false := by
  rw [sumSpills, Bool.and_eq_true, Bool.not_eq_true']

/-- A sum and its mirror image spill together. -/
theorem sumSpills_neg (x y : Binary64) :
    sumSpills (-x) (-y) = sumSpills x y := by
  have hsum := add_mirror (agrees_of_eq (x := -x) rfl)
    (agrees_of_eq (x := -y) rfl)
  have hrest := sub_mirror hsum (agrees_of_eq (x := -x) rfl)
  rw [sumSpills, hsum.isFinite_eq, hrest.isFinite_eq, isFinite_neg,
    isFinite_neg, sumSpills]

theorem spillsAbove_eq (x y : Binary64) :
    spillsAbove x y = spillsBelow (-x) (-y) := by
  rw [spillsAbove, spillsBelow, sumSpills_neg,
    decide_eq_decide.2 zero_below_neg_iff]

/-! ## The recovered error -/

theorem nearest_add : Nearest (roundUnits (m + n) 1) (m + n) 1 :=
  nearest_roundUnits _ Nat.one_pos

theorem units?_of_clamps {k : Int} (h : Clamps x (roundUnits k 1))
    (hk : Representable k) (hlt : k.natAbs < overflowUnits) :
    x.units? = some k :=
  Clamps.units_eq (by rwa [roundUnits_eq hk] at h) hlt

/-- What the compensated sum computes, step by step: the rounded sum, the
second operand's share in it, what is left for the first one, what was lost of
either operand, and both losses together. -/
def sumSteps (x y : Binary64) : List Binary64 :=
  let s := x + y
  let rest := s - x
  let restored := s - rest
  [s, rest, restored, x - restored, y - rest, (x - restored) + (y - rest)]

theorem sumWithError_of_finite (hsum : (x + y).isFinite = true) :
    (sumSteps x y).head? = some (sumWithError x y).1 ∧
      (sumSteps x y).getLast? = some (sumWithError x y).2 := by
  rw [sumWithError, if_pos hsum]
  exact ⟨rfl, rfl⟩

/-- Unless it spills, the compensated sum rounds in its first two steps only,
and every step stays within the range. -/
theorem units?_sumSteps (hx : x.units? = some m) (hy : y.units? = some n)
    (hsum : (x + y).isFinite = true) (hspill : sumSpills x y = false) :
    ∃ v t, Nearest v (m + n) 1 ∧ (sumSteps x y).map units? =
      [some v, some t, some (v - t), some (m - (v - t)), some (n - t),
        some (m + n - v)] := by
  have hrest : (x + y - x).isFinite = true := by
    simpa [sumSpills, hsum] using hspill
  have hs := (clamps_add hx hy).units_of_isFinite hsum
  have ht := (clamps_sub hs hx).units_of_isFinite hrest
  have hfree := nearest_add.errorFree (representable_of_units hx)
    (representable_of_units hy) (nearest_roundUnits _ Nat.one_pos)
  generalize hv : roundUnits (m + n) 1 = v at hs ht hfree
  generalize roundUnits (v + -m) 1 = t at ht hfree
  have hbx := natAbs_lt_of_units hx
  have hby := natAbs_lt_of_units hy
  have hbs := natAbs_lt_of_units hs
  have hbt := natAbs_lt_of_units ht
  -- Each step is representable, and within the range the operands are in.
  have hrestored := units?_of_clamps (k := v - t) (clamps_sub hs ht)
    hfree.restored (by have := hfree.restored_le (overflowUnits - 1); omega)
  have hfirst := units?_of_clamps (k := m - (v - t)) (clamps_sub hx hrestored)
    hfree.firstLoss (by have := hfree.firstLoss_le; omega)
  have hsecond := units?_of_clamps (k := n - t) (clamps_sub hy ht)
    hfree.secondLoss
    (by have := hfree.secondLoss_le (overflowUnits - 1); omega)
  have herror := units?_of_clamps (clamps_add hfirst hsecond) hfree.error
    (by have := hfree.error_le; omega)
  refine ⟨v, t, hv ▸ nearest_add, ?_⟩
  rw [show m - (v - t) + (n - t) = m + n - v by omega] at herror
  simp only [sumSteps, List.map_cons, List.map_nil, hs, ht, hrestored, hfirst,
    hsecond, herror]

/-- The compensated sum is error-free unless it spills. -/
theorem sumWithError_exact (hx : x.units? = some m) (hy : y.units? = some n)
    (hsum : (x + y).isFinite = true) (hspill : sumSpills x y = false) :
    ∃ v e, sumWithError x y = (x + y, e) ∧ (x + y).units? = some v ∧
      Nearest v (m + n) 1 ∧ e.units? = some (m + n - v) := by
  obtain ⟨v, t, hv, hsteps⟩ := units?_sumSteps hx hy hsum hspill
  simp only [sumSteps, List.map_cons, List.cons.injEq] at hsteps
  obtain ⟨hs, -, -, -, -, he, -⟩ := hsteps
  exact ⟨v, _, if_pos hsum, hs, hv, he⟩

theorem sumWithError_spilled (hx : x.units? = some m)
    (hy : y.units? = some n) (hspill : sumSpills x y = true) :
    sumWithError x y = (x + y, nan) := by
  obtain ⟨hsum, hrest⟩ := sumSpills_iff.1 hspill
  have hs := (clamps_add hx hy).units_of_isFinite hsum
  obtain ⟨_, _, hsf, -⟩ := exists_rank_of_units hs
  obtain ⟨_, _, hxf, -⟩ := exists_rank_of_units hx
  obtain ⟨_, _, hyf, -⟩ := exists_rank_of_units hy
  have hclamps := clamps_sub hs hx
  rw [sumWithError, if_pos hsum]
  -- The difference is an infinity, and so every later step is not finite.
  generalize x + y - x = rest at hclamps hrest
  generalize x + y = s at hsf
  cases rest with
  | nan => cases hclamps
  | finite t r => cases hrest
  | infinite t =>
      subst hsf hxf hyf
      cases t <;> rfl

/-! ## Where the error is lost -/

theorem overflowUnits_eq : overflowUnits = 2 ^ 53 * topStep := by
  rw [overflowUnits, ← Nat.sub_zero magnitudeCount,
    magnitudeUnits_count_sub (by decide)]

theorem greatestUnits_eq : greatestUnits = (2 ^ 53 - 1) * topStep := by
  rw [greatestUnits, magnitudeUnits_count_sub (by decide)]

/-- A sum within the range is off by less than the last step of the range. -/
theorem error_lt_topStep {v : Int} (hv : Nearest v (m + n) 1)
    (hlt : v.natAbs < overflowUnits) : (m + n - v).natAbs < topStep := by
  obtain ⟨j, -, herr, -, hlow⟩ := hv.exists_grid
  have htop := topStep_pos
  rcases hlow with rfl | hlow
  · omega
  · have hbits := hv.le_natAbs (.two_pow_mul j (q := 2 ^ 52) (by decide)) (by
      rwa [natAbs_two_pow_mul, Nat.mul_comm])
    rw [natAbs_two_pow_mul, show (2 ^ 52 : Int).natAbs = 2 ^ 52 from rfl]
      at hbits
    rw [overflowUnits_eq] at hlt
    omega

/-- Where the second operand's share leaves the range upwards, the operand is
beyond all numbers but the largest and the sum was rounded up. -/
theorem lt_of_share_overflows {v t : Int} (hm : Representable m)
    (hv : Nearest v (m + n) 1) (ht : Nearest t (v + -m) 1)
    (hvlt : v.natAbs < overflowUnits) (htge : overflowUnits ≤ t.natAbs)
    (hn : 0 ≤ n) (hnle : n ≤ greatestUnits) :
    m + n < v ∧ greatestUnits - topStep < n := by
  have hpos := Nearest.share_nonneg hm hv ht hn
  have hshare : (greatestUnits : Int) < v - m := by
    by_contra hle
    have := ht.le_of_le (u := greatestUnits)
      (representable_magnitudeUnits _) Nat.one_pos (by omega)
    have := greatestUnits_lt
    omega
  have := error_lt_topStep hv hvlt
  omega

theorem abs_eq_greatest (hx : x.units? = some n)
    (h : greatestUnits - topStep < n.natAbs) : x.abs = greatest false := by
  obtain ⟨t, r, rfl, rfl⟩ := exists_rank_of_units hx
  rw [signed_natAbs] at h
  have hsub : greatestUnits - topStep = magnitudeUnits (magnitudeCount - 2) := by
    rw [magnitudeUnits_count_sub (by decide), greatestUnits_eq]
    omega
  rw [hsub] at h
  have hrank := magnitudeUnits_strictMono.lt_iff_lt.1 h
  have hr : r = ⟨magnitudeCount - 1, by decide⟩ := Fin.ext (by
    have := r.isLt
    show r.val = magnitudeCount - 1
    omega)
  rw [hr]
  rfl

theorem natAbs_le_greatestUnits (hx : x.units? = some n) :
    n.natAbs ≤ greatestUnits := by
  obtain ⟨t, r, rfl, rfl⟩ := exists_rank_of_units hx
  rw [signed_natAbs]
  exact magnitudeUnits_strictMono.monotone (by omega)

/-- A sum spills only where the second operand is a largest number, and then
it was rounded towards that operand. -/
theorem rounded_of_sumSpills (hx : x.units? = some m) (hy : y.units? = some n)
    (hspill : sumSpills x y = true) :
    ∃ v, (x + y).units? = some v ∧ (0 ≤ n → m + n < v) ∧
      (n ≤ 0 → v < m + n) ∧ y.abs = greatest false := by
  obtain ⟨hsum, hrest⟩ := sumSpills_iff.1 hspill
  have hs := (clamps_add hx hy).units_of_isFinite hsum
  have hrounded := clamps_sub hs hx
  have hv := nearest_add (m := m) (n := n)
  have ht := nearest_roundUnits (roundUnits (m + n) 1 + -m) Nat.one_pos
  generalize roundUnits (m + n) 1 = v at *
  generalize roundUnits (v + -m) 1 = t at *
  have hvlt := natAbs_lt_of_units hs
  have htge : overflowUnits ≤ t.natAbs := by
    by_contra hlt
    rw [isFinite_of_units (hrounded.units_eq (by omega))] at hrest
    cases hrest
  have hm := representable_of_units hx
  have hnle := natAbs_le_greatestUnits hy
  have hup := fun (hn : 0 ≤ n) =>
    lt_of_share_overflows hm hv ht hvlt htge hn (by omega)
  -- The negated operands spill as well, the other way around.
  have hdown := fun (hn : n ≤ 0) =>
    lt_of_share_overflows (m := -m) (n := -n) (v := -v) (t := -t) hm.neg
      (by rw [← Int.neg_add]; exact hv.neg)
      (by rw [← Int.neg_add]; exact ht.neg)
      (by omega) (by omega) (by omega) (by omega)
  refine ⟨_, hs, fun hn => (hup hn).1, fun hn => ?_,
    abs_eq_greatest hy ?_⟩
  · have := (hdown hn).1
    omega
  · rcases Int.le_total 0 n with hn | hn
    · have := (hup hn).2
      omega
    · have := (hdown hn).2
      omega

/-- The lower sum, as the code computes it from the rounded sum. -/
theorem addDown_of_finite {e : Binary64} (hsum : (x + y).isFinite = true)
    (he : sumWithError x y = (x + y, e)) :
    addDown x y = if e < 0 then (x + y).nextDown else x + y := by
  rw [addDown, he]
  exact if_pos hsum

theorem addUp_of_finite {e : Binary64} (hsum : (x + y).isFinite = true)
    (he : sumWithError x y = (x + y, e)) :
    addUp x y = if 0 < e then (x + y).nextUp else x + y := by
  rw [addUp, he]
  exact if_pos hsum

theorem addDown_eq_or (hsum : (x + y).isFinite = true) :
    addDown x y = (x + y).nextDown ∨ addDown x y = x + y := by
  rw [addDown_of_finite hsum (e := (sumWithError x y).2) (by
    rw [sumWithError, if_pos hsum])]
  split
  · exact .inl rfl
  · exact .inr rfl

theorem addDown_of_not_finite (hsum : (x + y).isFinite = false) :
    addDown x y = lowerUnbounded x y (x + y) := by
  simp [addDown, sumWithError, hsum]

theorem lt_zero_iff (hx : x.units? = some m) : x < 0 ↔ m < 0 := by
  rw [lt_iff_reach (isNan_of_units hx) rfl, reach_of_units hx]
  rfl

theorem zero_lt_iff (hx : x.units? = some m) : 0 < x ↔ 0 < m := by
  rw [lt_iff_reach rfl (isNan_of_units hx), reach_of_units hx]
  rfl

theorem addDown_isBelow (hx : x.units? = some m) (hy : y.units? = some n)
    (hspill : spillsBelow x y = false) : (addDown x y).IsBelow (m + n) 1 := by
  cases hsum : (x + y).isFinite with
  | false =>
      rw [addDown_of_not_finite hsum]
      exact lowerUnbounded_isBelow hx hy (clamps_add hx hy) hsum nearest_add
        Nat.one_pos
  | true =>
      cases hlost : sumSpills x y with
      | false =>
          obtain ⟨v, e, he, hs, hv, heu⟩ :=
            sumWithError_exact hx hy hsum hlost
          rw [addDown_of_finite hsum he]
          split
          · exact nextDown_isBelow hs hv Nat.one_pos
          · next hneg =>
              rw [lt_zero_iff heu] at hneg
              exact .inr ⟨v, hs, by omega⟩
      | true =>
          -- The error is lost, but the sum was rounded down already.
          obtain ⟨v, hs, -, hlt, -⟩ := rounded_of_sumSpills hx hy hlost
          have hneg : ¬ 0 < n := by
            rw [← zero_lt_iff hy]
            simpa [spillsBelow, hlost] using hspill
          rw [addDown_of_finite hsum (sumWithError_spilled hx hy hlost),
            if_neg (by decide)]
          exact .inr ⟨v, hs, by have := hlt (by omega); omega⟩

/-! ## All operands -/

theorem isFinite_of_isFinite_add (h : (x + y).isFinite = true) :
    x.isFinite = true ∧ y.isFinite = true := by
  cases x with
  | nan => cases h
  | infinite s =>
      cases y with
      | infinite t => cases s <;> cases t <;> cases h
      | _ => cases h
  | finite s a =>
      cases y with
      | finite t b => exact ⟨rfl, rfl⟩
      | _ => cases h

theorem exists_units_of_sumSpills (h : sumSpills x y = true) :
    ∃ m n, x.units? = some m ∧ y.units? = some n := by
  obtain ⟨hx, hy⟩ := isFinite_of_isFinite_add (sumSpills_iff.1 h).1
  obtain ⟨m, hm⟩ := exists_units hx
  obtain ⟨n, hn⟩ := exists_units hy
  exact ⟨m, n, hm, hn⟩

theorem sumSpills_eq_false (h : y.abs ≠ greatest false) :
    sumSpills x y = false := by
  by_contra hspill
  rw [Bool.not_eq_false] at hspill
  obtain ⟨m, n, hx, hy⟩ := exists_units_of_sumSpills hspill
  obtain ⟨_, _, _, _, habs⟩ := rounded_of_sumSpills hx hy hspill
  exact h habs

theorem sumSpills_of_zero (hx : x.units? = some 0) : sumSpills x y = false := by
  by_contra hspill
  rw [Bool.not_eq_false] at hspill
  obtain ⟨_, n, -, hy⟩ := exists_units_of_sumSpills hspill
  obtain ⟨v, hs, hup, hdown, -⟩ := rounded_of_sumSpills hx hy hspill
  have hexact := (clamps_add hx hy).units_of_isFinite
    (sumSpills_iff.1 hspill).1
  rw [Int.zero_add, roundUnits_eq (representable_of_units hy), hs,
    Option.some.injEq] at hexact
  omega

theorem isNan_addDown (hx : x.isNan = false) (hy : y.isNan = false) :
    (addDown x y).isNan = false := by
  cases hsum : (x + y).isFinite with
  | false =>
      rw [addDown_of_not_finite hsum, lowerUnbounded, hx, hy]
      simp only [Bool.or_self, Bool.false_eq_true, if_false]
      split
      · rfl
      · next hnan =>
          split
          · rfl
          · simpa using hnan
  | true =>
      obtain ⟨v, hs⟩ := exists_units hsum
      rcases addDown_eq_or hsum with h | h
      · rw [h]
        exact isNan_nextDown hs
      · rw [h]
        exact isNan_of_units hs

theorem isNan_addUp (hx : x.isNan = false) (hy : y.isNan = false) :
    (addUp x y).isNan = false := by
  rw [(addUp_agrees x y).isNan_eq, isNan_neg]
  exact isNan_addDown ((isNan_neg x).trans hx) ((isNan_neg y).trans hy)

/-- Directed sums of operands of one value have one value. -/
theorem add_congr (hx : x.sameValue x' = true) (hy : y.sameValue y' = true) :
    (addDown x y).sameValue (addDown x' y') = true ∧
      (addUp x y).sameValue (addUp x' y') = true := by
  obtain ⟨-, hxn, -⟩ := sameValue_iff.1 hx
  obtain ⟨-, hyn, -⟩ := sameValue_iff.1 hy
  obtain ⟨hdown, hup⟩ := add_agrees (.inr hx) (.inr hy)
  exact ⟨hdown.sameValue (isNan_addDown hxn hyn),
    hup.sameValue (isNan_addUp hxn hyn)⟩

/-- An infinite operand leaves nothing to round: the sums are those of the
extended reals, except that opposite infinities sum to no upper bound. -/
theorem addDown_of_infinite (hx : x.isNan = false) (hy : y.isNan = false)
    (h : x.isFinite = false ∨ y.isFinite = false) :
    (addDown x y).toEReal = x.toEReal + y.toEReal := by
  cases x with
  | nan => cases hx
  | infinite s =>
      cases y with
      | nan => cases hy
      | infinite t => cases s <;> cases t <;> rfl
      | finite t b =>
          cases s
          · exact (EReal.top_add_coe _).symm
          · exact (EReal.bot_add _).symm
  | finite s a =>
      cases y with
      | nan => cases hy
      | infinite t =>
          cases t
          · exact (EReal.coe_add_top _).symm
          · exact (EReal.add_bot _).symm
      | finite t b => rcases h with h | h <;> cases h

/-- The sum of negated values, which differs from the negated sum for opposite
infinities only. -/
theorem neg_toEReal_add_le (x y : Binary64) :
    (-x).toEReal + (-y).toEReal ≤ -(x.toEReal + y.toEReal) := by
  rw [toEReal_neg, toEReal_neg]
  by_cases h : (x.toEReal ≠ ⊥ ∨ y.toEReal ≠ ⊤) ∧ (x.toEReal ≠ ⊤ ∨ y.toEReal ≠ ⊥)
  · exact (EReal.neg_add h.1 h.2).ge
  · simp only [not_and_or, not_or, not_not] at h
    rcases h with ⟨hx, hy⟩ | ⟨hx, hy⟩ <;> simp [hx, hy]

theorem neg_toEReal_add (hx : x.isFinite = true) :
    (-x).toEReal + (-y).toEReal = -(x.toEReal + y.toEReal) := by
  rw [toEReal_neg, toEReal_neg, toEReal_of_isFinite hx]
  exact (EReal.neg_add (.inl (EReal.coe_ne_bot _))
    (.inl (EReal.coe_ne_top _))).symm

theorem le_addUp_of_infinite (hx : x.isNan = false) (hy : y.isNan = false)
    (h : x.isFinite = false ∨ y.isFinite = false) :
    x.toEReal + y.toEReal ≤ (addUp x y).toEReal := by
  rw [toEReal_addUp, EReal.le_neg, addDown_of_infinite
    ((isNan_neg x).trans hx) ((isNan_neg y).trans hy)
    (by rwa [isFinite_neg, isFinite_neg])]
  exact neg_toEReal_add_le x y

theorem quotient_add (m n : Int) :
    (quotient (m + n) 1 : EReal) = (m * unit : ℝ) + (n * unit : ℝ) := by
  rw [quotient, ← EReal.coe_add, Int.cast_add, Nat.cast_one, div_one, add_mul]

/-- The sum rounded downwards is a lower bound of the exact sum. -/
theorem addDown_le (hx : x.isNan = false) (hy : y.isNan = false)
    (hspill : spillsBelow x y = false) :
    (addDown x y).toEReal ≤ x.toEReal + y.toEReal := by
  rcases finite_or_infinite x y with ⟨m, n, hm, hn⟩ | hinf
  · rw [toEReal_of_units hm, toEReal_of_units hn, ← quotient_add]
    exact (addDown_isBelow hm hn hspill).toEReal_le Nat.one_pos
  · exact (addDown_of_infinite hx hy hinf).le

theorem le_addUp (hx : x.isNan = false) (hy : y.isNan = false)
    (hspill : spillsAbove x y = false) :
    x.toEReal + y.toEReal ≤ (addUp x y).toEReal := by
  rw [toEReal_addUp, EReal.le_neg]
  rw [spillsAbove_eq] at hspill
  exact (addDown_le ((isNan_neg x).trans hx) ((isNan_neg y).trans hy)
    hspill).trans (neg_toEReal_add_le x y)

/-! ## Order -/

theorem addDown_le_add (hx : x.units? = some m) (hy : y.units? = some n) :
    (addDown x y).toEReal ≤ (x + y).toEReal := by
  cases hsum : (x + y).isFinite with
  | false =>
      rw [addDown_of_not_finite hsum]
      exact lowerUnbounded_le (isFinite_of_units hx) (isFinite_of_units hy) hsum
        (clamps_add hx hy).isNan_eq
  | true =>
      obtain ⟨v, hs⟩ := exists_units hsum
      rcases addDown_eq_or hsum with h | h
      · rw [h]
        exact nextDown_le hs
      · rw [h]

theorem add_le_addUp (hx : x.units? = some m) (hy : y.units? = some n) :
    (x + y).toEReal ≤ (addUp x y).toEReal := by
  have hmirror := add_mirror (agrees_of_eq (x := -x) rfl)
    (agrees_of_eq (x := -y) rfl)
  rw [toEReal_addUp, EReal.le_neg, ← toEReal_neg, ← hmirror.toEReal_eq]
  exact addDown_le_add (units?_neg hx) (units?_neg hy)

theorem add_eq_top (hx : x.units? = some m) (hy : y.units? = some n)
    (hz : z.isNan = false) (hw : w.isNan = false)
    (hinf : z.isFinite = false ∨ w.isFinite = false)
    (hxz : x.toEReal ≤ z.toEReal) (hyw : y.toEReal ≤ w.toEReal) :
    z.toEReal + w.toEReal = ⊤ := by
  have hzbot : z.toEReal ≠ ⊥ := by
    rw [toEReal_of_units hx] at hxz
    exact ne_bot_of_le_ne_bot (EReal.coe_ne_bot _) hxz
  have hwbot : w.toEReal ≠ ⊥ := by
    rw [toEReal_of_units hy] at hyw
    exact ne_bot_of_le_ne_bot (EReal.coe_ne_bot _) hyw
  rcases hinf with hinf | hinf
  · rw [(toEReal_of_not_finite hz hinf).resolve_right hzbot]
    exact EReal.top_add_of_ne_bot hwbot
  · rw [(toEReal_of_not_finite hw hinf).resolve_right hwbot]
    exact EReal.add_top_of_ne_bot hzbot

theorem add_eq_bot (hx : x.isNan = false) (hy : y.isNan = false)
    (hz : z.units? = some m) (hw : w.units? = some n)
    (hinf : x.isFinite = false ∨ y.isFinite = false)
    (hxz : x.toEReal ≤ z.toEReal) (hyw : y.toEReal ≤ w.toEReal) :
    x.toEReal + y.toEReal = ⊥ := by
  rcases hinf with hinf | hinf
  · have htop : x.toEReal ≠ ⊤ := by
      rw [toEReal_of_units hz] at hxz
      exact ne_top_of_le_ne_top (EReal.coe_ne_top _) hxz
    rw [(toEReal_of_not_finite hx hinf).resolve_left htop, EReal.bot_add]
  · have htop : y.toEReal ≠ ⊤ := by
      rw [toEReal_of_units hw] at hyw
      exact ne_top_of_le_ne_top (EReal.coe_ne_top _) hyw
    rw [(toEReal_of_not_finite hy hinf).resolve_left htop, EReal.add_bot]

/-- Directed sums keep the order of their operands, spilled or not. -/
theorem addDown_le_addUp (hxz : x ≤ z) (hyw : y ≤ w) :
    addDown x y ≤ addUp z w := by
  obtain ⟨hx, hz, hxz⟩ := le_iff.1 hxz
  obtain ⟨hy, hw, hyw⟩ := le_iff.1 hyw
  refine le_iff.2 ⟨isNan_addDown hx hy, isNan_addUp hz hw, ?_⟩
  -- The sums rounded to nearest lie between the two where all are finite.
  rcases finite_or_infinite x y with ⟨m, n, hm, hn⟩ | hinf
  · rcases finite_or_infinite z w with ⟨k, l, hk, hl⟩ | hinf
    · rw [toEReal_le_iff_reach hx hz, reach_of_units hm, reach_of_units hk]
        at hxz
      rw [toEReal_le_iff_reach hy hw, reach_of_units hn, reach_of_units hl]
        at hyw
      calc (addDown x y).toEReal ≤ (x + y).toEReal := addDown_le_add hm hn
        _ ≤ (z + w).toEReal := (clamps_add hm hn).toEReal_mono
            (clamps_add hk hl) (roundUnits_mono Nat.one_pos (by omega))
        _ ≤ (addUp z w).toEReal := add_le_addUp hk hl
    · have hsum := le_addUp_of_infinite hz hw hinf
      rw [add_eq_top hm hn hz hw hinf hxz hyw] at hsum
      exact le_top.trans hsum
  · rw [addDown_of_infinite hx hy hinf]
    rcases finite_or_infinite z w with ⟨k, l, hk, hl⟩ | hinf'
    · rw [add_eq_bot hx hy hk hl hinf hxz hyw]
      exact bot_le
    · exact (add_le_add hxz hyw).trans (le_addUp_of_infinite hz hw hinf')

end BoxCert.Binary64
