import Mathlib.Data.EReal.Inv
import BoxCert.Proofs.Number.Rank

/-!
# The value of a number

A finite number is worth its units, each `2 ^ -1074`; the infinities are the
ends of the extended reals. A NaN has no value and reads as zero here, so
every statement about values says where NaNs are excluded.

Order has a second reading beside the extended reals: `reach`, the units with
the infinities at the first magnitude beyond the finite ones. It is an
integer, and ranks and values are both ordered like it.
-/

namespace BoxCert

/-- The number of units at which the range ends. -/
def overflowUnits : Nat := magnitudeUnits magnitudeCount

/-- The worth of one unit. -/
noncomputable def unit : ℝ := (oneUnits : ℝ)⁻¹

theorem oneUnits_pos : 0 < oneUnits := by
  unfold oneUnits
  positivity

/-- One as a power of two, with the exponent kept out of sight. -/
theorem exists_oneUnits_eq : ∃ e, oneUnits = 2 ^ e ∧ e = 1074 := by
  refine ⟨_, ?_, rfl⟩
  unfold oneUnits
  rfl

theorem unit_pos : 0 < unit := inv_pos.2 (Nat.cast_pos.2 oneUnits_pos)

namespace Binary64

variable {x y : Binary64} {m n : Int}

/-- The exact value of a number in the extended reals. -/
noncomputable def toEReal : Binary64 → EReal
  | nan => 0
  | infinite s => if s then ⊥ else ⊤
  | finite s r => ((signed s (magnitudeUnits r) * unit : ℝ) : EReal)

/-- The exact value of a finite number. -/
noncomputable def toReal (x : Binary64) : ℝ := x.units?.getD 0 * unit

/-- The units of a number, an infinity standing where the range ends. -/
def reach : Binary64 → Int
  | nan => 0
  | infinite s => signed s overflowUnits
  | finite s r => signed s (magnitudeUnits r)

theorem units?_finite (s : Bool) (r : Fin magnitudeCount) :
    (finite s r).units? = some (signed s (magnitudeUnits r)) := rfl

theorem exists_units (h : x.isFinite = true) : ∃ n, x.units? = some n := by
  cases x with
  | finite s r => exact ⟨_, rfl⟩
  | _ => cases h

theorem exists_rank_of_units (h : x.units? = some n) :
    ∃ s r, x = finite s r ∧ signed s (magnitudeUnits r) = n := by
  cases x with
  | finite s r =>
      rw [units?_finite, Option.some.injEq] at h
      exact ⟨s, r, rfl, h⟩
  | _ => cases h

theorem isFinite_of_units (h : x.units? = some n) : x.isFinite = true := by
  obtain ⟨s, r, rfl, -⟩ := exists_rank_of_units h
  rfl

theorem isNan_of_units (h : x.units? = some n) : x.isNan = false := by
  obtain ⟨s, r, rfl, -⟩ := exists_rank_of_units h
  rfl

theorem eq_nan_of_isNan (hx : x.isNan = true) : x = nan := by
  cases x with
  | nan => rfl
  | _ => cases hx

theorem isNan_of_isFinite {x : Binary64} (h : x.isFinite = true) :
    x.isNan = false := by
  obtain ⟨n, hn⟩ := exists_units h
  exact isNan_of_units hn

theorem toReal_of_units (h : x.units? = some n) : x.toReal = n * unit := by
  rw [toReal, h, Option.getD_some]

theorem toEReal_of_units (h : x.units? = some n) :
    x.toEReal = ((n * unit : ℝ) : EReal) := by
  obtain ⟨s, r, rfl, rfl⟩ := exists_rank_of_units h
  rfl

theorem toEReal_of_isFinite (h : x.isFinite = true) :
    x.toEReal = (x.toReal : EReal) := by
  obtain ⟨n, hn⟩ := exists_units h
  rw [toEReal_of_units hn, toReal_of_units hn]

theorem toEReal_of_not_finite (hx : x.isNan = false)
    (h : x.isFinite = false) : x.toEReal = ⊤ ∨ x.toEReal = ⊥ := by
  cases x with
  | nan => cases hx
  | infinite s => cases s <;> first | exact .inl rfl | exact .inr rfl
  | finite s r => cases h

theorem reach_of_units (h : x.units? = some n) : x.reach = n := by
  obtain ⟨s, r, rfl, rfl⟩ := exists_rank_of_units h
  rfl

theorem signed_not (s : Bool) (k : Nat) : signed (!s) k = -signed s k := by
  cases s <;> simp [signed]

theorem units?_neg (h : x.units? = some n) : (-x).units? = some (-n) := by
  obtain ⟨s, r, rfl, rfl⟩ := exists_rank_of_units h
  rw [← signed_not]
  rfl

theorem signed_natAbs (s : Bool) (k : Nat) : (signed s k).natAbs = k := by
  cases s <;> simp [signed]

theorem representable_of_units (h : x.units? = some n) : Representable n := by
  obtain ⟨s, r, rfl, rfl⟩ := exists_rank_of_units h
  have := representable_magnitudeUnits r
  cases s
  · exact this
  · exact this.neg

theorem natAbs_lt_of_units (h : x.units? = some n) :
    n.natAbs < overflowUnits := by
  obtain ⟨s, r, rfl, rfl⟩ := exists_rank_of_units h
  rw [signed_natAbs]
  exact magnitudeUnits_strictMono r.isLt

/-! ## Order -/

theorem signed_le_signed_iff (s t : Bool) (a b : Nat) :
    signed s (magnitudeUnits a) ≤ signed t (magnitudeUnits b) ↔
      signed s a ≤ signed t b := by
  have hle := magnitudeUnits_strictMono.le_iff_le (a := a) (b := b)
  have hle' := magnitudeUnits_strictMono.le_iff_le (a := b) (b := a)
  have hzero := magnitudeUnits_strictMono.le_iff_le (a := a) (b := 0)
  have hzero' := magnitudeUnits_strictMono.le_iff_le (a := b) (b := 0)
  rw [magnitudeUnits_zero] at hzero hzero'
  cases s <;> cases t <;> simp [signed] <;> omega

/-- What is not a NaN has a rank, the infinities the one beyond the last. -/
theorem exists_place (h : x.isNan = false) :
    ∃ s rank, x.place? = some (signed s rank) ∧
      x.reach = signed s (magnitudeUnits rank) := by
  cases x with
  | nan => cases h
  | infinite s => exact ⟨s, magnitudeCount, rfl, rfl⟩
  | finite s r => exact ⟨s, r, rfl, rfl⟩

theorem le_iff_reach (hx : x.isNan = false) (hy : y.isNan = false) :
    x ≤ y ↔ x.reach ≤ y.reach := by
  obtain ⟨s, a, hxp, hxr⟩ := exists_place hx
  obtain ⟨t, b, hyp, hyr⟩ := exists_place hy
  show x.atMost y = true ↔ _
  rw [atMost, hxp, hyp, hxr, hyr, signed_le_signed_iff]
  simp

theorem lt_iff_reach (hx : x.isNan = false) (hy : y.isNan = false) :
    x < y ↔ x.reach < y.reach := by
  obtain ⟨s, a, hxp, hxr⟩ := exists_place hx
  obtain ⟨t, b, hyp, hyr⟩ := exists_place hy
  have hle := signed_le_signed_iff t s b a
  show x.below y = true ↔ _
  rw [below, hxp, hyp, hxr, hyr]
  simp only [decide_eq_true_eq]
  omega

theorem isNan_of_le (h : x ≤ y) : x.isNan = false ∧ y.isNan = false := by
  have h : x.atMost y = true := h
  cases x <;> cases y <;> first | exact ⟨rfl, rfl⟩ | cases h

theorem isNan_of_lt (h : x < y) : x.isNan = false ∧ y.isNan = false := by
  have h : x.below y = true := h
  cases x <;> cases y <;> first | exact ⟨rfl, rfl⟩ | cases h

theorem overflowUnits_pos : 0 < overflowUnits :=
  magnitudeUnits_strictMono (show 0 < magnitudeCount by decide)

theorem toEReal_le_iff_reach (hx : x.isNan = false) (hy : y.isNan = false) :
    x.toEReal ≤ y.toEReal ↔ x.reach ≤ y.reach := by
  have hpos := overflowUnits_pos
  cases x with
  | nan => cases hx
  | infinite s =>
      cases y with
      | nan => cases hy
      | infinite t =>
          show (if s then (⊥ : EReal) else ⊤) ≤ (if t then ⊥ else ⊤) ↔
            signed s overflowUnits ≤ signed t overflowUnits
          generalize overflowUnits = m at hpos
          cases s <;> cases t <;> simp [signed]
          omega
      | finite t b =>
          have := natAbs_lt_of_units (units?_finite t b)
          cases s
          · simp only [toEReal, reach, Bool.false_eq_true, if_false,
              top_le_iff, EReal.coe_ne_top, false_iff, signed] at this ⊢
            omega
          · simp only [toEReal, reach, if_true, bot_le, true_iff,
              signed] at this ⊢
            omega
  | finite s a =>
      have hrange := natAbs_lt_of_units (units?_finite s a)
      cases y with
      | nan => cases hy
      | infinite t =>
          cases t
          · simp only [toEReal, reach, Bool.false_eq_true, if_false, le_top,
              true_iff, signed] at hrange ⊢
            omega
          · simp only [toEReal, reach, if_true, le_bot_iff, EReal.coe_ne_bot,
              false_iff, signed] at hrange ⊢
            omega
      | finite t b =>
          rw [toEReal, toEReal, EReal.coe_le_coe_iff,
            mul_le_mul_iff_left₀ unit_pos, Int.cast_le]
          rfl

theorem le_iff : x ≤ y ↔
    x.isNan = false ∧ y.isNan = false ∧ x.toEReal ≤ y.toEReal := by
  constructor
  · intro h
    obtain ⟨hx, hy⟩ := isNan_of_le h
    exact ⟨hx, hy, (toEReal_le_iff_reach hx hy).2 ((le_iff_reach hx hy).1 h)⟩
  · rintro ⟨hx, hy, h⟩
    exact (le_iff_reach hx hy).2 ((toEReal_le_iff_reach hx hy).1 h)

theorem toReal_le_toReal (hx : x.isFinite = true) (hy : y.isFinite = true)
    (h : x ≤ y) : x.toReal ≤ y.toReal := by
  have hle := (le_iff.1 h).2.2
  rwa [toEReal_of_isFinite hx, toEReal_of_isFinite hy, EReal.coe_le_coe_iff]
    at hle

theorem lt_iff : x < y ↔
    x.isNan = false ∧ y.isNan = false ∧ x.toEReal < y.toEReal := by
  have hiff := fun (hx : x.isNan = false) (hy : y.isNan = false) =>
    toEReal_le_iff_reach hy hx
  constructor
  · intro h
    obtain ⟨hx, hy⟩ := isNan_of_lt h
    refine ⟨hx, hy, ?_⟩
    rw [← not_le, hiff hx hy, not_le]
    exact (lt_iff_reach hx hy).1 h
  · rintro ⟨hx, hy, h⟩
    rw [← not_le, hiff hx hy, not_le] at h
    exact (lt_iff_reach hx hy).2 h

theorem toReal_lt_toReal (hx : x.isFinite = true) (hy : y.isFinite = true)
    (h : x < y) : x.toReal < y.toReal := by
  have hlt := (lt_iff.1 h).2.2
  rwa [toEReal_of_isFinite hx, toEReal_of_isFinite hy,
    EReal.coe_lt_coe_iff] at hlt

theorem le_of_lt (h : x < y) : x ≤ y :=
  have ⟨hx, hy, hlt⟩ := lt_iff.1 h
  le_iff.2 ⟨hx, hy, hlt.le⟩

theorem not_below_iff (hx : x.isNan = false) (hy : y.isNan = false) :
    ¬ y < x ↔ x ≤ y := by
  simp only [lt_iff, le_iff, hx, hy, true_and, not_lt]

/-! ## Signs -/

@[simp] theorem isNan_neg (x : Binary64) : (-x).isNan = x.isNan := by
  cases x <;> rfl

@[simp] theorem toEReal_neg (x : Binary64) : (-x).toEReal = -x.toEReal := by
  cases x with
  | nan => exact (neg_zero (G := EReal)).symm
  | infinite s => cases s <;> rfl
  | finite s r =>
      rw [toEReal_of_units (units?_neg (units?_finite s r)),
        toEReal_of_units (units?_finite s r), Int.cast_neg, neg_mul,
        EReal.coe_neg]

theorem isZero_iff (hx : x.units? = some m) : x.isZero = true ↔ m = 0 := by
  obtain ⟨s, r, rfl, rfl⟩ := exists_rank_of_units hx
  have hrank := magnitudeUnits_strictMono.injective.eq_iff (a := r.val) (b := 0)
  rw [magnitudeUnits_zero] at hrank
  cases s <;> simp [isZero, signed, hrank]

theorem units?_of_isZero (hx : x.isZero = true) : x.units? = some 0 := by
  cases x with
  | finite s r =>
      have h := units?_finite s r
      rwa [(isZero_iff h).1 hx] at h
  | _ => cases hx

@[simp] theorem units?_zero : units? 0 = some 0 := by decide

@[simp] theorem toEReal_zero : toEReal 0 = 0 := by
  rw [toEReal_of_units units?_zero]
  simp

theorem toEReal_of_isZero (hx : x.isZero = true) : x.toEReal = 0 := by
  rw [toEReal_of_units (units?_of_isZero hx)]
  simp

/-! ## Extremes -/

@[simp] theorem isNan_unsignedZero (x : Binary64) :
    x.unsignedZero.isNan = x.isNan := by
  unfold unsignedZero
  split
  · next h => cases x <;> first | rfl | cases h
  · rfl

@[simp] theorem toEReal_unsignedZero (x : Binary64) :
    x.unsignedZero.toEReal = x.toEReal := by
  unfold unsignedZero
  split
  · next h => rw [toEReal_of_isZero h, toEReal_zero]
  · rfl

@[simp] theorem units?_unsignedZero (x : Binary64) :
    x.unsignedZero.units? = x.units? := by
  unfold unsignedZero
  split
  · next h => rw [units?_zero, units?_of_isZero h]
  · rfl

theorem unsignedZero_idem (x : Binary64) :
    x.unsignedZero.unsignedZero = x.unsignedZero := by
  unfold unsignedZero
  split
  · rfl
  · rfl

theorem min_of_isNan (hx : x.isNan = false) :
    min x y = if y < x then y else x := by
  show (if x.isNan = true then y else if y < x then y else x) = _
  rw [hx, if_neg Bool.false_ne_true]

theorem max_of_isNan (hx : x.isNan = false) :
    max x y = if x < y then y else x := by
  show (if x.isNan = true then y else if x < y then y else x) = _
  rw [hx, if_neg Bool.false_ne_true]

theorem isNan_min (hx : x.isNan = false)
    (hy : y.isNan = false) : (min x y).isNan = false := by
  rw [min_of_isNan hx]
  split
  · exact hy
  · exact hx

theorem isNan_max (hx : x.isNan = false)
    (hy : y.isNan = false) : (max x y).isNan = false := by
  rw [max_of_isNan hx]
  split
  · exact hy
  · exact hx

theorem toEReal_min (hx : x.isNan = false)
    (hy : y.isNan = false) :
    (min x y).toEReal = min x.toEReal y.toEReal := by
  rw [min_of_isNan hx]
  split
  · next hlt => rw [min_eq_right (lt_iff.1 hlt).2.2.le]
  · next hge =>
      have hle := (le_iff.1 ((not_below_iff hx hy).1 hge)).2.2
      rw [min_eq_left hle]

theorem toEReal_max (hx : x.isNan = false)
    (hy : y.isNan = false) :
    (max x y).toEReal = max x.toEReal y.toEReal := by
  rw [max_of_isNan hx]
  split
  · next hlt => rw [max_eq_right (lt_iff.1 hlt).2.2.le]
  · next hge =>
      have hle := (le_iff.1 ((not_below_iff hy hx).1 hge)).2.2
      rw [max_eq_left hle]

theorem max_below_iff {z : Binary64} (hx : x.isNan = false)
    (hy : y.isNan = false) : max x y < z ↔ x < z ∧ y < z := by
  rw [lt_iff, lt_iff, lt_iff, isNan_max hx hy, toEReal_max hx hy,
    max_lt_iff, hx, hy]
  tauto

theorem foldl_max_lt_iff {ends : List Binary64} (hx : x.isNan = false)
    (hends : ∀ e ∈ ends, e.isNan = false) :
    ends.foldl max x < y ↔ x < y ∧ ∀ e ∈ ends, e < y := by
  induction ends generalizing x with
  | nil => simp
  | cons e rest ih =>
      obtain ⟨he, hrest⟩ := List.forall_mem_cons.1 hends
      rw [List.foldl_cons, ih (isNan_max hx he) hrest, max_below_iff hx he,
        List.forall_mem_cons, and_assoc]

end Binary64

end BoxCert
