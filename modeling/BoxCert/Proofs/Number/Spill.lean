import BoxCert.Proofs.Number.Monotone

/-!
# Which sums spill

Whether a sum spills is defined by the numbers that are computed on the way.
This file says which operands it happens to. The second one is a largest number
`G`. Taking the first one out of the rounded sum leaves the range only if the
sum was rounded away from zero by half of the last step, so it lay half way
between two of the largest numbers; and a tie goes to the even one, so the
first operand is a number of half steps that leaves three when divided by four.

All such operands do spill: what is left when the first one is taken out is `G`
and half a step more, which is rounded beyond the range.
-/

namespace BoxCert

open Binary64

/-! ## Half steps -/

/-- Half of the step between the largest numbers, in units. -/
def halfTopStep : Nat := 2 ^ (topShift - 1)

theorem two_mul_halfTopStep : 2 * halfTopStep = topStep := by
  rw [halfTopStep, topStep, ← Nat.pow_succ']
  congr 1
  unfold topShift
  rfl

theorem halfTopStep_pos : 0 < halfTopStep := Nat.two_pow_pos _

/-- Half way between two numbers of steps the even one is taken. -/
theorem roundUnits_halfway {q s : Nat} (hlow : 2 ^ 52 ≤ q)
    (hhigh : q < 2 ^ 53) :
    roundUnits ((2 * q + 1) * 2 ^ s : Nat) 1 =
      ((q + q % 2) * (2 * 2 ^ s) : Nat) := by
  have hpos := Nat.two_pow_pos s
  have hlog : ((2 * q + 1) * 2 ^ s).log2 = 53 + s := by
    rw [Nat.log2_eq_iff (Nat.mul_ne_zero (by omega) hpos.ne'), Nat.pow_add,
      Nat.add_right_comm, Nat.pow_add]
    exact ⟨Nat.mul_le_mul_right _ (by omega),
      Nat.mul_lt_mul_of_pos_right (by omega) hpos⟩
  have hstep : 2 ^ (53 + s - 52) = 2 * 2 ^ s := by
    rw [show 53 + s - 52 = s + 1 by omega, Nat.pow_succ']
  have hdiv : (2 * q + 1) * 2 ^ s / (2 * 2 ^ s) = q := by
    rw [Nat.mul_div_mul_right _ _ hpos]
    omega
  have hmod : (2 * q + 1) * 2 ^ s % (2 * 2 ^ s) = 2 ^ s := by
    rw [Nat.mul_mod_mul_right, show (2 * q + 1) % 2 = 1 by omega, Nat.one_mul]
  have hround := roundUnits_signed false ((2 * q + 1) * 2 ^ s) 1
  rw [magnitudeUnits_nearestRank, Nat.div_one, hlog, Nat.one_mul, hstep,
    divNearestEven, hdiv, hmod] at hround
  simp only [lt_irrefl, if_false] at hround
  exact hround

namespace Binary64

variable {x y : Binary64} {m n : Int}

theorem Clamps.isFinite_iff (h : Clamps x n) :
    x.isFinite = true ↔ n.natAbs < overflowUnits :=
  ⟨fun hx => natAbs_lt_of_units (h.units_of_isFinite hx),
    fun hn => isFinite_of_units (h.units_eq hn)⟩

theorem sumSpills_iff_units (hx : x.units? = some m) (hy : y.units? = some n) :
    sumSpills x y = true ↔
      (roundUnits (m + n) 1).natAbs < overflowUnits ∧
        overflowUnits ≤ (roundUnits (roundUnits (m + n) 1 + -m) 1).natAbs := by
  have hsum := clamps_add hx hy
  rw [sumSpills_iff, hsum.isFinite_iff]
  refine and_congr_right fun hfin => ?_
  have hrest := clamps_sub (hsum.units_eq hfin) hx
  rw [← Bool.not_eq_true, hrest.isFinite_iff, not_lt]

theorem overflowUnits_eq_halfSteps : overflowUnits = 2 ^ 54 * halfTopStep := by
  rw [overflowUnits_eq, ← two_mul_halfTopStep]
  omega

theorem greatestUnits_eq_halfSteps :
    greatestUnits = (2 ^ 54 - 2) * halfTopStep := by
  rw [greatestUnits_eq, ← two_mul_halfTopStep]
  omega

/-- A share that leaves the range exceeds the largest number by half of the
last step. -/
theorem add_halfTopStep_le_of_share {v t : Int} (ht : Nearest t (v + -m) 1)
    (hpos : 0 ≤ t) (hover : overflowUnits ≤ t.natAbs) :
    greatestUnits + halfTopStep ≤ v - m := by
  have hclosest := ht.closest greatestUnits (representable_magnitudeUnits _)
  have hstep := halfTopStep_pos
  rw [overflowUnits_eq_halfSteps] at hover
  rw [greatestUnits_eq_halfSteps] at hclosest
  rw [greatestUnits_eq_halfSteps]
  omega

/-- A sum that is rounded up by half of the last step is rounded on the grid of
the largest numbers. -/
theorem exists_topStep_of_share {v : Int} (hv : Nearest v (m + greatestUnits) 1)
    (hm : m.natAbs ≤ greatestUnits) (hvlt : v.natAbs < overflowUnits)
    (hshare : greatestUnits + halfTopStep ≤ v - m) :
    ∃ k : Int, v = 2 * halfTopStep * k ∧
      (m + greatestUnits - v).natAbs ≤ halfTopStep ∧
      2 ^ 53 * halfTopStep ≤ (m + greatestUnits).natAbs := by
  obtain ⟨j, ⟨k, rfl⟩, herr, -, hlow⟩ := hv.exists_grid
  have hpos := halfTopStep_pos
  have htop := two_mul_halfTopStep
  rw [overflowUnits_eq_halfSteps] at hvlt
  have hge : 2 ^ topShift ≤ 2 ^ j := by
    rw [← topStep, ← htop]
    omega
  have hlow := hlow.resolve_left (by
    rintro rfl
    rw [← topStep, ← htop] at hge
    omega)
  have hlt : 2 ^ j < 2 ^ (topShift + 1) := by
    rw [Nat.pow_succ, ← topStep, ← htop]
    omega
  obtain rfl : j = topShift :=
    le_antisymm (Nat.le_of_lt_succ ((Nat.pow_lt_pow_iff_right one_lt_two).1 hlt))
      ((Nat.pow_le_pow_iff_right one_lt_two).1 hge)
  have hcast : (2 : Int) ^ topShift = 2 * halfTopStep := by
    rw [← Nat.cast_two, ← Nat.cast_pow, ← topStep, ← htop, Nat.cast_mul]
  rw [hcast] at herr ⊢
  rw [← topStep, ← htop] at herr hlow
  exact ⟨k, rfl, by omega, by omega⟩

/-- A sum that is rounded up by half of the last step lies half way between
two of the largest numbers. -/
theorem exists_halfway_of_share {v : Int} (hv : Nearest v (m + greatestUnits) 1)
    (hm : m.natAbs ≤ greatestUnits) (hvlt : v.natAbs < overflowUnits)
    (hshare : greatestUnits + halfTopStep ≤ v - m) :
    ∃ q : Nat, 2 ^ 52 ≤ q ∧ q < 2 ^ 53 - 1 ∧
      m + greatestUnits = ((2 * q + 1) * halfTopStep : Nat) ∧
      v = ((q + 1) * (2 * halfTopStep) : Nat) := by
  obtain ⟨k, rfl, herr, hlow⟩ := exists_topStep_of_share hv hm hvlt hshare
  have hpos := halfTopStep_pos
  rw [overflowUnits_eq_halfSteps] at hvlt
  rw [greatestUnits_eq_halfSteps] at hm herr hlow hshare ⊢
  generalize hsum : m + ((2 ^ 54 - 2) * halfTopStep : Nat) = sum at *
  have hexact : sum = 2 * halfTopStep * k - halfTopStep := by omega
  have hlow : (2 ^ 53 + 1) * (halfTopStep : Int) ≤ 2 * k * halfTopStep := by
    rw [Int.mul_right_comm 2 k]
    omega
  have hhigh : 2 * k * halfTopStep < 2 ^ 54 * (halfTopStep : Int) := by
    rw [Int.mul_right_comm 2 k]
    omega
  have hlow := Int.le_of_mul_le_mul_right hlow (by omega)
  have hhigh := Int.lt_of_mul_lt_mul_right hhigh (by omega)
  obtain ⟨q, rfl⟩ : ∃ q : Nat, k = q + 1 := ⟨(k - 1).toNat, by omega⟩
  refine ⟨q, by omega, by omega, ?_, ?_⟩
  · rw [hexact]
    push_cast
    ring
  · push_cast
    ring

theorem halfSteps_add {q i : Nat} (h : q + 2 * i = 2 ^ 53 - 3) :
    (2 * q + 1) * halfTopStep + (4 * i + 3) * halfTopStep = greatestUnits := by
  rw [← Nat.add_mul, greatestUnits_eq_halfSteps]
  congr 1
  omega

theorem halfSteps_of_spillsBelow (hx : x.units? = some m)
    (hy : y.units? = some n) (h : spillsBelow x y = true) :
    n = greatestUnits ∧
      ∃ i : Nat, i < 2 ^ 51 - 1 ∧ m = -((4 * i + 3) * halfTopStep : Nat) := by
  have hm := natAbs_le_greatestUnits hx
  obtain ⟨-, rfl⟩ := eq_greatest_of_spillsBelow h
  obtain rfl : (greatestUnits : Int) = n := by
    rw [units?_greatest] at hy
    exact Option.some.inj hy
  rw [spillsBelow, Bool.and_eq_true, sumSpills_iff_units hx hy] at h
  obtain ⟨⟨hvlt, htge⟩, -⟩ := h
  have hv := nearest_add (m := m) (n := greatestUnits)
  have ht := nearest_roundUnits (roundUnits (m + greatestUnits) 1 + -m)
    Nat.one_pos
  have hpos := Nearest.share_nonneg (representable_of_units hx) hv ht
    (Int.natCast_nonneg _)
  have hshare := add_halfTopStep_le_of_share ht hpos htge
  obtain ⟨q, hlow, hhigh, hsum, hround⟩ :=
    exists_halfway_of_share hv hm hvlt hshare
  -- The tie was broken upwards, so the lower of the two numbers is odd.
  have heven : roundUnits (m + greatestUnits) 1 =
      ((q + q % 2) * (2 * halfTopStep) : Nat) := by
    rw [hsum]
    exact roundUnits_halfway hlow (by omega)
  rw [hround, Int.natCast_inj] at heven
  have hodd := Nat.eq_of_mul_eq_mul_right
    (by have := halfTopStep_pos; omega) heven
  obtain ⟨i, hi⟩ : ∃ i, q + 2 * i = 2 ^ 53 - 3 :=
    ⟨(2 ^ 53 - 3 - q) / 2, by omega⟩
  have htotal := halfSteps_add hi
  exact ⟨rfl, i, by omega, by omega⟩

theorem spillsBelow_of_halfSteps {i : Nat} (hi : i < 2 ^ 51 - 1)
    (hx : x.units? = some (-(((4 * i + 3) * halfTopStep : Nat) : Int)))
    (hy : y.units? = some (greatestUnits : Int)) : spillsBelow x y = true := by
  obtain ⟨q, hq⟩ : ∃ q, q + 2 * i = 2 ^ 53 - 3 :=
    ⟨2 ^ 53 - 3 - 2 * i, by omega⟩
  have htotal := halfSteps_add hq
  have hsum : -(((4 * i + 3) * halfTopStep : Nat) : Int) + greatestUnits =
      ((2 * q + 1) * halfTopStep : Nat) := by omega
  have hround := roundUnits_halfway (s := topShift - 1)
    (show 2 ^ 52 ≤ q by omega) (by omega)
  rw [← halfTopStep, show q % 2 = 1 by omega] at hround
  have hrest : (((q + 1) * (2 * halfTopStep) : Nat) : Int) +
      - -((4 * i + 3) * halfTopStep : Nat) =
        ((2 * (2 ^ 53 - 1) + 1) * halfTopStep : Nat) := by
    rw [Int.neg_neg, ← Int.natCast_add, ← Nat.mul_assoc, ← Nat.add_mul]
    congr 2
    omega
  have htop := roundUnits_halfway (s := topShift - 1) (q := 2 ^ 53 - 1)
    (by decide) (by decide)
  rw [← halfTopStep] at htop
  rw [spillsBelow, Bool.and_eq_true, sumSpills_iff_units hx hy, hsum, hround,
    hrest, htop, overflowUnits_eq_halfSteps]
  have hpos := halfTopStep_pos
  refine ⟨⟨?_, ?_⟩, ?_⟩
  · rw [Int.natAbs_natCast, ← Nat.mul_assoc]
    exact Nat.mul_lt_mul_of_pos_right (by omega) hpos
  · rw [Int.natAbs_natCast]
    omega
  · rw [decide_eq_true_iff, zero_lt_iff hy, greatestUnits_eq_halfSteps]
    omega

theorem spillsBelow_iff_units (hx : x.units? = some m) (hy : y.units? = some n) :
    spillsBelow x y = true ↔ n = greatestUnits ∧
      ∃ i : Nat, i < 2 ^ 51 - 1 ∧ m = -((4 * i + 3) * halfTopStep : Nat) := by
  refine ⟨halfSteps_of_spillsBelow hx hy, ?_⟩
  rintro ⟨rfl, i, hi, rfl⟩
  exact spillsBelow_of_halfSteps hi hx hy

/-! ## In real numbers -/

theorem halfTopStep_mul_unit : (halfTopStep : ℝ) * unit = 2 ^ 970 := by
  obtain ⟨e, he, hshift⟩ : ∃ e, oneUnits = 2 ^ e ∧ topShift - 1 = 970 + e :=
    ⟨1074, rfl, by unfold topShift; rfl⟩
  rw [halfTopStep, hshift, unit, he, Nat.cast_pow, Nat.cast_pow, Nat.cast_two,
    pow_add, mul_assoc, mul_inv_cancel₀ (pow_ne_zero e two_ne_zero), mul_one]

/-- Whether a number is worth a number of half steps of the largest numbers,
each `2 ^ 970`, that leaves three when divided by four and is less than
`2 ^ 53 - 1`. -/
def IsOddHalfSteps (x : Binary64) : Prop :=
  ∃ i : ℕ, i < 2 ^ 51 - 1 ∧ x.toReal = (4 * i + 3) * 2 ^ 970

theorem isOddHalfSteps_iff (hx : x.units? = some m) : x.IsOddHalfSteps ↔
    ∃ i : Nat, i < 2 ^ 51 - 1 ∧ m = ((4 * i + 3) * halfTopStep : Nat) := by
  refine exists_congr fun i => and_congr_right fun _ => ?_
  rw [toReal_of_units hx, ← halfTopStep_mul_unit, ← mul_assoc,
    mul_left_inj' unit_pos.ne', ← Int.cast_inj (α := ℝ)]
  push_cast
  rfl

theorem eq_greatest_iff (hy : y.units? = some n) (t : Bool) :
    y = greatest t ↔ n = signed t greatestUnits := by
  constructor
  · rintro rfl
    rw [units?_greatest] at hy
    exact (Option.some.inj hy).symm
  · rintro rfl
    refine eq_of_units hy (units?_greatest t) ?_
    have hpos := halfTopStep_pos
    rw [greatestUnits_eq_halfSteps]
    cases t <;> simp [signed] <;> omega

/-- A sum that is rounded downwards spills if and only if the largest number is
added to the negation of such a number of half steps. -/
theorem spillsBelow_iff_isOddHalfSteps (hx : x.isFinite = true)
    (hy : y.isFinite = true) :
    spillsBelow x y = true ↔ y = greatest false ∧ (-x).IsOddHalfSteps := by
  obtain ⟨m, hm⟩ := exists_units hx
  obtain ⟨n, hn⟩ := exists_units hy
  rw [spillsBelow_iff_units hm hn, eq_greatest_iff hn,
    isOddHalfSteps_iff (units?_neg hm)]
  simp only [neg_eq_iff_eq_neg, signed, Bool.false_eq_true, if_false]

theorem roundUnits_neg (n : Int) (den : Nat) :
    roundUnits (-n) den = -roundUnits n den := by
  rw [roundUnits, roundUnits, Int.sign_neg, Int.natAbs_neg, Int.neg_mul]

theorem spillsAbove_iff_isOddHalfSteps (hx : x.isFinite = true)
    (hy : y.isFinite = true) :
    spillsAbove x y = true ↔ y = greatest true ∧ x.IsOddHalfSteps := by
  rw [spillsAbove_eq, spillsBelow_iff_isOddHalfSteps (by rwa [isFinite_neg])
    (by rwa [isFinite_neg]), neg_eq_greatest_iff, neg_neg_eq]
  rfl

end Binary64

end BoxCert
