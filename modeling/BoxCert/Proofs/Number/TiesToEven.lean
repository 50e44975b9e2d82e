import BoxCert.Proofs.Number.One
import BoxCert.Proofs.Number.Spill

/-!
# Ties go to even

Rounding to nearest is a rule about real numbers: the finite number taken has
no closer one, of two that are equally close it is the one whose last bit is
zero, and from half a step beyond the largest number on there is none to take.
This file shows that the rule leaves no choice, that what an operation rounds
its exact result to follows it in all ranges, and that the compensated sum
takes apart such a result without loss.

The last bit of a number is the parity of its rank, and a rank is even where
the division that found it met a tie: the other number at that distance is one
step away, because off the grid of the division everything is farther.
-/

namespace BoxCert

open Binary64

/-! ## Ties of a rounded division -/

theorem divNearestEven_even_of_tie (num : Nat) {den : Nat} (hden : 0 < den)
    {k : Int} (hne : k ≠ divNearestEven num den)
    (htie : ((num : Int) - k * den).natAbs =
      ((num : Int) - divNearestEven num den * den).natAbs) :
    divNearestEven num den % 2 = 0 := by
  have herr := divNearestEven_error num hden
  have hmod := Nat.mod_lt num hden
  have hdiv : (num : Int) = (num / den : Nat) * den + (num % den : Nat) := by
    exact_mod_cast (Nat.div_add_mod' num den).symm
  -- The two quotients differ, so each is half a divisor away.
  have hhalf : 2 * ((num : Int) - divNearestEven num den * den).natAbs = den := by
    have hstep : (den : Int).natAbs ≤
        ((k - divNearestEven num den) * den).natAbs := by
      rw [Int.natAbs_mul]
      exact Nat.le_mul_of_pos_left _ (Int.natAbs_pos.2 (sub_ne_zero.2 hne))
    rw [Int.sub_mul] at hstep
    omega
  have hsucc : ((num / den + 1 : Nat) : Int) * den =
      (num / den : Nat) * den + den := by
    rw [Int.natCast_succ, Int.add_mul, Int.one_mul]
  unfold divNearestEven at hhalf ⊢
  simp only [] at hhalf ⊢
  split at hhalf
  · next hlt => omega
  · next hge =>
      split at hhalf
      · next hgt => omega
      · next hle =>
          rw [if_neg hge, if_neg hle]
          omega

/-- Where another integer of 53 bits is as close to a quotient as the one that
is picked, the rank that is picked is even. -/
theorem nearestRank_even_of_tie {num den : Nat} (hden : 0 < den) {u : Int}
    (hu : Representable u) (hne : u ≠ magnitudeUnits (nearestRank num den))
    (htie : ((num : Int) - u * den).natAbs =
      ((num : Int) - magnitudeUnits (nearestRank num den) * den).natAbs) :
    nearestRank num den % 2 = 0 := by
  -- The other one is on the grid too, since off the grid all is farther.
  have hdvd : (2 : Int) ^ ((num / den).log2 - 52) ∣ u := by
    by_contra h
    have := natAbs_sub_lt_of_not_dvd hden hu h
    omega
  obtain ⟨k, rfl⟩ := hdvd
  rw [magnitudeUnits_nearestRank_mul, two_pow_mul_mul] at htie
  rw [magnitudeUnits_nearestRank] at hne
  have heven := divNearestEven_even_of_tie num
    (Nat.mul_pos hden (Nat.two_pow_pos _)) (fun h => hne (by
      rw [h, Int.mul_comm, Int.natCast_mul, Int.natCast_pow]
      rfl)) htie
  unfold nearestRank
  simp only []
  omega

namespace Binary64

variable {x y : Binary64} {n num : Int} {den : Nat} {r : ℝ}

theorem roundUnits_natCast (k den : Nat) :
    roundUnits k den = magnitudeUnits (nearestRank k den) := by
  have h := roundUnits_signed false k den
  simpa only [signed, Bool.false_eq_true, if_false] using h

/-- A tie between a rounded integer and another one, of either sign. -/
theorem nearestRank_even_of_roundUnits (hden : 0 < den) {u : Int}
    (hu : Representable u) (hne : u ≠ roundUnits num den)
    (htie : (num - u * den).natAbs = (num - roundUnits num den * den).natAbs) :
    nearestRank num.natAbs den % 2 = 0 := by
  obtain ⟨k, rfl | rfl⟩ := Int.eq_nat_or_neg num
  · rw [roundUnits_natCast] at hne htie
    exact nearestRank_even_of_tie hden hu hne htie
  · rw [roundUnits_neg, roundUnits_natCast] at hne htie
    rw [Int.natAbs_neg, Int.natAbs_natCast]
    refine nearestRank_even_of_tie hden hu.neg (fun h => hne ?_) ?_
    · rw [← h, Int.neg_neg]
    · rw [Int.neg_mul] at htie ⊢
      omega

theorem natAbs_roundUnits (num : Int) (den : Nat) : (roundUnits num den).natAbs =
    magnitudeUnits (nearestRank num.natAbs den) := by
  obtain ⟨k, rfl | rfl⟩ := Int.eq_nat_or_neg num
  · rw [roundUnits_natCast, Int.natAbs_natCast, Int.natAbs_natCast]
  · rw [roundUnits_neg, roundUnits_natCast, Int.natAbs_neg, Int.natAbs_neg,
      Int.natAbs_natCast, Int.natAbs_natCast]

/-! ## The rule -/

/-- Whether `x` is the finite number that a real number is rounded to. -/
structure IsNearestEven (x : Binary64) (r : ℝ) : Prop where
  isFinite_eq : x.isFinite = true
  closest : ∀ z : Binary64, z.isFinite = true →
    |x.toReal - r| ≤ |z.toReal - r|
  /-- Of two numbers that are equally close the one whose last bit is zero is
  taken. -/
  even : ∀ z : Binary64, z.isFinite = true → z.toReal ≠ x.toReal →
    |z.toReal - r| = |x.toReal - r| → x.toBits.toNat % 2 = 0
  /-- Half a step beyond the largest number the range ends. -/
  inRange : |r| < 2 ^ 1024 - 2 ^ 970

/-- The last bit of a number is the parity of its rank. -/
theorem toBits_mod_two (s : Bool) (r : Fin magnitudeCount) :
    (finite s r).toBits.toNat % 2 = r.val % 2 := by
  have hmod : (finite s r).toBits.toNat =
      (r.val + if s then 2 ^ 63 else 0) % 2 ^ 64 := UInt64.toNat_ofNat'
  rw [hmod]
  cases s
  · simp only [Bool.false_eq_true, if_false]
    omega
  · simp only [if_true]
    omega

theorem even_place {i : Int} (hx : x.isFinite = true) (hi : x.place? = some i)
    (heven : x.toBits.toNat % 2 = 0) : i % 2 = 0 := by
  cases x with
  | finite s r =>
      rw [toBits_mod_two] at heven
      obtain rfl : signed s r = i := Option.some.inj hi
      cases s <;> simp only [signed, if_true, Bool.false_eq_true, if_false] <;>
        omega
  | _ => cases hx

theorem abs_sub_lt_of_between {a b c : ℝ} (hac : a < c) (hcb : c < b)
    (h : |a - r| = |b - r|) : |c - r| < |a - r| := by
  rcases abs_eq_abs.1 h with heq | heq
  · linarith
  · have hpos : 0 < r - a := by linarith
    rw [abs_sub_comm a r, abs_of_pos hpos, abs_lt]
    constructor <;> linarith

/-- Two different numbers cannot both be taken: both of their ranks would be
even, and then there is a number between them, which is closer than both. -/
theorem IsNearestEven.not_lt (hx : x.IsNearestEven r) (hy : y.IsNearestEven r) :
    ¬ x < y := by
  intro hlt
  have hxfin := hx.isFinite_eq
  have hyfin := hy.isFinite_eq
  have hreal := toReal_lt_toReal hxfin hyfin hlt
  have hdist : |x.toReal - r| = |y.toReal - r| :=
    le_antisymm (hx.closest y hyfin) (hy.closest x hxfin)
  obtain ⟨i, hi⟩ := exists_place_of_isNan (isNan_of_isFinite hxfin)
  obtain ⟨j, hj⟩ := exists_place_of_isNan (isNan_of_isFinite hyfin)
  have hieven := even_place hxfin hi (hx.even y hyfin hreal.ne' hdist.symm)
  have hjeven := even_place hyfin hj (hy.even x hxfin hreal.ne hdist)
  rw [lt_iff_place hi hj] at hlt
  have hnext := place?_nextUp hxfin hi
  have habove : x < x.nextUp := (lt_iff_place hi hnext).2 (by omega)
  have hbelow : x.nextUp < y := (lt_iff_place hnext hj).2 (by omega)
  have hfin := isFinite_of_le_of_le (le_of_lt habove) (le_of_lt hbelow)
    hxfin hyfin
  exact not_le.2 (abs_sub_lt_of_between (toReal_lt_toReal hxfin hfin habove)
    (toReal_lt_toReal hfin hyfin hbelow) hdist) (hx.closest _ hfin)

/-- The rule determines the number, a zero's sign apart. -/
theorem IsNearestEven.unsignedZero_eq (hx : x.IsNearestEven r)
    (hy : y.IsNearestEven r) : x.unsignedZero = y.unsignedZero := by
  have hxn := isNan_of_isFinite hx.isFinite_eq
  have hyn := isNan_of_isFinite hy.isFinite_eq
  refine unsignedZero_congr hxn hyn (le_antisymm ?_ ?_)
  · exact (le_iff.1 ((not_below_iff hxn hyn).1 (hy.not_lt hx))).2.2
  · exact (le_iff.1 ((not_below_iff hyn hxn).1 (hx.not_lt hy))).2.2

theorem abs_toReal_sub_quotient {k : Int} (hx : x.units? = some k)
    (hden : 0 < den) : |x.toReal - quotient num den| =
      (num - k * den).natAbs * (unit / den) := by
  have hden' : (0 : ℝ) < den := Nat.cast_pos.2 hden
  have hdiff : x.toReal - quotient num den =
      -((num - k * den : Int) : ℝ) * (unit / den) := by
    rw [toReal_of_units hx, quotient]
    push_cast
    field_simp
    ring
  rw [hdiff, abs_mul, abs_neg, abs_of_pos (div_pos unit_pos hden'),
    ← Int.cast_abs, Int.abs_eq_natAbs, Int.cast_natCast]

theorem abs_quotient (hden : 0 < den) :
    |quotient num den| = num.natAbs * (unit / den) := by
  have h : |toReal 0 - quotient num den| =
      (num - 0 * den).natAbs * (unit / den) :=
    abs_toReal_sub_quotient units?_zero hden
  rwa [toReal_of_units units?_zero, Int.cast_zero, zero_mul, zero_sub, abs_neg,
    Int.zero_mul, Int.sub_zero] at h

/-- Where rounding to nearest ends, in units and in reals. -/
theorem rangeEnd_eq :
    ((2 ^ 54 - 1) * halfTopStep * unit : ℝ) = 2 ^ 1024 - 2 ^ 970 := by
  rw [mul_assoc, halfTopStep_mul_unit, sub_mul, one_mul, ← pow_add]

/-- From half a step beyond the largest number on nothing is rounded to a finite
number: half way, the even neighbour is the one outside. -/
theorem natAbs_lt_of_nearestRank_lt {num : Nat} (hden : 0 < den)
    (h : nearestRank num den < magnitudeCount) :
    num < (2 ^ 54 - 1) * halfTopStep * den := by
  by_contra hge
  rw [not_lt, Nat.mul_assoc] at hge
  have hover : (overflowUnits : Int) * den = 2 ^ 54 * (halfTopStep * den : Nat) := by
    rw [overflowUnits_eq_halfSteps]
    push_cast
    ring
  have hmax : magnitudeUnits (nearestRank num den) * den ≤
      (2 ^ 54 - 2) * (halfTopStep * den) := by
    rw [← Nat.mul_assoc, ← greatestUnits_eq_halfSteps]
    exact Nat.mul_le_mul_right den
      (magnitudeUnits_strictMono.monotone (by omega))
  have hclosest := (nearest_nearestRank num hden).closest overflowUnits
    (representable_magnitudeUnits _)
  have hpos := Nat.mul_pos halfTopStep_pos hden
  rw [hover] at hclosest
  -- The end of the range is as close as the largest number, which is odd.
  have heven := nearestRank_even_of_tie (u := overflowUnits) hden
    (representable_magnitudeUnits _)
    (fun heq => h.ne (magnitudeUnits_strictMono.injective
      (Int.natCast_inj.1 heq.symm))) (by
        rw [hover]
        omega)
  have htop : magnitudeUnits (nearestRank num den) = greatestUnits := by
    refine Nat.eq_of_mul_eq_mul_right hden ?_
    rw [greatestUnits_eq_halfSteps, Nat.mul_assoc]
    omega
  have hrank : nearestRank num den = 0x7FF0000000000000 - 1 :=
    magnitudeUnits_strictMono.injective htop
  omega

theorem Clamps.isNearestEven (hx : Clamps x (roundUnits num den))
    (hden : 0 < den) (hfin : x.isFinite = true) :
    x.IsNearestEven (quotient num den) := by
  have hunits := hx.units_of_isFinite hfin
  have hscale : 0 < unit / den := div_pos unit_pos (Nat.cast_pos.2 hden)
  refine ⟨hfin, fun z hz => ?_, fun z hz hne htie => ?_, ?_⟩
  · obtain ⟨k, hk⟩ := exists_units hz
    rw [abs_toReal_sub_quotient hunits hden, abs_toReal_sub_quotient hk hden,
      mul_le_mul_iff_left₀ hscale, Nat.cast_le]
    exact (nearest_roundUnits num hden).closest k (representable_of_units hk)
  · obtain ⟨k, hk⟩ := exists_units hz
    rw [abs_toReal_sub_quotient hunits hden, abs_toReal_sub_quotient hk hden,
      mul_left_inj' hscale.ne', Nat.cast_inj] at htie
    rw [toReal_of_units hk, toReal_of_units hunits] at hne
    have heven := nearestRank_even_of_roundUnits hden (representable_of_units hk)
      (fun h => hne (by rw [h])) htie
    obtain ⟨s, r, rfl, hr⟩ := exists_rank_of_units hunits
    have habs := natAbs_roundUnits num den
    rw [← hr, signed_natAbs] at habs
    rw [toBits_mod_two, magnitudeUnits_strictMono.injective habs, heven]
  · have hlt := natAbs_lt_of_units hunits
    rw [natAbs_roundUnits] at hlt
    have hrange := natAbs_lt_of_nearestRank_lt hden
      (magnitudeUnits_strictMono.lt_iff_lt.1 hlt)
    have hcast := (Nat.cast_lt (α := ℝ)).2 hrange
    rw [Nat.cast_mul, Nat.cast_mul,
      show ((2 ^ 54 - 1 : ℕ) : ℝ) = 2 ^ 54 - 1 by norm_num] at hcast
    rw [abs_quotient hden, ← rangeEnd_eq]
    calc num.natAbs * (unit / den)
      _ < (2 ^ 54 - 1) * halfTopStep * den * (unit / den) :=
          mul_lt_mul_of_pos_right hcast hscale
      _ = (2 ^ 54 - 1) * halfTopStep * unit := by
          rw [mul_assoc, mul_div_cancel₀ _ (Nat.cast_ne_zero.2 hden.ne')]

/-! ## Compensated sums -/

theorem isFinite_of_mem_sumSteps {m : Int} (hx : x.units? = some m)
    (hy : y.units? = some n) (hsum : (x + y).isFinite = true)
    (hspill : sumSpills x y = false) {z : Binary64} (hz : z ∈ sumSteps x y) :
    z.isFinite = true := by
  obtain ⟨v, t, -, hsteps⟩ := units?_sumSteps hx hy hsum hspill
  have hmem := List.mem_map_of_mem (f := units?) hz
  rw [hsteps] at hmem
  simp only [List.mem_cons, List.not_mem_nil, or_false] at hmem
  rcases hmem with h | h | h | h | h | h <;> exact isFinite_of_units h

/-- A compensated sum loses nothing: unless the second operand is a largest
number, the first result is the exact sum rounded to the nearest number, ties
to even, no step on the way leaves the range, and both results add up to the
exact sum. -/
theorem sumWithError_lossless (hx : x.isFinite = true) (hy : y.isFinite = true)
    (hlt : y.abs < greatest false) (hsum : (x + y).isFinite = true) :
    (sumWithError x y).1.IsNearestEven (x.toReal + y.toReal) ∧
    (sumSteps x y).head? = some (sumWithError x y).1 ∧
    (sumSteps x y).getLast? = some (sumWithError x y).2 ∧
    (∀ z ∈ sumSteps x y, z.isFinite = true) ∧
    (sumWithError x y).2.isFinite = true ∧
    (sumWithError x y).1.toReal + (sumWithError x y).2.toReal =
      x.toReal + y.toReal := by
  obtain ⟨m, hm⟩ := exists_units hx
  obtain ⟨n, hn⟩ := exists_units hy
  have hspill : sumSpills x y = false := sumSpills_eq_false fun h => by
    rw [h] at hlt
    exact absurd hlt (by decide)
  have htotal : quotient (m + n) 1 = x.toReal + y.toReal := by
    rw [toReal_of_units hm, toReal_of_units hn, quotient, Int.cast_add,
      Nat.cast_one, div_one, add_mul]
  obtain ⟨hhead, hlast⟩ := sumWithError_of_finite hsum
  obtain ⟨v, e, he, hv, -, heu⟩ := sumWithError_exact hm hn hsum hspill
  rw [he] at hhead hlast ⊢
  refine ⟨?_, hhead, hlast,
    fun z hz => isFinite_of_mem_sumSteps hm hn hsum hspill hz,
    isFinite_of_units heu, ?_⟩
  · rw [← htotal]
    exact (clamps_add hm hn).isNearestEven Nat.one_pos hsum
  · rw [toReal_of_units hv, toReal_of_units heu, ← htotal, quotient]
    push_cast
    ring

/-- One unit is half of the step at `2 ^ 53` units, so their sum is a tie. -/
theorem sumWithError_lossless_tie :
    (ofBits 0x0020000000000000).isFinite = true ∧ (ofBits 1).isFinite = true ∧
    (ofBits 1).abs < greatest false ∧
    (ofBits 0x0020000000000000 + ofBits 1).isFinite = true ∧
    sumWithError (ofBits 0x0020000000000000) (ofBits 1) =
      (ofBits 0x0020000000000000, ofBits 1) ∧
    (ofBits 0x0020000000000000).IsNearestEven
      ((ofBits 0x0020000000000000).toReal + (ofBits 1).toReal) ∧
    ∀ z ∈ sumSteps (ofBits 0x0020000000000000) (ofBits 1),
      z.isFinite = true := by
  have hx : (ofBits 0x0020000000000000).isFinite = true := by decide
  have hy : (ofBits 1).isFinite = true := by decide
  have hlt : (ofBits 1).abs < greatest false := by decide
  have hsum : (ofBits 0x0020000000000000 + ofBits 1).isFinite = true := by
    decide +kernel
  have hresult : sumWithError (ofBits 0x0020000000000000) (ofBits 1) =
      (ofBits 0x0020000000000000, ofBits 1) := by decide +kernel
  obtain ⟨hnearest, -, -, hsteps, -⟩ := sumWithError_lossless hx hy hlt hsum
  rw [hresult] at hnearest
  exact ⟨hx, hy, hlt, hsum, hresult, hnearest, hsteps⟩

end Binary64

end BoxCert
