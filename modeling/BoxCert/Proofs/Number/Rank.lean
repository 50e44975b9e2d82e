import Mathlib.Order.Monotone.Basic
import Mathlib.Tactic.Positivity
import BoxCert.Number.Nearest
import BoxCert.Proofs.Number.Representable

/-!
# Ranks and the units they stand for

The rank of a magnitude counts the representable integers from zero upwards:
units grow strictly with the rank, every rank stands for a representable
integer and every such integer has a rank. A rank is therefore as good as its
units wherever only the order matters.

Rounding divides by a step of 53 bits below the quotient. The rank that comes
out is written as a number of steps over a number of doublings, in the one
form that covers the carry into the next exponent (`magnitudeUnits_steps`).
-/

namespace BoxCert

/-- A magnitude of `q` steps after `shift` doublings. The bound on `q` is not
strict, so a carry out of the last bit needs no case of its own. -/
theorem magnitudeUnits_steps {shift q : Nat} (hq : q ≤ 2 ^ 53)
    (hlow : shift = 0 ∨ 2 ^ 52 ≤ q) :
    magnitudeUnits (q + shift * 2 ^ 52) = q * 2 ^ shift := by
  unfold magnitudeUnits
  split
  · next hlt =>
      obtain rfl : shift = 0 := by omega
      rw [Nat.zero_mul, Nat.add_zero, Nat.pow_zero, Nat.mul_one]
  · next hge =>
      rcases Nat.lt_or_eq_of_le hq with hlt | rfl
      · rw [show (q + shift * 2 ^ 52) / 2 ^ 52 = shift + 1 by omega,
          show 2 ^ 52 + (q + shift * 2 ^ 52) % 2 ^ 52 = q by omega,
          Nat.add_sub_cancel]
      · rw [show (2 ^ 53 + shift * 2 ^ 52) / 2 ^ 52 = shift + 2 by omega,
          show 2 ^ 52 + (2 ^ 53 + shift * 2 ^ 52) % 2 ^ 52 = 2 ^ 52 by omega,
          show shift + 2 - 1 = shift + 1 by omega, Nat.pow_succ]
        omega

theorem exists_steps (rank : Nat) :
    ∃ q shift, rank = q + shift * 2 ^ 52 ∧ q < 2 ^ 53 ∧
      (shift = 0 ∨ 2 ^ 52 ≤ q) := by
  by_cases h : rank < 2 ^ 52
  · exact ⟨rank, 0, by omega, by omega, .inl rfl⟩
  · exact ⟨2 ^ 52 + rank % 2 ^ 52, rank / 2 ^ 52 - 1, by omega, by omega,
      .inr (by omega)⟩

theorem magnitudeUnits_strictMono : StrictMono magnitudeUnits := by
  refine strictMono_nat_of_lt_succ fun rank => ?_
  obtain ⟨q, shift, rfl, hq, hlow⟩ := exists_steps rank
  rw [show q + shift * 2 ^ 52 + 1 = q + 1 + shift * 2 ^ 52 by omega,
    magnitudeUnits_steps (by omega) hlow,
    magnitudeUnits_steps (by omega) (by omega)]
  exact Nat.mul_lt_mul_of_pos_right (Nat.lt_succ_self q) (Nat.two_pow_pos _)

@[simp] theorem magnitudeUnits_zero : magnitudeUnits 0 = 0 := by decide

/-- How often the step has doubled at the end of the range. -/
@[irreducible] def topShift : Nat := 2045

theorem magnitudeCount_eq : magnitudeCount = 2 ^ 53 + topShift * 2 ^ 52 := by
  unfold topShift
  rfl

/-- The step between the largest finite magnitudes, in units. -/
def topStep : Nat := 2 ^ topShift

theorem topStep_pos : 0 < topStep := Nat.two_pow_pos topShift

theorem magnitudeUnits_count_sub {i : Nat} (hi : i ≤ 2 ^ 52) :
    magnitudeUnits (magnitudeCount - i) = (2 ^ 53 - i) * topStep := by
  have hcount := magnitudeCount_eq
  rw [show magnitudeCount - i = 2 ^ 53 - i + topShift * 2 ^ 52 by omega,
    magnitudeUnits_steps (by omega) (.inr (by omega)), topStep]

theorem representable_magnitudeUnits (rank : Nat) :
    Representable (magnitudeUnits rank) := by
  obtain ⟨q, shift, rfl, hq, hlow⟩ := exists_steps rank
  rw [magnitudeUnits_steps (by omega) hlow]
  exact ⟨q, shift, hq, by push_cast; rfl⟩

/-! ## Rounded division -/

theorem divNearestEven_eq_or (num den : Nat) :
    divNearestEven num den = num / den ∨
      divNearestEven num den = num / den + 1 := by
  unfold divNearestEven
  simp only []
  split
  · exact .inl rfl
  · split <;> omega

theorem divNearestEven_error (num : Nat) {den : Nat} (hden : 0 < den) :
    2 * ((num : Int) - divNearestEven num den * den).natAbs ≤ den := by
  have hmod := Nat.mod_lt num hden
  have hdiv : (num : Int) = (num / den : Nat) * den + (num % den : Nat) := by
    exact_mod_cast (Nat.div_add_mod' num den).symm
  have hsucc : ((num / den + 1 : Nat) : Int) * den =
      (num / den : Nat) * den + den := by
    rw [Int.natCast_succ, Int.add_mul, Int.one_mul]
  unfold divNearestEven
  simp only []
  split
  · next hlt => omega
  · next hge =>
      split
      · next hgt => omega
      · next hle =>
          rcases Nat.mod_two_eq_zero_or_one (num / den) with heven | hodd
          · rw [heven, Nat.add_zero]
            omega
          · rw [hodd]
            omega

theorem divNearestEven_closest (num : Nat) {den : Nat} (hden : 0 < den)
    (k : Int) : ((num : Int) - divNearestEven num den * den).natAbs ≤
      ((num : Int) - k * den).natAbs := by
  have herr := divNearestEven_error num hden
  rcases Int.lt_trichotomy k (divNearestEven num den) with hlt | rfl | hgt
  · have := Int.mul_le_mul_of_nonneg_right hlt (Int.natCast_nonneg den)
    rw [Int.add_mul, Int.one_mul] at this
    omega
  · exact Nat.le_refl _
  · have := Int.mul_le_mul_of_nonneg_right hgt (Int.natCast_nonneg den)
    rw [Int.add_mul, Int.one_mul] at this
    omega

/-- The step of a rank is chosen so that 53 bits of the quotient remain. -/
theorem div_two_pow_log2 (q : Nat) :
    q / 2 ^ (q.log2 - 52) < 2 ^ 53 ∧
      (q.log2 - 52 = 0 ∨ 2 ^ 52 ≤ q / 2 ^ (q.log2 - 52)) := by
  have hpos := Nat.two_pow_pos (q.log2 - 52)
  constructor
  · rw [Nat.div_lt_iff_lt_mul hpos, ← Nat.pow_add]
    exact Nat.lt_of_lt_of_le Nat.lt_log2_self
      (Nat.pow_le_pow_right (by decide) (by omega))
  · by_cases hlog : q.log2 ≤ 52
    · exact .inl (by omega)
    · have hq : q ≠ 0 := by
        rintro rfl
        exact hlog (by decide)
      rw [Nat.le_div_iff_mul_le hpos, ← Nat.pow_add,
        show 52 + (q.log2 - 52) = q.log2 by omega]
      exact .inr (Nat.log2_self_le hq)

@[simp] theorem nearestRank_zero (den : Nat) : nearestRank 0 den = 0 := by
  simp [nearestRank, divNearestEven]

theorem magnitudeUnits_nearestRank (num den : Nat) :
    magnitudeUnits (nearestRank num den) =
      divNearestEven num (den * 2 ^ ((num / den).log2 - 52)) *
        2 ^ ((num / den).log2 - 52) := by
  have hbits := div_two_pow_log2 (num / den)
  rw [Nat.div_div_eq_div_mul] at hbits
  have hround := divNearestEven_eq_or num
    (den * 2 ^ ((num / den).log2 - 52))
  unfold nearestRank
  exact magnitudeUnits_steps (by omega) (by omega)

theorem two_pow_mul_mul (shift : Nat) (k : Int) (den : Nat) :
    2 ^ shift * k * den = k * (den * 2 ^ shift : Nat) := by
  push_cast
  ring

/-- What is picked for a quotient, as a number of grid steps. -/
theorem magnitudeUnits_nearestRank_mul (num den : Nat) :
    (magnitudeUnits (nearestRank num den) : Int) * den =
      divNearestEven num (den * 2 ^ ((num / den).log2 - 52)) *
        (den * 2 ^ ((num / den).log2 - 52) : Nat) := by
  rw [magnitudeUnits_nearestRank]
  push_cast
  ring

/-- A number that is not on the grid is too small to be as close to the quotient
as the one that is picked. -/
theorem natAbs_sub_lt_of_not_dvd {num den : Nat} (hden : 0 < den) {u : Int}
    (hu : Representable u) (h : ¬ (2 : Int) ^ ((num / den).log2 - 52) ∣ u) :
    ((num : Int) - magnitudeUnits (nearestRank num den) * den).natAbs <
      ((num : Int) - u * den).natAbs := by
  have hbits := div_two_pow_log2 (num / den)
  rw [magnitudeUnits_nearestRank_mul]
  generalize (num / den).log2 - 52 = shift at h hbits ⊢
  have hstep : 0 < den * 2 ^ shift := Nat.mul_pos hden (Nat.two_pow_pos _)
  have hshift : shift ≠ 0 := by
    rintro rfl
    exact h (by simp)
  have hsmall : u.natAbs < 2 ^ 52 * 2 ^ shift := by
    by_contra hle
    exact h (hu.two_pow_dvd (Nat.le_of_not_lt hle))
  have hlarge : 2 ^ 52 * (den * 2 ^ shift) ≤ num :=
    (Nat.le_div_iff_mul_le hstep).1 (by
      rw [← Nat.div_div_eq_div_mul]
      exact hbits.2.resolve_left hshift)
  have hnear := divNearestEven_closest num hstep (2 ^ 52)
  have hfar : u * den < 2 ^ 52 * (den * 2 ^ shift : Nat) := by
    have hlt : u < 2 ^ 52 * (2 ^ shift : Nat) := by omega
    calc u * den < 2 ^ 52 * (2 ^ shift : Nat) * den :=
          Int.mul_lt_mul_of_pos_right hlt (by omega)
      _ = 2 ^ 52 * (den * 2 ^ shift : Nat) := by push_cast; ring
  omega

/-- The rank picked for a quotient stands for a representable integer closest
to it. -/
theorem nearest_nearestRank (num : Nat) {den : Nat} (hden : 0 < den) :
    Nearest (magnitudeUnits (nearestRank num den)) num den where
  representable := representable_magnitudeUnits _
  closest u hu := by
    by_cases hdvd : (2 : Int) ^ ((num / den).log2 - 52) ∣ u
    · have hstep : 0 < den * 2 ^ ((num / den).log2 - 52) :=
        Nat.mul_pos hden (Nat.two_pow_pos _)
      obtain ⟨k, rfl⟩ := hdvd
      rw [magnitudeUnits_nearestRank_mul, two_pow_mul_mul]
      exact divNearestEven_closest num hstep k
    · exact (natAbs_sub_lt_of_not_dvd hden hu hdvd).le

end BoxCert
