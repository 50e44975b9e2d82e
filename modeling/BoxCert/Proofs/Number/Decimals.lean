import Mathlib.Data.Rat.Cast.Order
import Mathlib.Tactic.FieldSimp
import BoxCert.Number.Shortest
import BoxCert.Proofs.Number.Rank

/-!
# The worth of the shortest decimal

The decimal found for a magnitude reads back to it, so it lies at or below the
midpoint to the next magnitude. That much is true of the exact value as well,
which stands in where the search finds nothing. No more is needed to see that a
number which is written stays in range when it is read.
-/

namespace BoxCert.Decimal

/-- The exact value of a decimal. -/
def value (d : Decimal) : ℚ := d.digits * 10 ^ d.exponent

theorem ten_zpow_mul (e : Int) :
    (10 : ℚ) ^ e * 10 ^ (-e).toNat = 10 ^ e.toNat := by
  rw [← zpow_natCast, ← zpow_natCast, ← zpow_add₀ (by norm_num)]
  congr 1
  omega

theorem value_pos_iff {d : Decimal} : 0 < d.value ↔ 0 < d.digits := by
  rw [value, mul_pos_iff_of_pos_right (zpow_pos (by norm_num) _), Nat.cast_pos]

theorem value_dropTrailingZeros (digits : Nat) (exponent : Int) :
    (dropTrailingZeros digits exponent).value = digits * 10 ^ exponent := by
  fun_induction dropTrailingZeros digits exponent with
  | case1 digits exponent h ih =>
      have hdigits : (digits : ℚ) = (digits / 10 : Nat) * 10 := by
        exact_mod_cast (show digits = digits / 10 * 10 by omega)
      rw [ih, hdigits, zpow_add₀ (by norm_num), zpow_one]
      ring
  | case2 digits exponent h => rfl

variable {rank : Nat} {d : Decimal} {tie : TieRule}

/-- Whether a decimal is positive and no further than the midpoint above a
magnitude. -/
structure Fits (rank : Nat) (d : Decimal) : Prop where
  pos : 0 < d.value
  le : 2 * d.value * oneUnits ≤ magnitudeUnits rank + magnitudeUnits (rank + 1)

theorem le_of_readsBack (h : readsBack rank d = true) :
    (magnitudeUnits (rank - 1) + magnitudeUnits rank) *
        10 ^ (-d.exponent).toNat ≤
      2 * d.digits * oneUnits * 10 ^ d.exponent.toNat ∧
    2 * d.digits * oneUnits * 10 ^ d.exponent.toNat ≤
      (magnitudeUnits rank + magnitudeUnits (rank + 1)) *
        10 ^ (-d.exponent).toNat := by
  unfold readsBack at h
  dsimp only at h
  split at h
  · rw [Bool.and_eq_true, decide_eq_true_iff, decide_eq_true_iff] at h
    exact h
  · rw [Bool.and_eq_true, decide_eq_true_iff, decide_eq_true_iff] at h
    exact ⟨h.1.le, h.2.le⟩

/-- The two sides of the comparison that reading back makes, in units. -/
theorem value_mul (d : Decimal) (one : Nat) :
    2 * d.value * one * (10 ^ (-d.exponent).toNat : Nat) =
      (2 * d.digits * one * 10 ^ d.exponent.toNat : Nat) := by
  have hscale := ten_zpow_mul d.exponent
  rw [value]
  push_cast
  rw [← hscale]
  ring

theorem fits_of_readsBack (hrank : 0 < rank) (h : readsBack rank d = true) :
    d.Fits rank := by
  have hunits : 0 < magnitudeUnits rank := by
    have := magnitudeUnits_strictMono hrank
    omega
  obtain ⟨hlow, hhigh⟩ := le_of_readsBack h
  have hscale : 0 < 10 ^ (-d.exponent).toNat := by positivity
  have hmul := value_mul d oneUnits
  generalize 10 ^ (-d.exponent).toNat = scale at *
  have hscale' : (0 : ℚ) < scale := Nat.cast_pos.2 hscale
  constructor
  · rw [value_pos_iff, Nat.pos_iff_ne_zero]
    intro hzero
    rw [hzero, Nat.mul_zero, Nat.zero_mul, Nat.zero_mul, Nat.le_zero] at hlow
    exact (Nat.mul_pos (by omega) hscale).ne' hlow
  · refine le_of_mul_le_mul_right ?_ hscale'
    rw [hmul, ← Nat.cast_add, ← Nat.cast_mul, Nat.cast_le]
    exact hhigh

theorem mul_five_pow_mul (n k : Nat) :
    ((n * 5 ^ k : Nat) : ℚ) * 10 ^ (-(k : Int)) = n / (2 ^ k : Nat) := by
  have hten : (10 : ℚ) ^ k = 5 ^ k * 2 ^ k := by
    rw [← mul_pow]
    norm_num
  have hfive : (5 : ℚ) ^ k ≠ 0 := pow_ne_zero k (by norm_num)
  have htwo : (2 : ℚ) ^ k ≠ 0 := pow_ne_zero k (by norm_num)
  rw [zpow_neg, zpow_natCast, hten]
  push_cast
  field_simp

theorem fits_exact (hrank : 0 < rank) : Fits rank
    (dropTrailingZeros (magnitudeUnits rank * 5 ^ 1074) (-1074)) := by
  have hvalue := (value_dropTrailingZeros (magnitudeUnits rank * 5 ^ 1074)
    (-1074)).trans (mul_five_pow_mul (magnitudeUnits rank) 1074)
  have hpos := magnitudeUnits_strictMono hrank
  have hnext := magnitudeUnits_strictMono (Nat.lt_succ_self rank)
  have hone : (0 : ℚ) < (2 ^ 1074 : Nat) := Nat.cast_pos.2 (Nat.two_pow_pos 1074)
  constructor
  · rw [hvalue]
    exact div_pos (Nat.cast_pos.2 (by omega)) hone
  · rw [hvalue, mul_assoc, div_mul_cancel₀ _ hone.ne', two_mul]
    exact add_le_add_right (Nat.cast_le.2 hnext.le) _

theorem readsBack_of_onGrid? {e : Int} {digits : Nat}
    (h : onGrid? tie rank e = some digits) :
    readsBack rank ⟨digits, e⟩ = true := by
  unfold onGrid? at h
  dsimp only at h
  split at h
  · cases h
  · next hlow _ =>
      cases h
      exact hlow
  · next _ hhigh =>
      cases h
      exact hhigh
  · next hlow hhigh =>
      split at h
      · cases h
        exact hlow
      · cases h
        exact hhigh
      · cases tie with
        | upwards =>
            cases h
            exact hhigh
        | toEven =>
            -- The even one of the two is one of the two.
            cases h
            rcases Nat.mod_two_eq_zero_or_one (magnitudeUnits rank *
              10 ^ (-e).toNat / (oneUnits * 10 ^ e.toNat)) with heven | hodd
            · rw [heven]
              exact hlow
            · rw [hodd]
              exact hhigh

theorem fits_shortest (hrank : 0 < rank) : (shortest tie rank).Fits rank := by
  unfold shortest
  dsimp only
  split
  · next digits exponent h =>
      obtain ⟨e, -, hgrid⟩ := List.exists_of_findSome?_eq_some h
      obtain ⟨_, hgrid, hpair⟩ := Option.map_eq_some_iff.1 hgrid
      cases hpair
      have hfits := fits_of_readsBack hrank (readsBack_of_onGrid? hgrid)
      have hvalue := value_dropTrailingZeros digits exponent
      exact ⟨hvalue ▸ hfits.pos, hvalue ▸ hfits.le⟩
  · exact fits_exact hrank

end BoxCert.Decimal
