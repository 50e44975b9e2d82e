import BoxCert.Command.Budget
import BoxCert.Proofs.Number.Rounded

/-!
# Which numbers are budgets

A number of seconds is a budget if it is not negative and has at most 64 bits.
Rounding it to nanoseconds does not get in the way: the largest number of that
size falls short of the limit by more than a second.

A budget is used up or it is not, as its seconds are a number that compares
with any time that a run can take.
-/

namespace BoxCert

open Binary64

namespace TimeBudget

variable {seconds elapsed : Binary64} {b : TimeBudget}

/-- Whether a number of seconds is a duration. -/
structure IsDuration (seconds : Binary64) : Prop where
  isFinite : seconds.isFinite = true
  nonneg : 0 ≤ seconds.toReal
  lt : seconds.toReal < 2 ^ 64

theorem lt_zero_iff (h : seconds.isFinite = true) :
    seconds < 0 ↔ seconds.toReal < 0 := by
  rw [lt_iff, toEReal_zero, toEReal_of_isFinite h, isNan_of_isFinite h,
    EReal.coe_neg']
  exact ⟨fun h => h.2.2, fun h => ⟨rfl, rfl, h⟩⟩

/-- The rank of `2 ^ 64` seconds. -/
def limitRank : Nat := 1087 * 2 ^ 52

theorem magnitudeUnits_limitRank :
    magnitudeUnits limitRank = 2 ^ 64 * oneUnits := by decide +kernel

theorem magnitudeUnits_below_limitRank :
    magnitudeUnits (limitRank - 1) = (2 ^ 64 - 2 ^ 11) * oneUnits := by
  decide +kernel

theorem nanoseconds_lt_iff (rank : Nat) :
    divNearestEven (magnitudeUnits rank * perSecond) oneUnits <
        2 ^ 64 * perSecond ↔
      magnitudeUnits rank < 2 ^ 64 * oneUnits := by
  have hround :=
    divNearestEven_eq_or (magnitudeUnits rank * perSecond) oneUnits
  have hpos : 1 < perSecond := by decide
  constructor
  · intro h
    by_contra hge
    have hle : 2 ^ 64 * perSecond ≤
        magnitudeUnits rank * perSecond / oneUnits := by
      rw [Nat.le_div_iff_mul_le oneUnits_pos, Nat.mul_right_comm]
      exact Nat.mul_le_mul_right _ (Nat.le_of_not_lt hge)
    omega
  · intro h
    rw [← magnitudeUnits_limitRank,
      magnitudeUnits_strictMono.lt_iff_lt] at h
    have hle : magnitudeUnits rank * perSecond / oneUnits ≤
        (2 ^ 64 - 2 ^ 11) * perSecond := by
      refine Nat.div_le_of_le_mul ?_
      rw [← Nat.mul_assoc, Nat.mul_comm oneUnits,
        ← magnitudeUnits_below_limitRank]
      exact Nat.mul_le_mul_right _
        (magnitudeUnits_strictMono.monotone (Nat.le_sub_one_of_lt h))
    omega

theorem toReal_of_nonneg {s : Bool} {rank : Fin magnitudeCount}
    (h : 0 ≤ (finite s rank).toReal) :
    (finite s rank).toReal = magnitudeUnits rank / oneUnits := by
  have hunits := toReal_of_units (units?_finite s rank)
  have hsigned : signed s (magnitudeUnits rank) = magnitudeUnits rank := by
    rw [hunits] at h
    have hnonneg : 0 ≤ signed s (magnitudeUnits rank) :=
      Int.cast_nonneg_iff.1 (nonneg_of_mul_nonneg_left h unit_pos)
    cases s
    · rfl
    · simp only [signed, if_true] at hnonneg ⊢
      omega
  rw [hunits, hsigned, unit, ← div_eq_mul_inv, Int.cast_natCast]

theorem toReal_lt_iff {s : Bool} {rank : Fin magnitudeCount}
    (h : 0 ≤ (finite s rank).toReal) : (finite s rank).toReal < 2 ^ 64 ↔
      magnitudeUnits rank < 2 ^ 64 * oneUnits := by
  have hone : (0 : ℝ) < oneUnits := Nat.cast_pos.2 oneUnits_pos
  have hlimit : ((2 ^ 64 * oneUnits : Nat) : ℝ) = 2 ^ 64 * (oneUnits : ℝ) := by
    rw [Nat.cast_mul, Nat.cast_pow, Nat.cast_ofNat]
  rw [toReal_of_nonneg h, div_lt_iff₀ hone, ← hlimit, Nat.cast_lt]

theorem exists_ofSeconds_iff :
    (∃ b, ofSeconds seconds = .ok b) ↔ IsDuration seconds := by
  cases seconds with
  | nan => exact iff_of_false nofun fun h => nomatch h.isFinite
  | infinite s =>
      refine iff_of_false ?_ fun h => nomatch h.isFinite
      rintro ⟨b, h⟩
      cases s <;> cases h
  | finite s rank =>
      have hnegative : finite s rank < 0 ↔ (finite s rank).toReal < 0 :=
        lt_zero_iff rfl
      unfold ofSeconds
      split
      · next h =>
          refine iff_of_false nofun fun hd => ?_
          exact absurd (hnegative.1 h) hd.nonneg.not_gt
      · next h =>
          rw [hnegative, not_lt] at h
          have hlt := toReal_lt_iff h
          dsimp only
          split
          · next hsmall =>
              rw [nanoseconds_lt_iff, ← hlt] at hsmall
              exact iff_of_true ⟨_, rfl⟩ ⟨rfl, h, hsmall⟩
          · next hlarge =>
              rw [nanoseconds_lt_iff, ← hlt] at hlarge
              exact iff_of_false nofun fun hd => hlarge hd.lt

theorem abs_div_sub_divNearestEven_le (num : Nat) {den : Nat} (hden : 0 < den)
    (k : Int) : |(num / den : ℝ) - divNearestEven num den| ≤
      |(num / den : ℝ) - k| := by
  have hpos : (0 : ℝ) < den := Nat.cast_pos.2 hden
  have hscale : ∀ n : ℝ, |(num / den : ℝ) - n| = |num - n * den| / den := by
    intro n
    rw [← abs_of_pos hpos, ← abs_div, abs_of_pos hpos, sub_div,
      mul_div_cancel_right₀ n hpos.ne']
  have hclosest := divNearestEven_closest num hden k
  rw [← Int.ofNat_le, ← Int.abs_eq_natAbs, ← Int.abs_eq_natAbs,
    ← Int.cast_le (R := ℝ)] at hclosest
  push_cast at hclosest
  rw [hscale, hscale]
  exact div_le_div_of_nonneg_right hclosest hpos.le

theorem nanoseconds_eq {s : Bool} {rank : Fin magnitudeCount}
    (h : ofSeconds (finite s rank) = .ok b) :
    b.nanoseconds =
      divNearestEven (magnitudeUnits rank * perSecond) oneUnits := by
  unfold ofSeconds at h
  split at h
  · cases h
  · dsimp only at h
    split at h
    · rw [← Except.ok.inj h]
    · cases h

/-- A budget has the number of nanoseconds that is nearest. -/
theorem nanoseconds_closest (h : ofSeconds seconds = .ok b) (k : Int) :
    |seconds.toReal * perSecond - b.nanoseconds| ≤
      |seconds.toReal * perSecond - k| := by
  have hduration := exists_ofSeconds_iff.1 ⟨b, h⟩
  cases seconds with
  | nan => cases hduration.isFinite
  | infinite s => cases hduration.isFinite
  | finite s rank =>
      have hclosest := abs_div_sub_divNearestEven_le
        (magnitudeUnits rank * perSecond) oneUnits_pos k
      rw [← nanoseconds_eq h, Nat.cast_mul, ← div_mul_eq_mul_div] at hclosest
      rwa [toReal_of_nonneg hduration.nonneg]

end TimeBudget

end BoxCert
