import BoxCert.Proofs.Number.DirectedSum

/-!
# Words of the interchange formats

A word of an interchange format is a sign, a biased exponent and a fraction.
What it stands for is said here once for all formats, as a fraction that can
be computed, and both readers of words are held against it. The wide reader takes the bits below
the sign for a rank. The narrow one rounds, but never has anything to round
away: a number of 24 bits in the narrow range is a number of the wide format,
so that it keeps its value, its sign and, where it has no value, its kind.
-/

namespace BoxCert

/-- A binary interchange format. A word has its sign on top, then the exponent,
then the fraction. -/
structure Interchange where
  exponentBits : Nat
  fractionBits : Nat

namespace Interchange

/-- The format of 32-bit floats. -/
def single : Interchange := ⟨8, 23⟩

/-- The format of 64-bit floats. -/
def double : Interchange := ⟨11, 52⟩

section Fields

variable (f : Interchange) (word : Nat)

def negative : Bool := decide (2 ^ (f.exponentBits + f.fractionBits) ≤ word)

def exponent : Nat := word / 2 ^ f.fractionBits % 2 ^ f.exponentBits

def fraction : Nat := word % 2 ^ f.fractionBits

/-- The exponent that is written for the power zero. -/
def bias : Nat := 2 ^ (f.exponentBits - 1) - 1

/-- The exponent of the words that are not finite. -/
def topExponent : Nat := 2 ^ f.exponentBits - 1

/-- The absolute value of a finite word. At the least exponent no bit leads the
fraction, and the steps are those of the exponent above it. -/
def magnitude : ℚ :=
  if f.exponent word = 0 then
    f.fraction word * 2 ^ (1 - f.bias - f.fractionBits : ℤ)
  else
    (2 ^ f.fractionBits + f.fraction word) *
      2 ^ (f.exponent word - f.bias - f.fractionBits : ℤ)

/-- Whether a number is what a word stands for. A zero has the sign of its
word. -/
inductive Denotes : Binary64 → Prop where
  | nan (top : f.exponent word = f.topExponent)
      (payload : f.fraction word ≠ 0) : Denotes .nan
  | infinite (top : f.exponent word = f.topExponent)
      (empty : f.fraction word = 0) : Denotes (.infinite (f.negative word))
  | finite (r : Fin magnitudeCount)
      (below : f.exponent word ≠ f.topExponent)
      (value : (Binary64.finite false r).toReal = f.magnitude word) :
      Denotes (.finite (f.negative word) r)

end Fields

open Binary64

variable {f : Interchange} {word : Nat} {x y : Binary64}

theorem toReal_finite (r : Fin magnitudeCount) :
    (finite false r).toReal = magnitudeUnits r * unit := by
  rw [toReal_of_units (units?_finite false r)]
  rfl

/-- A number of `q` steps of a power of two, in reals. -/
theorem toReal_of_steps {r : Fin magnitudeCount} {q k : Nat}
    (h : magnitudeUnits r = q * 2 ^ k) :
    (finite false r).toReal = q * 2 ^ (k - 1074 : ℤ) := by
  obtain ⟨e, he, hexp⟩ := exists_oneUnits_eq
  have hk : (k - 1074 : ℤ) = k - (e : ℕ) := by rw [hexp]; rfl
  rw [toReal_finite, h, unit, he, hk, zpow_sub₀ two_ne_zero, zpow_natCast,
    zpow_natCast]
  push_cast
  ring

section Steps

variable {r : Fin magnitudeCount} {k : Nat}

/-- A fraction without a leading bit, as steps of the right power of two. -/
theorem toReal_eq_magnitude_of_zero (hexponent : f.exponent word = 0)
    (h : magnitudeUnits r = f.fraction word * 2 ^ k)
    (hk : (k - 1074 : ℤ) = 1 - f.bias - f.fractionBits) :
    (finite false r).toReal = f.magnitude word := by
  rw [toReal_of_steps h, magnitude, if_pos hexponent, hk]
  push_cast
  rfl

theorem toReal_eq_magnitude (hexponent : f.exponent word ≠ 0)
    (h : magnitudeUnits r = (2 ^ f.fractionBits + f.fraction word) * 2 ^ k)
    (hk : (k - 1074 : ℤ) = f.exponent word - f.bias - f.fractionBits) :
    (finite false r).toReal = f.magnitude word := by
  rw [toReal_of_steps h, magnitude, if_neg hexponent, hk]
  push_cast
  rfl

end Steps

/-- A word stands for one number at most. -/
theorem Denotes.unique (hx : f.Denotes word x) (hy : f.Denotes word y) :
    x = y := by
  cases hx with
  | nan top payload =>
      cases hy with
      | nan => rfl
      | infinite _ empty => exact absurd empty payload
      | finite r below => exact absurd top below
  | infinite top empty =>
      cases hy with
      | nan _ payload => exact absurd empty payload
      | infinite => rfl
      | finite r below => exact absurd top below
  | finite r below value =>
      cases hy with
      | nan top => exact absurd top below
      | infinite top => exact absurd top below
      | finite r' _ value' =>
          have hreal := value.trans value'.symm
          rw [toReal_finite, toReal_finite, mul_left_inj' unit_pos.ne',
            Nat.cast_inj] at hreal
          rw [Fin.ext (magnitudeUnits_strictMono.injective hreal)]

theorem fraction_lt (f : Interchange) (word : Nat) :
    f.fraction word < 2 ^ f.fractionBits :=
  Nat.mod_lt _ (Nat.two_pow_pos _)

theorem exponent_le (f : Interchange) (word : Nat) :
    f.exponent word ≤ f.topExponent :=
  Nat.le_pred_of_lt (Nat.mod_lt _ (Nat.two_pow_pos _))

/-! ## The wide format -/

/-- The bits below the sign are the rank. -/
theorem rank_eq (word : Nat) : word % 2 ^ 63 =
    double.exponent word * 2 ^ 52 + double.fraction word := by
  show word % 2 ^ 63 = word / 2 ^ 52 % 2 ^ 11 * 2 ^ 52 + word % 2 ^ 52
  omega

theorem toReal_of_rank {r : Fin magnitudeCount}
    (h : r.val = double.exponent word * 2 ^ 52 + double.fraction word) :
    (finite false r).toReal = double.magnitude word := by
  have hfraction : double.fraction word < 2 ^ 52 := fraction_lt double word
  by_cases hzero : double.exponent word = 0
  · refine toReal_eq_magnitude_of_zero (k := 0) hzero ?_ rfl
    rw [magnitudeUnits, if_pos (by omega)]
    omega
  · refine toReal_eq_magnitude (k := double.exponent word - 1) hzero ?_ ?_
    · show magnitudeUnits r = (2 ^ 52 + double.fraction word) * _
      rw [magnitudeUnits, if_neg (by omega)]
      congr 2 <;> omega
    · show _ = (double.exponent word - 1023 - 52 : ℤ)
      omega

/-- The 64-bit float with the given bits is what they stand for. -/
theorem denotes_ofBits (bits : UInt64) :
    double.Denotes bits.toNat (ofBits bits) := by
  have hrank := rank_eq bits.toNat
  have hexponent : double.exponent bits.toNat ≤ 2047 := exponent_le double _
  have hfraction : double.fraction bits.toNat < 2 ^ 52 := fraction_lt double _
  have htop : double.topExponent = 2047 := rfl
  have hcount : magnitudeCount = 2047 * 2 ^ 52 := rfl
  unfold ofBits
  simp only []
  split
  · next h => exact .finite ⟨_, h⟩ (by omega) (toReal_of_rank hrank)
  · next h =>
      split
      · next heq => exact .infinite (by omega) (by omega)
      · next hne => exact .nan (by omega) (by omega)

/-! ## The narrow format -/

/-- A number of 53 bits within the range is not rounded. -/
theorem exists_ofRatio_eq (s : Bool) {q k : Nat} (hq : q < 2 ^ 53)
    (hk : k ≤ topShift) :
    ∃ r, ofRatio s (q * 2 ^ k) 1 = finite s r ∧
      magnitudeUnits r = q * 2 ^ k := by
  have hunits : magnitudeUnits (nearestRank (q * 2 ^ k) 1) = q * 2 ^ k := by
    have hnearest := nearest_nearestRank (q * 2 ^ k) Nat.one_pos
    have hrepresentable : Representable (q * 2 ^ k : Nat) :=
      ⟨q, k, hq, by push_cast; rfl⟩
    exact Int.natCast_inj.1 (hnearest.eq_of_representable hrepresentable)
  have hrange : nearestRank (q * 2 ^ k) 1 < magnitudeCount := by
    rw [← magnitudeUnits_strictMono.lt_iff_lt, hunits, ← overflowUnits,
      overflowUnits_eq]
    exact Nat.mul_lt_mul_of_lt_of_le hq
      (Nat.pow_le_pow_right Nat.two_pos hk) topStep_pos
  exact ⟨⟨_, hrange⟩, by rw [ofRatio, ofRank, dif_pos hrange], hunits⟩

/-- The narrow reader in terms of the fields of its word. -/
theorem ofBits32_eq (bits : UInt32) :
    ofBits32 bits =
      if single.exponent bits.toNat = single.topExponent then
        if single.fraction bits.toNat = 0 then
          infinite (single.negative bits.toNat)
        else nan
      else if single.exponent bits.toNat = 0 then
        ofRatio (single.negative bits.toNat)
          (single.fraction bits.toNat * 2 ^ 925) 1
      else
        ofRatio (single.negative bits.toNat)
          ((2 ^ 23 + single.fraction bits.toNat) *
            2 ^ (924 + single.exponent bits.toNat)) 1 := rfl

/-- The number that is read from a 32-bit float is what its bits stand for. -/
theorem denotes_ofBits32 (bits : UInt32) :
    single.Denotes bits.toNat (ofBits32 bits) := by
  have hexponent : single.exponent bits.toNat ≤ 255 := exponent_le single _
  have hfraction : single.fraction bits.toNat < 2 ^ 23 := fraction_lt single _
  have htop : 924 + 255 ≤ topShift := by
    unfold topShift
    decide
  rw [ofBits32_eq]
  split
  · next hspecial =>
      split
      · next hempty => exact .infinite hspecial hempty
      · next hpayload => exact .nan hspecial hpayload
  · next hbelow =>
      split
      · next hzero =>
          obtain ⟨r, hr, hunits⟩ := exists_ofRatio_eq
            (single.negative bits.toNat) (q := single.fraction bits.toNat)
            (k := 925) (by omega) (by omega)
          rw [hr]
          exact .finite r hbelow (toReal_eq_magnitude_of_zero hzero hunits rfl)
      · next hzero =>
          obtain ⟨r, hr, hunits⟩ := exists_ofRatio_eq
            (single.negative bits.toNat)
            (q := 2 ^ 23 + single.fraction bits.toNat)
            (k := 924 + single.exponent bits.toNat) (by omega) (by omega)
          rw [hr]
          refine .finite r hbelow (toReal_eq_magnitude hzero hunits ?_)
          show _ = (single.exponent bits.toNat - 127 - 23 : ℤ)
          omega

end Interchange

end BoxCert
