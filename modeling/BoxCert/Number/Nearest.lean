import BoxCert.Number.Binary64

/-!
# Rounding to nearest

Every operation here computes its exact result, as a quotient of natural
numbers of units, and rounds that once: to the nearest number, on a tie to the
one of even rank, and to infinity from halfway beyond the largest finite
number on. Because ranks are ordered like magnitudes, rounding is one rounded
division: the quotient is cut to 53 bits, and the carry out of the last bit
moves into the next exponent by itself.

The sign of a zero that is an exact sum is positive unless both terms are
negative; the sign of a zero product is the product of the signs.
-/

namespace BoxCert

/-- The quotient `num / den` rounded to an integer, ties to even. -/
def divNearestEven (num den : Nat) : Nat :=
  let q := num / den
  let r := num % den
  if 2 * r < den then q
  else if den < 2 * r then q + 1
  else q + q % 2

/-- The rank nearest to `num / den` units. It may lie beyond the finite
magnitudes. -/
def nearestRank (num den : Nat) : Nat :=
  let shift := (num / den).log2 - 52
  divNearestEven num (den * 2 ^ shift) + shift * 2 ^ 52

namespace Binary64

def ofRatio (negative : Bool) (num den : Nat) : Binary64 :=
  ofRank negative (nearestRank num den)

/-- The number nearest to `n / den` units for an integer `n`; an exact zero
gets the sign given. -/
def ofScaledInt (zeroSign : Bool) (n : Int) (den : Nat) : Binary64 :=
  if n = 0 then signedZero zeroSign else ofRatio (n < 0) n.natAbs den

def ofNat (n : Nat) : Binary64 := ofRatio false (n * oneUnits) 1

/-- The nearest number to `mantissa * 10 ^ exponent`, where `down` says that
the exponent is negative. -/
def ofDecimal (mantissa : Nat) (down : Bool) (exponent : Nat) : Binary64 :=
  if down then ofRatio false (mantissa * oneUnits) (10 ^ exponent)
  else ofRatio false (mantissa * 10 ^ exponent * oneUnits) 1

instance : OfScientific Binary64 where
  ofScientific := ofDecimal

protected def add : Binary64 → Binary64 → Binary64
  | nan, _ => nan
  | _, nan => nan
  | infinite s, infinite t => if s = t then infinite s else nan
  | infinite s, finite .. => infinite s
  | finite .., infinite t => infinite t
  | finite s a, finite t b =>
      ofScaledInt (s && t)
        (signed s (magnitudeUnits a) + signed t (magnitudeUnits b)) 1

instance : Add Binary64 := ⟨Binary64.add⟩

protected def sub (a b : Binary64) : Binary64 := a + -b

instance : Sub Binary64 := ⟨Binary64.sub⟩

/-- The rounded product. Zero times infinity is a NaN. -/
protected def mul : Binary64 → Binary64 → Binary64
  | nan, _ => nan
  | _, nan => nan
  | infinite s, infinite t => infinite (s != t)
  | infinite s, finite t b => if b.val = 0 then nan else infinite (s != t)
  | finite s a, infinite t => if a.val = 0 then nan else infinite (s != t)
  | finite s a, finite t b =>
      ofRatio (s != t) (magnitudeUnits a * magnitudeUnits b) oneUnits

instance : Mul Binary64 := ⟨Binary64.mul⟩

/-- The product `a * b` plus `c`, rounded once. -/
def mulAdd (a b c : Binary64) : Binary64 :=
  match a, b, c with
  | finite s a, finite t b, finite u c =>
      let product := signed (s != t) (magnitudeUnits a * magnitudeUnits b)
      let term := signed u (magnitudeUnits c) * oneUnits
      ofScaledInt ((s != t) && u) (product + term) oneUnits
  | finite .., finite .., c => c
  | a, b, c => a * b + c

/-- The rounded quotient. Zero by zero and infinity by infinity are NaNs;
anything else by zero is an infinity. -/
protected def div : Binary64 → Binary64 → Binary64
  | nan, _ => nan
  | _, nan => nan
  | infinite _, infinite _ => nan
  | infinite s, finite t _ => infinite (s != t)
  | finite s _, infinite t => signedZero (s != t)
  | finite s a, finite t b =>
      if b.val = 0 then if a.val = 0 then nan else infinite (s != t)
      else ofRatio (s != t) (magnitudeUnits a * oneUnits) (magnitudeUnits b)

instance : Div Binary64 := ⟨Binary64.div⟩

/-- The number with the value of the given 32-bit float, which is exact: the
narrow format's steps are steps of the wide one. -/
def ofBits32 (bits : UInt32) : Binary64 :=
  let negative := 2 ^ 31 ≤ bits.toNat
  let exponent := bits.toNat / 2 ^ 23 % 2 ^ 8
  let fraction := bits.toNat % 2 ^ 23
  if exponent = 255 then if fraction = 0 then infinite negative else nan
  else if exponent = 0 then ofRatio negative (fraction * 2 ^ 925) 1
  else ofRatio negative ((2 ^ 23 + fraction) * 2 ^ (924 + exponent)) 1

end Binary64

end BoxCert
