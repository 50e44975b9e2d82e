import BoxCert.Number.Power

/-!
# Binary64 numbers

A binary64 number is a NaN, an infinity, or a sign with a *rank*. The rank
counts the finite magnitudes from zero upwards, so the neighbour of a number
is the one of next rank, and comparing numbers is comparing signed ranks. No
machine float appears anywhere: what a number is worth is a natural number of
*units*, the unit being the least positive magnitude, and everything that is
computed later is computed exactly in units and rounded once.

There is one NaN. Zero has two signs, which the order does not see.
-/

namespace BoxCert

/-- How many finite magnitudes there are: 2047 exponents of `2 ^ 52` steps. -/
abbrev magnitudeCount : Nat := 0x7FF0000000000000

/-- A number in the binary64 format. -/
inductive Binary64 where
  | nan
  | infinite (negative : Bool)
  /-- The finite magnitude of the given rank, with a sign. -/
  | finite (negative : Bool) (rank : Fin magnitudeCount)
deriving DecidableEq, Repr

/-- The magnitude of rank `rank`, in units. Below `2 ^ 52` the steps are one
unit wide; from then on every `2 ^ 52` ranks double the width of a step. -/
def magnitudeUnits (rank : Nat) : Nat :=
  if rank < 2 ^ 52 then rank
  else (2 ^ 52 + rank % 2 ^ 52) * 2 ^ (rank / 2 ^ 52 - 1)

/-- One is `oneUnits` units. -/
abbrev oneUnits : Nat := 2 ^ 1074

namespace Binary64

instance : Inhabited Binary64 := ⟨finite false 0⟩

/-- The largest finite number, or its negation. -/
def greatest (negative : Bool) : Binary64 :=
  finite negative ⟨magnitudeCount - 1, by decide⟩

def signedZero (negative : Bool) : Binary64 := finite negative 0

protected def zero : Binary64 := signedZero false

instance : Zero Binary64 := ⟨Binary64.zero⟩

protected def one : Binary64 := finite false ⟨1023 * 2 ^ 52, by decide⟩

instance : One Binary64 := ⟨Binary64.one⟩

def infinity : Binary64 := infinite false

def negInfinity : Binary64 := infinite true

def isNan : Binary64 → Bool
  | nan => true
  | _ => false

def isFinite : Binary64 → Bool
  | finite .. => true
  | _ => false

def signed (negative : Bool) (n : Nat) : Int :=
  if negative then -(n : Int) else n

/-- The exact value in units, where there is one. -/
def units? : Binary64 → Option Int
  | finite s r => some (signed s (magnitudeUnits r))
  | _ => none

/-- The place of a number in the order of all numbers: its signed rank, with
the infinities one step beyond the largest finite number. A NaN has none. -/
def place? : Binary64 → Option Int
  | nan => none
  | infinite s => some (signed s magnitudeCount)
  | finite s r => some (signed s r)

/-- Whether `a` lies at or below `b`. Nothing is comparable to a NaN. -/
def atMost (a b : Binary64) : Bool :=
  match a.place?, b.place? with
  | some i, some j => i ≤ j
  | _, _ => false

def below (a b : Binary64) : Bool :=
  match a.place?, b.place? with
  | some i, some j => i < j
  | _, _ => false

/-- Whether two numbers are equal as numbers: both zeros are, a NaN is equal
to nothing. -/
def sameValue (a b : Binary64) : Bool :=
  match a.place?, b.place? with
  | some i, some j => i = j
  | _, _ => false

instance : LE Binary64 where
  le a b := a.atMost b = true

instance : LT Binary64 where
  lt a b := a.below b = true

instance (a b : Binary64) : Decidable (a ≤ b) :=
  inferInstanceAs (Decidable (a.atMost b = true))

instance (a b : Binary64) : Decidable (a < b) :=
  inferInstanceAs (Decidable (a.below b = true))

/-- Whether the number is a zero of either sign. -/
def isZero : Binary64 → Bool
  | finite _ r => r.val == 0
  | _ => false

protected def neg : Binary64 → Binary64
  | nan => nan
  | infinite s => infinite (!s)
  | finite s r => finite (!s) r

instance : Neg Binary64 := ⟨Binary64.neg⟩

def abs : Binary64 → Binary64
  | nan => nan
  | infinite _ => infinite false
  | finite _ r => finite false r

/-- The magnitude of rank `rank`, or the infinity once the finite magnitudes
are used up. -/
def ofRank (negative : Bool) (rank : Nat) : Binary64 :=
  if h : rank < magnitudeCount then finite negative ⟨rank, h⟩
  else infinite negative

/-- The least number above `x`. Above the largest finite number lies the
infinity, above an infinity or a NaN nothing new. -/
def nextUp : Binary64 → Binary64
  | nan => nan
  | infinite false => infinite false
  | infinite true => greatest true
  | finite false r => ofRank false (r + 1)
  | finite true r => if r.val = 0 then ofRank false 1 else ofRank true (r - 1)

def nextDown (x : Binary64) : Binary64 := -(nextUp (-x))

/-- The number, with a zero stripped of its sign. -/
def unsignedZero (x : Binary64) : Binary64 :=
  if x.isZero then 0 else x

/-- The lesser of two numbers; a NaN gives way to the other one. Of two equal
numbers the first is taken. -/
instance : Min Binary64 where
  min a b := if a.isNan then b else if b < a then b else a

instance : Max Binary64 where
  max a b := if a.isNan then b else if a < b then b else a

/-! ### The interchange format -/

/-- The number with the given 64 bits: sign, then 11 bits of exponent and 52
of fraction, which together are the rank. -/
def ofBits (bits : UInt64) : Binary64 :=
  let negative := 2 ^ 63 ≤ bits.toNat
  let rank := bits.toNat % 2 ^ 63
  if h : rank < magnitudeCount then finite negative ⟨rank, h⟩
  else if rank = magnitudeCount then infinite negative
  else nan

/-- The 64 bits of the number. The NaN is the quiet one without payload. -/
def toBits : Binary64 → UInt64
  | nan => 0x7FF8000000000000
  | infinite s => UInt64.ofNat (magnitudeCount + if s then 2 ^ 63 else 0)
  | finite s r => UInt64.ofNat (r.val + if s then 2 ^ 63 else 0)

end Binary64

end BoxCert
