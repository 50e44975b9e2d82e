import BoxCert.Number.Nearest

/-!
# Shortest decimals

Every finite magnitude other than zero owns an interval of reals: those nearer
to it than to its neighbours, and the two midpoints as well if its rank is
even. A decimal *reads back* to the magnitude when it lies in that interval.
`shortest` finds a decimal of the fewest digits that does, and among those the
one nearest to the magnitude.

The search is the specification turned into a loop. On the grid of the powers
of ten, from the leading digit downwards, only the two grid points beside the
magnitude can be the answer: if any grid point lies in the interval, one of
these two does.
-/

namespace BoxCert

/-- The decimal `digits * 10 ^ exponent`. -/
structure Decimal where
  digits : Nat
  /-- The power of ten of the last digit. -/
  exponent : Int
deriving DecidableEq, Repr

/-- Which of two equally near decimals is taken. -/
inductive TieRule where
  /-- The one whose last digit is even. -/
  | toEven
  /-- The greater one. -/
  | upwards
deriving DecidableEq, Repr

namespace Decimal

/-- The decimal with the zeros at its end moved into the exponent. -/
def dropTrailingZeros (digits : Nat) (exponent : Int) : Decimal :=
  if digits ≠ 0 ∧ digits % 10 = 0 then
    dropTrailingZeros (digits / 10) (exponent + 1)
  else ⟨digits, exponent⟩
termination_by digits
decreasing_by omega

/-- Whether a decimal lies in the interval of the magnitude of rank `rank`.
Both sides of a comparison are doubled, so that the midpoints are integers. -/
def readsBack (rank : Nat) (d : Decimal) : Bool :=
  let point := 2 * d.digits * oneUnits * 10 ^ d.exponent.toNat
  let scale := 10 ^ (-d.exponent).toNat
  let low := (magnitudeUnits (rank - 1) + magnitudeUnits rank) * scale
  let high := (magnitudeUnits rank + magnitudeUnits (rank + 1)) * scale
  -- A midpoint is read as the neighbour of even rank.
  if rank % 2 = 0 then low ≤ point && point ≤ high
  else low < point && point < high

/-- The nearer of the two grid points beside the magnitude on the grid
`10 ^ exponent`, among those that read back. -/
def onGrid? (tie : TieRule) (rank : Nat) (exponent : Int) : Option Nat :=
  let num := magnitudeUnits rank * 10 ^ (-exponent).toNat
  let den := oneUnits * 10 ^ exponent.toNat
  let low := num / den
  match readsBack rank ⟨low, exponent⟩, readsBack rank ⟨low + 1, exponent⟩ with
  | false, false => none
  | true, false => some low
  | false, true => some (low + 1)
  | true, true =>
      match compare (2 * num) ((2 * low + 1) * den) with
      | .lt => some low
      | .gt => some (low + 1)
      | .eq =>
          match tie with
          | .toEven => some (low + low % 2)
          | .upwards => some (low + 1)

/-- The power of ten of the leading digit of a magnitude. Scaling by
`10 ^ 400` makes every magnitude an integer of at least two digits, and the
number of its digits tells the power. -/
def leadingExponent (rank : Nat) : Int :=
  let scaled := magnitudeUnits rank * 10 ^ 400 / oneUnits
  ((Nat.toDigits 10 scaled).length : Int) - 401

/-- The shortest decimal that reads back to the magnitude of rank `rank`. When
seventeen digits do not suffice the exact value is given. -/
def shortest (tie : TieRule) (rank : Nat) : Decimal :=
  let lead := leadingExponent rank
  let grids := (List.range 17).map fun (i : Nat) => lead - i
  match grids.findSome? fun e => (onGrid? tie rank e).map (·, e) with
  | some (digits, exponent) => dropTrailingZeros digits exponent
  | none => dropTrailingZeros (magnitudeUnits rank * 5 ^ 1074) (-1074)

end Decimal

end BoxCert
