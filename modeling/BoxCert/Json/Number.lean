import BoxCert.Number.Layout
import BoxCert.Number.Numeral

/-!
# JSON numbers

A JSON number is kept as it is spelled: sign, digits before and after the
point, and exponent. What it is worth depends on who asks. An index must be
spelled as a bare natural number. A float may be spelled in any way; its value
is computed from the first digits that fit 64 bits and a power of ten, with
one rounding for each, and so is not always the nearest one.

Floats are written with the digits that identify them: positionally if the
exponent of the first digit is from -5 to 15, and then always with a fraction.
-/

namespace BoxCert.Json

/-- A power of ten as it is spelled. -/
structure Exponent where
  negative : Bool
  digits : List Char
deriving DecidableEq, Repr

/-- A number as it is spelled. -/
structure Number where
  negative : Bool
  /-- The digits before the point. -/
  whole : List Char
  /-- The digits after the point; there are none without a point. -/
  fraction : List Char := []
  /-- The exponent, if there is one. -/
  exponent : Option Exponent := none
deriving DecidableEq, Repr

namespace Number

/-! ### Spelling -/

def readExponent? : List Char → Option (Option Exponent)
  | [] => some none
  | c :: rest =>
      if c == 'e' || c == 'E' then
        let (negative, digits) := Numeral.splitSign rest
        if digits.isEmpty || !digits.all Char.isDigit then none
        else some (some ⟨negative, digits⟩)
      else none

/-- Reads a number. The first of several digits before the point is not a
zero, and a point has digits on both sides. -/
def read? (text : List Char) : Option Number := do
  let (negative, body) := match text with
    | '-' :: rest => (true, rest)
    | _ => (false, text)
  let whole := body.takeWhile Char.isDigit
  let afterWhole := body.dropWhile Char.isDigit
  if whole.isEmpty || (whole.head? == some '0' && whole.length != 1) then none
  match afterWhole with
  | '.' :: more =>
      let fraction := more.takeWhile Char.isDigit
      if fraction.isEmpty then none
      let exponent ← readExponent? (more.dropWhile Char.isDigit)
      return { negative, whole, fraction, exponent }
  | _ => return { negative, whole, exponent := ← readExponent? afterWhole }

def exponentText (e : Exponent) : List Char :=
  'e' :: (if e.negative then '-' else '+') :: e.digits

def text (n : Number) : List Char :=
  (if n.negative then ['-'] else []) ++ n.whole ++
    (if n.fraction.isEmpty then [] else '.' :: n.fraction) ++
    n.exponent.elim [] exponentText

/-! ### Natural numbers -/

def ofNat (n : Nat) : Number := { negative := false, whole := Nat.toDigits 10 n }

/-- The natural number that is spelled, if it is at most `bound`. -/
def toNat? (bound : Nat) (n : Number) : Option Nat :=
  if n.negative || !n.fraction.isEmpty || n.exponent.isSome then none
  else
    let value := Numeral.natOfDigits n.whole
    if value ≤ bound then some value else none

/-! ### Floats -/

/-- Appends digits to a natural number as long as it fits 64 bits. Gives the
number and the digits left over. -/
def absorb : Nat → List Char → Nat × List Char
  | n, [] => (n, [])
  | n, c :: rest =>
      let next := 10 * n + (c.toNat - '0'.toNat)
      if next < 2 ^ 64 then absorb next rest else (n, c :: rest)

/-- The float `f * 10 ^ exponent`, with one rounding for a moderate exponent.
A very negative one is worked off in steps. There is no result if it would be
infinite. -/
def scale? (f : Binary64) (exponent : Int) : Option Binary64 :=
  if exponent.natAbs ≤ 308 then
    let power := Binary64.ofDecimal 1 false exponent.natAbs
    if 0 ≤ exponent then
      let product := f * power
      if product.isFinite then some product else none
    else some (f / power)
  else if f.isZero then some f
  else if 0 ≤ exponent then none
  -- One step at a time, each rounded: `10 ^ 309` is out of range.
  else scale? (f / Binary64.ofDecimal 1 false 308) (exponent + 308)
termination_by (-exponent).toNat
decreasing_by omega

/-- The float that the digits and the exponent stand for, without the sign. A
digit before the point that does not fit raises the exponent, one after it is
dropped. An exponent beyond 32 bits leaves zero or nothing. -/
def magnitude? (n : Number) : Option Binary64 :=
  let (lead, dropped) := absorb 0 n.whole
  let (significand, unread) := absorb lead n.fraction
  let places := n.fraction.length - unread.length
  let shift : Int := dropped.length - places
  match n.exponent with
  | none => scale? (Binary64.ofNat significand) shift
  | some e =>
      let value := Numeral.natOfDigits e.digits
      if value < 2 ^ 31 then
        scale? (Binary64.ofNat significand)
          (shift + Binary64.signed e.negative value)
      -- So large an exponent outweighs whatever the digits are but zero.
      else if significand = 0 || e.negative then some 0
      else none

def toFloat? (n : Number) : Option Binary64 :=
  n.magnitude?.map fun x => if n.negative then -x else x

def ofDecimal (negative : Bool) (d : Decimal) : Number :=
  if -5 ≤ d.leading && d.leading ≤ 15 then
    let (whole, fraction) := d.positional
    { negative, whole, fraction := if fraction.isEmpty then ['0'] else fraction }
  else
    let exponent : Exponent :=
      ⟨d.leading < 0, Nat.toDigits 10 d.leading.natAbs⟩
    { negative, whole := d.digitText.take 1, fraction := d.digitText.drop 1
      exponent := some exponent }

def ofFloat? : Binary64 → Option Number
  | .finite s r => some (ofDecimal s (Binary64.shortestOf .toEven r))
  | _ => none

end Number

end BoxCert.Json
