import BoxCert.Number.Nearest

/-!
# Reading numbers from text

Two grammars. A *count* is an optional plus sign and decimal digits, bounded
by the caller. A *real* is an optional sign, digits with at most one point
among them, and an optional exponent; at least one digit stands before the
exponent, and the words for infinity and NaN are accepted in any case. The
value of a real is the number nearest to the decimal it spells.
-/

namespace BoxCert.Numeral

def natOfDigits (digits : List Char) : Nat :=
  digits.foldl (fun n c => 10 * n + (c.toNat - '0'.toNat)) 0

/-- Reads a count of at most `bound`. -/
def count? (bound : Nat) (text : List Char) : Option Nat :=
  let digits := match text with
    | '+' :: rest => rest
    | _ => text
  if digits.isEmpty || !digits.all Char.isDigit then none
  else
    let n := natOfDigits digits
    if n ≤ bound then some n else none

/-- The largest index: indices and labels have 64 bits. -/
abbrev indexBound : Nat := 2 ^ 64 - 1

def index? (text : List Char) : Option Nat := count? indexBound text

/-- Splits off a leading sign; the flag tells a minus sign. -/
def splitSign : List Char → Bool × List Char
  | '-' :: rest => (true, rest)
  | '+' :: rest => (false, rest)
  | text => (false, text)

/-- The size from which on an exponent takes no further digit in. -/
abbrev exponentLimit : Nat := 2 ^ 16

/-- The size of the exponent that is spelled by a run of decimal digits. Digits
after the limit is reached are passed over: the exponent is then so large that
they matter only to a decimal with as many digits as it says. -/
def exponentSize (digits : List Char) : Nat :=
  digits.foldl (fun n c =>
    if n < exponentLimit then 10 * n + (c.toNat - '0'.toNat) else n) 0

/-- Reads the exponent part, which may be absent. -/
def exponent? : List Char → Option Int
  | [] => some 0
  | c :: rest =>
      if c == 'e' || c == 'E' then
        let (negative, digits) := splitSign rest
        if digits.isEmpty || !digits.all Char.isDigit then none
        else some (Binary64.signed negative (exponentSize digits))
      else none

/-- The number nearest to `mantissa * 10 ^ exponent`. A decimal whose leading
digit is far outside the range of the format is settled at once. -/
def nearestDecimal (negative : Bool) (mantissa : Nat) (exponent : Int) :
    Binary64 :=
  let lead := exponent + (Nat.toDigits 10 mantissa).length
  if mantissa = 0 || lead < -400 then .signedZero negative
  else if 400 < lead then .infinite negative
  else
    let x := Binary64.ofDecimal mantissa (exponent < 0) exponent.natAbs
    if negative then -x else x

def decimal? (negative : Bool) (text : List Char) : Option Binary64 := do
  let whole := text.takeWhile Char.isDigit
  let afterWhole := text.dropWhile Char.isDigit
  let (fraction, rest) := match afterWhole with
    | '.' :: more => (more.takeWhile Char.isDigit, more.dropWhile Char.isDigit)
    | _ => ([], afterWhole)
  if whole.isEmpty && fraction.isEmpty then none
  let e ← exponent? rest
  return nearestDecimal negative (natOfDigits (whole ++ fraction))
    (e - fraction.length)

def real? (text : List Char) : Option Binary64 :=
  let (negative, body) := splitSign text
  let word := String.ofList (body.map Char.toLower)
  if word = "inf" || word = "infinity" then some (.infinite negative)
  else if word = "nan" then some .nan
  else decimal? negative body

end BoxCert.Numeral
