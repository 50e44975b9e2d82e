import BoxCert.Number.Shortest

/-!
# How numbers are written

Two layouts share the digits found by `Decimal.shortest`. The plain layout
never uses an exponent and writes no fraction where there is none; the
scientific layout always uses one. A third layout has a fixed number of places
and rounds the exact value.
-/

namespace BoxCert

namespace Decimal

def digitText (d : Decimal) : List Char := Nat.toDigits 10 d.digits

/-- The power of ten of the first digit. -/
def leading (d : Decimal) : Int := d.exponent + d.digitText.length - 1

def positional (d : Decimal) : List Char × List Char :=
  let ds := d.digitText
  if 0 ≤ d.exponent then (ds ++ List.replicate d.exponent.toNat '0', [])
  else
    let places := (-d.exponent).toNat
    if places < ds.length then
      (ds.take (ds.length - places), ds.drop (ds.length - places))
    else (['0'], List.replicate (places - ds.length) '0' ++ ds)

/-- Positional notation, without a point if the fraction is empty. -/
def plain (d : Decimal) : String :=
  let (whole, fraction) := d.positional
  if fraction.isEmpty then String.ofList whole
  else String.ofList (whole ++ '.' :: fraction)

def mantissaText (d : Decimal) : String :=
  match d.digitText with
  | first :: second :: rest => String.ofList (first :: '.' :: second :: rest)
  | ds => String.ofList ds

/-- Scientific notation; a negative exponent is signed, a positive one is
not. -/
def scientific (d : Decimal) : String :=
  d.mantissaText ++ "e" ++ toString d.leading

end Decimal

namespace Binary64

def withSign (negative : Bool) (text : String) : String :=
  if negative then "-" ++ text else text

/-- The shortest decimal of a finite magnitude; zero is written as one digit. -/
def shortestOf (tie : TieRule) (rank : Nat) : Decimal :=
  if rank = 0 then ⟨0, 0⟩ else Decimal.shortest tie rank

/-- Writes a number with a layout for the finite magnitudes. -/
def write (tie : TieRule) (layout : Decimal → String) : Binary64 → String
  | nan => "NaN"
  | infinite s => withSign s "inf"
  | finite s r => withSign s (layout (shortestOf tie r))

/-- The plain text of a number, used in messages and reports. -/
def plainText : Binary64 → String := write .upwards Decimal.plain

def scientificText : Binary64 → String := write .upwards Decimal.scientific

instance : ToString Binary64 := ⟨plainText⟩

/-- A finite number with a fixed number of places, the exact value rounded
with ties to even. -/
def fixedText (places : Nat) : Binary64 → String
  | finite s r =>
      let scaled := divNearestEven (magnitudeUnits r * 10 ^ places) oneUnits
      let ds := Nat.toDigits 10 scaled
      let padded := List.replicate (places + 1 - ds.length) '0' ++ ds
      let cut := padded.length - places
      let whole := String.ofList (padded.take cut)
      withSign s <|
        if places = 0 then whole
        else whole ++ "." ++ String.ofList (padded.drop cut)
  | x => x.plainText

end Binary64

end BoxCert
