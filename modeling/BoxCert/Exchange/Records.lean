import BoxCert.Exchange.Vocabulary
import BoxCert.Json.Reading
import BoxCert.Json.Writing
import BoxCert.Model.Rows

/-!
# Records as JSON

How settings, properties, reports, interval matrices, boxes and models given
by rows are written into data files and read back. What is read is checked for
its shape only. A float that is not finite is written as a null and so does
not read back.
-/

namespace BoxCert

open Json (Decoder fields? required)

def Interval.toJson (a : Interval) : Json :=
  .record [("inf", .float a.inf), ("sup", .float a.sup)]

def Interval.ofJson? : Decoder Interval := fun j => do
  let [inf, sup] ← fields? ["inf", "sup"] j | none
  return ⟨← required Json.toFloat? inf, ← required Json.toFloat? sup⟩

namespace IntervalMatrix

abbrev formatVersion : Nat := 1

/-- A matrix as JSON: a version, the two dimensions, and the cells row by
row. -/
def toJson (g : IntervalMatrix) : Json :=
  .record [("data", .record [
    ("v", .nat formatVersion),
    ("dim", .array [.nat g.rows, .nat g.cols]),
    ("data", .array (g.cells.map Interval.toJson))])]

def version? : Decoder Unit := fun j => do
  if (← Json.toNatUpTo? 255 j) = formatVersion then return () else none

def dims? : Decoder (Nat × Nat) := fun j => do
  let [rows, cols] ← Json.toList? Json.toIndex? j | none
  return (rows, cols)

def cells? : Decoder (List Interval) := Json.toList? Interval.ofJson?

/-- The members `v`, `dim` and `data`. Others are refused. Each may stand
repeatedly, and then the last one counts, but all have to be well formed. -/
def parts? : Json → Option ((Nat × Nat) × List Interval)
  | .array [v, dim, data] => do
      version? v
      return (← dims? dim, ← cells? data)
  | .object members => do
      let wellFormed := members.all fun (name, value) =>
        match name with
        | some "v" => (version? value).isSome
        | some "dim" => (dims? value).isSome
        | some "data" => (cells? value).isSome
        | _ => false
      if !wellFormed then none
      let last (name : String) := members.reverse.lookup (some name)
      version? (← last "v")
      return (← dims? (← last "dim"), ← cells? (← last "data"))
  | _ => none

/-- Whether a table of these dimensions has a countable number of places. A
dimension of zero does not count. -/
def countable (rows cols : Nat) : Bool := max 1 rows * max 1 cols < 2 ^ 63

def ofJson? : Decoder IntervalMatrix := fun j => do
  let [data] ← fields? ["data"] j | none
  let ((rows, cols), cells) ← required parts? data
  if countable rows cols then Grid.ofCells? rows cols cells else none

end IntervalMatrix

def Box.toJson (b : Box) : Json :=
  .record [("lower", b.lower.toJson), ("upper", b.upper.toJson)]

def Box.ofJson? : Decoder Box := fun j => do
  let [lower, upper] ← fields? ["lower", "upper"] j | none
  return ⟨← required IntervalMatrix.ofJson? lower,
    ← required IntervalMatrix.ofJson? upper⟩

def Settings.toJson (s : Settings) : Json :=
  .record [("precision", s.precision.toJson),
    ("tolerance", s.tolerance.elim .null Json.float),
    ("mode", s.mode.toJson)]

/-- The settings that a value stands for. What is not given has its
default. -/
def Settings.ofJson? : Decoder Settings := fun j => do
  let [precision, tolerance, mode] ←
    fields? ["precision", "tolerance", "mode"] j | none
  let default : Settings := {}
  return {
    precision :=
      ← Json.defaulting Precision.ofJson? default.precision precision
    tolerance :=
      ← Json.defaulting (Json.nullable Json.toFloat?) default.tolerance
        tolerance
    mode := ← Json.defaulting DecisionMode.ofJson? default.mode mode }

def Property.toJson (p : Property) : Json :=
  .record [("input_lower", .floats p.lower), ("input_upper", .floats p.upper),
    ("label", .nat p.label)]

def Property.ofJson? : Decoder Property := fun j => do
  let [lower, upper, label] ←
    fields? ["input_lower", "input_upper", "label"] j | none
  return ⟨← required (Json.toList? Json.toFloat?) lower,
    ← required (Json.toList? Json.toFloat?) upper,
    ← required Json.toIndex? label⟩

def DisjunctVerdict.toJson (v : DisjunctVerdict) : Json :=
  .record [("class", .nat v.competitor), ("verdict", v.verdict.toJson),
    ("lower", .float v.lower), ("upper", .float v.upper)]

def DisjunctVerdict.ofJson? : Decoder DisjunctVerdict := fun j => do
  let [competitor, verdict, lower, upper] ←
    fields? ["class", "verdict", "lower", "upper"] j | none
  return ⟨← required Json.toIndex? competitor,
    ← required Verdict.ofJson? verdict,
    ← required Json.toFloat? lower, ← required Json.toFloat? upper⟩

namespace Report

def members (r : Report) : List (String × Json) :=
  [("outcome", r.outcome.toJson), ("label", .nat r.label),
   ("verdicts", .array (r.verdicts.map DisjunctVerdict.toJson)),
   ("output_lower", .floats r.outputLower),
   ("output_upper", .floats r.outputUpper),
   ("decided_by", r.decidedBy.toJson), ("tolerance", .float r.tolerance),
   ("elapsed_secs", .float r.elapsed)]

def toJson (r : Report) : Json := .record r.members

def ofJson? : Decoder Report := fun j => do
  let [outcome, label, verdicts, lower, upper, decidedBy, tolerance, elapsed] ←
    fields? ["outcome", "label", "verdicts", "output_lower", "output_upper",
      "decided_by", "tolerance", "elapsed_secs"] j | none
  return {
    outcome := ← required (Outcome.ofJsonAt? 1) outcome
    label := ← required Json.toIndex? label
    verdicts := ← required (Json.toList? DisjunctVerdict.ofJson?) verdicts
    outputLower := ← required (Json.toList? Json.toFloat?) lower
    outputUpper := ← required (Json.toList? Json.toFloat?) upper
    decidedBy := ← required DecidedBy.ofJson? decidedBy
    tolerance := ← required Json.toFloat? tolerance
    elapsed := ← required Json.toFloat? elapsed }

end Report

namespace RowModel

def toJson (m : RowModel) : Json :=
  .record [("name", m.name.elim .null Json.text),
    ("weight", .array (m.weight.map Json.floats)), ("bias", .floats m.bias)]

def ofJson? : Decoder RowModel := fun j => do
  let [name, weight, bias] ← fields? ["name", "weight", "bias"] j | none
  return ⟨← Json.defaulting (Json.nullable Json.toText?) none name,
    ← required (Json.toList? (Json.toList? Json.toFloat?)) weight,
    ← required (Json.toList? Json.toFloat?) bias⟩

/-- Reads a model given by rows, named by `fallback` if it has no name. -/
def read (text : List Char) (fallback : String) : Checked Model :=
  match (Json.read? text).bind ofJson? with
  | none => .error (.modelLoad .badJson)
  | some m => m.toModel fallback

end RowModel

end BoxCert
