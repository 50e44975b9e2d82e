import BoxCert.Exchange.Records

/-!
# What commands print

Every command can print for readers or as JSON. For readers a number is
written plainly, but the ends of a disjunct in scientific notation, and the
time that a run took to the microsecond.
-/

namespace BoxCert

/-- A text of lines, each of them ended. -/
def textOfLines (lines : List String) : String :=
  String.join (lines.map (· ++ "\n"))

/-- A text of at least `width` characters, filled up in front. -/
def padFront (width : Nat) (text : String) : String :=
  String.ofList (List.replicate (width - text.length) ' ') ++ text

/-- A text of at least `width` characters, filled up at the end. -/
def padBack (width : Nat) (text : String) : String :=
  text ++ String.ofList (List.replicate (width - text.length) ' ')

def DecidedBy.text : DecidedBy → String
  | simple => "Simple"
  | full => "Full"
  | refinement => "Refinement"

def DisjunctVerdict.line (v : DisjunctVerdict) : String :=
  "  class " ++ padFront 3 (toString v.competitor) ++ ": " ++
    padBack 5 v.verdict.text ++ " range [" ++ v.lower.scientificText ++
    ", " ++ v.upper.scientificText ++ "]"

abbrev timeoutLine : String := "Result: timeout"

/-- A report on a model, for readers. -/
def Report.text (r : Report) (model : Model) (timedOut : Bool) : String :=
  textOfLines <|
    ["Model: " ++ model.name ++ " (" ++ toString model.outputs ++
        " outputs, " ++ toString model.inputs ++ " inputs)",
      "Label: " ++ toString r.label] ++
    r.verdicts.map DisjunctVerdict.line ++
    ["Result: " ++ r.outcome.text,
      "Decided by: " ++ r.decidedBy.text,
      "Elapsed: " ++ r.elapsed.fixedText 6 ++ "s"] ++
    if timedOut then [timeoutLine] else []

def Report.document (r : Report) (model : Model) (timedOut : Bool) : Json :=
  .record ([("model", .text model.name), ("timed_out", .bool timedOut)] ++
    r.members)

def Box.text (b : Box) : String :=
  textOfLines <| b.ranges.zipIdx.map fun (range, j) =>
    "y[" ++ toString j ++ "] in " ++ toString range

def Box.document (b : Box) : Json :=
  .record [("lower", .floats b.lowerEnds), ("upper", .floats b.upperEnds)]

namespace Model

/-- The least and the greatest weight, or the two infinities the wrong way
round if there is none. -/
def weightRange (m : Model) : Binary64 × Binary64 :=
  (m.weight.cells.foldl min .infinity, m.weight.cells.foldl max .negInfinity)

def text (m : Model) : String :=
  let (low, high) := m.weightRange
  textOfLines
    ["Model: " ++ m.name,
      "Layer: Linear " ++ toString m.inputs ++ " -> " ++ toString m.outputs,
      "Parameters: " ++ toString m.parameters,
      "Weight range: [" ++ low.plainText ++ ", " ++ high.plainText ++ "]"]

def document (m : Model) : Json :=
  let (low, high) := m.weightRange
  .record [("inputs", .nat m.inputs), ("name", .text m.name),
    ("outputs", .nat m.outputs), ("parameters", .nat m.parameters),
    ("weight_range", .floats [low, high])]

end Model

end BoxCert
