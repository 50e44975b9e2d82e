import BoxCert.Number.Layout
import BoxCert.Property.Form

/-!
# Faults

Everything that can be refused is refused with a cause, and causes are data:
which check failed and on which values. The wording of each cause is one
function beside it, so what a message says can be read off its constructor,
and a caller that wants to react to a fault never looks at text.

Details that only a foreign decoder knows, such as where in a file the bytes
stopped making sense, are not kept.
-/

namespace BoxCert

/-- The checks that compare two shapes. -/
inductive ShapeCheck where
  | matrixProduct
  | matrixSum
  | operandCount
  | columnVector
  | lowerColumn
  | upperColumn
  | boxEnds
  | layerBias
  | weightRow
  | evaluation
  | propagation
  | disjunctRow
  | disjunctionRow
  | graphBias
deriving DecidableEq, Repr

def ShapeCheck.label : ShapeCheck → String
  | matrixProduct => "matmul"
  | matrixSum => "add"
  | operandCount => "vec_add operand count"
  | columnVector => "to_column_vec"
  | lowerColumn => "bounds lower"
  | upperColumn => "bounds upper"
  | boxEnds => "box bounds"
  | layerBias => "linear bias"
  | weightRow => "weight row"
  | evaluation => "evaluate"
  | propagation => "propagate"
  | disjunctRow => "disjunct row"
  | disjunctionRow => "disjunction row"
  | graphBias => "onnx bias"

/-- Why a graph is no single affine layer. -/
inductive TopologyFault where
  /-- A node computes something else. -/
  | foreignOperator (operator node : String)
  /-- The input would have to be transposed. -/
  | transposedInput
  /-- Both factors of a product are constants. -/
  | constantProduct
  /-- A sum does not use the product before it. -/
  | detachedSum (node : String)
  /-- A weight is not a matrix. -/
  | weightRank (tensor : String) (dims : List Nat)
  | noLayer
  /-- The nodes do not form one layer. -/
  | otherLayers (operators : List String)
deriving DecidableEq, Repr

def TopologyFault.message : TopologyFault → String
  | foreignOperator operator node =>
      "operator " ++ operator ++ " (node '" ++ node ++
        "') is not a single linear layer"
  | transposedInput => "Gemm with transA=1 does not act on the input vector"
  | constantProduct => "MatMul of two constants does not depend on the input"
  | detachedSum node =>
      "Add node '" ++ node ++ "' does not consume the MatMul output"
  | weightRank tensor dims =>
      "weight '" ++ tensor ++ "' has shape " ++ Text.bracketedNats dims ++
        ", expected a matrix"
  | noLayer => "graph contains no linear layer"
  | otherLayers operators =>
      "expected one Gemm or MatMul+Add, found " ++
        Text.bracketed (operators.map fun op => Text.quoted op.toList)

/-- Why a model makes no layer. -/
inductive ModelFault where
  | tolerance (value : Binary64)
  | emptyWeight (rows cols : Nat)
  | nonFinite (value : Binary64)
  /-- A weight row is longer or shorter than the first one. -/
  | raggedRow (index length expected : Nat)
deriving DecidableEq, Repr

def toleranceMessage (value : Binary64) : String :=
  "tolerance must be finite and non-negative, got " ++ value.plainText

def ModelFault.message : ModelFault → String
  | tolerance value => toleranceMessage value
  | emptyWeight rows cols =>
      "weight matrix must be non-empty, got " ++ toString rows ++ "x" ++
        toString cols
  | nonFinite value =>
      "layer parameters must be finite, found " ++ value.plainText
  | raggedRow index length expected =>
      "weight row " ++ toString index ++ " has " ++ toString length ++
        " entries, expected " ++ toString expected

/-- Why a list of values does not fill a shape. -/
inductive FillFault where
  | tooMany
  | tooFew
  /-- The shape has more places than can be counted. -/
  | overflow
deriving DecidableEq, Repr

def FillFault.message : FillFault → String
  | tooMany => "ShapeError/IncompatibleShape: incompatible shapes"
  | tooFew => "ShapeError/OutOfBounds: out of bounds indexing"
  | overflow => "ShapeError/Overflow: arithmetic overflow"

/-- Why the file system refuses a path. -/
inductive AccessFault where
  | missing
  | notADirectory
  | isADirectory
  | nameTooLong
  | zeroByte
deriving DecidableEq, Repr

def AccessFault.message : AccessFault → String
  | missing => "No such file or directory (os error 2)"
  | notADirectory => "Not a directory (os error 20)"
  | isADirectory => "Is a directory (os error 21)"
  | nameTooLong => "File name too long (os error 36)"
  | zeroByte => "file name contained an unexpected NUL byte"

/-- Why a file yields no model. -/
inductive LoadFault where
  | unknownFormat (extension path : String)
  | noFile (path : String)
  | unreadable (path : String) (cause : AccessFault)
  | badGzip
  | badUtf8
  | badJson
  /-- The bytes are no model graph message. -/
  | badGraph
  | noGraph
  | noWeight
  | weightNotConstant (name : String)
  /-- The bias of a product is not among the constants. -/
  | biasNotConstant (name : String)
  /-- A product node has not exactly two operands. -/
  | productOperands (node : String)
  /-- Neither operand of a product is a constant. -/
  | noConstantOperand (node : String)
  | noProductResult
  /-- The added bias is not among the constants. -/
  | addendNotConstant (name : String)
  | elementType (tensor : String) (code : Int)
  /-- The raw bytes of a tensor do not divide into elements. -/
  | rawLength (tensor : String) (length width : Nat)
  | negativeDim (tensor : String) (dim : Int)
  | tensorFill (tensor : String) (cause : FillFault)
  /-- The values of a tensor are more or fewer than its shape asks for. -/
  | valueCount (tensor : String) (count : Nat) (dims : List Nat)
deriving DecidableEq, Repr

def LoadFault.message : LoadFault → String
  | unknownFormat extension path =>
      "Unsupported model format " ++ Text.quoted extension.toList ++ " for " ++
        path ++ " (expected .onnx or .json)"
  | noFile path => "File not found: " ++ path
  | unreadable path cause => "Failed to read " ++ path ++ ": " ++ cause.message
  | badGzip => "Failed to decode gzip"
  | badUtf8 => "Failed to decode UTF-8"
  | badJson => "Failed to parse JSON model"
  | badGraph => "Failed to parse ONNX"
  | noGraph => "Model has no graph"
  | noWeight => "Gemm node is missing its B input"
  | weightNotConstant name =>
      "Gemm weight '" ++ name ++ "' is not an initializer"
  | biasNotConstant name => "Gemm bias '" ++ name ++ "' is not an initializer"
  | productOperands node => "MatMul node '" ++ node ++ "' needs two inputs"
  | noConstantOperand node =>
      "MatMul node '" ++ node ++ "' has no constant weight"
  | noProductResult => "MatMul node has no output"
  | addendNotConstant name => "Add bias '" ++ name ++ "' is not an initializer"
  | elementType tensor code =>
      "Tensor '" ++ tensor ++ "' has unsupported data type " ++
        toString code ++ " (expected FLOAT or DOUBLE)"
  | rawLength tensor length width =>
      "Tensor '" ++ tensor ++ "' raw data length " ++ toString length ++
        " is not a multiple of " ++ toString width
  | negativeDim tensor dim =>
      "Tensor '" ++ tensor ++ "' has negative dim " ++ toString dim
  | tensorFill tensor cause =>
      "Tensor '" ++ tensor ++ "' data does not match shape: " ++ cause.message
  | valueCount tensor count dims =>
      "Tensor '" ++ tensor ++ "' has " ++ toString count ++
        " values for shape " ++ Text.bracketedNats dims

/-- The two ends of an input range. -/
inductive Side where
  | lower
  | upper
deriving DecidableEq, Repr

def Side.label : Side → String
  | lower => "lower"
  | upper => "upper"

/-- Why a setting or a property is refused. -/
inductive SpecFault where
  | precision (bits : Nat)
  | mode (name : String)
  | tolerance (value : Binary64)
  | badSettings (path : String)
  /-- An input range has an end that is not finite. -/
  | nonFiniteEnds (index : Nat) (lower upper : Binary64)
  /-- The parentheses do not match. -/
  | imbalance (cause : Form.Imbalance)
  /-- A list stands where a number is expected. -/
  | notANumber (form : Form)
  /-- A word stands where a number is expected. -/
  | badNumeral (text : String)
  | nonFiniteNumeral (text : String)
  /-- An input has two bounds on one side. -/
  | duplicateBound (side : Side) (index : Nat)
  /-- An input has no bound on one side. -/
  | missingBound (side : Side) (index : Nat)
  | noInputs
  /-- Nothing tells the label. -/
  | noLabel
  /-- The output clause tells two labels. -/
  | conflictingLabels (first other : Nat)
  /-- The property file cannot be loaded. -/
  | unreadable (cause : LoadFault)
deriving Repr

def SpecFault.message : SpecFault → String
  | precision bits =>
      "unsupported precision: " ++ toString bits ++
        " bits (expected 32 or 64)"
  | mode name =>
      "unknown decision mode '" ++ name ++ "' (expected simple, full or auto)"
  | tolerance value => toleranceMessage value
  | badSettings path => "invalid config " ++ path
  | nonFiniteEnds index lower upper =>
      "non-finite bound at index " ++ toString index ++ ": [" ++
        lower.plainText ++ ", " ++ upper.plainText ++ "]"
  | imbalance .unopened => "unbalanced ')'"
  | imbalance .unclosed => "unbalanced '('"
  | notANumber form => "expected a number, got " ++ form.outline
  | badNumeral text => "invalid number '" ++ text ++ "'"
  | nonFiniteNumeral text => "non-finite bound '" ++ text ++ "'"
  | duplicateBound side index =>
      "duplicate " ++ side.label ++ " bound for X_" ++ toString index
  | missingBound side index =>
      "missing " ++ side.label ++ " bound for X_" ++ toString index
  | noInputs => "property has no input bounds"
  | noLabel =>
      "cannot determine the label: pass it explicitly or name the file " ++
        "<name>_<label>.vnnlib"
  | conflictingLabels first other =>
      "output clause mentions conflicting labels " ++ toString first ++
        " and " ++ toString other
  | unreadable cause => cause.message

/-- Why a file of settings cannot be read as text. -/
inductive ReadFault where
  | access (cause : AccessFault)
  | notText
deriving DecidableEq, Repr

def ReadFault.message : ReadFault → String
  | access cause => cause.message
  | notText => "stream did not contain valid UTF-8"

/-- Why an operation of the library has no result. -/
inductive Fault where
  /-- Two shapes that have to agree differ. -/
  | shapeMismatch (check : ShapeCheck) (expected got : List Nat)
  /-- The range at an index is empty. -/
  | invalidBox (index : Nat) (lower upper : Binary64)
  | unsupportedTopology (cause : TopologyFault)
  | invalidLabel (label outputs : Nat)
  | invalidModel (cause : ModelFault)
  | modelLoad (cause : LoadFault)
  | invalidSpec (cause : SpecFault)
  | io (cause : ReadFault)
deriving Repr

def Fault.message : Fault → String
  | shapeMismatch check expected got =>
      "Shape mismatch in " ++ check.label ++ ": expected " ++
        Text.bracketedNats expected ++ ", got " ++ Text.bracketedNats got
  | invalidBox index lower upper =>
      "Invalid box at index " ++ toString index ++ ": lower " ++
        lower.plainText ++ " exceeds upper " ++ upper.plainText
  | unsupportedTopology cause => "Unsupported topology: " ++ cause.message
  | invalidLabel label outputs =>
      "Invalid label " ++ toString label ++ " for a network with " ++
        toString outputs ++ " output(s)"
  | invalidModel cause => "Invalid model: " ++ cause.message
  | modelLoad cause => "Model loading failed: " ++ cause.message
  | invalidSpec cause => "Invalid specification: " ++ cause.message
  | io cause => cause.message

/-- A computation of the library that may be refused. -/
abbrev Checked (α : Type) := Except Fault α

end BoxCert
