import BoxCert.Protobuf.Message

/-!
# Model graphs

As far as an affine layer is concerned, a model graph is a list of nodes and a
list of constant tensors. A node applies an operator to values, which it
refers to by name, and may carry attributes; a tensor has a name, dimensions
and elements. What else a graph file may hold is passed over, except that its
declared inputs and outputs and its operator sets have to be well formed.
-/

namespace BoxCert.Onnx

/-- A constant. Its elements stand in one of three places: as 32-bit floats,
as 64-bit floats, or as raw bytes. -/
structure Tensor where
  name : String
  dims : List Int
  elementType : Int
  /-- The bits of elements that are 32-bit floats. -/
  singles : List UInt32
  /-- The bits of elements that are 64-bit floats. -/
  doubles : List UInt64
  raw : List UInt8
deriving DecidableEq, Repr

/-- A named parameter of an operator. -/
structure Attribute where
  name : String
  /-- The bits of its 32-bit float. -/
  float : UInt32
  int : Int
deriving DecidableEq, Repr

/-- The application of an operator. -/
structure Node where
  operator : String
  name : String
  /-- The names of the operands. -/
  inputs : List String
  /-- The names of the results. -/
  outputs : List String
  attributes : List Attribute
deriving DecidableEq, Repr

/-- A model graph. -/
structure Graph where
  nodes : List Node
  tensors : List Tensor
deriving DecidableEq, Repr

/-! ### Reading a graph -/

open Protobuf
open Protobuf.Payload (text? bytes? int32? int64? float32? int64s? float32s?
  float64s?)

def Tensor.ofFields? (m : List Field) : Option Tensor := do
  return {
    name := ← memberOr? m 8 "" text?
    dims := ← packedMembers? m 1 int64s?
    elementType := ← memberOr? m 2 0 int32?
    singles := ← packedMembers? m 4 float32s?
    doubles := ← packedMembers? m 10 float64s?
    raw := ← memberOr? m 9 [] bytes? }

/-- The attribute in a message. Its type has to be well formed, but says
nothing that is used. -/
def Attribute.ofFields? (m : List Field) : Option Attribute := do
  let _ ← memberOr? m 20 0 int32?
  return {
    name := ← memberOr? m 1 "" text?
    float := ← memberOr? m 2 0 float32?
    int := ← memberOr? m 3 0 int64? }

/-- The node in a message that may nest to the given budget. -/
def Node.ofFields? (budget : Nat) (m : List Field) : Option Node := do
  return {
    operator := ← memberOr? m 4 "" text?
    name := ← memberOr? m 3 "" text?
    inputs := ← members? m 1 text?
    outputs := ← members? m 2 text?
    attributes := ← messages? (budget - 1) m 5 Attribute.ofFields? }

/-- Whether a message that declares an input or an output is well formed. -/
def isDeclaration (m : List Field) : Bool := (memberOr? m 1 "" text?).isSome

/-- Whether a message that names an operator set is well formed. -/
def isOperatorSet (m : List Field) : Bool :=
  (memberOr? m 1 "" text?).isSome && (memberOr? m 2 0 int64?).isSome

def Graph.ofFields? (budget : Nat) (m : List Field) : Option Graph := do
  let _ ← memberOr? m 2 "" text?
  let inner := budget - 1
  let declared := fun fields => guard (isDeclaration fields)
  let _ ← messages? inner m 11 declared
  let _ ← messages? inner m 12 declared
  return {
    nodes := ← messages? inner m 1 (Node.ofFields? inner)
    tensors := ← messages? inner m 5 Tensor.ofFields? }

/-- The graph of a model file, which may be missing. -/
def Graph.ofBytes? (bytes : List UInt8) : Option (Option Graph) := do
  let m ← fields? nestingLimit bytes
  let inner := nestingLimit - 1
  let _ ← memberOr? m 1 0 int64?
  let _ ← memberOr? m 2 "" text?
  let _ ← messages? inner m 8 fun fields => guard (isOperatorSet fields)
  match ← part? m 7 inner with
  | none => return none
  | some fields => return some (← Graph.ofFields? inner fields)

end BoxCert.Onnx
