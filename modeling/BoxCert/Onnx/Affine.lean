import BoxCert.Model.Rows
import BoxCert.Number.Words
import BoxCert.Onnx.Graph

/-!
# The affine layer of a graph

A graph is a single affine layer if the nodes that compute anything are one
general product, one matrix product, or a matrix product followed by a sum.
Nodes that only pass the input on may stand anywhere between.

A general product `alpha * x * B + beta * C` and a matrix product `x * B` have
a row vector on the left, so the weight of the layer is `B` transposed. It is
transposed by reading the same cells column by column; the cells are left
where they are, which decides the order in which a row is summed later. The
weight of a product `W * x`, and of a general product that transposes `B`
itself, is taken as it stands.
-/

namespace BoxCert.Onnx

/-! ### Tensors -/

namespace Tensor

/-- The code of 32-bit floats. -/
abbrev singleCode : Int := 1

/-- The code of 64-bit floats. -/
abbrev doubleCode : Int := 11

/-- The elements as numbers. Raw bytes come first where there are any. -/
def values (t : Tensor) : Checked (List Binary64) :=
  if t.elementType = singleCode then
    if t.raw.isEmpty then .ok (t.singles.map Binary64.ofBits32)
    else
      match words32? t.raw with
      | some words => .ok (words.map Binary64.ofBits32)
      | none => .error (.modelLoad (.rawLength t.name t.raw.length 4))
  else if t.elementType = doubleCode then
    if t.raw.isEmpty then .ok (t.doubles.map Binary64.ofBits)
    else
      match words64? t.raw with
      | some words => .ok (words.map Binary64.ofBits)
      | none => .error (.modelLoad (.rawLength t.name t.raw.length 8))
  else .error (.modelLoad (.elementType t.name t.elementType))

/-- The dimensions, none of which may be negative. -/
def shape (t : Tensor) : Checked (List Nat) :=
  match t.dims.find? (· < 0) with
  | some dim => .error (.modelLoad (.negativeDim t.name dim))
  | none => .ok (t.dims.map Int.toNat)

/-- How many places along non-empty dimensions can be counted. -/
abbrev placeBound : Nat := 2 ^ 63 - 1

def fill (rows cols : Nat) (cells : List Binary64) :
    Except FillFault (Grid Binary64) :=
  if placeBound < max rows 1 * max cols 1 then .error .overflow
  else if h : cells.length = rows * cols then .ok ⟨rows, cols, cells, h⟩
  else if cells.length < rows * cols then .error .tooFew
  else .error .tooMany

def matrix (t : Tensor) : Checked (Grid Binary64) := do
  match ← t.shape with
  | [rows, cols] =>
      match fill rows cols (← t.values) with
      | .ok grid => return grid
      | .error cause => throw (.modelLoad (.tensorFill t.name cause))
  | dims => throw (.unsupportedTopology (.weightRank t.name dims))

/-- Whether a tensor of the given dimensions is a vector of length `n`: it may
have one dimension, or a second one of a single place, or be a single number
without dimensions. -/
def isVectorShape (n : Nat) : List Nat → Bool
  | [] => n == 1
  | [d] => d == n
  | [a, b] => if a = 1 then b == n else b == 1 && a == n
  | _ => false

/-- The elements of a tensor that is a vector of length `n`. The places of a
shape are counted without a bound. A shape with more of them than a machine
word can count has two dimensions above one, or more than two dimensions, so it
is no vector and is refused whatever the count. Where a count in words would
wrap around and happen to fit, the fault would be the shape and not the number
of elements. -/
def vector (t : Tensor) (n : Nat) : Checked (List Binary64) := do
  let dims ← t.shape
  let values ← t.values
  if values.length ≠ dims.foldl (· * ·) 1 then
    throw (.modelLoad (.valueCount t.name values.length dims))
  if isVectorShape n dims then return values
  else throw (.shapeMismatch .graphBias [n] dims)

end Tensor

/-! ### Nodes -/

/-- What a node can do in an affine layer. -/
inductive Role where
  /-- Multiplies by a matrix, scales, and adds a vector. -/
  | generalProduct
  | matrixProduct
  | sum
  /-- Passes its input on. -/
  | passage
  | foreign
deriving DecidableEq, Repr

namespace Node

/-- The first attribute of a name. -/
def attribute? (node : Node) (name : String) : Option Attribute :=
  node.attributes.find? (·.name == name)

/-- Whether the integer of an attribute is set and not zero. -/
def flag (node : Node) (name : String) : Bool :=
  (node.attribute? name).elim false (·.int != 0)

/-- The number of an attribute, or one. -/
def factor (node : Node) (name : String) : Binary64 :=
  (node.attribute? name).elim 1 fun a => Binary64.ofBits32 a.float

def role (node : Node) : Role :=
  match node.operator with
  | "Gemm" => .generalProduct
  | "MatMul" => .matrixProduct
  | "Add" => .sum
  | "Flatten" | "Identity" => .passage
  | _ => .foreign

end Node

/-! ### Layers -/

/-- A weight with its layout. -/
structure Weight where
  /-- The cells, one row per output. -/
  cells : Grid Binary64
  order : StorageOrder
deriving DecidableEq, Repr

/-- The weight that acts on a column vector like `b` on a row vector. -/
def Weight.ofTransposed (b : Grid Binary64) : Weight :=
  ⟨b.transpose, .byColumn⟩

namespace Graph

/-- The constant of a name: of several, the last one. -/
def constant? (g : Graph) (name : String) : Option Tensor :=
  g.tensors.reverse.find? (·.name == name)

def generalProduct (g : Graph) (node : Node) :
    Checked (Weight × List Binary64) := do
  if node.flag "transA" then
    throw (.unsupportedTopology .transposedInput)
  let some name := node.inputs[1]? | throw (.modelLoad .noWeight)
  let some tensor := g.constant? name
    | throw (.modelLoad (.weightNotConstant name))
  let b ← tensor.matrix
  let plain : Weight :=
    if node.flag "transB" then ⟨b, .byRow⟩ else .ofTransposed b
  let alpha := node.factor "alpha"
  let weight := { plain with cells := plain.cells.map (alpha * ·) }
  let outputs := weight.cells.rows
  match node.inputs[2]?.filter (!·.isEmpty) with
  | none => return (weight, List.replicate outputs 0)
  | some name =>
      let some tensor := g.constant? name
        | throw (.modelLoad (.biasNotConstant name))
      let c ← tensor.vector outputs
      return (weight, c.map (· * node.factor "beta"))

def matrixProduct (g : Graph) (node : Node) : Checked Weight := do
  let [left, right] := node.inputs
    | throw (.modelLoad (.productOperands node.name))
  match g.constant? left, g.constant? right with
  | none, some b => return .ofTransposed (← b.matrix)
  | some w, none => return ⟨← w.matrix, .byRow⟩
  | some _, some _ => throw (.unsupportedTopology .constantProduct)
  | none, none => throw (.modelLoad (.noConstantOperand node.name))

/-- The bias that a sum adds to the result of a product with `outputs`
outputs. -/
def addedBias (g : Graph) (product sum : Node) (outputs : Nat) :
    Checked (List Binary64) := do
  let some result := product.outputs.head?
    | throw (.modelLoad .noProductResult)
  let detached := Fault.unsupportedTopology (.detachedSum sum.name)
  let [left, right] := sum.inputs | throw detached
  let name ←
    if left = result then pure right
    else if right = result then pure left
    else throw detached
  let some tensor := g.constant? name
    | throw (.modelLoad (.addendNotConstant name))
  tensor.vector outputs

/-- The weight and bias of the layer that the graph is. -/
def layer (g : Graph) : Checked (Weight × List Binary64) := do
  if let some node := g.nodes.find? (·.role == .foreign) then
    throw (.unsupportedTopology (.foreignOperator node.operator node.name))
  let linear := g.nodes.filter (·.role != .passage)
  match linear.map Node.role, linear with
  | [.generalProduct], [node] => g.generalProduct node
  | [.matrixProduct], [node] => do
      let weight ← g.matrixProduct node
      return (weight, List.replicate weight.cells.rows 0)
  | [.matrixProduct, .sum], [product, sum] => do
      let weight ← g.matrixProduct product
      return (weight, ← g.addedBias product sum weight.cells.rows)
  | [], _ => throw (.unsupportedTopology .noLayer)
  | _, _ =>
      throw (.unsupportedTopology (.otherLayers (linear.map Node.operator)))

def toModel (g : Graph) (name : String) : Checked Model := do
  let (weight, bias) ← g.layer
  return ⟨name, weight.cells, bias, weight.order⟩

end Graph

end BoxCert.Onnx

namespace BoxCert

def Model.ofGraphBytes (bytes : List UInt8) (name : String) :
    Checked Model :=
  match Onnx.Graph.ofBytes? bytes with
  | none => .error (.modelLoad .badGraph)
  | some none => .error (.modelLoad .noGraph)
  | some (some graph) => graph.toModel name

end BoxCert
