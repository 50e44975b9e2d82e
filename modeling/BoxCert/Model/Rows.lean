import BoxCert.Layer

/-!
# Models

A model is the weight and bias of an affine layer with a name, as it is loaded
from a file. Nothing is asked of the numbers yet; that is done when a layer is
built from it. The simplest way to give a model is by the rows of its weight.
-/

namespace BoxCert

/-- A loaded model. -/
structure Model where
  name : String
  /-- The weight, one row per output. -/
  weight : Grid Binary64
  bias : List Binary64
  order : StorageOrder
deriving DecidableEq, Repr

namespace Model

def inputs (m : Model) : Nat := m.weight.cols

def outputs (m : Model) : Nat := m.weight.rows

/-- The number of weight and bias entries. -/
def parameters (m : Model) : Nat := m.weight.cells.length + m.bias.length

def toLayer (m : Model) (tolerance : Binary64) : Checked Layer :=
  Layer.build m.weight m.bias tolerance m.order

end Model

/-- A model given by rows, perhaps without a name. -/
structure RowModel where
  name : Option String
  weight : List (List Binary64)
  bias : List Binary64
deriving DecidableEq, Repr

/-- The model that the rows make, named by `fallback` if it has no name. -/
def RowModel.toModel (m : RowModel) (fallback : String) : Checked Model :=
  match Grid.ofRows m.weight with
  | .error ragged =>
      .error (.invalidModel
        (.raggedRow ragged.index ragged.length ragged.expected))
  | .ok weight => .ok ⟨m.name.getD fallback, weight, m.bias, .byRow⟩

end BoxCert
