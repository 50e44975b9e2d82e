import BoxCert.Box

/-!
# Affine layers

A layer maps a vector `x` to `W x + b`. It is given by numbers and a
tolerance, and stands for every affine map whose entries differ from those
numbers by at most the tolerance. A layer can be evaluated at a point, with
plain rounding, or propagate a box, with outward rounding.

Propagation splits the weight by sign. The lowest value of a row pairs its
positive part with the lower ends of the box and its negative part with the
upper ends, the highest value the other way round.

That the parameters are finite, fit each other and are not empty is part of
the type.
-/

namespace BoxCert

/-- How the cells of a weight are laid out, which decides the order in which
a row is summed. -/
inductive StorageOrder where
  /-- The cells of a row stand together. -/
  | byRow
  /-- The cells of a column stand together. -/
  | byColumn
deriving DecidableEq, Repr

def Binary64.isTolerance (x : Binary64) : Bool := x.isFinite && !decide (x < 0)

/-- An affine layer with a tolerance on every parameter. -/
structure Layer where
  /-- The weight, one row per output. -/
  weightPoints : Grid Binary64
  biasPoints : List Binary64
  tolerance : Binary64
  order : StorageOrder
  isTolerance_tolerance : tolerance.isTolerance = true
  nonempty : weightPoints.rows ≠ 0 ∧ weightPoints.cols ≠ 0
  length_biasPoints : biasPoints.length = weightPoints.rows
  finite : ∀ x ∈ weightPoints.cells ++ biasPoints, x.isFinite = true

namespace Layer

def build (weight : Grid Binary64) (bias : List Binary64)
    (tolerance : Binary64) (order : StorageOrder := .byRow) : Checked Layer :=
  if hTolerance : tolerance.isTolerance = true then
    if hEmpty : weight.rows ≠ 0 ∧ weight.cols ≠ 0 then
      if hBias : bias.length = weight.rows then
        match hFinite : (weight.cells ++ bias).find? fun x => !x.isFinite with
        | some x => .error (.invalidModel (.nonFinite x))
        | none => .ok {
            weightPoints := weight, biasPoints := bias, tolerance, order
            isTolerance_tolerance := hTolerance
            nonempty := hEmpty
            length_biasPoints := hBias
            finite := fun x hx => by
              simpa using List.find?_eq_none.1 hFinite x hx }
      else .error (.shapeMismatch .layerBias [weight.rows] [bias.length])
    else .error (.invalidModel (.emptyWeight weight.rows weight.cols))
  else .error (.invalidModel (.tolerance tolerance))

/-- The layer whose weight is given row by row. -/
def ofRows (weight : List (List Binary64)) (bias : List Binary64)
    (tolerance : Binary64) : Checked Layer :=
  match Grid.ofRows weight with
  | .error ragged =>
      .error (.shapeMismatch .weightRow [ragged.expected] [ragged.length])
  | .ok grid => build grid bias tolerance

def inputs (l : Layer) : Nat := l.weightPoints.cols

def outputs (l : Layer) : Nat := l.weightPoints.rows

def kind (_ : Layer) : String := "Linear"

/-- The weight with its tolerance. -/
def weight (l : Layer) : IntervalMatrix :=
  l.weightPoints.map (Interval.around · l.tolerance)

def bias (l : Layer) : IntervalMatrix := Box.widened l.tolerance l.biasPoints

/-! ### Evaluation at a point -/

/-- Adds the products, in blocks of eight, to eight running sums. Gives the
sums and the products that fill no block. -/
def laneSums (lanes products : List Binary64) :
    List Binary64 × List Binary64 :=
  if 8 ≤ products.length then
    laneSums (List.zipWith (· + ·) lanes (products.take 8)) (products.drop 8)
  else (lanes, products)
termination_by products.length
decreasing_by rw [List.length_drop]; omega

/-- The sum of the products with eight running sums: lane `k` is joined with
lane `k + 4`, the four results are added up, then the rest is added. -/
def laneSum (products : List Binary64) : Binary64 :=
  let (lanes, rest) := laneSums (List.replicate 8 0) products
  let joined := List.zipWith (· + ·) (lanes.take 4) (lanes.drop 4)
  (joined ++ rest).foldl (· + ·) 0

def plainSum (products : List Binary64) : Binary64 := products.foldl (· + ·) 0

/-- Whether the cells of each row stand together: a single row always does. -/
def rowsTogether (l : Layer) : Bool :=
  l.order == .byRow || l.outputs == 1

/-- The value at a point, rounded to nearest in each operation. -/
def evaluate (l : Layer) (x : List Binary64) : Checked (List Binary64) :=
  if x.length = l.inputs then
    let total := if l.rowsTogether then laneSum else plainSum
    .ok <| List.zipWith
      (fun row b => total (List.zipWith (· * ·) row x) + b)
      l.weightPoints.rowList l.biasPoints
  else .error (.shapeMismatch .evaluation [l.inputs] [x.length])

/-! ### Propagation of a box -/

/-- The box of all values on a box, for every map the layer stands for. -/
def propagate (l : Layer) (box : Box) : Checked Box := do
  if box.dim ≠ l.inputs then
    throw (.shapeMismatch .propagation [l.inputs] [box.dim])
  let positive := l.weight.positivePart
  let negative := l.weight.negativePart
  -- A positive factor is least at the lower end, a negative one at the upper.
  let lower ← IntervalMatrix.sumAll
    [← positive.product box.lower, ← negative.product box.upper, l.bias]
  let upper ← IntervalMatrix.sumAll
    [← positive.product box.upper, ← negative.product box.lower, l.bias]
  Box.ofColumns lower upper

end Layer

end BoxCert
