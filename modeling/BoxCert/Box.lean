import BoxCert.Interval.Matrix

/-!
# Boxes

A box is a pair of column vectors of intervals: one that holds the lower ends
of a range per component and one that holds the upper ends. Each end is an
interval itself, so that an end known only up to rounding can be carried
through a computation. The range of a component reaches from the lower end of
the one to the upper end of the other.
-/

namespace BoxCert

/-- A box, one range per component. -/
structure Box where
  lower : IntervalMatrix
  upper : IntervalMatrix
deriving DecidableEq, Repr

namespace Box

/-- The first pair whose range is empty, with its index. A range whose ends
cannot be compared counts as empty. -/
def emptyRange? (lower upper : List Interval) :
    Option (Nat × Interval × Interval) :=
  let pairs := List.zip lower upper
  (pairs.zipIdx.find? fun pair => !decide (pair.1.1.inf ≤ pair.1.2.sup)).map
    fun pair => (pair.2, pair.1)

def ofColumns (lower upper : IntervalMatrix) : Checked Box :=
  if !lower.isColumn then
    .error (.shapeMismatch .lowerColumn [lower.rows, 1] lower.shape)
  else if lower.shape != upper.shape then
    .error (.shapeMismatch .upperColumn lower.shape upper.shape)
  else
    match emptyRange? lower.cells upper.cells with
    | some (index, low, high) => .error (.invalidBox index low.inf high.sup)
    | none => .ok ⟨lower, upper⟩

/-- A column of numbers, each with the same tolerance on both sides. -/
def widened (tolerance : Binary64) (points : List Binary64) : IntervalMatrix :=
  Grid.column (points.map (Interval.around · tolerance))

/-- The fault of a pair of bounds: an end that is not finite comes first, then
ends in the wrong order. -/
def pairFault? (index : Nat) (low high : Binary64) : Option Fault :=
  if !low.isFinite || !high.isFinite then
    some (.invalidSpec (.nonFiniteEnds index low high))
  else if high < low then some (.invalidBox index low high)
  else none

/-- The fault of two corners: that of their lengths, or of the first pair of
bounds that has one. -/
def cornerFault? (lower upper : List Binary64) : Option Fault :=
  if lower.length ≠ upper.length then
    some (.shapeMismatch .boxEnds [lower.length] [upper.length])
  else
    (List.zip lower upper).zipIdx.findSome? fun pair =>
      pairFault? pair.2 pair.1.1 pair.1.2

/-- The box between two lists of numbers, widened by a tolerance. -/
def ofPoints (lower upper : List Binary64) (tolerance : Binary64) :
    Checked Box :=
  match cornerFault? lower upper with
  | some fault => .error fault
  | none => ofColumns (widened tolerance lower) (widened tolerance upper)

/-- A column of numbers with a tolerance on both sides, as a build makes it. -/
def widenedIn (build : Build) (tolerance : Binary64)
    (points : List Binary64) : Option IntervalMatrix :=
  (points.mapM (Interval.aroundIn build · tolerance)).map Grid.column

/-- The box between two lists of numbers, as a build makes it. Corners at fault
are refused before any of them is widened, so only others stop a debug
build. -/
def ofPointsIn (build : Build) (lower upper : List Binary64)
    (tolerance : Binary64) : Option (Checked Box) :=
  match cornerFault? lower upper with
  | some fault => some (.error fault)
  | none => do
      let low ← widenedIn build tolerance lower
      let high ← widenedIn build tolerance upper
      return ofColumns low high

def dim (b : Box) : Nat := b.lower.rows

def ranges (b : Box) : List Interval :=
  List.zipWith Interval.hull b.lower.cells b.upper.cells

def lowerEnds (b : Box) : List Binary64 := b.lower.cells.map Interval.inf

def upperEnds (b : Box) : List Binary64 := b.upper.cells.map Interval.sup

/-- Whether a point has one coordinate per component, each within its range. -/
def contains (b : Box) (point : List Binary64) : Bool :=
  point.length == b.dim &&
    (List.zipWith Interval.contains b.ranges point).all id

def maxWidth (b : Box) : Binary64 :=
  ((b.ranges.map Interval.width).foldl max 0).unsignedZero

end Box

end BoxCert
