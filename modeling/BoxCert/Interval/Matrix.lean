import BoxCert.Fault
import BoxCert.Grid
import BoxCert.Interval.Basic

/-!
# Interval matrices

Grids of intervals, with columns for vectors. The product sums from left to
right, starting from zero, so the order of rounding is fixed. Splitting a
matrix by sign gives two matrices that add up to it; multiplying them with the
two ends of a box is what makes a bound of a linear form tight.
-/

namespace BoxCert

abbrev IntervalMatrix := Grid Interval

namespace IntervalMatrix

def dot (row column : List Interval) : Interval :=
  Interval.sum (List.zipWith (· * ·) row column)

def product (a b : IntervalMatrix) : Checked IntervalMatrix :=
  if a.cols = b.rows then .ok (Grid.table dot a b)
  else .error (.shapeMismatch .matrixProduct [a.cols, b.cols] b.shape)

/-- The sum of two matrices of one shape. -/
def sum (a b : IntervalMatrix) : Checked IntervalMatrix :=
  match Grid.zipWith? (· + ·) a b with
  | some c => .ok c
  | none => .error (.shapeMismatch .matrixSum a.shape b.shape)

/-- The sum of two or more matrices, from left to right. -/
def sumAll : List IntervalMatrix → Checked IntervalMatrix
  | first :: second :: rest => (second :: rest).foldlM sum first
  | few => .error (.shapeMismatch .operandCount [2] [few.length])

def toColumn (a : IntervalMatrix) : Checked (List Interval) :=
  if a.isColumn then .ok a.cells
  else .error (.shapeMismatch .columnVector [a.rows, 1] a.shape)

def positivePart (a : IntervalMatrix) : IntervalMatrix :=
  a.map Interval.positivePart

def negativePart (a : IntervalMatrix) : IntervalMatrix :=
  a.map Interval.negativePart

/-- The greatest of a list of numbers, or negative infinity. -/
def greatestOf (ends : List Binary64) : Binary64 :=
  (ends.foldl max Binary64.negInfinity).unsignedZero

def maxUpper (a : IntervalMatrix) : Binary64 :=
  greatestOf (a.cells.map Interval.sup)

/-- The greatest upper end outside the row `skip`. -/
def maxUpperExcluding (a : IntervalMatrix) (skip : Nat) : Binary64 :=
  greatestOf ((a.rowList.eraseIdx skip).flatten.map Interval.sup)

/-- Whether two matrices have one shape and cells of equal ends. -/
def sameCells (a b : IntervalMatrix) : Bool :=
  a.shape == b.shape && (List.zipWith Interval.sameEnds a.cells b.cells).all id

end IntervalMatrix

end BoxCert
