import BoxCert.Number.Directed
import BoxCert.Number.Layout

/-!
# Intervals

An interval is a pair of binary64 ends and stands for the reals between them.
Each operation rounds its lower end downwards and its upper end upwards, so
the result holds every exact result of members of the operands. The ends may
be infinite: then nothing is claimed on that side.

Ends that come out of a comparison of several candidates carry no sign on a
zero, because which zero was picked says nothing.

A tolerance is asserted not to be negative where a number is widened by it. A
debug build checks that and stops; a release build does not, and moves the ends
inwards instead.
-/

namespace BoxCert

/-- How a program is built: with its assertions, or without them. -/
inductive Build where
  | debug
  | release
deriving DecidableEq, Repr

/-- Passes an assertion. A debug build stops, with nothing to show for it, if
the assertion fails. -/
def Build.assert (build : Build) (holds : Bool) : Option Unit :=
  match build with
  | debug => if holds then some () else none
  | release => some ()

/-- A closed interval, given by its lower and upper end. -/
structure Interval where
  inf : Binary64
  sup : Binary64
deriving DecidableEq, Repr

namespace Interval

/-- The interval with the given ends, if they are in order. -/
def ofEnds? (inf sup : Binary64) : Option Interval :=
  if inf ≤ sup then some ⟨inf, sup⟩ else none

def point (x : Binary64) : Interval := ⟨x, x⟩

protected def zero : Interval := point 0

instance : Zero Interval := ⟨Interval.zero⟩

instance : Inhabited Interval := ⟨0⟩

/-- A number with a tolerance on both sides, for callers that know that the
tolerance is not negative and for builds without assertions. -/
def around (x tolerance : Binary64) : Interval :=
  ⟨x.subDown tolerance, x.addUp tolerance⟩

/-- A number with a tolerance on both sides, which is asserted not to be
negative. -/
def aroundIn (build : Build) (x tolerance : Binary64) : Option Interval := do
  build.assert (0 ≤ tolerance)
  return around x tolerance

/-- An upper bound of the distance between the ends. -/
def width (a : Interval) : Binary64 := a.sup.subUp a.inf

def contains (a : Interval) (x : Binary64) : Bool :=
  a.inf ≤ x && x ≤ a.sup

/-- Whether the ends are equal as numbers, pair by pair. -/
def sameEnds (a b : Interval) : Bool :=
  a.inf.sameValue b.inf && a.sup.sameValue b.sup

/-- The smallest interval around both operands. -/
def hull (a b : Interval) : Interval :=
  ⟨(min a.inf b.inf).unsignedZero, (max a.sup b.sup).unsignedZero⟩

def isNonnegative (a : Interval) : Bool := 0 ≤ a.inf

def isNonpositive (a : Interval) : Bool := a.sup ≤ 0

/-- Whether there are members on both sides of zero. -/
def straddlesZero (a : Interval) : Bool := 0 < a.sup && a.inf < 0

protected def add (a b : Interval) : Interval :=
  ⟨a.inf.addDown b.inf, a.sup.addUp b.sup⟩

instance : Add Interval := ⟨Interval.add⟩

protected def neg (a : Interval) : Interval := ⟨-a.sup, -a.inf⟩

instance : Neg Interval := ⟨Interval.neg⟩

/-- The interval product: the extremes of the four products of ends. -/
protected def mul (a b : Interval) : Interval :=
  ⟨(min (min (min (a.inf.mulDown b.inf) (a.inf.mulDown b.sup))
      (a.sup.mulDown b.inf)) (a.sup.mulDown b.sup)).unsignedZero,
   (max (max (max (a.inf.mulUp b.inf) (a.inf.mulUp b.sup))
      (a.sup.mulUp b.inf)) (a.sup.mulUp b.sup)).unsignedZero⟩

instance : Mul Interval := ⟨Interval.mul⟩

/-- The sum of a list, from zero and from left to right. -/
def sum (items : List Interval) : Interval := items.foldl (· + ·) 0

/-- The members at or above zero, or zero alone if there are none. -/
def positivePart (a : Interval) : Interval :=
  if a.straddlesZero then ⟨0, a.sup⟩
  else if a.isNonnegative then a
  else 0

/-- The members at or below zero, or zero alone if the other part has taken
the whole interval. -/
def negativePart (a : Interval) : Interval :=
  if a.straddlesZero then ⟨a.inf, 0⟩
  else if a.isNonnegative then 0
  else a

instance : ToString Interval where
  toString a := "[" ++ a.inf.plainText ++ ", " ++ a.sup.plainText ++ "]"

end Interval

end BoxCert
