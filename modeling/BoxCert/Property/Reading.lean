import BoxCert.Fault
import BoxCert.Number.Numeral
import BoxCert.Property.Basic

/-!
# Reading a property

A property file asserts bounds on the inputs `X_i`, and then, in an assertion
whose body is a disjunction, how the outputs `Y_j` may go wrong. What the file
says is gathered first, without judging it: the bounds in the order in which
they stand, the number of declared inputs, and the label behind every output
comparison. Only then are the bounds put together into a box and the labels
into one label, and only there can reading fail.

The first disjunctive assertion splits the file. Bounds count before it only;
a comparison of outputs counts before it if it is asserted directly, and from
there on at any depth of conjunctions and disjunctions.
-/

namespace BoxCert

/-- The index in a variable name: the letter, an underscore or none, and
digits. -/
def variableIndex? (letter : Char) : List Char → Option Nat
  | [] => none
  | first :: rest =>
      let digits := match rest with
        | '_' :: more => more
        | _ => rest
      if first = letter && !digits.isEmpty && digits.all Char.isDigit then
        Numeral.index? digits
      else none

namespace Form

def variableOf? (letter : Char) (form : Form) : Option Nat :=
  form.word?.bind (variableIndex? letter)

/-- The finite number that a form spells. -/
def number (form : Form) : Except SpecFault Binary64 :=
  match form.word? with
  | none => .error (.notANumber form)
  | some text =>
      match Numeral.real? text with
      | none => .error (.badNumeral (String.ofList text))
      | some x =>
          if x.isFinite then .ok x
          else .error (.nonFiniteNumeral (String.ofList text))

end Form

/-- A bound as it is written: an input, a side of it, and the form of the
number. -/
structure WrittenBound where
  index : Nat
  side : Side
  number : Form

def Side.other : Side → Side
  | lower => upper
  | upper => lower

/-- The side on which a comparison bounds its left operand. -/
def boundedSide? (operator : List Char) : Option Side :=
  if operator = ">=".toList then some .lower
  else if operator = "<=".toList then some .upper
  else none

/-- The bound that a comparison states: on the input on its left if there is
one, else on the input on its right. -/
def writtenBound? (operator : List Char) (arguments : List Form) :
    Option WrittenBound := do
  let side ← boundedSide? operator
  let [left, right] := arguments | none
  match left.variableOf? 'X', right.variableOf? 'X' with
  | some i, _ => some ⟨i, side, right⟩
  | none, some i => some ⟨i, side.other, left⟩
  | none, none => none

/-- The class that an output comparison puts behind another one. -/
def dominated? (operator : List Char) (arguments : List Form) :
    Option Nat := do
  let [left, right] := arguments | none
  let l ← left.variableOf? 'Y'
  let r ← right.variableOf? 'Y'
  if operator = ">=".toList || operator = ">".toList then some r
  else if operator = "<=".toList || operator = "<".toList then some l
  else none

namespace Form

mutual

/-- The bounds that a form states, through conjunctions. -/
def bounds : Form → List WrittenBound
  | list (atom operator :: arguments) =>
      if operator = "and".toList then boundsOfAll arguments
      else (writtenBound? operator arguments).toList
  | _ => []

def boundsOfAll : List Form → List WrittenBound
  | [] => []
  | form :: rest => bounds form ++ boundsOfAll rest

end

mutual

/-- The dominated classes of the comparisons in a form, through conjunctions
and disjunctions. -/
def dominated : Form → List Nat
  | list (atom operator :: arguments) =>
      if operator = "and".toList || operator = "or".toList then
        dominatedOfAll arguments
      else (dominated? operator arguments).toList
  | _ => []

def dominatedOfAll : List Form → List Nat
  | [] => []
  | form :: rest => dominated form ++ dominatedOfAll rest

end

def asserted? (form : Form) : Option Form :=
  match form.call? with
  | some (head, body :: _) => if head = "assert".toList then some body else none
  | _ => none

def declared? (form : Form) : Option Nat :=
  match form.call? with
  | some (head, name :: _) =>
      if head = "declare-const".toList then name.variableOf? 'X' else none
  | _ => none

def assertsDisjunction (form : Form) : Bool :=
  match form.asserted?.bind call? with
  | some (operator, _) => operator = "or".toList
  | none => false

/-- The dominated class of a comparison that is asserted directly. -/
def directlyDominated? (form : Form) : Option Nat := do
  let (operator, arguments) ← (← form.asserted?).call?
  dominated? operator arguments

end Form

/-- What a property file says. -/
structure Statements where
  bounds : List WrittenBound
  /-- One more than the largest declared index. -/
  declaredInputs : Nat
  labels : List Nat

def Statements.ofForms (forms : List Form) : Statements :=
  -- The first asserted disjunction ends the input clauses; from there on,
  -- comparisons are read through conjunctions and disjunctions.
  let before := forms.takeWhile (!·.assertsDisjunction)
  let after := forms.dropWhile (!·.assertsDisjunction)
  { bounds := before.flatMap fun form => form.asserted?.elim [] Form.bounds
    declaredInputs :=
      (forms.filterMap Form.declared?).foldl (fun n i => max n (i + 1)) 0
    labels := before.filterMap Form.directlyDominated? ++
      after.flatMap fun form => form.asserted?.elim [] Form.dominated }

/-- A bound as it is meant. -/
structure Bound where
  index : Nat
  side : Side
  value : Binary64
deriving DecidableEq, Repr

namespace Bound

def find? (bounds : List Bound) (side : Side) (index : Nat) :
    Option Binary64 :=
  (bounds.find? fun b => b.side == side && b.index == index).map Bound.value

/-- Adds a written bound to those known so far. -/
def add (known : List Bound) (written : WrittenBound) :
    Checked (List Bound) :=
  match written.number.number with
  | .error fault => .error (.invalidSpec fault)
  | .ok value =>
      if (find? known written.side written.index).isSome then
        .error (.invalidSpec (.duplicateBound written.side written.index))
      else .ok (⟨written.index, written.side, value⟩ :: known)

def ends (bounds : List Bound) (index : Nat) :
    Checked (Binary64 × Binary64) :=
  match find? bounds .lower index, find? bounds .upper index with
  | none, _ => .error (.invalidSpec (.missingBound .lower index))
  | _, none => .error (.invalidSpec (.missingBound .upper index))
  | some low, some high =>
      if high < low then .error (.invalidBox index low high)
      else .ok (low, high)

/-- The ends of the inputs from `index` on, up to `dim`. The first input
without a proper range ends the search. -/
def endsFrom (bounds : List Bound) (dim index : Nat) :
    Checked (List (Binary64 × Binary64)) :=
  if index < dim then
    match ends bounds index with
    | .error fault => .error fault
    | .ok pair =>
        match endsFrom bounds dim (index + 1) with
        | .error fault => .error fault
        | .ok rest => .ok (pair :: rest)
  else .ok []
termination_by dim - index

end Bound

namespace Statements

/-- The number of inputs: enough for all that are bounded or declared. -/
def dim (s : Statements) : Nat :=
  s.bounds.foldl (fun n b => max n (b.index + 1)) s.declaredInputs

def corners (s : Statements) : Checked (List Binary64 × List Binary64) := do
  let bounds ← s.bounds.foldlM Bound.add []
  if s.dim = 0 then throw (.invalidSpec .noInputs)
  return (← Bound.endsFrom bounds s.dim 0).unzip

/-- The label on which all comparisons agree. -/
def label (s : Statements) : Checked Nat :=
  match s.labels with
  | [] => .error (.invalidSpec .noLabel)
  | first :: rest =>
      match rest.find? (· != first) with
      | some other => .error (.invalidSpec (.conflictingLabels first other))
      | none => .ok first

end Statements

namespace Property

/-- Reads a property. A label that is given wins over the one in the text. -/
def read (text : List Char) (label : Option Nat) : Checked Property := do
  match Form.read text with
  | .error cause => throw (.invalidSpec (.imbalance cause))
  | .ok forms =>
      let statements := Statements.ofForms forms
      let (lower, upper) ← statements.corners
      let label ← match label with
        | some l => pure l
        | none => statements.label
      return ⟨lower, upper, label⟩

end Property

end BoxCert
