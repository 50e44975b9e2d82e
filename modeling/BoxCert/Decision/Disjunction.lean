import BoxCert.Interval.Matrix

/-!
# The negated property as a disjunction

That a label wins everywhere is negated into a disjunction with one disjunct
per competitor: its score reaches that of the label. Each disjunct is a row of
signs, plus one at the label and minus one at the competitor, whose scalar
product with the scores is the label's lead. A single score stands for two
classes, zero and one, told apart by its sign; then the row is that sign, and
class one owns the score zero.
-/

namespace BoxCert

/-- When a lead counts as lost. -/
inductive Comparison where
  /-- At zero and below. -/
  | nonStrict
  /-- Below zero only. -/
  | strict
deriving DecidableEq, Repr

/-- The disjuncts for one label. -/
structure Disjunction where
  /-- One row of signs per disjunct. -/
  matrix : IntervalMatrix
  competitors : List Nat
  comparison : Comparison
deriving DecidableEq, Repr

/-- The number of classes that a number of scores tells apart. -/
def classCount (outputs : Nat) : Nat := if outputs = 1 then 2 else outputs

/-- The classes other than the label, in ascending order. -/
def competitors (outputs label : Nat) : List Nat :=
  (List.range (classCount outputs)).filter (· != label)

/-- Refuses a label that is no class. -/
def checkLabel (outputs label : Nat) : Checked Unit :=
  if outputs = 0 ∨ classCount outputs ≤ label then
    .error (.invalidLabel label outputs)
  else .ok ()

namespace Disjunction

/-- The sign of score `j` in the lead of `label` over `competitor`. -/
def sign (label competitor j : Nat) : Interval :=
  if j = label then .point 1
  else if j = competitor then .point (-1)
  else 0

def leadRow (outputs label competitor : Nat) : List Interval :=
  (List.range outputs).map (sign label competitor)

def leadMatrix (outputs label : Nat) : IntervalMatrix :=
  let rivals := (List.range outputs).filter (· != label)
  ⟨rivals.length, outputs, (rivals.map (leadRow outputs label)).flatten, by
    rw [Grid.length_flatten_of_forall (k := outputs), List.length_map]
    intro line hl
    obtain ⟨i, _, rfl⟩ := List.mem_map.1 hl
    rw [leadRow, List.length_map, List.length_range]⟩

def signMatrix (outputs label : Nat) : Checked IntervalMatrix := do
  checkLabel outputs label
  if outputs = 1 then
    return Grid.column [.point (if label = 1 then 1 else -1)]
  else return leadMatrix outputs label

def ofLabel (outputs label : Nat) : Checked Disjunction := do
  let matrix ← signMatrix outputs label
  let comparison :=
    if outputs = 1 ∧ label = 1 then Comparison.strict else .nonStrict
  return ⟨matrix, BoxCert.competitors outputs label, comparison⟩

/-- The row of the disjunct at an index, as a matrix. The competitors are
listed apart from the rows, so that there is one has to be asked. -/
def row (d : Disjunction) (i : Nat) : Checked IntervalMatrix :=
  match d.matrix.row? i with
  | some row => .ok row
  | none =>
      .error (.shapeMismatch .disjunctionRow [d.competitors.length]
        [d.matrix.rows])

end Disjunction

end BoxCert
