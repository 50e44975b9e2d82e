import BoxCert.Box
import BoxCert.Decision.Disjunction
import BoxCert.Decision.Outcome

/-!
# Deciding a property on an output box

Two checks. The simple one compares the lowest score of the label with the
highest score of any competitor. The full one bounds the lead over each
competitor and classifies the bounds against a threshold; its verdicts are
then aggregated.
-/

namespace BoxCert

/-- Classifies a lead between `lower` and `upper` against a threshold. -/
def classify (comparison : Comparison) (lower upper threshold : Binary64) :
    Verdict :=
  if lower.isNan || upper.isNan then .maybe
  else
    match comparison with
    | .nonStrict =>
        if threshold < lower then .no
        else if threshold < upper then .maybe
        else .yes
    | .strict =>
        if threshold ≤ lower then .no
        else if upper < threshold then .yes
        else .maybe

namespace Box

/-- The positive part of a row against one column plus its negative part
against another. -/
def signedDot (row first second : IntervalMatrix) : Checked Interval := do
  let sum ← IntervalMatrix.sumAll
    [← row.positivePart.product first, ← row.negativePart.product second]
  match sum.cell? 0 0 with
  | some value => return value
  | none => throw (.shapeMismatch .disjunctRow [1, 1] sum.shape)

def minOf (b : Box) (row : IntervalMatrix) : Checked Interval :=
  signedDot row b.lower b.upper

def maxOf (b : Box) (row : IntervalMatrix) : Checked Interval :=
  signedDot row b.upper b.lower

/-- Compares the label's lowest score with the other scores' highest ones. A
single score is left to the full check. -/
def checkSimple (b : Box) (label : Nat) : Checked Outcome := do
  checkLabel b.dim label
  if b.dim = 1 then return .unresolved [1 - label]
  match b.lower.cell? label 0 with
  | none => throw (.invalidLabel label b.dim)
  | some own =>
      if b.upper.maxUpperExcluding label < own.inf then return .robust
      let rivals := b.upperEnds.zipIdx.filter fun rival =>
        rival.2 != label && decide (own.inf ≤ rival.1)
      return .unresolved (rivals.map (·.2))

def checkDisjunct (b : Box) (comparison : Comparison) (threshold : Binary64)
    (competitor : Nat) (row : IntervalMatrix) : Checked DisjunctVerdict := do
  let lowest ← b.minOf row
  let highest ← b.maxOf row
  let verdict := classify comparison lowest.inf highest.sup threshold
  return ⟨competitor, verdict, lowest.inf, highest.sup⟩

def checkFull (b : Box) (label : Nat) (threshold : Binary64) :
    Checked (List DisjunctVerdict) := do
  let disjunction ← Disjunction.ofLabel b.dim label
  disjunction.competitors.zipIdx.mapM fun (competitor, i) => do
    let row ← disjunction.row i
    b.checkDisjunct disjunction.comparison threshold competitor row

end Box

/-- The outcome that a list of verdicts amounts to: the first competitor that
is ahead everywhere decides, else the undecided ones leave it open. -/
def aggregate (verdicts : List DisjunctVerdict) : Outcome :=
  match verdicts.find? fun v => v.verdict == .yes with
  | some hit => .notRobust hit.competitor
  | none =>
      let unsure := verdicts.filter fun v => v.verdict == .maybe
      if unsure.isEmpty then .robust
      else .unresolved (unsure.map DisjunctVerdict.competitor)

end BoxCert
