import BoxCert.Decision.Check
import BoxCert.Property.Basic
import BoxCert.Settings

/-!
# Certifying a property

A run widens the input box of a property by the tolerance, pushes it through
a layer and decides the property on the output box. Where the decision is
left open, a refiner is asked once; it is handed everything the run knows and
its answer is final.

A refiner may have effects of its own, so the run is written over any monad.
With `keep`, the refiner that hands back what it was given, the run is pure.
-/

namespace BoxCert

/-- What settled the outcome of a run. -/
inductive DecidedBy where
  | simple
  | full
  | refinement
deriving DecidableEq, Repr

/-- What a run knows when it asks a refiner. -/
structure Request where
  layer : Layer
  input : Box
  label : Nat
  verdicts : List DisjunctVerdict
  outcome : Outcome

/-- Answers runs that are left open. -/
abbrev Refiner (m : Type → Type) := Request → m Outcome

def Refiner.keep : Refiner Id := fun request => request.outcome

/-- An outcome with the verdicts behind it. -/
structure Decision where
  outcome : Outcome
  /-- The verdicts of the full check, or none if it did not run. -/
  verdicts : List DisjunctVerdict
  decidedBy : DecidedBy
deriving DecidableEq, Repr

/-- The decision after a refiner has answered. It counts as the refiner's own
only if the answer is a new one. -/
def Decision.refined (d : Decision) (answer : Outcome) :
    Decision :=
  { d with
    outcome := answer
    decidedBy := if answer = d.outcome then d.decidedBy else .refinement }

/-- What a run finds. -/
structure Finding where
  outcome : Outcome
  label : Nat
  verdicts : List DisjunctVerdict
  outputLower : List Binary64
  outputUpper : List Binary64
  decidedBy : DecidedBy
  tolerance : Binary64
deriving DecidableEq, Repr

/-- A finding with the time that it took, in seconds. -/
structure Report extends Finding where
  elapsed : Binary64
deriving DecidableEq, Repr

namespace Box

def decideFull (output : Box) (label : Nat) (tolerance : Binary64) :
    Checked Decision := do
  let verdicts ← output.checkFull label tolerance
  return ⟨aggregate verdicts, verdicts, .full⟩

def decide (output : Box) (mode : DecisionMode) (label : Nat)
    (tolerance : Binary64) : Checked Decision :=
  match mode with
  | .simple => do return ⟨← output.checkSimple label, [], .simple⟩
  | .full => output.decideFull label tolerance
  | .auto => do
      let simple ← output.checkSimple label
      if simple.isDecided then return ⟨simple, [], .simple⟩
      else output.decideFull label tolerance

end Box

namespace Settings

def buildLayer (s : Settings) (weight : Grid Binary64) (bias : List Binary64)
    (order : StorageOrder := .byRow) : Checked Layer := do
  s.check
  Layer.build weight bias s.effectiveTolerance order

/-- The input box of a property, widened by the tolerance, for runs that have
checked the tolerance and for builds without assertions. -/
def inputBox (s : Settings) (property : Property) : Checked Box :=
  Box.ofPoints property.lower property.upper s.effectiveTolerance

def outputBox (s : Settings) (layer : Layer) (property : Property) :
    Checked Box := do
  layer.propagate (← s.inputBox property)

/-- The input box of a property on its own, as a build makes it. No one has
checked the tolerance here, unlike in a run. -/
def inputBoxIn (s : Settings) (build : Build) (property : Property) :
    Option (Checked Box) :=
  Box.ofPointsIn build property.lower property.upper s.effectiveTolerance

def outputBoxIn (s : Settings) (build : Build) (layer : Layer)
    (property : Property) : Option (Checked Box) := do
  return (← s.inputBoxIn build property) >>= layer.propagate

/-- The input box and the decision on the output box, before any
refinement. -/
def survey (s : Settings) (layer : Layer) (property : Property) :
    Checked (Box × Box × Decision) := do
  s.check
  checkLabel layer.outputs property.label
  let input ← s.inputBox property
  let output ← layer.propagate input
  let decision ← output.decide s.mode property.label s.effectiveTolerance
  return (input, output, decision)

/-- Certifies a property, asking the refiner where the checks leave it
open. -/
def certifyWith {m : Type → Type} [Monad m] (refiner : Refiner m)
    (s : Settings) (layer : Layer) (property : Property) :
    m (Checked Finding) := do
  match s.survey layer property with
  | .error fault => return .error fault
  | .ok (input, output, decision) =>
      let final ←
        -- A settled outcome is never put to the refiner.
        if decision.outcome.isDecided then pure decision
        else decision.refined <$> refiner {
          layer, input, label := property.label
          verdicts := decision.verdicts, outcome := decision.outcome }
      return .ok {
        outcome := final.outcome
        label := property.label
        verdicts := final.verdicts
        outputLower := output.lowerEnds
        outputUpper := output.upperEnds
        decidedBy := final.decidedBy
        tolerance := s.effectiveTolerance }

/-- Certifies a property by the checks alone. -/
def certify (s : Settings) (layer : Layer) (property : Property) :
    Checked Finding :=
  certifyWith Refiner.keep s layer property

end Settings

end BoxCert
