import BoxCert.Number.Binary64
import BoxCert.Text.Quoted

/-!
# Verdicts and outcomes

A verdict answers one disjunct of a negated property: can this competitor
catch up with the label somewhere in the box? An outcome answers the whole
property.
-/

namespace BoxCert

/-- The answer to one disjunct. -/
inductive Verdict where
  /-- The competitor is ahead everywhere. -/
  | yes
  /-- The competitor is ahead nowhere. -/
  | no
  /-- The bounds do not tell. -/
  | maybe
deriving DecidableEq, Repr

def Verdict.text : Verdict → String
  | yes => "yes"
  | no => "no"
  | maybe => "maybe"

/-- The verdict on one competitor, with the bounds it rests on. -/
structure DisjunctVerdict where
  competitor : Nat
  verdict : Verdict
  /-- A lower bound of the label's lead. -/
  lower : Binary64
  /-- An upper bound of the label's lead. -/
  upper : Binary64
deriving DecidableEq, Repr

/-- The answer to a property. -/
inductive Outcome where
  /-- The label keeps its lead on the whole box. -/
  | robust
  /-- A competitor is ahead on the whole box. -/
  | notRobust (competitor : Nat)
  /-- Some competitors are undecided. -/
  | unresolved (undecided : List Nat)
deriving DecidableEq, Repr

namespace Outcome

def isRobust : Outcome → Bool
  | robust => true
  | _ => false

def isDecided : Outcome → Bool
  | unresolved _ => false
  | _ => true

def text : Outcome → String
  | robust => "robust"
  | notRobust competitor =>
      "not robust (class " ++ toString competitor ++ " dominates)"
  | unresolved undecided =>
      "unresolved (undecided classes: " ++ Text.bracketedNats undecided ++ ")"

end Outcome

end BoxCert
