import BoxCert.Layer

/-!
# Settings

What a run can be told: the precision the network was trained in, which fixes
a tolerance on all parameters and bounds, a tolerance that overrides it, and
which of the checks to use.
-/

namespace BoxCert

/-- The precision that the parameters of a network carry. -/
inductive Precision where
  | single
  | double
deriving DecidableEq, Repr

namespace Precision

def name : Precision → String
  | single => "single"
  | double => "double"

def bits : Precision → Nat
  | single => 32
  | double => 64

def ofBits (bits : Nat) : Checked Precision :=
  if bits = 32 then .ok single
  else if bits = 64 then .ok double
  else .error (.invalidSpec (.precision bits))

/-- The tolerance that goes with a precision. -/
def defaultTolerance : Precision → Binary64
  | single => 1e-6
  | double => 1e-12

end Precision

/-- Which check decides. -/
inductive DecisionMode where
  | simple
  | full
  /-- The full check where the simple one leaves the property open. -/
  | auto
deriving DecidableEq, Repr

namespace DecisionMode

def name : DecisionMode → String
  | simple => "simple"
  | full => "full"
  | auto => "auto"

/-- The mode of a name, in upper or lower case. -/
def ofName (text : String) : Checked DecisionMode :=
  match String.ofList (text.toList.map Char.toLower) with
  | "simple" => .ok simple
  | "full" => .ok full
  | "auto" => .ok auto
  | other => .error (.invalidSpec (.mode other))

end DecisionMode

/-- The settings of a run. -/
structure Settings where
  precision : Precision := .single
  /-- A tolerance in place of the one that goes with the precision. -/
  tolerance : Option Binary64 := none
  mode : DecisionMode := .auto
deriving DecidableEq, Repr

namespace Settings

def effectiveTolerance (s : Settings) : Binary64 :=
  s.tolerance.getD s.precision.defaultTolerance

/-- Refuses settings whose tolerance is none. -/
def check (s : Settings) : Checked Unit :=
  if s.effectiveTolerance.isTolerance then .ok ()
  else .error (.invalidSpec (.tolerance s.effectiveTolerance))

end Settings

end BoxCert
