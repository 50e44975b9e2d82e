import BoxCert.Command.Arguments
import BoxCert.Command.Budget
import BoxCert.Command.Output
import BoxCert.Model.Loading

/-!
# Running commands

A command runs through its stages in a fixed order, and the first one that
fails ends it without output. So a command that has printed anything has
succeeded, and its exit code tells whether a property was certified in time.

The time that a certification took is known only once it is done. It comes in
last and can change a run that has succeeded, but not make it fail.
-/

namespace BoxCert

/-- Why a command fails. -/
inductive CommandFault where
  /-- The budget is none. -/
  | timeout (seconds : Binary64) (cause : BudgetFault)
  | config (path : Path) (cause : Fault)
  | model (path : Path) (cause : Fault)
  | property (path : Path) (cause : Fault)
  /-- The model has no weights to show. -/
  | noWeights (path : Path)
  /-- A later stage fails. -/
  | stage (cause : Fault)
deriving Repr

def CommandFault.message : CommandFault → String
  | timeout seconds cause =>
      "Invalid timeout " ++ seconds.plainText ++ ": " ++ cause.message
  | config path cause =>
      "Failed to load config " ++ path.text ++ ": " ++ cause.message
  | model path cause =>
      "Failed to load model " ++ path.text ++ ": " ++ cause.message
  | property path cause =>
      "Failed to read property " ++ path.text ++ ": " ++ cause.message
  | noWeights path => "Model " ++ path.text ++ " has an empty weight matrix"
  | stage cause => cause.message

/-- What a command that succeeds leaves behind. -/
structure Completion where
  holds : Bool
  output : String
deriving DecidableEq, Repr

namespace RunArguments

/-- The settings that a run asks for: those in the file, or the usual ones,
with what the arguments put in their place. -/
def settings (run : RunArguments) (view : FileView)
    (mode : Option DecisionMode) : Except CommandFault Settings := do
  let base ← match run.config with
    | none => pure {}
    | some path => (view.loadSettings path).mapError (.config path)
  let precision ← match run.precision with
    | none => pure base.precision
    | some bits => (Precision.ofBits bits).mapError .stage
  let settings : Settings := {
    precision
    tolerance := run.tolerance <|> base.tolerance
    mode := mode.getD base.mode }
  settings.check.mapError .stage
  return settings

def loadModel (run : RunArguments) (view : FileView) :
    Except CommandFault Model :=
  (view.loadModel run.model).mapError (.model run.model)

/-- The property of a run, with the given label if there is one. -/
def loadProperty (run : RunArguments) (view : FileView) (label : Option Nat) :
    Except CommandFault Property :=
  (view.loadProperty run.property label).mapError (.property run.property)

def budget? (timeout : Option Binary64) :
    Except CommandFault (Option TimeBudget) :=
  timeout.mapM fun seconds =>
    (TimeBudget.ofSeconds seconds).mapError (.timeout seconds)

def layer (settings : Settings) (model : Model) : Except CommandFault Layer :=
  (settings.buildLayer model.weight model.bias model.order).mapError .stage

/-- Certifies the property of a run. The result waits for the time that it
took. -/
def verify (run : RunArguments) (view : FileView)
    (mode : Option DecisionMode) (timeout : Option Binary64) :
    Except CommandFault (Binary64 → Completion) := do
  let budget ← budget? timeout
  let settings ← run.settings view mode
  let model ← run.loadModel view
  let property ← run.loadProperty view run.label
  let layer ← layer settings model
  let finding ← (settings.certify layer property).mapError .stage
  return fun elapsed =>
    let report : Report := { finding with elapsed }
    let timedOut := budget.any (·.isUsedUp elapsed)
    { holds := finding.outcome.isRobust && !timedOut
      output :=
        if run.json then (report.document model timedOut).writeIndented ++ "\n"
        else report.text model timedOut }

/-- The label that stands in where the output box alone is asked for, which
does not depend on it. -/
abbrev anyLabel : Nat := 0

def bounds (run : RunArguments) (view : FileView) :
    Except CommandFault Completion := do
  let settings ← run.settings view none
  let model ← run.loadModel view
  let property ← run.loadProperty view (run.label.getD anyLabel)
  let layer ← layer settings model
  let box ← (settings.outputBox layer property).mapError .stage
  return {
    holds := true
    output :=
      if run.json then box.document.writeIndented ++ "\n" else box.text }

end RunArguments

def Path.inspect (path : Path) (view : FileView) (json : Bool) :
    Except CommandFault Completion := do
  let model ← (view.loadModel path).mapError (.model path)
  if model.weight.cells.isEmpty then throw (.noWeights path)
  return {
    holds := true
    output :=
      if json then model.document.writeIndented ++ "\n" else model.text }

namespace Command

abbrev versionText : String := "iota 0.1.0"

/-- Runs a command. The result waits for the time that a certification
took. -/
def run (view : FileView) :
    Command → Except CommandFault (Binary64 → Completion)
  | version => return fun _ => ⟨true, versionText ++ "\n"⟩
  | verify run mode timeout => run.verify view mode timeout
  | bounds run => do
      let completion ← run.bounds view
      return fun _ => completion
  | inspect model json => do
      let completion ← model.inspect view json
      return fun _ => completion

end Command

/-- How the program ends. -/
inductive Ending where
  | misused
  | failed (fault : CommandFault)
  | completed (completion : Completion)
deriving Repr

namespace Ending

/-- The exit code: zero if what was asked for holds, one if it does not, and
two if that could not be found out. -/
def code : Ending → Nat
  | completed completion => if completion.holds then 0 else 1
  | misused | failed _ => 2

def output : Ending → String
  | completed completion => completion.output
  | misused | failed _ => ""

/-- The ending of a program that is run with some arguments on a file system,
where a certification takes so many seconds. -/
def ofArguments (arguments : List String) (view : FileView)
    (elapsed : Binary64) : Ending :=
  match Command.ofArguments? arguments with
  | none => misused
  | some command =>
      match command.run view with
      | .error fault => failed fault
      | .ok result => completed (result elapsed)

end Ending

end BoxCert
