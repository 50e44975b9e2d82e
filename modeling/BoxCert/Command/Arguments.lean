import BoxCert.Files.Path
import BoxCert.Settings

/-!
# Command lines

The first argument names a command, perhaps after a request for more log
output. What follows are paths, switches, and options with a value, in any
order. The value of an option follows an equals sign, or stands in the next
argument unless that looks like an option itself. After two dashes all
arguments are paths.

Which switches and options there are is the grammar of the command. None but
the request for more log output may be repeated, and every value has to be
readable; otherwise the command line is no command.
-/

namespace BoxCert

/-- What may follow the name of a command. -/
structure Grammar where
  options : List String
  switches : List String
deriving DecidableEq, Repr

inductive Argument where
  | path (text : String)
  | switch (name : String)
  | option (name value : String)
deriving DecidableEq, Repr

/-- The letter that asks for more log output, any number of times. -/
abbrev verboseLetter : Char := 'v'

abbrev verboseName : String := "verbose"

/-- Whether an argument can be a value, as it does not look like an option. -/
def canBeValue (text : String) : Bool :=
  match text.toList with
  | '-' :: _ :: _ => false
  | _ => true

/-- The parts of a command line, if all of them fit the grammar. -/
def Argument.scan (g : Grammar) : List String → Option (List Argument)
  | [] => some []
  | text :: rest =>
      match text.toList with
      | ['-', '-'] => some (rest.map path)
      | '-' :: '-' :: body =>
          let name := String.ofList (body.takeWhile (· != '='))
          match body.dropWhile (· != '=') with
          | _ :: value =>
              if g.options.contains name then
                (scan g rest).map (option name (String.ofList value) :: ·)
              else none
          | [] =>
              if g.switches.contains name then
                (scan g rest).map (switch name :: ·)
              else if g.options.contains name then
                match rest with
                | [] => none
                | value :: rest =>
                    if canBeValue value then
                      (scan g rest).map (option name value :: ·)
                    else none
              else none
      | '-' :: letter :: letters =>
          if (letter :: letters).all (· == verboseLetter) then scan g rest
          else none
      | _ => (scan g rest).map (path text :: ·)

/-! ### Values -/

/-- A path that is given as an argument, which may not be empty. -/
def Path.ofArgument? (text : String) : Option Path :=
  if text.isEmpty then none else some ⟨text⟩

/-- The bits of a precision: a number of 32 bits. Zero may have a minus
sign. -/
def bitsOfArgument? (text : String) : Option Nat :=
  match text.toList with
  | '-' :: digits =>
      if digits.head?.any Char.isDigit then Numeral.count? 0 digits else none
  | count => Numeral.count? (2 ^ 32 - 1) count

def realOfArgument? (text : String) : Option Binary64 :=
  Numeral.real? text.toList

def labelOfArgument? (text : String) : Option Nat :=
  Numeral.index? text.toList

def modeOfArgument? (text : String) : Option DecisionMode :=
  (DecisionMode.ofName text).toOption

/-! ### Commands -/

/-- What a run is given. -/
structure RunArguments where
  model : Path
  property : Path
  /-- The bits of the precision, in place of the one in the settings. -/
  precision : Option Nat
  /-- The tolerance, in place of the one in the settings. -/
  tolerance : Option Binary64
  /-- The label, in place of the one that goes with the property file. -/
  label : Option Nat
  config : Option Path
  json : Bool
deriving DecidableEq, Repr

/-- A command. -/
inductive Command where
  | version
  | verify (run : RunArguments) (mode : Option DecisionMode)
      (timeout : Option Binary64)
  | bounds (run : RunArguments)
  | inspect (model : Path) (json : Bool)
deriving DecidableEq, Repr

/-- The value of an option, which may be absent but not repeated. -/
def optionValue? {α : Type} (arguments : List Argument) (name : String)
    (read : String → Option α) : Option (Option α) :=
  let values := arguments.filterMap fun
    | .option n value => if n = name then some value else none
    | _ => none
  match values with
  | [] => some none
  | [value] => (read value).map some
  | _ => none

/-- Whether a switch is set, which may not be repeated. -/
def isSet? (arguments : List Argument) (name : String) : Option Bool :=
  match arguments.count (.switch name) with
  | 0 => some false
  | 1 => some true
  | _ => none

def pathsOf? (arguments : List Argument) : Option (List Path) :=
  (arguments.filterMap fun
    | .path text => some text
    | _ => none).mapM Path.ofArgument?

def RunArguments.options : List String :=
  ["precision", "tolerance", "label", "config"]

def commonSwitches : List String := ["json", verboseName]

def RunArguments.ofArguments? (arguments : List Argument) :
    Option RunArguments := do
  let [model, property] ← pathsOf? arguments | none
  return {
    model, property
    precision := ← optionValue? arguments "precision" bitsOfArgument?
    tolerance := ← optionValue? arguments "tolerance" realOfArgument?
    label := ← optionValue? arguments "label" labelOfArgument?
    config := ← optionValue? arguments "config" Path.ofArgument?
    json := ← isSet? arguments "json" }

namespace Command

def ofName? (name : String) (rest : List String) : Option Command :=
  match name with
  | "verify" => do
      let arguments ← Argument.scan
        ⟨RunArguments.options ++ ["mode", "timeout"], commonSwitches⟩ rest
      return verify (← RunArguments.ofArguments? arguments)
        (← optionValue? arguments "mode" modeOfArgument?)
        (← optionValue? arguments "timeout" realOfArgument?)
  | "bounds" => do
      let arguments ←
        Argument.scan ⟨RunArguments.options, commonSwitches⟩ rest
      return bounds (← RunArguments.ofArguments? arguments)
  | "inspect" => do
      let arguments ← Argument.scan ⟨[], commonSwitches⟩ rest
      let [model] ← pathsOf? arguments | none
      return inspect model (← isSet? arguments "json")
  | _ => none

/-- The command that a command line stands for. Help is not modelled: a command
line that asks for it, by `-h`, `--help` or `help`, before or after the name of
a command, would print a usage text and exit with zero, but stands for no
command here and so counts as misused. -/
def ofArguments? : List String → Option Command
  | [] => none
  | text :: rest =>
      match text.toList with
      | '-' :: '-' :: name =>
          if String.ofList name = verboseName then ofArguments? rest
          else if String.ofList name = "version" then some version
          else none
      | '-' :: letter :: letters =>
          match (letter :: letters).dropWhile (· == verboseLetter) with
          | [] => ofArguments? rest
          | 'V' :: _ => some version
          | _ => none
      | _ => ofName? text rest

def files : Command → List Path
  | version => []
  | verify run _ _ | bounds run =>
      [run.model, run.property] ++ run.config.toList
  | inspect model _ => [model]

end Command

end BoxCert
