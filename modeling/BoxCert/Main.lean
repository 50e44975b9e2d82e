import BoxCert.Command.Run

/-!
# The program

The outermost layer: it looks at the files that the command names, runs the
command on what it saw, measures how long that takes, and prints. Everything
else is decided by the library.
-/

namespace BoxCert

/-- The code with which a machine refuses to read a directory as a file. -/
abbrev directoryCode : UInt32 := 21

/-- The code with which a machine refuses a name that is too long. -/
abbrev longNameCode : UInt32 := 36

/-- What a path leads to on this machine. -/
def lookUp (path : Path) : IO (Except AccessFault FileEntry) := do
  try
    return .ok (.file (← IO.FS.readBinFile path.text).toList)
  catch
    | .inappropriateType _ code _ =>
        return if code = directoryCode then .ok .directory
          else .error .notADirectory
    | .invalidArgument _ code _ =>
        return if code = longNameCode then .error .nameTooLong
          else .error .missing
    | _ => return .error .missing

/-- The file system as far as the given paths lead. -/
def lookAround (paths : List Path) : IO FileView := do
  let entries ← paths.mapM fun path => return (path, ← lookUp path)
  return fun path => (entries.lookup path).getD (.error .missing)

def timed (view : FileView) (command : Command) :
    IO (Except CommandFault Completion) := do
  let start ← IO.monoNanosNow
  let result ← IO.lazyPure fun _ => command.run view
  let stop ← IO.monoNanosNow
  return result.map (· (TimeBudget.mk (stop - start)).seconds)

def ending (arguments : List String) : IO Ending :=
  match Command.ofArguments? arguments with
  | none => return .misused
  | some command => do
      match ← timed (← lookAround command.files) command with
      | .error fault => return .failed fault
      | .ok completion => return .completed completion

def usage : String :=
  textOfLines
    ["usage: iota verify MODEL PROPERTY [OPTIONS]",
      "       iota bounds MODEL PROPERTY [OPTIONS]",
      "       iota inspect MODEL [--json]"]

def Ending.print (e : Ending) : IO Unit := do
  IO.print e.output
  match e with
  | .misused => IO.eprint usage
  | .failed fault => IO.eprintln ("error: " ++ fault.message)
  | .completed _ => return

end BoxCert

def main (arguments : List String) : IO UInt32 := do
  let ending ← BoxCert.ending arguments
  ending.print
  return UInt32.ofNat ending.code
