import BoxCert.Fault
import BoxCert.Files.Path

/-!
# File systems

A file system is known by what its paths lead to. A store of files held in
memory is one: it has exactly the given files and the directories on the way
to them. A path is followed name by name from the working directory, through
directories only. Of what lies outside the working directory nothing is known
but that the directories above it exist. Names and paths have a greatest size,
and no path holds the zero byte, which would end it.
-/

namespace BoxCert

inductive FileEntry where
  | directory
  | file (bytes : List UInt8)
deriving DecidableEq, Repr

/-- The greatest size of a name, in bytes. -/
abbrev nameLimit : Nat := 255

/-- The greatest size of a path, in bytes. -/
abbrev pathLimit : Nat := 4095

def byteCount : List Char → Nat
  | [] => 0
  | c :: text => c.utf8Size + byteCount text

/-- A file system as seen by its readers. -/
abbrev FileView := Path → Except AccessFault FileEntry

/-- A place that is reached on the way along a path. -/
inductive FilePlace where
  | outside
  | inside (names : List (List Char))
deriving DecidableEq, Repr

namespace FilePlace

abbrev working : FilePlace := inside []

/-- The place that a name leads to, if it leads anywhere that is known. -/
def next? (place : FilePlace) (name : List Char) : Option FilePlace :=
  if name = [] ∨ name = Path.here then some place
  else if name = Path.upwards then
    match place with
    | inside (_ :: names) => some (inside names)
    | _ => some outside
  else
    match place with
    | inside names => some (inside (name :: names))
    | outside => none

/-- The places on the way along names, without the last one. -/
def passed (place : FilePlace) : List (List Char) → List FilePlace
  | [] | [_] => [place]
  | name :: names =>
      place :: (place.next? name).elim [] fun next => passed next names

end FilePlace

/-- Files held in memory, each at its place. -/
structure FileStore where
  /-- The files, the last one at a place being the one that counts. -/
  files : List (FilePlace × List UInt8)
  directories : List FilePlace
deriving DecidableEq, Repr

namespace FileStore

def ofFiles (files : List (String × List UInt8)) : FileStore where
  files := files.filterMap fun (name, bytes) =>
    ((Path.mk name).names.foldlM FilePlace.next? .working).map (·, bytes)
  directories := files.flatMap fun (name, _) =>
    FilePlace.working.passed (Path.mk name).names

def entry? (s : FileStore) (place : FilePlace) : Option FileEntry :=
  match s.files.reverse.lookup place with
  | some bytes => some (.file bytes)
  | none =>
      if place = .outside ∨ place = .working ∨ place ∈ s.directories then
        some .directory
      else none

/-- The place that a name leads to, which has to be looked for in a
directory. -/
def next? (s : FileStore) (place : FilePlace) (name : List Char) :
    Except AccessFault FilePlace :=
  match s.entry? place with
  | none => .error .missing
  | some (.file _) => .error .notADirectory
  | some .directory =>
      if nameLimit < byteCount name then .error .nameTooLong
      else
        match place.next? name with
        | none => .error .missing
        | some next => .ok next

/-- The file system that holds the files. -/
def view (s : FileStore) : FileView := fun path => do
  if path.text.toList.contains '\x00' then throw .zeroByte
  if path.text.isEmpty then throw .missing
  if pathLimit < byteCount path.text.toList then throw .nameTooLong
  let start := if path.isAbsolute then FilePlace.outside else .working
  let place ← path.names.foldlM s.next? start
  match s.entry? place with
  | none => throw .missing
  | some entry => return entry

end FileStore

end BoxCert
