import BoxCert.Protobuf.Wire

/-!
# Messages as records

A message is read as a record by asking its fields for one tag at a time. A
tag that is asked for has a type, and every field that carries it has to hold
a value of that type, however often it stands and whether it counts or not.
Fields of other tags are ignored.

A record's single member is the last one written, or a default; a repeated
member is all of them in their order, and a repeated number may also stand
packed, many values in one payload. A member that is itself a message and
stands twice is one message whose fields were written in two parts.
-/

namespace BoxCert.Protobuf

/-- How many messages and groups may be nested. -/
abbrev nestingLimit : Nat := 100

/-- The integer whose two's complement in `bits` bits is the lowest bits of
`n`. -/
def wrapped (bits n : Nat) : Int := Int.bmod n (2 ^ bits)

namespace Payload

def text? : Payload → Option String
  | delimited bytes => String.fromUTF8? bytes.toByteArray
  | _ => none

def bytes? : Payload → Option (List UInt8)
  | delimited bytes => some bytes
  | _ => none

/-- An integer of 32 bits, of which a longer number gives the lowest. -/
def int32? : Payload → Option Int
  | varint n => some (wrapped 32 n)
  | _ => none

def int64? : Payload → Option Int
  | varint n => some (wrapped 64 n)
  | _ => none

def float32? : Payload → Option UInt32
  | fixed32 bits => some bits
  | _ => none

/-- A message that is nested at the given budget. -/
def message? (budget : Nat) : Payload → Option (List Field)
  | delimited bytes => fields? budget bytes
  | _ => none

def varints? (bytes : List UInt8) : Option (List Nat) :=
  if bytes = [] then some []
  else
    match h : varint? bytes with
    | none => none
    | some (n, rest) =>
        have := length_lt_of_varint? h
        (varints? rest).map (n :: ·)
termination_by bytes.length

/-- One integer of 64 bits, or several packed ones. -/
def int64s? : Payload → Option (List Int)
  | varint n => some [wrapped 64 n]
  | delimited bytes => (varints? bytes).map (List.map (wrapped 64))
  | _ => none

def float32s? : Payload → Option (List UInt32)
  | fixed32 bits => some [bits]
  | delimited bytes => words32? bytes
  | _ => none

def float64s? : Payload → Option (List UInt64)
  | fixed64 bits => some [bits]
  | delimited bytes => words64? bytes
  | _ => none

end Payload

/-- The values of all fields with a tag, in their order. -/
def members? {α : Type} (fields : List Field) (tag : Nat)
    (read : Payload → Option α) : Option (List α) :=
  (fields.filter (·.tag == tag)).mapM fun field => read field.payload

/-- The value of the last field with a tag, or else a default. -/
def memberOr? {α : Type} (fields : List Field) (tag : Nat) (default : α)
    (read : Payload → Option α) : Option α :=
  (members? fields tag read).map fun values => values.getLastD default

/-- The values of all fields with a tag, each of which may hold several. -/
def packedMembers? {α : Type} (fields : List Field) (tag : Nat)
    (read : Payload → Option (List α)) : Option (List α) :=
  (members? fields tag read).map List.flatten

/-- The records in all fields with a tag, which hold messages that are nested
at the given budget. -/
def messages? {α : Type} (budget : Nat) (fields : List Field) (tag : Nat)
    (read : List Field → Option α) : Option (List α) := do
  (← members? fields tag (Payload.message? budget)).mapM read

/-- The message in the fields with a tag, which are parts of it. -/
def part? (fields : List Field) (tag budget : Nat) :
    Option (Option (List Field)) :=
  (members? fields tag (Payload.message? budget)).map fun parts =>
    if parts.isEmpty then none else some parts.flatten

end BoxCert.Protobuf
