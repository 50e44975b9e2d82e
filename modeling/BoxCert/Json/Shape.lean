import BoxCert.Json.Value

/-!
# Taking values apart

A record is an object with named fields, or an array of the same fields in
their order. In the object the fields may stand in any order and among others,
which are skipped whatever they hold; no known field may stand there twice. A
name out of a fixed list is a string, or an object whose one member has that
name and holds nothing.
-/

namespace BoxCert.Json

/-- Takes a value apart, if it has the right shape. -/
abbrev Decoder (α : Type) := Json → Option α

/-- The value of the only member of the given name: `some none` if there is no
such member, and nothing at all if there are several. -/
def onlyMember? (members : List (Option String × Json)) (name : String) :
    Option (Option Json) :=
  match members.filter (·.1 == some name) with
  | [] => some none
  | [member] => some (some member.2)
  | _ => none

/-- The values of the named fields of a record, where they are given. -/
def fields? (names : List String) : Json → Option (List (Option Json))
  | array items =>
      if items.length ≤ names.length then
        some ((List.range names.length).map fun i => items[i]?)
      else none
  | object members =>
      if members.any (·.1.isNone) then none
      else names.mapM (onlyMember? members)
  | _ => none

def required {α : Type} (decode : Decoder α) (field : Option Json) : Option α :=
  field.bind decode

def defaulting {α : Type} (decode : Decoder α) (default : α)
    (field : Option Json) : Option α :=
  field.elim (some default) decode

/-- A value that may be null. -/
def nullable {α : Type} (decode : Decoder α) : Decoder (Option α)
  | null => some none
  | j => (decode j).map some

/-- One of several names. -/
def choice? {α : Type} (options : List (String × α)) : Decoder α
  | string (some name) => options.lookup name
  | object [(some name, null)] => options.lookup name
  | _ => none

def toText? : Decoder String
  | string s => s
  | _ => none

/-- A natural number of at most `bound`. -/
def toNatUpTo? (bound : Nat) : Decoder Nat
  | number n => n.toNat? bound
  | _ => none

def toIndex? : Decoder Nat := toNatUpTo? Numeral.indexBound

def toFloat? : Decoder Binary64
  | number n => n.toFloat?
  | _ => none

def toList? {α : Type} (decode : Decoder α) : Decoder (List α)
  | array items => items.mapM decode
  | _ => none

end BoxCert.Json
