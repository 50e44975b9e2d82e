import BoxCert.Json.Number

/-!
# JSON values

A value is kept as it stands in the text: numbers as they are spelled, members
in their order, repeated names and all. A string whose escapes leave half of a
surrogate pair alone has no text; such a string may be skipped but not used,
so its place is kept and its content is not.
-/

namespace BoxCert

/-- A JSON value. -/
inductive Json where
  | null
  | bool (value : Bool)
  | number (value : Json.Number)
  /-- A string, if its content is a text. -/
  | string (text : Option String)
  | array (items : List Json)
  | object (members : List (Option String × Json))
deriving Repr

namespace Json

def text (s : String) : Json := string (some s)

def nat (n : Nat) : Json := number (Number.ofNat n)

/-- A float; one that is not finite is a null. -/
def float (x : Binary64) : Json := (Number.ofFloat? x).elim null number

def floats (xs : List Binary64) : Json := array (xs.map float)

def record (members : List (String × Json)) : Json :=
  object (members.map fun m => (some m.1, m.2))

mutual

/-- How deeply arrays and objects are nested. -/
def depth : Json → Nat
  | array items => depthOfItems items + 1
  | object members => depthOfMembers members + 1
  | _ => 0

def depthOfItems : List Json → Nat
  | [] => 0
  | item :: rest => max (depth item) (depthOfItems rest)

def depthOfMembers : List (Option String × Json) → Nat
  | [] => 0
  | (_, value) :: rest => max (depth value) (depthOfMembers rest)

end

mutual

/-- Whether every string is a text and every number has a value. -/
def isSound : Json → Bool
  | number n => n.toFloat?.isSome
  | string s => s.isSome
  | array items => areSound items
  | object members => membersAreSound members
  | _ => true

def areSound : List Json → Bool
  | [] => true
  | item :: rest => isSound item && areSound rest

def membersAreSound : List (Option String × Json) → Bool
  | [] => true
  | (name, value) :: rest =>
      name.isSome && isSound value && membersAreSound rest

end

end Json

end BoxCert
