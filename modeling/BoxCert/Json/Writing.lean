import BoxCert.Json.Value

/-!
# Writing JSON

Two layouts of one text: compact, without any space, and indented, with every
item and member on a line of its own, two spaces deeper than what it belongs
to. In strings the quote, the backslash and the controls are escaped, and
nothing else.
-/

namespace BoxCert.Json

/-- A character inside a string. -/
def charText (c : Char) : List Char :=
  match c with
  | '"' => ['\\', '"']
  | '\\' => ['\\', '\\']
  | '\x08' => ['\\', 'b']
  | '\x0c' => ['\\', 'f']
  | '\n' => ['\\', 'n']
  | '\r' => ['\\', 'r']
  | '\t' => ['\\', 't']
  | _ =>
      if c.toNat < 32 then
        ['\\', 'u', '0', '0', if c.toNat < 16 then '0' else '1'] ++
          Nat.toDigits 16 (c.toNat % 16)
      else [c]

def stringText (s : String) : List Char :=
  '"' :: s.toList.flatMap charText ++ ['"']

/-- A value without parts. A string that is no text is written as the empty
one. -/
def scalarText : Json → List Char
  | null => "null".toList
  | bool true => "true".toList
  | bool false => "false".toList
  | number n => n.text
  | string s => stringText (s.getD "")
  | array _ => ['[', ']']
  | object _ => ['\x7b', '\x7d']

mutual

/-- The compact text of a value. -/
def compact : Json → List Char
  | array items => '[' :: compactItems items ++ [']']
  | object members => '\x7b' :: compactMembers members ++ ['\x7d']
  | scalar => scalarText scalar

/-- The compact texts of several items, with commas between them. -/
def compactItems : List Json → List Char
  | [] => []
  | [item] => compact item
  | item :: rest => compact item ++ ',' :: compactItems rest

def compactMembers : List (Option String × Json) → List Char
  | [] => []
  | [(name, value)] => stringText (name.getD "") ++ ':' :: compact value
  | (name, value) :: rest =>
      stringText (name.getD "") ++ ':' :: compact value ++
        ',' :: compactMembers rest

end

/-- The start of a line at the given depth. -/
def lineStart (depth : Nat) : List Char :=
  '\n' :: List.replicate (2 * depth) ' '

mutual

def indented (depth : Nat) : Json → List Char
  | array [] => ['[', ']']
  | array items =>
      '[' :: indentedItems (depth + 1) items ++ lineStart depth ++ [']']
  | object [] => ['\x7b', '\x7d']
  | object members =>
      '\x7b' :: indentedMembers (depth + 1) members ++ lineStart depth ++
        ['\x7d']
  | scalar => scalarText scalar

def indentedItems (depth : Nat) : List Json → List Char
  | [] => []
  | [item] => lineStart depth ++ indented depth item
  | item :: rest =>
      lineStart depth ++ indented depth item ++ ',' :: indentedItems depth rest

def indentedMembers (depth : Nat) :
    List (Option String × Json) → List Char
  | [] => []
  | [(name, value)] =>
      lineStart depth ++ stringText (name.getD "") ++ ':' :: ' ' ::
        indented depth value
  | (name, value) :: rest =>
      lineStart depth ++ stringText (name.getD "") ++ ':' :: ' ' ::
        indented depth value ++ ',' :: indentedMembers depth rest

end

def write (j : Json) : String := String.ofList j.compact

def writeIndented (j : Json) : String := String.ofList (j.indented 0)

end BoxCert.Json
