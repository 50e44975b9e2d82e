import BoxCert.Json.Token

/-!
# Reading JSON

Tokens are nested into a value by one pass with a stack of the arrays and
objects that are still open. The grammar is strict: one value, no comma before
a closing bracket, names only in front of colons. Nesting may be as deep as
the text is long.
-/

namespace BoxCert.Json

/-- An array or object that is still open, with its parts so far in
reverse. -/
inductive Frame where
  | items (done : List Json)
  | members (done : List (Option String × Json))
  /-- An object whose last name waits for its value. -/
  | pending (done : List (Option String × Json)) (name : Option String)

/-- What may come next. -/
inductive Expected where
  | value
  /-- A value, or the end of an array. -/
  | firstItem
  | name
  /-- A name, or the end of an object. -/
  | firstName
  | colon
  /-- What follows a finished value. -/
  | afterValue (value : Json)

/-- The value that a token alone makes. -/
def Token.value? : Token → Option Json
  | .null => some .null
  | .bool b => some (.bool b)
  | .number n => some (.number n)
  | .string s => some (.string s)
  | _ => none

/-- Nests tokens, given the open frames from the innermost outwards. -/
def nestFrom? : List Frame → Expected → List Token → Option Json
  | [], .afterValue v, [] => some v
  | _, _, [] => none
  | .items done :: outer, .afterValue v, .comma :: rest =>
      nestFrom? (.items (v :: done) :: outer) .value rest
  | .items done :: outer, .afterValue v, .closeArray :: rest =>
      nestFrom? outer (.afterValue (.array (v :: done).reverse)) rest
  | .pending done name :: outer, .afterValue v, .comma :: rest =>
      nestFrom? (.members ((name, v) :: done) :: outer) .name rest
  | .pending done name :: outer, .afterValue v, .closeObject :: rest =>
      nestFrom? outer (.afterValue (.object ((name, v) :: done).reverse)) rest
  | _, .afterValue _, _ => none
  | frames, .colon, .colon :: rest => nestFrom? frames .value rest
  | _, .colon, _ => none
  | .members _ :: outer, .firstName, .closeObject :: rest =>
      nestFrom? outer (.afterValue (.object [])) rest
  | .members done :: outer, .firstName, .string s :: rest =>
      nestFrom? (.pending done s :: outer) .colon rest
  | .members done :: outer, .name, .string s :: rest =>
      nestFrom? (.pending done s :: outer) .colon rest
  | _, .firstName, _ => none
  | _, .name, _ => none
  | .items _ :: outer, .firstItem, .closeArray :: rest =>
      nestFrom? outer (.afterValue (.array [])) rest
  | frames, _, .openArray :: rest =>
      nestFrom? (.items [] :: frames) .firstItem rest
  | frames, _, .openObject :: rest =>
      nestFrom? (.members [] :: frames) .firstName rest
  | frames, _, token :: rest =>
      match token.value? with
      | some v => nestFrom? frames (.afterValue v) rest
      | none => none

/-- Reads a text that is one JSON value. -/
def read? (text : List Char) : Option Json :=
  (Token.scan? text).bind (nestFrom? [] .value)

end BoxCert.Json
