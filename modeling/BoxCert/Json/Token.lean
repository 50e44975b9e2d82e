import BoxCert.Json.Value

/-!
# JSON tokens

The words of JSON are its brackets, commas and colons, strings, and runs of
the characters that numbers and the three literals are made of. A run is taken
as long as possible and then has to spell something, which loses nothing: in
JSON no two such words can stand together.
-/

namespace BoxCert.Json

/-- A token of JSON. -/
inductive Token where
  | openArray
  | closeArray
  | openObject
  | closeObject
  | comma
  | colon
  | null
  | bool (value : Bool)
  | number (value : Number)
  | string (text : Option String)
deriving DecidableEq, Repr

namespace Token

/-! ### Strings -/

def hexValue? (c : Char) : Option Nat :=
  if c.isDigit then some (c.toNat - '0'.toNat)
  else if 'a' ≤ c && c ≤ 'f' then some (c.toNat - 'a'.toNat + 10)
  else if 'A' ≤ c && c ≤ 'F' then some (c.toNat - 'A'.toNat + 10)
  else none

def hexCode? (a b c d : Char) : Option Nat := do
  return ((← hexValue? a) * 16 + (← hexValue? b)) * 256 +
    (← hexValue? c) * 16 + (← hexValue? d)

/-- The code that a backslash and one letter stand for. -/
def letterCode? : Char → Option Nat
  | '"' => some 0x22
  | '\\' => some 0x5C
  | '/' => some 0x2F
  | 'b' => some 0x08
  | 'f' => some 0x0C
  | 'n' => some 0x0A
  | 'r' => some 0x0D
  | 't' => some 0x09
  | _ => none

/-- Reads a string behind its opening quote. Gives the codes of its content,
in which an escape may be half of a surrogate pair, and the text behind the
closing quote. -/
def stringCodes? : List Char → Option (List Nat × List Char)
  | [] => none
  | '"' :: rest => some ([], rest)
  | '\\' :: 'u' :: a :: b :: c :: d :: rest => do
      let code ← hexCode? a b c d
      let (codes, rest) ← stringCodes? rest
      return (code :: codes, rest)
  | '\\' :: letter :: rest => do
      let code ← letterCode? letter
      let (codes, rest) ← stringCodes? rest
      return (code :: codes, rest)
  | c :: rest =>
      if c.toNat < 32 || c = '\\' then none
      else do
        let (codes, rest) ← stringCodes? rest
        return (c.toNat :: codes, rest)

theorem length_lt_of_stringCodes? {cs rest : List Char} {codes : List Nat}
    (h : stringCodes? cs = some (codes, rest)) : rest.length < cs.length := by
  fun_induction stringCodes? cs generalizing codes rest with
  | case1 => simp at h
  | case2 r => simp_all
  | case3 a b c d r ih =>
      simp only [Option.bind_eq_bind, Option.bind_eq_some_iff] at h
      obtain ⟨_, _, ⟨more, left⟩, hr, he⟩ := h
      have := ih hr
      simp_all only [Option.pure_def, Option.some.injEq, Prod.mk.injEq,
        List.length_cons]
      omega
  | case4 l r _ ih =>
      simp only [Option.bind_eq_bind, Option.bind_eq_some_iff] at h
      obtain ⟨_, _, ⟨more, left⟩, hr, he⟩ := h
      have := ih hr
      simp_all only [Option.pure_def, Option.some.injEq, Prod.mk.injEq,
        List.length_cons]
      omega
  | case5 => simp at h
  | case6 c r _ _ _ _ ih =>
      simp only [Option.bind_eq_bind, Option.bind_eq_some_iff] at h
      obtain ⟨⟨more, left⟩, hr, he⟩ := h
      have := ih hr
      simp_all only [Option.pure_def, Option.some.injEq, Prod.mk.injEq,
        List.length_cons]
      omega

/-- The characters that a list of codes stands for. Two halves of a surrogate
pair make one character, and a half alone makes none. -/
def charsOfCodes? : List Nat → Option (List Char)
  | [] => some []
  | [code] => if code.isValidChar then some [Char.ofNat code] else none
  | code :: next :: rest =>
      if code.isValidChar then
        (charsOfCodes? (next :: rest)).map (Char.ofNat code :: ·)
      else if code < 0xDC00 && 0xDC00 ≤ next && next < 0xE000 then
        let whole := 0x10000 + (code - 0xD800) * 0x400 + (next - 0xDC00)
        (charsOfCodes? rest).map (Char.ofNat whole :: ·)
      else none

/-! ### Scanning -/

/-- Whether a character separates tokens without being one. -/
def isGap (c : Char) : Bool :=
  c == ' ' || c == '\t' || c == '\n' || c == '\r'

/-- Whether a character can be part of a number or a literal. -/
def isRun (c : Char) : Bool :=
  c.isAlphanum || c == '-' || c == '+' || c == '.'

/-- The token that a run of characters spells. -/
def ofRun? (run : List Char) : Option Token :=
  match String.ofList run with
  | "null" => some null
  | "true" => some (bool true)
  | "false" => some (bool false)
  | _ => (Number.read? run).map number

def ofMark? : Char → Option Token
  | '[' => some openArray
  | ']' => some closeArray
  | '\x7b' => some openObject
  | '\x7d' => some closeObject
  | ',' => some comma
  | ':' => some colon
  | _ => none

def scan? : List Char → Option (List Token)
  | [] => some []
  | c :: rest =>
      if isGap c then scan? rest
      else if c = '"' then
        match h : stringCodes? rest with
        | none => none
        | some (codes, left) =>
            have := length_lt_of_stringCodes? h
            (scan? left).map
              (string ((charsOfCodes? codes).map String.ofList) :: ·)
      else if isRun c then
        have := (List.dropWhile_suffix isRun (l := rest)).length_le
        match ofRun? (c :: rest.takeWhile isRun) with
        | none => none
        | some token => (scan? (rest.dropWhile isRun)).map (token :: ·)
      else
        match ofMark? c with
        | none => none
        | some token => (scan? rest).map (token :: ·)
termination_by text => text.length
decreasing_by all_goals simp_all <;> omega

end Token

end BoxCert.Json
