import BoxCert.Text.Blank
import BoxCert.Text.Quoted

/-!
# Forms

Property files are written in parenthesised forms. Reading one goes through
two lists: the tokens, which are the parentheses and the words between them,
and the forms, which are the tokens with their nesting. White space and
comments, from a semicolon to the end of the line, only separate words.

Flattening the forms gives back the tokens: that is what the nesting loses
and invents, namely nothing.
-/

namespace BoxCert

/-- A token of a property file. -/
inductive Token where
  | opening
  | closing
  | word (text : List Char)
deriving DecidableEq, Repr

/-- A word, or a parenthesised list of forms. -/
inductive Form where
  | atom (text : List Char)
  | list (items : List Form)
deriving Repr

namespace Token

/-- The token of a finished word, whose characters were gathered in reverse;
no characters make no token. -/
def ofWord : List Char → List Token
  | [] => []
  | gathered => [word gathered.reverse]

/-- Scans text inside or outside a comment, with the characters of the word
under way in reverse. -/
def scanFrom : Bool → List Char → List Char → List Token
  | _, gathered, [] => ofWord gathered
  | true, gathered, c :: rest => scanFrom (c != '\n') gathered rest
  | false, gathered, c :: rest =>
      if c = '(' then ofWord gathered ++ opening :: scanFrom false [] rest
      else if c = ')' then ofWord gathered ++ closing :: scanFrom false [] rest
      else if c = ';' then ofWord gathered ++ scanFrom true [] rest
      else if Text.isBlank c then ofWord gathered ++ scanFrom false [] rest
      else scanFrom false (c :: gathered) rest

/-- The end of the text ends the word under way. -/
theorem scanFrom_nil (comment : Bool) (gathered : List Char) :
    scanFrom comment gathered [] = ofWord gathered := by
  rw [scanFrom]

def scan (text : List Char) : List Token := scanFrom false [] text

end Token

namespace Form

/-- How the parentheses of a text may fail to match. -/
inductive Imbalance where
  /-- A right parenthesis closes nothing. -/
  | unopened
  /-- A left parenthesis is never closed. -/
  | unclosed
deriving DecidableEq, Repr

/-- Nests tokens. The lists that are still open stand innermost first, each
with its forms so far in reverse. -/
def nestFrom : List (List Form) → List Form → List Token →
    Except Imbalance (List Form)
  | [], done, [] => .ok done.reverse
  | _ :: _, _, [] => .error .unclosed
  | outer, done, .opening :: rest => nestFrom (done :: outer) [] rest
  | [], _, .closing :: _ => .error .unopened
  | parent :: outer, done, .closing :: rest =>
      nestFrom outer (list done.reverse :: parent) rest
  | outer, done, .word text :: rest => nestFrom outer (atom text :: done) rest

def nest (tokens : List Token) : Except Imbalance (List Form) :=
  nestFrom [] [] tokens

def read (text : List Char) : Except Imbalance (List Form) :=
  nest (Token.scan text)

mutual

def flatten : Form → List Token
  | atom text => [.word text]
  | list items => .opening :: flattenAll items ++ [.closing]

def flattenAll : List Form → List Token
  | [] => []
  | form :: rest => flatten form ++ flattenAll rest

end

def word? : Form → Option (List Char)
  | atom text => some text
  | list _ => none

/-- The operator and the arguments of a list that starts with a word. -/
def call? : Form → Option (List Char × List Form)
  | list (atom operator :: arguments) => some (operator, arguments)
  | _ => none

mutual

/-- The form with its nesting spelled out, as messages show it. -/
def outline : Form → String
  | atom text => "Atom(" ++ Text.quoted text ++ ")"
  | list items => "List(" ++ Text.bracketed (outlineAll items) ++ ")"

def outlineAll : List Form → List String
  | [] => []
  | form :: rest => outline form :: outlineAll rest

end

end Form

end BoxCert
