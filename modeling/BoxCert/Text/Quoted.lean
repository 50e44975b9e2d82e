import BoxCert.Text.Concealed

/-!
# Quoted text

Names and words appear in messages between double quotes, so that blanks and
controls in them can be seen. A quote, a backslash and the common controls get
a backslash and a letter; everything else that would not show is written as
its code point in braces.
-/

namespace BoxCert.Text

/-- The code point in hexadecimal between braces. -/
def codePoint (c : Char) : List Char :=
  ['\\', 'u', '\x7b'] ++ Nat.toDigits 16 c.toNat ++ ['\x7d']

/-- A character as it stands between quotes. -/
def quotedChar (c : Char) : List Char :=
  match c with
  | '\x00' => ['\\', '0']
  | '\t' => ['\\', 't']
  | '\r' => ['\\', 'r']
  | '\n' => ['\\', 'n']
  | '"' => ['\\', '"']
  | '\\' => ['\\', '\\']
  | _ => if c.toNat < 32 || isConcealed c then codePoint c else [c]

def quoted (text : List Char) : String :=
  String.ofList ('"' :: text.flatMap quotedChar ++ ['"'])

def bracketed (items : List String) : String :=
  "[" ++ ", ".intercalate items ++ "]"

def bracketedNats (items : List Nat) : String :=
  bracketed (items.map toString)

end BoxCert.Text
