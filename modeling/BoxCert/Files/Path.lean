import BoxCert.Number.Numeral

/-!
# Paths and file names

A path is a text of names with slashes between them. Empty names and single
dots stay in place, so the file name is the last name besides those; two dots
lead upwards and are no file name.

A file name tells what is in the file. Its extension follows the last dot,
unless that dot comes first. A compressed file adds the extension `gz` to the
name of its content, and it is the name of the content that says what format
a file has and which label belongs to a property.
-/

namespace BoxCert

/-- The stretches of a text between its separators. -/
def segments (separator : Char) : List Char → List (List Char)
  | [] => [[]]
  | c :: rest =>
      if c = separator then [] :: segments separator rest
      else
        match segments separator rest with
        | [] => [[c]]
        | first :: others => (c :: first) :: others

/-- What stands before and after the last separator, if there is one. -/
def splitLast? (separator : Char) (text : List Char) :
    Option (List Char × List Char) :=
  let backwards := text.reverse
  match backwards.dropWhile (· != separator) with
  | [] => none
  | _ :: before =>
      some (before.reverse, (backwards.takeWhile (· != separator)).reverse)

/-- A text without an ending that it has. -/
def withoutEnding? (ending text : List Char) : Option (List Char) :=
  if ending <:+ text then some (text.take (text.length - ending.length))
  else none

/-- A text without an ending, however often it stands there. -/
def withoutEndings (ending text : List Char) : List Char :=
  match withoutEnding? ending text with
  | none => text
  | some shorter =>
      if shorter.length < text.length then withoutEndings ending shorter
      else text
termination_by text.length

structure Path where
  text : String
deriving DecidableEq, Repr

namespace Path

abbrev here : List Char := ['.']

abbrev upwards : List Char := ['.', '.']

/-- The names of the path, with those that stay in place. -/
def names (p : Path) : List (List Char) := segments '/' p.text.toList

/-- Whether the path does not start from the working directory. -/
def isAbsolute (p : Path) : Bool := p.text.toList.head? == some '/'

def fileName? (p : Path) : Option (List Char) :=
  (p.names.filter fun name => name ≠ [] ∧ name ≠ here).getLast?.filter
    (· ≠ upwards)

/-- A name without its extension, and the extension. -/
def splitExtension (name : List Char) : List Char × Option (List Char) :=
  match splitLast? '.' name with
  | some (c :: stem, extension) => (c :: stem, some extension)
  | _ => (name, none)

def stem? (p : Path) : Option (List Char) :=
  p.fileName?.map fun name => (splitExtension name).1

def extension? (p : Path) : Option (List Char) :=
  p.fileName?.bind fun name => (splitExtension name).2

def isCompressed (p : Path) : Bool := p.extension? == some "gz".toList

/-- The name of the content. -/
def contentName? (p : Path) : Option (List Char) :=
  if p.isCompressed then p.stem? else p.fileName?

/-- The extension of the name of the content, in lower case. -/
def contentExtension? (p : Path) : Option (List Char) :=
  (p.contentName?.bind fun name => (splitExtension name).2).map
    (List.map Char.toLower)

/-- The label that the name of a property file ends with: what follows the
last underscore, or else the whole name, if that is a number. -/
def label? (p : Path) : Option Nat := do
  let name ← p.contentName?
  let stem := (withoutEnding? ".vnnlib".toList name).getD name
  Numeral.index? ((splitLast? '_' stem).elim stem (·.2))

end Path

end BoxCert
