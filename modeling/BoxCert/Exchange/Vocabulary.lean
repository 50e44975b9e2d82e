import BoxCert.Certification
import BoxCert.Json.Shape

/-!
# Words and outcomes as JSON

How the small types of the library are written into data files and read back:
each finite choice by a fixed word, and an outcome as an object whose member
`status` says which kind it is.
-/

namespace BoxCert

open Json (Decoder)

/-- The word of a value in a table of words. -/
def wordIn {α : Type} [DecidableEq α] (table : List (String × α)) (a : α) :
    Json :=
  ((table.find? fun entry => entry.2 = a).map (·.1)).elim .null Json.text

def Precision.words : List (String × Precision) :=
  [("single", .single), ("double", .double)]

def Precision.toJson (p : Precision) : Json := wordIn words p

def Precision.ofJson? : Decoder Precision := Json.choice? words

def DecisionMode.words : List (String × DecisionMode) :=
  [("simple", .simple), ("full", .full), ("auto", .auto)]

def DecisionMode.toJson (m : DecisionMode) : Json := wordIn words m

def DecisionMode.ofJson? : Decoder DecisionMode := Json.choice? words

def Verdict.words : List (String × Verdict) :=
  [("Yes", .yes), ("No", .no), ("Maybe", .maybe)]

def Verdict.toJson (v : Verdict) : Json := wordIn words v

def Verdict.ofJson? : Decoder Verdict := Json.choice? words

def Comparison.words : List (String × Comparison) :=
  [("non_strict", .nonStrict), ("strict", .strict)]

def Comparison.toJson (c : Comparison) : Json := wordIn words c

def Comparison.ofJson? : Decoder Comparison := Json.choice? words

def DecidedBy.words : List (String × DecidedBy) :=
  [("simple", .simple), ("full", .full), ("refinement", .refinement)]

def DecidedBy.toJson (d : DecidedBy) : Json := wordIn words d

def DecidedBy.ofJson? : Decoder DecidedBy := Json.choice? words

namespace Outcome

/-- The kinds of outcome. -/
inductive Status where
  | robust
  | notRobust
  | unresolved
deriving DecidableEq, Repr

def statusWords : List (String × Status) :=
  [("robust", .robust), ("not_robust", .notRobust),
   ("unresolved", .unresolved)]

def toJson : Outcome → Json
  | robust => .record [("status", .text "robust")]
  | notRobust competitor =>
      .record [("status", .text "not_robust"), ("class", .nat competitor)]
  | unresolved undecided =>
      .record [("status", .text "unresolved"),
        ("undecided", .array (undecided.map Json.nat))]

/-- The kind of outcome that a string names. -/
def status? : Decoder Status
  | .string (some word) => statusWords.lookup word
  | _ => none

/-- The greatest nesting of a value that is kept while its kind is not yet
known. -/
abbrev nestingLimit : Nat := 127

/-- The outcome of a kind, from the value of the field that belongs to it. -/
def ofField? (status : Status) (field : String → Option (Option Json)) :
    Option Outcome :=
  match status with
  | .robust => some .robust
  | .notRobust => do
      return .notRobust (← Json.required Json.toIndex? (← field "class"))
  | .unresolved => do
      return .unresolved
        (← Json.required (Json.toList? Json.toIndex?) (← field "undecided"))

/-- The outcome that a value at the given depth stands for. Beside the
`status` any members may stand, but as it is not known at first which of them
matter, all have to be sound. In an array the kind comes first, and then the
field that belongs to it. -/
def ofJsonAt? (depth : Nat) (j : Json) : Option Outcome := do
  if !j.isSound || nestingLimit < depth + j.depth then none
  match j with
  | .object members =>
      let status ← Json.required status? (← Json.onlyMember? members "status")
      ofField? status (Json.onlyMember? members)
  | .array (first :: rest) =>
      match ← status? first, rest with
      | .robust, [] => some .robust
      | .robust, _ => none
      | status, [value] => ofField? status fun _ => some (some value)
      | _, _ => none
  | _ => none

def ofJson? : Decoder Outcome := ofJsonAt? 0

end Outcome

end BoxCert
