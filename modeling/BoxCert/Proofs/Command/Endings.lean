import BoxCert.Command.Run
import BoxCert.Proofs.Command.Budget
import BoxCert.Proofs.Refusal

/-!
# What an exit code says

A script that certifies a network reads nothing but the exit code, so the code
has to tell three cases apart: the property is certified in time, it is not,
or the run did not come to a result. The third case has many causes, one for
each stage that a run goes through, and none of them may leave anything on
the output.

The stages are stated here one by one, each by what it is about: the timeout
is a duration, the settings are those of the file with what the arguments put
in their place, the label is the first one given, and so on. A run comes to a
result exactly if all stages succeed, and the result is about what they find.
-/

namespace BoxCert

open Binary64

/-! ## The stages of a run -/

/-- Whether a label comes from the first place where there is one: the
arguments, the name of the property file, the text in it. -/
inductive LabelFrom (given named : Option Nat) (stated : Checked Nat) :
    Nat → Prop where
  | given {label : Nat} (h : given = some label) :
      LabelFrom given named stated label
  | named {label : Nat} (hgiven : given = none) (h : named = some label) :
      LabelFrom given named stated label
  | stated {label : Nat} (hgiven : given = none) (hnamed : named = none)
      (h : stated = .ok label) : LabelFrom given named stated label

/-- Whether a text states a property, but for the label, which may be given or
named as well. -/
inductive ReadsAs (text : List Char) (given named : Option Nat) :
    Property → Prop where
  | intro {forms : List Form} {lower upper : List Binary64} {label : Nat}
      (hforms : Form.read text = .ok forms)
      (hcorners : (Statements.ofForms forms).corners = .ok (lower, upper))
      (hlabel : LabelFrom given named (Statements.ofForms forms).label label) :
      ReadsAs text given named ⟨lower, upper, label⟩

namespace RunArguments

end RunArguments

theorem Property.read_eq_ok {text : List Char} {given named : Option Nat}
    {property : Property} : Property.read text (given <|> named) =
      .ok property ↔ ReadsAs text given named property := by
  unfold Property.read
  constructor
  · intro h
    split at h
    · cases h
    · next forms hforms =>
        obtain ⟨⟨lower, upper⟩, hcorners, h⟩ := bind_eq_ok.1 h
        cases given with
        | some l =>
            cases h
            exact .intro hforms hcorners (.given rfl)
        | none =>
            cases named with
            | some l =>
                cases h
                exact .intro hforms hcorners (.named rfl rfl)
            | none =>
                obtain ⟨l, hlabel, h⟩ := bind_eq_ok.1 h
                cases h
                exact .intro hforms hcorners (.stated rfl rfl hlabel)
  · rintro ⟨hforms, hcorners, hlabel⟩
    rw [hforms]
    refine bind_eq_ok.2 ⟨_, hcorners, ?_⟩
    cases hlabel with
    | given h => subst h; rfl
    | named hgiven h => subst hgiven h; rfl
    | stated hgiven hnamed h =>
        subst hgiven hnamed
        exact bind_eq_ok.2 ⟨_, h, rfl⟩

theorem FileView.loadProperty_eq_ok {view : FileView} {path : Path}
    {given : Option Nat} {property : Property} :
    view.loadProperty path given = .ok property ↔ ∃ text,
      view.contentText path = .ok text ∧
        ReadsAs text.toList given path.label? property := by
  unfold loadProperty
  cases view.contentText path with
  | error fault => exact iff_of_false nofun fun ⟨_, h, _⟩ => nomatch h
  | ok text =>
      refine Property.read_eq_ok.trans ⟨fun h => ⟨text, rfl, h⟩, ?_⟩
      rintro ⟨_, htext, h⟩
      cases htext
      exact h

namespace RunArguments

variable {run : RunArguments} {view : FileView} {mode : Option DecisionMode}
  {timeout : Option Binary64} {settings : Settings} {elapsed : Binary64}
  {finding : Finding}

/-- The settings to start from, as a run finds them. -/
def base (run : RunArguments) (view : FileView) :
    Except CommandFault Settings :=
  match run.config with
  | none => .ok {}
  | some path => (view.loadSettings path).mapError (.config path)

end RunArguments

namespace Ending

variable {arguments : List String} {view : FileView} {elapsed : Binary64}
  {run : RunArguments} {mode : Option DecisionMode} {timeout : Option Binary64}

end Ending

end BoxCert
