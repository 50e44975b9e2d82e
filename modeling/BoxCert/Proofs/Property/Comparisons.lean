import BoxCert.Proofs.Number.Value
import BoxCert.Property.Reading
import Mathlib.Tactic.Common

/-!
# Names, numerals and comparisons

What the words of a property file are: which of them name a variable and which
spell a finite number, none of them both. A comparison states a bound when one
of its sides names an input, in four ways: two operators, and the input on the
left or on the right.
-/

namespace BoxCert

open Numeral (natOfDigits indexBound real? count? index? splitSign
  decimal?)

/-! ## Words -/

/-- Whether a run of decimal digits spells an index. -/
structure Numeral.IsIndex (digits : List Char) (i : Nat) : Prop where
  nonempty : digits ≠ []
  isDigit : ∀ c ∈ digits, c.isDigit = true
  value : natOfDigits digits = i
  le : i ≤ indexBound

theorem Numeral.count?_of_isDigit {bound : Nat} {digits : List Char}
    (hne : digits ≠ []) (hdigits : ∀ c ∈ digits, c.isDigit = true) :
    count? bound digits =
      if natOfDigits digits ≤ bound then some (natOfDigits digits)
      else none := by
  cases digits with
  | nil => exact absurd rfl hne
  | cons c rest =>
      have hplus : c ≠ '+' := by
        rintro rfl
        exact absurd (hdigits '+' List.mem_cons_self) (by decide)
      have hall : (c :: rest).all Char.isDigit = true :=
        List.all_eq_true.2 hdigits
      simp [count?, hplus, hall]

/-- What is left of a variable name after its letter and an underscore. -/
theorem index?_guarded_eq_some {first letter : Char} {digits : List Char}
    {i : Nat} :
    (if first = letter && !digits.isEmpty && digits.all Char.isDigit then
      index? digits else none) = some i ↔
        first = letter ∧ Numeral.IsIndex digits i := by
  constructor
  · intro h
    split at h
    · next hguard =>
        simp only [Bool.and_eq_true, decide_eq_true_eq, Bool.not_eq_true',
          List.isEmpty_eq_false_iff, List.all_eq_true] at hguard
        obtain ⟨⟨hfirst, hne⟩, hdigits⟩ := hguard
        rw [index?, Numeral.count?_of_isDigit hne hdigits] at h
        split at h
        · cases h
          exact ⟨hfirst, hne, hdigits, rfl, ‹_›⟩
        · cases h
    · cases h
  · rintro ⟨rfl, hne, hdigits, rfl, hle⟩
    have hguard : (first = first && !digits.isEmpty &&
        digits.all Char.isDigit) = true := by
      simp only [Bool.and_eq_true, decide_eq_true_eq, Bool.not_eq_true',
        List.isEmpty_eq_false_iff, List.all_eq_true]
      exact ⟨⟨trivial, hne⟩, hdigits⟩
    rw [if_pos hguard, index?, Numeral.count?_of_isDigit hne hdigits,
      if_pos hle]

theorem variableIndex?_eq_some {letter : Char} {text : List Char} {i : Nat} :
    variableIndex? letter text = some i ↔ ∃ digits,
      (text = letter :: digits ∨ text = letter :: '_' :: digits) ∧
        Numeral.IsIndex digits i := by
  cases text with
  | nil =>
      refine iff_of_false (by simp [variableIndex?]) ?_
      rintro ⟨digits, h | h, -⟩ <;> cases h
  | cons first rest =>
      by_cases hscore : ∃ more, rest = '_' :: more
      · obtain ⟨more, rfl⟩ := hscore
        rw [variableIndex?, index?_guarded_eq_some]
        constructor
        · rintro ⟨rfl, h⟩
          exact ⟨more, .inr rfl, h⟩
        · rintro ⟨digits, hname | hname, h⟩
          · -- An underscore is no digit.
            cases hname
            exact absurd (h.isDigit '_' List.mem_cons_self) (by decide)
          · cases hname
            exact ⟨rfl, h⟩
      · rw [variableIndex?, index?_guarded_eq_some]
        · constructor
          · rintro ⟨rfl, h⟩
            exact ⟨rest, .inl rfl, h⟩
          · rintro ⟨digits, hname | hname, h⟩
            · cases hname
              exact ⟨rfl, h⟩
            · cases hname
              exact absurd ⟨digits, rfl⟩ hscore
        · exact fun more h => hscore ⟨more, h⟩

theorem Numeral.real?_cons_X (rest : List Char) :
    real? ('X' :: rest) = none := by
  have hsplit : splitSign ('X' :: rest) = (false, 'X' :: rest) := rfl
  have hword : ∀ word : String, word.toList.head? ≠ some 'x' →
      String.ofList (('X' :: rest).map Char.toLower) ≠ word := by
    rintro word hhead rfl
    exact hhead (by rw [String.toList_ofList]; rfl)
  have hdecimal : decimal? false ('X' :: rest) = none := by
    simp [decimal?]
  rw [real?, hsplit]
  dsimp only
  rw [if_neg, if_neg (hword "nan" (by decide)), hdecimal]
  rw [Bool.or_eq_true, decide_eq_true_eq, decide_eq_true_eq]
  exact not_or_intro (hword "inf" (by decide)) (hword "infinity" (by decide))

namespace Form

/-- Whether a form is the name of a variable. -/
def Names (form : Form) (letter : Char) (i : Nat) : Prop :=
  ∃ digits, (form = atom (letter :: digits) ∨
    form = atom (letter :: '_' :: digits)) ∧ Numeral.IsIndex digits i

/-- Whether a form is a numeral for a finite number. -/
def Spells (form : Form) (x : Binary64) : Prop :=
  ∃ text, form = atom text ∧ real? text = some x ∧ x.isFinite = true

theorem variableOf?_eq_some {form : Form} {letter : Char} {i : Nat} :
    form.variableOf? letter = some i ↔ form.Names letter i := by
  cases form with
  | atom text =>
      rw [variableOf?, word?, Option.bind_some, variableIndex?_eq_some]
      simp only [Names, atom.injEq]
  | list items =>
      refine iff_of_false (by simp [variableOf?, word?]) ?_
      rintro ⟨digits, h | h, -⟩ <;> cases h

theorem variableOf?_eq_none {form : Form} {letter : Char} :
    form.variableOf? letter = none ↔ ∀ i, ¬ form.Names letter i := by
  rw [Option.eq_none_iff_forall_ne_some]
  exact forall_congr' fun i => not_congr variableOf?_eq_some

theorem number_eq_ok {form : Form} {x : Binary64} :
    form.number = .ok x ↔ form.Spells x := by
  cases form with
  | list items =>
      refine iff_of_false (by simp [number, word?]) ?_
      rintro ⟨text, h, -⟩
      cases h
  | atom text =>
      rw [number, word?]
      constructor
      · intro h
        split at h
        · cases h
        · cases ‹some text = some _›
          split at h
          · cases h
          · split at h
            · cases h
              exact ⟨text, rfl, ‹_›, ‹_›⟩
            · cases h
      · rintro ⟨text, htext, hreal, hfin⟩
        cases htext
        simp only [hreal, hfin, if_true]

theorem Names.unique {form : Form} {letter : Char} {i j : Nat}
    (h : form.Names letter i) (h' : form.Names letter j) : i = j := by
  rw [← variableOf?_eq_some] at h h'
  exact Option.some.inj (h.symm.trans h')

theorem Spells.unique {form : Form} {x y : Binary64}
    (h : form.Spells x) (h' : form.Spells y) : x = y := by
  rw [← number_eq_ok] at h h'
  exact Except.ok.inj (h.symm.trans h')

theorem Names.not_spells {form : Form} {i : Nat} (h : form.Names 'X' i)
    (x : Binary64) : ¬ form.Spells x := by
  rintro ⟨text, rfl, hreal, -⟩
  obtain ⟨rest, rfl⟩ : ∃ rest, text = 'X' :: rest := by
    rcases h with ⟨digits, h | h, -⟩ <;> cases h <;> exact ⟨_, rfl⟩
  rw [Numeral.real?_cons_X] at hreal
  cases hreal

/-! ## Comparisons -/

/-- The bound that a comparison states. The left side is taken for the input
if it can be. -/
inductive States : Form → WrittenBound → Prop
  | lower {left right : Form} {i : Nat} (h : left.Names 'X' i) :
      States (list [atom ">=".toList, left, right]) ⟨i, .lower, right⟩
  | upper {left right : Form} {i : Nat} (h : left.Names 'X' i) :
      States (list [atom "<=".toList, left, right]) ⟨i, .upper, right⟩
  | upperSwapped {left right : Form} {i : Nat}
      (hleft : ∀ j, ¬ left.Names 'X' j) (h : right.Names 'X' i) :
      States (list [atom ">=".toList, left, right]) ⟨i, .upper, left⟩
  | lowerSwapped {left right : Form} {i : Nat}
      (hleft : ∀ j, ¬ left.Names 'X' j) (h : right.Names 'X' i) :
      States (list [atom "<=".toList, left, right]) ⟨i, .lower, left⟩

theorem boundedSide?_eq_some {operator : List Char} {side : Side} :
    boundedSide? operator = some side ↔
      operator = ">=".toList ∧ side = .lower ∨
        operator = "<=".toList ∧ side = .upper := by
  rw [boundedSide?]
  split
  · next h =>
      subst h
      constructor
      · rintro ⟨⟩
        exact .inl ⟨rfl, rfl⟩
      · rintro (⟨-, rfl⟩ | ⟨h, -⟩)
        · rfl
        · exact absurd h (by decide)
  · next hge =>
      split
      · next h =>
          subst h
          constructor
          · rintro ⟨⟩
            exact .inr ⟨rfl, rfl⟩
          · rintro (⟨h, -⟩ | ⟨-, rfl⟩)
            · exact absurd h hge
            · rfl
      · next hle =>
          refine iff_of_false nofun ?_
          rintro (⟨h, -⟩ | ⟨h, -⟩)
          · exact hge h
          · exact hle h

/-- A comparison bounds the input on its left, or else the input on its
right, where the side is the other one. -/
theorem writtenBound?_eq_some {operator : List Char} {arguments : List Form}
    {b : WrittenBound} : writtenBound? operator arguments = some b ↔
      ∃ side left right, boundedSide? operator = some side ∧
        arguments = [left, right] ∧
        ((∃ i, left.Names 'X' i ∧ b = ⟨i, side, right⟩) ∨
          (∀ j, ¬ left.Names 'X' j) ∧
            ∃ i, right.Names 'X' i ∧ b = ⟨i, side.other, left⟩) := by
  rw [writtenBound?]
  constructor
  · intro h
    obtain ⟨side, hside, h⟩ := Option.bind_eq_some_iff.1 h
    split at h
    · next left right _ =>
        refine ⟨side, left, right, hside, rfl, ?_⟩
        split at h
        · next i hleft =>
            cases h
            exact .inl ⟨i, variableOf?_eq_some.1 hleft, rfl⟩
        · next i hleft hright =>
            cases h
            exact .inr ⟨variableOf?_eq_none.1 hleft, i,
              variableOf?_eq_some.1 hright, rfl⟩
        · cases h
    · cases h
  · rintro ⟨side, left, right, hside, rfl, ⟨i, hleft, rfl⟩ |
      ⟨hleft, i, hright, rfl⟩⟩
    · simp only [hside, variableOf?_eq_some.2 hleft, Option.bind_eq_bind,
        Option.bind_some]
    · simp only [hside, variableOf?_eq_none.2 hleft,
        variableOf?_eq_some.2 hright, Option.bind_eq_bind, Option.bind_some]

example : writtenBound? "<=".toList [atom "-1".toList, atom "X0".toList] =
    some ⟨0, .lower, atom "-1".toList⟩ := by rfl

theorem states_iff {operator : List Char} {arguments : List Form}
    {b : WrittenBound} : States (list (atom operator :: arguments)) b ↔
      writtenBound? operator arguments = some b := by
  rw [writtenBound?_eq_some]
  constructor
  · intro h
    cases h with
    | lower h => exact ⟨_, _, _, rfl, rfl, .inl ⟨_, h, rfl⟩⟩
    | upper h => exact ⟨_, _, _, rfl, rfl, .inl ⟨_, h, rfl⟩⟩
    | upperSwapped hleft h =>
        exact ⟨_, _, _, rfl, rfl, .inr ⟨hleft, _, h, rfl⟩⟩
    | lowerSwapped hleft h =>
        exact ⟨_, _, _, rfl, rfl, .inr ⟨hleft, _, h, rfl⟩⟩
  · rintro ⟨side, left, right, hside, rfl, h⟩
    rcases boundedSide?_eq_some.1 hside with ⟨rfl, rfl⟩ | ⟨rfl, rfl⟩
    · rcases h with ⟨i, h, rfl⟩ | ⟨hleft, i, h, rfl⟩
      · exact .lower h
      · exact .upperSwapped hleft h
    · rcases h with ⟨i, h, rfl⟩ | ⟨hleft, i, h, rfl⟩
      · exact .upper h
      · exact .lowerSwapped hleft h

end Form

/-! ## Comparisons at a point -/

/-- Whether a coordinate lies on the admitted side of a bound. -/
def Side.Admits : Side → ℝ → ℝ → Prop
  | .lower, bound, t => bound ≤ t
  | .upper, bound, t => t ≤ bound

namespace Form

variable {y : Nat → ℝ} {form left right : Form}

/-- The values of a form at a point: the coordinate of an input, or the number
of a numeral. -/
inductive Denotes (y : Nat → ℝ) : Form → ℝ → Prop
  | input {form : Form} {i : Nat} (h : form.Names 'X' i) : Denotes y form (y i)
  | numeral {form : Form} {x : Binary64} (h : form.Spells x) :
      Denotes y form x.toReal

/-- Whether a comparison holds at a point. -/
inductive Holds (y : Nat → ℝ) : Form → Prop
  | atLeast {left right : Form} {a b : ℝ} (hleft : Denotes y left a)
      (hright : Denotes y right b) (h : b ≤ a) :
      Holds y (list [atom ">=".toList, left, right])
  | atMost {left right : Form} {a b : ℝ} (hleft : Denotes y left a)
      (hright : Denotes y right b) (h : a ≤ b) :
      Holds y (list [atom "<=".toList, left, right])

theorem denotes_input {i : Nat} (h : form.Names 'X' i) (a : ℝ) :
    Denotes y form a ↔ a = y i := by
  constructor
  · rintro (h' | h')
    · rw [h'.unique h]
    · exact absurd h' (h.not_spells _)
  · rintro rfl
    exact .input h

theorem denotes_numeral {x : Binary64} (h : form.Spells x) (a : ℝ) :
    Denotes y form a ↔ a = x.toReal := by
  constructor
  · rintro (h' | h')
    · exact absurd h (h'.not_spells _)
    · rw [h'.unique h]
  · rintro rfl
    exact .numeral h

variable {s t : ℝ}

theorem holds_atLeast_iff (hleft : ∀ a, Denotes y left a ↔ a = s)
    (hright : ∀ b, Denotes y right b ↔ b = t) :
    Holds y (list [atom ">=".toList, left, right]) ↔ t ≤ s := by
  constructor
  · intro h
    cases h with
    | atLeast ha hb hle => rwa [(hleft _).1 ha, (hright _).1 hb] at hle
  · exact .atLeast ((hleft s).2 rfl) ((hright t).2 rfl)

theorem holds_atMost_iff (hleft : ∀ a, Denotes y left a ↔ a = s)
    (hright : ∀ b, Denotes y right b ↔ b = t) :
    Holds y (list [atom "<=".toList, left, right]) ↔ s ≤ t := by
  constructor
  · intro h
    cases h with
    | atMost ha hb hle => rwa [(hleft _).1 ha, (hright _).1 hb] at hle
  · exact .atMost ((hleft s).2 rfl) ((hright t).2 rfl)

/-- A comparison holds where the bound that it states does. -/
theorem holds_iff_of_states {comparison : Form} {b : WrittenBound}
    {x : Binary64} (hstates : comparison.States b) (hx : b.number.Spells x) :
    Holds y comparison ↔ b.side.Admits x.toReal (y b.index) := by
  cases hstates with
  | lower h => exact holds_atLeast_iff (denotes_input h) (denotes_numeral hx)
  | upper h => exact holds_atMost_iff (denotes_input h) (denotes_numeral hx)
  | upperSwapped _ h =>
      exact holds_atLeast_iff (denotes_numeral hx) (denotes_input h)
  | lowerSwapped _ h =>
      exact holds_atMost_iff (denotes_numeral hx) (denotes_input h)

end Form

end BoxCert
