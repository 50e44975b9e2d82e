import BoxCert.Proofs.Property.Clauses
import BoxCert.Proofs.Property.Spacing
import Mathlib.Logic.Relation

/-!
# Texts that are read alike

A property can be written in many ways. Its clauses may stand in any order on
either side of the first asserted disjunction, a conjunction of input bounds may
be asserted as a whole or bound by bound, and any comparison may be written from
either side. `Rewrites` says what one such change does to the forms of a text.
Each change exchanges runs of clauses that state the same, so a text that is
accepted stays accepted, with the same property, however the changed forms are
written out.
-/

namespace BoxCert

namespace Form

/-! ## Turning a comparison around -/

/-- Whether forms differ in one comparison, at any depth, that is written from
the other side. -/
inductive Turns : Form → Form → Prop
  | atLeast (left right : Form) :
      Turns (list [atom ">=".toList, left, right])
        (list [atom "<=".toList, right, left])
  | atMost (left right : Form) :
      Turns (list [atom "<=".toList, left, right])
        (list [atom ">=".toList, right, left])
  | greater (left right : Form) :
      Turns (list [atom ">".toList, left, right])
        (list [atom "<".toList, right, left])
  | less (left right : Form) :
      Turns (list [atom "<".toList, left, right])
        (list [atom ">".toList, right, left])
  | inside (before after : List Form) {form form' : Form}
      (h : Turns form form') :
      Turns (list (before ++ form :: after)) (list (before ++ form' :: after))

variable {form form' : Form} {operator : List Char}
  {arguments arguments' : List Form}

theorem Turns.exists_list (h : Turns form form') :
    ∃ items items', form = list items ∧ form' = list items' := by
  cases h <;> exact ⟨_, _, rfl, rfl⟩

/-- The comparison that is turned around is the form or stands inside it. As
long as it is not read, it does not matter which one it is. -/
theorem Turns.shape (h : Turns form form') :
    (∃ operator ∈ comparators, ∃ operator' ∈ comparators, ∃ left right,
      form = list [atom operator, left, right] ∧
        form' = list [atom operator', right, left]) ∨
    ∃ before after inner inner', Turns inner inner' ∧
      form = list (before ++ inner :: after) ∧
        form' = list (before ++ inner' :: after) := by
  cases h with
  | inside before after h => exact .inr ⟨_, _, _, _, h, rfl, rfl⟩
  | _ left right =>
      exact .inl ⟨_, by simp [comparators], _, by simp [comparators], left,
        right, rfl, rfl⟩

/-- Lists stand for no words, so a comparison sees no difference between two of
them. -/
theorem Turns.words (h : Turns form form') (before after : List Form) :
    (before ++ form :: after).map word? =
      (before ++ form' :: after).map word? := by
  obtain ⟨items, items', rfl, rfl⟩ := h.exists_list
  rw [List.map_append, List.map_append]
  rfl

/-- A property of two arguments, from the words of both. -/
theorem exists_pair_iff (hwords : arguments.map word? = arguments'.map word?) :
    (∃ left right left' right', arguments = [left, right] ∧
        arguments' = [left', right'] ∧ left.word? = left'.word? ∧
        right.word? = right'.word?) ∨
      arguments.length ≠ 2 ∧ arguments'.length ≠ 2 := by
  have hlength : arguments.length = arguments'.length := by
    simpa using congrArg List.length hwords
  by_cases h : arguments.length = 2
  · obtain ⟨left, right, rfl⟩ := List.length_eq_two.1 h
    obtain ⟨left', right', rfl⟩ := List.length_eq_two.1 (hlength ▸ h)
    simp only [List.map_cons, List.cons.injEq] at hwords
    exact .inl ⟨left, right, left', right', rfl, rfl, hwords.1, hwords.2.1⟩
  · exact .inr ⟨h, hlength ▸ h⟩

theorem writtenBound?_of_length (h : arguments.length ≠ 2) :
    writtenBound? operator arguments = none := by
  unfold writtenBound?
  cases boundedSide? operator with
  | none => rfl
  | some side =>
      rw [Option.bind_eq_bind, Option.bind_some]
      split
      · exact absurd rfl h
      · rfl

theorem dominated?_of_length (h : arguments.length ≠ 2) :
    dominated? operator arguments = none := by
  unfold dominated?
  split
  · exact absurd rfl h
  · rfl

theorem variableOf?_congr (h : form.word? = form'.word?) (letter : Char) :
    form.variableOf? letter = form'.variableOf? letter := by
  rw [variableOf?, variableOf?, h]

theorem dominated?_congr (hwords : arguments.map word? = arguments'.map word?) :
    dominated? operator arguments = dominated? operator arguments' := by
  rcases exists_pair_iff hwords with
    ⟨left, right, left', right', rfl, rfl, hleft, hright⟩ | ⟨h, h'⟩
  · rw [dominated?, dominated?, variableOf?_congr hleft,
      variableOf?_congr hright]
  · rw [dominated?_of_length h, dominated?_of_length h']

theorem number_congr (h : form.word? = form'.word?) :
    form.number.toOption = form'.number.toOption := by
  rw [number, number, h]
  cases form'.word? <;> rfl

/-- What a comparison bounds, as far as it can be read. -/
def meaning? (operator : List Char) (arguments : List Form) :
    List (Option Bound) :=
  (writtenBound? operator arguments).toList.map WrittenBound.meaning?

theorem meaning?_congr (hwords : arguments.map word? = arguments'.map word?) :
    meaning? operator arguments = meaning? operator arguments' := by
  rcases exists_pair_iff hwords with
    ⟨left, right, left', right', rfl, rfl, hleft, hright⟩ | ⟨h, h'⟩
  · rw [meaning?, meaning?, writtenBound?, writtenBound?]
    cases boundedSide? operator with
    | none => rfl
    | some side =>
        simp only [Option.bind_eq_bind, Option.bind_some,
          variableOf?_congr hleft, variableOf?_congr hright]
        cases left'.variableOf? 'X' with
        | some i => simp [WrittenBound.meaning?, number_congr hright]
        | none =>
            cases right'.variableOf? 'X' with
            | some i => simp [WrittenBound.meaning?, number_congr hleft]
            | none => rfl
  · rw [meaning?, meaning?, writtenBound?_of_length h,
      writtenBound?_of_length h']

theorem meaning?_of_names {i : Nat} (h : form.Names 'X' i) (j : Nat)
    (side : Side) : WrittenBound.meaning? ⟨j, side, form⟩ = none := by
  refine Option.eq_none_iff_forall_ne_some.2 fun b hb => ?_
  exact h.not_spells _ (Bound.reads_iff.2 hb).value

theorem meaning?_of_strict {left right : Form}
    (h : boundedSide? operator = none) :
    meaning? operator [left, right] = [] := by
  rw [meaning?, writtenBound?, h]
  rfl

/-- A bound means the same from either side. Between two inputs it means
nothing. -/
theorem meaning?_turned (left right : Form) :
    meaning? ">=".toList [left, right] =
      meaning? "<=".toList [right, left] := by
  have hle : boundedSide? "<=".toList = some .upper := rfl
  have hge : boundedSide? ">=".toList = some .lower := rfl
  rw [meaning?, meaning?, writtenBound?, writtenBound?, hle, hge]
  simp only [Option.bind_eq_bind, Option.bind_some]
  cases hleft : left.variableOf? 'X' with
  | none => cases right.variableOf? 'X' <;> rfl
  | some i =>
      cases hright : right.variableOf? 'X' with
      | none => rfl
      | some j =>
          rw [variableOf?_eq_some] at hleft hright
          show [WrittenBound.meaning? ⟨i, .lower, right⟩] =
            [WrittenBound.meaning? ⟨j, .upper, left⟩]
          rw [meaning?_of_names hright, meaning?_of_names hleft]

theorem dominated?_turned (left right : Form) :
    dominated? ">=".toList [left, right] =
        dominated? "<=".toList [right, left] ∧
      dominated? ">".toList [left, right] =
        dominated? "<".toList [right, left] := by
  cases hleft : left.variableOf? 'Y' <;>
    cases hright : right.variableOf? 'Y' <;>
    simp [dominated?, hleft, hright]

theorem assertsDisjunction_of_asserted? {body : Form}
    (h : form.asserted? = some body) : form.assertsDisjunction =
      body.call?.any fun call => call.1 = "or".toList := by
  rw [assertsDisjunction, h, Option.bind_some]
  cases body.call? <;> rfl

theorem bounds_comparison (hoperator : operator ≠ "and".toList)
    (arguments : List Form) :
    (list (atom operator :: arguments)).bounds.map WrittenBound.meaning? =
      meaning? operator arguments := by
  rw [bounds, if_neg hoperator]
  rfl

theorem dominated_comparison (hand : operator ≠ "and".toList)
    (hor : operator ≠ "or".toList) (arguments : List Form) :
    (list (atom operator :: arguments)).dominated =
      (dominated? operator arguments).toList := by
  rw [dominated, if_neg]
  rw [Bool.or_eq_true, decide_eq_true_eq, decide_eq_true_eq]
  exact not_or_intro hand hor

theorem isDisjunction_of_ne (h : operator ≠ "or".toList) :
    ((list (atom operator :: arguments)).call?.any fun call =>
      call.1 = "or".toList) = false :=
  decide_eq_false h

theorem declared?_of_ne (h : operator ≠ "declare-const".toList) :
    (list (atom operator :: arguments)).declared? = none := by
  refine Option.eq_none_iff_forall_ne_some.2 fun i hi => h ?_
  obtain ⟨name, rest, heq, -⟩ := declared?_eq_some.1 hi
  cases heq
  rfl

theorem asserted?_of_ne (h : operator ≠ "assert".toList) :
    (list (atom operator :: arguments)).asserted? = none := by
  refine Option.eq_none_iff_forall_ne_some.2 fun body hbody => h ?_
  obtain ⟨rest, heq⟩ := asserted?_eq_some.1 hbody
  cases heq
  rfl

namespace Turns

theorem bounds_eq (h : Turns form form') :
    form.bounds.map WrittenBound.meaning? =
      form'.bounds.map WrittenBound.meaning? := by
  induction h with
  | atLeast left right =>
      rw [bounds_comparison (by decide), bounds_comparison (by decide),
        meaning?_turned]
  | atMost left right =>
      rw [bounds_comparison (by decide), bounds_comparison (by decide),
        meaning?_turned]
  | greater left right | less left right =>
      rw [bounds_comparison (by decide), bounds_comparison (by decide),
        meaning?_of_strict rfl, meaning?_of_strict rfl]
  | inside before after h ih =>
      cases before with
      | nil =>
          obtain ⟨items, items', rfl, rfl⟩ := h.exists_list
          rfl
      | cons head before =>
          cases head with
          | list items => rfl
          | atom operator =>
              by_cases hoperator : operator = "and".toList
              · simp only [List.cons_append, bounds, if_pos hoperator,
                  boundsOfAll_eq_flatMap, List.flatMap_append,
                  List.flatMap_cons, List.map_append, ih]
              · rw [List.cons_append, List.cons_append,
                  bounds_comparison hoperator, bounds_comparison hoperator,
                  meaning?_congr (h.words before after)]

theorem dominated_eq (h : Turns form form') :
    form.dominated = form'.dominated := by
  induction h with
  | atLeast left right | atMost left right | greater left right
  | less left right =>
      rw [dominated_comparison (by decide) (by decide),
        dominated_comparison (by decide) (by decide)]
      simp only [dominated?_turned]
  | inside before after h ih =>
      cases before with
      | nil =>
          obtain ⟨items, items', rfl, rfl⟩ := h.exists_list
          rfl
      | cons head before =>
          cases head with
          | list items => rfl
          | atom operator =>
              by_cases hoperator :
                  (operator = "and".toList || operator = "or".toList) = true
              · simp only [List.cons_append, dominated, if_pos hoperator,
                  dominatedOfAll_eq_flatMap, List.flatMap_append,
                  List.flatMap_cons, ih]
              · simp only [List.cons_append, dominated, if_neg hoperator,
                  dominated?_congr (h.words before after)]

/-- The class that a form states by itself. -/
theorem class_eq (h : Turns form form') :
    (form.call?.bind fun call => dominated? call.1 call.2) =
      form'.call?.bind fun call => dominated? call.1 call.2 := by
  cases h with
  | atLeast left right => exact (dominated?_turned left right).1
  | atMost left right => exact (dominated?_turned right left).1.symm
  | greater left right => exact (dominated?_turned left right).2
  | less left right => exact (dominated?_turned right left).2.symm
  | inside before after h =>
      cases before with
      | nil =>
          obtain ⟨items, items', rfl, rfl⟩ := h.exists_list
          rfl
      | cons head before =>
          cases head with
          | list items => rfl
          | atom operator => exact dominated?_congr (h.words before after)

/-- No form turns into a disjunction or out of one. -/
theorem isDisjunction_eq (h : Turns form form') :
    (form.call?.any fun call => call.1 = "or".toList) =
      form'.call?.any fun call => call.1 = "or".toList := by
  rcases h.shape with
    ⟨operator, hmem, operator', hmem', left, right, rfl, rfl⟩ |
    ⟨before, after, inner, inner', hinner, rfl, rfl⟩
  · rw [isDisjunction_of_ne (ne_of_mem_comparators hmem).2.1,
      isDisjunction_of_ne (ne_of_mem_comparators hmem').2.1]
  · cases before with
    | nil =>
        obtain ⟨items, items', rfl, rfl⟩ := hinner.exists_list
        rfl
    | cons head before => cases head <;> rfl

theorem declared?_eq (h : Turns form form') :
    form.declared? = form'.declared? := by
  rcases h.shape with
    ⟨operator, hmem, operator', hmem', left, right, rfl, rfl⟩ |
    ⟨before, after, inner, inner', hinner, rfl, rfl⟩
  · rw [declared?_of_ne (ne_of_mem_comparators hmem).2.2.2,
      declared?_of_ne (ne_of_mem_comparators hmem').2.2.2]
  · obtain ⟨items, items', rfl, rfl⟩ := hinner.exists_list
    match before with
    | [] => rfl
    | list _ :: _ => rfl
    | [atom operator] => rfl
    | atom operator :: name :: before => rfl

/-- What is asserted either stays or has the comparison in it. -/
theorem asserted?_eq (h : Turns form form') :
    form.asserted? = form'.asserted? ∨ ∃ body body',
      form.asserted? = some body ∧ form'.asserted? = some body' ∧
        Turns body body' := by
  rcases h.shape with
    ⟨operator, hmem, operator', hmem', left, right, rfl, rfl⟩ |
    ⟨before, after, inner, inner', hinner, rfl, rfl⟩
  · refine .inl ?_
    rw [asserted?_of_ne (ne_of_mem_comparators hmem).2.2.1,
      asserted?_of_ne (ne_of_mem_comparators hmem').2.2.1]
  · match before with
    | [] =>
        obtain ⟨items, items', rfl, rfl⟩ := hinner.exists_list
        exact .inl rfl
    | list _ :: _ => exact .inl rfl
    | atom operator :: body :: before => exact .inl rfl
    | [atom operator] =>
        by_cases hoperator : operator = "assert".toList
        · subst hoperator
          exact .inr ⟨inner, inner', rfl, rfl, hinner⟩
        · exact .inl ((asserted?_of_ne hoperator).trans
            (asserted?_of_ne hoperator).symm)

/-- A clause with a comparison turned around states the same. -/
theorem interchangeable (h : Turns form form') :
    Interchangeable [form] [form'] := by
  rcases h.asserted?_eq with hbody | ⟨body, body', hbody, hbody', hturns⟩
  · refine .clause ?_ h.declared?_eq ?_ ?_ ?_
    · rw [assertsDisjunction, assertsDisjunction, hbody]
    · rw [inputBounds, inputBounds, hbody]
    · rw [directlyDominated?, directlyDominated?, hbody]
    · rw [outputClasses, outputClasses, hbody]
  · refine .clause ?_ h.declared?_eq ?_ ?_ ?_
    · rw [assertsDisjunction_of_asserted? hbody,
        assertsDisjunction_of_asserted? hbody', hturns.isDisjunction_eq]
    · rw [inputBounds, inputBounds, hbody, hbody']
      exact hturns.bounds_eq
    · rw [directlyDominated?, directlyDominated?, hbody, hbody']
      exact hturns.class_eq
    · rw [outputClasses, outputClasses, hbody, hbody']
      exact hturns.dominated_eq

end Turns

/-! ## Splitting a conjunction -/

mutual

/-- The forms that a form conjoins, at any depth of conjunctions. -/
def conjuncts : Form → List Form
  | list (atom operator :: items) =>
      if operator = "and".toList then conjunctsOfAll items
      else [list (atom operator :: items)]
  | form => [form]

def conjunctsOfAll : List Form → List Form
  | [] => []
  | form :: rest => conjuncts form ++ conjunctsOfAll rest

end

/-- The clause that asserts a form. -/
def asserting (form : Form) : Form := list [atom "assert".toList, form]

theorem conjuncts_and (items : List Form) :
    (list (atom "and".toList :: items)).conjuncts = conjunctsOfAll items := by
  rw [conjuncts, if_pos rfl]

theorem conjuncts_of_ne_and
    (h : ∀ items, form ≠ list (atom "and".toList :: items)) :
    form.conjuncts = [form] := by
  unfold conjuncts
  split
  · split
    · next hoperator => exact absurd rfl (hoperator ▸ h _)
    · rfl
  · rfl

section Gathering

variable {α : Type} {gather : Form → List α}

mutual

/-- What is gathered through conjunctions is gathered from the conjuncts. -/
theorem eq_flatMap_conjuncts
    (hand : ∀ items, gather (list (atom "and".toList :: items)) =
      items.flatMap gather) (form : Form) :
    gather form = form.conjuncts.flatMap gather := by
  by_cases h : ∃ items, form = list (atom "and".toList :: items)
  · match form with
    | atom _ => obtain ⟨items, h⟩ := h; cases h
    | list [] => obtain ⟨items, h⟩ := h; cases h
    | list (head :: items) =>
        obtain ⟨_, h⟩ := h
        cases h
        rw [hand, conjuncts_and]
        exact flatMap_eq_flatMap_conjunctsOfAll hand items
  · rw [conjuncts_of_ne_and (not_exists.1 h), List.flatMap_singleton]

theorem flatMap_eq_flatMap_conjunctsOfAll
    (hand : ∀ items, gather (list (atom "and".toList :: items)) =
      items.flatMap gather) (items : List Form) :
    items.flatMap gather = (conjunctsOfAll items).flatMap gather := by
  match items with
  | [] => rfl
  | form :: rest =>
      rw [List.flatMap_cons, conjunctsOfAll, List.flatMap_append,
        eq_flatMap_conjuncts hand form,
        flatMap_eq_flatMap_conjunctsOfAll hand rest]

end

end Gathering

theorem bounds_eq_flatMap_conjuncts (form : Form) :
    form.bounds = form.conjuncts.flatMap bounds :=
  eq_flatMap_conjuncts (fun items => by
    rw [bounds, if_pos rfl, boundsOfAll_eq_flatMap]) form

theorem dominated_eq_flatMap_conjuncts (form : Form) :
    form.dominated = form.conjuncts.flatMap dominated :=
  eq_flatMap_conjuncts (fun items => by
    rw [dominated, dominatedOfAll_eq_flatMap]
    rfl) form

theorem Names.letter_unique {letter letter' : Char} {i j : Nat}
    (h : form.Names letter i) (h' : form.Names letter' j) :
    letter = letter' := by
  obtain ⟨digits, h, -⟩ := h
  obtain ⟨digits', h', -⟩ := h'
  rcases h with rfl | rfl <;> rcases h' with h' | h' <;> cases h' <;> rfl

theorem States.exists_input {b : WrittenBound} (h : form.States b) :
    ∃ operator ∈ comparators, ∃ left right i,
      form = list [atom operator, left, right] ∧
        (left.Names 'X' i ∨ right.Names 'X' i) := by
  cases h with
  | lower h | upper h =>
      exact ⟨_, by simp [comparators], _, _, _, rfl, .inl h⟩
  | upperSwapped _ h | lowerSwapped _ h =>
      exact ⟨_, by simp [comparators], _, _, _, rfl, .inr h⟩

theorem Dominates.exists_outputs {l : Nat} (h : form.Dominates l) :
    ∃ operator left right j k, form = list [atom operator, left, right] ∧
      left.Names 'Y' j ∧ right.Names 'Y' k := by
  cases h with
  | atLeast hleft hright | greater hleft hright | atMost hleft hright
  | less hleft hright => exact ⟨_, _, _, _, _, rfl, hleft, hright⟩

/-- A bound is no comparison of outputs. -/
theorem States.not_dominates {b : WrittenBound} {l : Nat}
    (h : form.States b) : ¬ form.Dominates l := by
  intro h'
  obtain ⟨operator, -, left, right, i, rfl, hinput⟩ := h.exists_input
  obtain ⟨_, _, _, j, k, heq, hleft, hright⟩ := h'.exists_outputs
  cases heq
  rcases hinput with hinput | hinput
  · exact absurd (hinput.letter_unique hleft) (by decide)
  · exact absurd (hinput.letter_unique hright) (by decide)

theorem States.not_isDisjunction {b : WrittenBound} (h : form.States b) :
    (form.call?.any fun call => call.1 = "or".toList) = false := by
  obtain ⟨operator, hmem, left, right, -, rfl, -⟩ := h.exists_input
  exact isDisjunction_of_ne (ne_of_mem_comparators hmem).2.1

/-- Whether a form conjoins input bounds and nothing else. -/
def ConjoinsBounds (form : Form) : Prop :=
  ∀ c ∈ form.conjuncts, ∃ b, c.States b

/-- Such a form is neither a disjunction nor a comparison of outputs. -/
theorem ConjoinsBounds.states_no_class (h : form.ConjoinsBounds) :
    (form.call?.any fun call => call.1 = "or".toList) = false ∧
      ∀ l, ¬ form.Dominates l := by
  by_cases hand : ∃ items, form = list (atom "and".toList :: items)
  · obtain ⟨items, rfl⟩ := hand
    exact ⟨isDisjunction_of_ne (by decide), fun l hl =>
      absurd rfl (ne_of_mem_comparators hl.mem_comparators).1⟩
  · rw [ConjoinsBounds, conjuncts_of_ne_and (not_exists.1 hand)] at h
    obtain ⟨b, hb⟩ := h form List.mem_cons_self
    exact ⟨hb.not_isDisjunction, fun l => hb.not_dominates⟩

theorem directlyDominated?_eq_none {clause body : Form}
    (hclause : clause.asserted? = some body) (h : ∀ l, ¬ body.Dominates l) :
    clause.directlyDominated? = none := by
  refine Option.eq_none_iff_forall_ne_some.2 fun l hl => ?_
  obtain ⟨body', hclause', hl⟩ := directlyDominated?_eq_some.1 hl
  rw [Option.some.inj (hclause.symm.trans hclause')] at h
  exact h l hl

/-- Asserting a conjunction of bounds is asserting each of them. -/
theorem ConjoinsBounds.interchangeable (h : form.ConjoinsBounds)
    (rest : List Form) :
    Interchangeable [list (atom "assert".toList :: form :: rest)]
      (form.conjuncts.map asserting) := by
  obtain ⟨hplain, hclass⟩ := h.states_no_class
  have hbody : (list (atom "assert".toList :: form :: rest)).asserted? =
      some form := rfl
  have hreaches : reachesOutput [list (atom "assert".toList :: form :: rest)] =
      false := by
    rw [reachesOutput_singleton, assertsDisjunction_of_asserted? hbody, hplain]
  have hreaches' : reachesOutput (form.conjuncts.map asserting) = false := by
    rw [reachesOutput, List.any_map, List.any_eq_false]
    intro c hc
    obtain ⟨b, hb⟩ := h c hc
    have hbody' : (asserting c).asserted? = some c := rfl
    rw [Function.comp_apply, assertsDisjunction_of_asserted? hbody',
      hb.not_isDisjunction]
    exact Bool.false_ne_true
  have hclasses : (form.conjuncts.map asserting).filterMap
      directlyDominated? = [] := by
    rw [List.filterMap_map, List.filterMap_eq_nil_iff]
    intro c hc
    obtain ⟨b, hb⟩ := h c hc
    exact directlyDominated?_eq_none rfl fun l => hb.not_dominates
  refine ⟨hreaches.trans hreaches'.symm, ?_, ?_, ?_, ?_⟩
  · have hdeclared : (form.conjuncts.map asserting).filterMap declared? =
        [] := by
      rw [List.filterMap_map, List.filterMap_eq_nil_iff]
      exact fun c _ => rfl
    rw [hdeclared]
    exact .refl []
  · rw [stateBounds_eq_flatMap hreaches, stateBounds_eq_flatMap hreaches',
      List.flatMap_singleton, List.flatMap_map]
    exact .of_eq (congrArg _ (bounds_eq_flatMap_conjuncts form))
  · rw [stateClasses_eq_filterMap hreaches, stateClasses_eq_filterMap hreaches',
      hclasses, List.filterMap_cons, directlyDominated?_eq_none hbody hclass]
    exact .refl []
  · rw [List.flatMap_singleton, List.flatMap_map]
    exact .of_eq (dominated_eq_flatMap_conjuncts form)

/-! ## Rewriting a text -/

/-- Whether the forms of a file are rewritten by one change that leaves what
they state. -/
inductive Rewrites : List Form → List Form → Prop
  /-- The clauses before the first asserted disjunction change places among
  themselves, and so do those after it. -/
  | reorder {before before' after after' : List Form} {first : Form}
      (hfirst : first.AssertsDisjunction)
      (hbefore : ∀ form ∈ before, ¬ form.AssertsDisjunction)
      (h : before.Perm before') (h' : after.Perm after') :
      Rewrites (before ++ first :: after) (before' ++ first :: after')
  /-- No disjunction is asserted, and the clauses change places. -/
  | reorderInputs {forms forms' : List Form}
      (hforms : ∀ form ∈ forms, ¬ form.AssertsDisjunction)
      (h : forms.Perm forms') : Rewrites forms forms'
  /-- An asserted conjunction of input bounds is asserted bound by bound. -/
  | split (before after rest : List Form) {form : Form}
      (h : form.ConjoinsBounds) :
      Rewrites (before ++ list (atom "assert".toList :: form :: rest) :: after)
        (before ++ form.conjuncts.map asserting ++ after)
  /-- A comparison is written from the other side. -/
  | turn (before after : List Form) {form form' : Form}
      (h : Turns form form') :
      Rewrites (before ++ form :: after) (before ++ form' :: after)

variable {forms forms' : List Form}

theorem reachesOutput_eq_false_iff : reachesOutput forms = false ↔
    ∀ form ∈ forms, ¬ form.AssertsDisjunction := by
  simp only [reachesOutput, List.any_eq_false, assertsDisjunction_iff]

theorem Rewrites.interchangeable (h : Rewrites forms forms') :
    Interchangeable forms forms' := by
  cases h with
  | @reorder before before' after after' first hfirst hbefore h h' =>
      have hinput := (Interchangeable.of_perm h
        (reachesOutput_eq_false_iff.2 hbefore)).append (.refl [first])
      have hreaches : reachesOutput (before ++ [first]) = true := by
        rw [reachesOutput_append, reachesOutput_singleton,
          assertsDisjunction_iff.2 hfirst, Bool.or_true]
      have := hinput.append_of_reaches hreaches (h'.filterMap _)
        (h'.flatMap_right _)
      rwa [List.append_assoc, List.append_assoc] at this
  | reorderInputs hforms h =>
      exact .of_perm h (reachesOutput_eq_false_iff.2 hforms)
  | split before after rest h =>
      have := (h.interchangeable rest).around before after
      rwa [List.append_assoc] at this
  | turn before after h =>
      have := h.interchangeable.around before after
      rwa [List.append_assoc, List.append_assoc] at this

/-! ## Writing forms out -/

/-- Whether the words of the forms can stand in a text. -/
def Plain (forms : List Form) : Prop :=
  ∀ word, .word word ∈ flattenAll forms → Token.IsPlain word

/-- Tokens with a blank before each. -/
def spaced : List Token → List Char
  | [] => []
  | token :: rest => ' ' :: (token.text ++ spaced rest)

theorem renders_spaced (afterWord : Bool) (tokens : List Token) :
    Token.RendersFrom afterWord tokens (spaced tokens) := by
  induction tokens generalizing afterWord with
  | nil => exact .done (.gap .nil)
  | cons token rest ih =>
      have hblank : Token.IsGap [' '] := .blank (by decide) .nil
      exact .token hblank (fun _ _ => List.cons_ne_nil _ _) (ih _)

theorem Plain.exists_text (h : Plain forms) :
    ∃ text, flattenAll forms = Token.scan text :=
  ⟨spaced (flattenAll forms),
    (Token.scan_eq_iff.2 ⟨h, renders_spaced false _⟩).symm⟩

theorem plain_of_scan {text : List Char}
    (h : flattenAll forms = Token.scan text) : Plain forms :=
  (Token.scan_eq_iff.1 h.symm).1

theorem plain_append {rest : List Form} :
    Plain (forms ++ rest) ↔ Plain forms ∧ Plain rest := by
  simp only [Plain, flattenAll_append, List.mem_append, or_imp, forall_and]

theorem plain_cons {rest : List Form} :
    Plain (form :: rest) ↔ Plain [form] ∧ Plain rest :=
  @plain_append [form] rest

theorem plain_iff_forall : Plain forms ↔ ∀ form ∈ forms, Plain [form] := by
  induction forms with
  | nil => exact iff_of_true (fun _ h => by cases h) (by simp)
  | cons form rest ih => rw [plain_cons, ih, List.forall_mem_cons]

theorem Plain.perm (hplain : Plain forms) (h : forms.Perm forms') :
    Plain forms' := by
  rw [plain_iff_forall] at hplain ⊢
  exact fun form hform => hplain form (h.mem_iff.2 hform)

theorem plain_list {items : List Form} :
    Plain [list items] ↔ Plain items := by
  simp [Plain, flattenAll, flatten]

theorem plain_atom {word : List Char} :
    Plain [atom word] ↔ Token.IsPlain word := by
  simp [Plain, flattenAll, flatten]

theorem isPlain_of_all {word : List Char} (hne : word ≠ [])
    (h : (word.all fun c => c ≠ '(' && c ≠ ')' && c ≠ ';' &&
      !Text.isBlank c) = true) : Token.IsPlain word := by
  refine ⟨hne, fun c hc => ?_⟩
  simpa [Token.continues, and_assoc] using List.all_eq_true.1 h c hc

theorem plain_pair {left right : Form} :
    Plain [list [atom operator, left, right]] ↔
      Token.IsPlain operator ∧ Plain [left] ∧ Plain [right] := by
  rw [plain_list, plain_cons, plain_atom, @plain_cons left [right]]

theorem Turns.plain (h : Turns form form') : Plain [form] → Plain [form'] := by
  induction h with
  | atLeast left right | atMost left right | greater left right
  | less left right =>
      rw [plain_pair, plain_pair]
      exact fun ⟨_, hleft, hright⟩ =>
        ⟨isPlain_of_all (by decide) (by decide), hright, hleft⟩
  | inside before after h ih =>
      rw [plain_list, plain_list, plain_append, plain_append, plain_cons,
        @plain_cons _ after]
      exact fun ⟨hbefore, hform, hafter⟩ => ⟨hbefore, ih hform, hafter⟩

mutual

theorem Plain.of_mem_conjuncts {form c : Form} (h : Plain [form])
    (hc : c ∈ form.conjuncts) : Plain [c] := by
  match form with
  | atom _ =>
      obtain rfl := List.mem_singleton.1 hc
      exact h
  | list [] =>
      obtain rfl := List.mem_singleton.1 hc
      exact h
  | list (list _ :: _) =>
      obtain rfl := List.mem_singleton.1 hc
      exact h
  | list (atom operator :: items) =>
      rw [conjuncts] at hc
      split at hc
      · exact (plain_cons.1 (plain_list.1 h)).2.of_mem_conjunctsOfAll hc
      · obtain rfl := List.mem_singleton.1 hc
        exact h

theorem Plain.of_mem_conjunctsOfAll {items : List Form} {c : Form}
    (h : Plain items) (hc : c ∈ conjunctsOfAll items) : Plain [c] := by
  match items with
  | [] => cases hc
  | form :: rest =>
      rw [plain_cons] at h
      rw [conjunctsOfAll, List.mem_append] at hc
      rcases hc with hc | hc
      · exact h.1.of_mem_conjuncts hc
      · exact h.2.of_mem_conjunctsOfAll hc

end

theorem Rewrites.plain (h : Rewrites forms forms') (hplain : Plain forms) :
    Plain forms' := by
  cases h with
  | reorder hfirst hbefore h h' =>
      obtain ⟨hinput, houtput⟩ := plain_append.1 hplain
      obtain ⟨hfirst, hafter⟩ := plain_cons.1 houtput
      exact plain_append.2
        ⟨hinput.perm h, plain_cons.2 ⟨hfirst, hafter.perm h'⟩⟩
  | reorderInputs hforms h => exact hplain.perm h
  | split before after rest h =>
      obtain ⟨hbefore, houtput⟩ := plain_append.1 hplain
      obtain ⟨hclause, hafter⟩ := plain_cons.1 houtput
      obtain ⟨hassert, hrest⟩ := plain_cons.1 (plain_list.1 hclause)
      have hform := (plain_cons.1 hrest).1
      refine plain_append.2 ⟨plain_append.2 ⟨hbefore, ?_⟩, hafter⟩
      refine plain_iff_forall.2 fun clause hclause => ?_
      obtain ⟨c, hc, rfl⟩ := List.mem_map.1 hclause
      exact plain_list.2
        (plain_cons.2 ⟨hassert, hform.of_mem_conjuncts hc⟩)
  | turn before after h =>
      rw [plain_append, plain_cons] at hplain ⊢
      exact ⟨hplain.1, h.plain hplain.2.1, hplain.2.2⟩

end Form

namespace Property

open Form

/-- A text that is accepted stays accepted, with the same property, however its
forms are rewritten and the rewritten forms are written out. -/
theorem read_of_rewrites {text : List Char} {forms forms' : List Form}
    {label : Option Nat} {p : Property}
    (hforms : flattenAll forms = Token.scan text)
    (hread : read text label = .ok p)
    (h : Relation.ReflTransGen Rewrites forms forms') :
    (∃ text', flattenAll forms' = Token.scan text') ∧
      ∀ text', flattenAll forms' = Token.scan text' →
        read text' label = .ok p := by
  have hchain : Interchangeable forms forms' ∧ Plain forms' := by
    induction h with
    | refl => exact ⟨.refl _, plain_of_scan hforms⟩
    | tail _ hstep ih =>
        exact ⟨ih.1.trans hstep.interchangeable, hstep.plain ih.2⟩
  obtain ⟨hsame, hplain⟩ := hchain
  refine ⟨hplain.exists_text, fun text' hforms' => ?_⟩
  obtain ⟨hcorners, hlabel⟩ := (read_eq_ok_iff_of_forms hforms).1 hread
  refine (read_eq_ok_iff_of_forms hforms').2
    ⟨hsame.alike.corners hcorners, ?_⟩
  cases label with
  | some l => exact hlabel
  | none => exact hsame.alike.label hlabel

/-- A text that asserts both bounds of its input at once. -/
def conjoined : List Char :=
  ("(assert (and (>= X_0 0) (<= X_0 1)))(declare-const X_0 Real)" ++
    "(assert (or (and (> Y_1 Y_0))))").toList

/-- The same bound by bound, after the declaration, with the comparison of
outputs written from the other side. -/
def rearranged : List Char :=
  ("; input\n(declare-const X_0 Real)(assert (>= X_0 0))\n" ++
    "(assert (<= X_0 1)) ; output\n(assert (or (and (< Y_0 Y_1))))").toList

def declaration : Form :=
  applied "declare-const" [atom "X_0".toList, atom "Real".toList]

def disjunctionOf (form : Form) : Form :=
  asserting (applied "or" [applied "and" [form]])

def conjoinedForms : List Form :=
  [asserting (applied "and" [compared ">=" "X_0" "0",
    compared "<=" "X_0" "1"]), declaration,
    disjunctionOf (compared ">" "Y_1" "Y_0")]

def rearrangedForms : List Form :=
  [declaration, asserting (compared ">=" "X_0" "0"),
    asserting (compared "<=" "X_0" "1"),
    disjunctionOf (compared "<" "Y_0" "Y_1")]

theorem rewrites_conjoinedForms :
    Relation.ReflTransGen Rewrites conjoinedForms rearrangedForms := by
  have hinput : (atom "X_0".toList).Names 'X' 0 :=
    variableOf?_eq_some.1 (by decide)
  have hbounds : (applied "and" [compared ">=" "X_0" "0",
      compared "<=" "X_0" "1"]).ConjoinsBounds := by
    intro c hc
    rcases List.mem_pair.1 hc with rfl | rfl
    · exact ⟨_, .lower hinput⟩
    · exact ⟨_, .upper hinput⟩
  have hturns : Turns (disjunctionOf (compared ">" "Y_1" "Y_0"))
      (disjunctionOf (compared "<" "Y_0" "Y_1")) :=
    .inside [_] [] (.inside [_] [] (.inside [_] [] (.greater _ _)))
  have hinputs : ∀ form ∈ [asserting (compared ">=" "X_0" "0"),
      asserting (compared "<=" "X_0" "1"), declaration],
      ¬ form.AssertsDisjunction :=
    reachesOutput_eq_false_iff.1 rfl
  refine .trans (.single (.split [] _ [] hbounds)) ?_
  refine .trans (.single (.turn [_, _, _] [] hturns)) (.single ?_)
  exact .reorder ⟨_, [], rfl⟩ hinputs
    (@List.perm_append_comm _ [_, _] [_]) (.refl [])

theorem read_of_rewrites_rearranged :
    flattenAll conjoinedForms = Token.scan conjoined ∧
    read conjoined none = .ok ⟨[0], [1], 0⟩ ∧
    Relation.ReflTransGen Rewrites conjoinedForms rearrangedForms ∧
    flattenAll rearrangedForms = Token.scan rearranged ∧
    read rearranged none = .ok ⟨[0], [1], 0⟩ := by
  have hforms : flattenAll conjoinedForms = Token.scan conjoined := by
    decide +kernel
  have hforms' : flattenAll rearrangedForms = Token.scan rearranged := by
    decide +kernel
  have hread : read conjoined none = .ok ⟨[0], [1], 0⟩ :=
    toOption_eq_some.1 (by decide +kernel)
  obtain ⟨-, hall⟩ := read_of_rewrites hforms hread rewrites_conjoinedForms
  exact ⟨hforms, hread, rewrites_conjoinedForms, hforms', hall _ hforms'⟩

end Property

end BoxCert
