import BoxCert.Proofs.Property.Corners

/-!
# The label of a property file

A file that gives no label states one all the same: the class that its output
comparisons put behind others. Where a comparison counts depends on the first
asserted disjunction. Before it a comparison has to be asserted directly; from
there on it may stand below conjunctions and disjunctions in any nesting.

Reading gathers these classes in a list. What is shown of the list is that it
holds the classes of the comparisons that count and no others, so the label is
found if and only if there is one and all of them agree on it. Neither the
order of the clauses nor how often a class comes up matters, and a label that
is given from outside leaves the box as it is.
-/

namespace BoxCert

namespace Form

/-! ## Output comparisons -/

/-- Whether a comparison puts a class behind another one: it stands on the side
that is to be the smaller. -/
inductive Dominates : Form → Nat → Prop
  | atLeast {left right : Form} {j l : Nat} (hleft : left.Names 'Y' j)
      (hright : right.Names 'Y' l) :
      Dominates (list [atom ">=".toList, left, right]) l
  | greater {left right : Form} {j l : Nat} (hleft : left.Names 'Y' j)
      (hright : right.Names 'Y' l) :
      Dominates (list [atom ">".toList, left, right]) l
  | atMost {left right : Form} {j l : Nat} (hleft : left.Names 'Y' l)
      (hright : right.Names 'Y' j) :
      Dominates (list [atom "<=".toList, left, right]) l
  | less {left right : Form} {j l : Nat} (hleft : left.Names 'Y' l)
      (hright : right.Names 'Y' j) :
      Dominates (list [atom "<".toList, left, right]) l

theorem dominates_iff {operator : List Char} {arguments : List Form}
    {l : Nat} : Dominates (list (atom operator :: arguments)) l ↔
      dominated? operator arguments = some l := by
  constructor
  · intro h
    cases h with
    | atLeast hleft hright | greater hleft hright | atMost hleft hright
    | less hleft hright =>
        rw [dominated?, variableOf?_eq_some.2 hleft,
          variableOf?_eq_some.2 hright]
        rfl
  · intro h
    unfold dominated? at h
    split at h
    · next left right =>
        obtain ⟨i, hleft, h⟩ := Option.bind_eq_some_iff.1 h
        obtain ⟨j, hright, h⟩ := Option.bind_eq_some_iff.1 h
        rw [variableOf?_eq_some] at hleft hright
        split at h
        · next hoperator =>
            cases h
            rw [Bool.or_eq_true, decide_eq_true_eq, decide_eq_true_eq]
              at hoperator
            rcases hoperator with rfl | rfl
            · exact .atLeast hleft hright
            · exact .greater hleft hright
        · split at h
          · next hoperator =>
              cases h
              rw [Bool.or_eq_true, decide_eq_true_eq, decide_eq_true_eq]
                at hoperator
              rcases hoperator with rfl | rfl
              · exact .atMost hleft hright
              · exact .less hleft hright
          · cases h
    · cases h

/-- The operators that compare. -/
def comparators : List (List Char) :=
  [">=".toList, "<=".toList, ">".toList, "<".toList]

theorem ne_of_mem_comparators {operator : List Char}
    (h : operator ∈ comparators) :
    operator ≠ "and".toList ∧ operator ≠ "or".toList ∧
      operator ≠ "assert".toList ∧ operator ≠ "declare-const".toList := by
  revert operator
  simp [comparators]

theorem Dominates.mem_comparators {operator : List Char}
    {arguments : List Form} {l : Nat}
    (h : (list (atom operator :: arguments)).Dominates l) :
    operator ∈ comparators := by
  cases h <;> simp [comparators]

/-- Whether a form stands in another one, below conjunctions and
disjunctions. -/
inductive Nests : Form → Form → Prop
  | here {form : Form} : Nests form form
  | item {operator : List Char} {items : List Form} {item target : Form}
      (hoperator : operator = "and".toList ∨ operator = "or".toList)
      (hitem : item ∈ items) (h : Nests item target) :
      Nests (list (atom operator :: items)) target

/-- Whether some comparison in a form puts a class behind another one. -/
def Concedes (form : Form) (l : Nat) : Prop :=
  ∃ comparison, form.Nests comparison ∧ comparison.Dominates l

theorem not_concedes_of_call?_eq_none {form : Form}
    (hcall : form.call? = none) (l : Nat) : ¬ form.Concedes l := by
  rintro ⟨comparison, hnests, hdominates⟩
  cases hnests with
  | here => cases hdominates <;> cases hcall
  | item => cases hcall

theorem concedes_junction_iff {operator : List Char} {items : List Form}
    (hoperator : operator = "and".toList ∨ operator = "or".toList) {l : Nat} :
    (list (atom operator :: items)).Concedes l ↔
      ∃ item ∈ items, item.Concedes l := by
  constructor
  · rintro ⟨comparison, hnests, hdominates⟩
    cases hnests with
    | here =>
        obtain ⟨hand, hor, -⟩ :=
          ne_of_mem_comparators hdominates.mem_comparators
        exact absurd hoperator (not_or_intro hand hor)
    | item _ hitem h => exact ⟨_, hitem, comparison, h, hdominates⟩
  · rintro ⟨item, hitem, comparison, hnests, hdominates⟩
    exact ⟨comparison, .item hoperator hitem hnests, hdominates⟩

theorem concedes_iff_dominates {operator : List Char} {arguments : List Form}
    (hoperator : ¬ (operator = "and".toList ∨ operator = "or".toList))
    {l : Nat} : (list (atom operator :: arguments)).Concedes l ↔
      (list (atom operator :: arguments)).Dominates l := by
  constructor
  · rintro ⟨comparison, hnests, hdominates⟩
    cases hnests with
    | here => exact hdominates
    | item hjunction => exact absurd hjunction hoperator
  · exact fun h => ⟨_, .here, h⟩

theorem dominatedOfAll_eq_flatMap (items : List Form) :
    dominatedOfAll items = items.flatMap dominated := by
  induction items with
  | nil => rfl
  | cons form rest ih => rw [dominatedOfAll, ih, List.flatMap_cons]

theorem dominated_of_call?_eq_none {form : Form} (hcall : form.call? = none) :
    form.dominated = [] := by
  unfold dominated
  split
  · cases hcall
  · rfl

mutual

/-- The classes that are gathered from a form are the ones that a comparison in
it puts behind. -/
theorem mem_dominated (form : Form) (l : Nat) :
    l ∈ form.dominated ↔ form.Concedes l := by
  cases form with
  | atom text =>
      rw [dominated_of_call?_eq_none rfl]
      exact iff_of_false List.not_mem_nil
        (not_concedes_of_call?_eq_none rfl l)
  | list items =>
      cases items with
      | nil =>
          rw [dominated_of_call?_eq_none rfl]
          exact iff_of_false List.not_mem_nil
            (not_concedes_of_call?_eq_none rfl l)
      | cons head arguments =>
          cases head with
          | list items =>
              rw [dominated_of_call?_eq_none rfl]
              exact iff_of_false List.not_mem_nil
                (not_concedes_of_call?_eq_none rfl l)
          | atom operator =>
              rw [dominated]
              split
              · next hoperator =>
                  rw [Bool.or_eq_true, decide_eq_true_eq, decide_eq_true_eq]
                    at hoperator
                  rw [concedes_junction_iff hoperator]
                  exact mem_dominatedOfAll arguments l
              · next hoperator =>
                  rw [Bool.or_eq_true, decide_eq_true_eq, decide_eq_true_eq]
                    at hoperator
                  rw [concedes_iff_dominates hoperator, dominates_iff,
                    Option.mem_toList]

theorem mem_dominatedOfAll (items : List Form) (l : Nat) :
    l ∈ dominatedOfAll items ↔ ∃ item ∈ items, item.Concedes l := by
  cases items with
  | nil => simp [dominatedOfAll]
  | cons form rest =>
      rw [dominatedOfAll, List.mem_append, List.exists_mem_cons_iff,
        mem_dominated form, mem_dominatedOfAll rest]

end

/-! ## Clauses that count -/

/-- The classes that a file states for its label. -/
inductive Labels (forms : List Form) (l : Nat) : Prop
  /-- Asserted directly, before the first asserted disjunction. -/
  | input {k : Nat} {body : Form} {rest : List Form}
      (hform : forms[k]? = some (list (atom "assert".toList :: body :: rest)))
      (hbefore : ∀ j ≤ k, ∀ form, forms[j]? = some form →
        ¬ form.AssertsDisjunction)
      (h : body.Dominates l)
  /-- Asserted at any depth, from the first asserted disjunction on. -/
  | output {j k : Nat} {first body : Form} {rest : List Form}
      (hfirst : forms[j]? = some first)
      (hdisjunction : first.AssertsDisjunction) (hle : j ≤ k)
      (hform : forms[k]? = some (list (atom "assert".toList :: body :: rest)))
      (h : body.Concedes l)

theorem directlyDominated?_eq_some {form : Form} {l : Nat} :
    form.directlyDominated? = some l ↔
      ∃ body, form.asserted? = some body ∧ body.Dominates l := by
  rw [directlyDominated?]
  constructor
  · intro h
    obtain ⟨body, hbody, h⟩ := Option.bind_eq_some_iff.1 h
    obtain ⟨⟨operator, arguments⟩, hcall, h⟩ := Option.bind_eq_some_iff.1 h
    rw [call?_eq_some] at hcall
    exact ⟨body, hbody, hcall ▸ dominates_iff.2 h⟩
  · rintro ⟨body, hbody, h⟩
    have hcall : ∃ operator arguments,
        body = list (atom operator :: arguments) := by
      cases h <;> exact ⟨_, _, rfl⟩
    obtain ⟨operator, arguments, rfl⟩ := hcall
    rw [hbody]
    exact dominates_iff.1 h

theorem mem_dropWhile_iff {α : Type} {p : α → Bool} {items : List α} {a : α} :
    a ∈ items.dropWhile p ↔ ∃ (j k : Nat) (b : α), j ≤ k ∧
      items[j]? = some b ∧ p b = false ∧ items[k]? = some a := by
  induction items with
  | nil => simp
  | cons head rest ih =>
      cases hp : p head with
      | false =>
          rw [List.dropWhile_cons_of_neg (by simp [hp])]
          constructor
          · intro ha
            obtain ⟨k, hk⟩ := List.mem_iff_getElem?.1 ha
            exact ⟨0, k, head, Nat.zero_le k, rfl, hp, hk⟩
          · rintro ⟨-, k, -, -, -, -, hk⟩
            exact List.mem_of_getElem? hk
      | true =>
          rw [List.dropWhile_cons_of_pos hp, ih]
          constructor
          · rintro ⟨j, k, b, hle, hj, hb, hk⟩
            exact ⟨j + 1, k + 1, b, Nat.succ_le_succ hle, hj, hb, hk⟩
          · rintro ⟨j, k, b, hle, hj, hb, hk⟩
            cases j with
            | zero =>
                cases hj
                rw [hp] at hb
                cases hb
            | succ j =>
                cases k with
                | zero => exact absurd hle (Nat.not_succ_le_zero j)
                | succ k =>
                    exact ⟨j, k, b, Nat.le_of_succ_le_succ hle, hj, hb, hk⟩

variable {forms : List Form}

theorem mem_labels_input {l : Nat} :
    (∃ form ∈ forms.takeWhile (!·.assertsDisjunction),
      form.directlyDominated? = some l) ↔
    ∃ (k : Nat) (body : Form) (rest : List Form), forms[k]? =
        some (list (atom "assert".toList :: body :: rest)) ∧
      (∀ j ≤ k, ∀ form, forms[j]? = some form → ¬ form.AssertsDisjunction) ∧
      body.Dominates l := by
  simp only [directlyDominated?_eq_some]
  constructor
  · rintro ⟨form, hform, body, hbody, h⟩
    obtain ⟨k, hk⟩ := List.mem_iff_getElem?.1 hform
    obtain ⟨hk, hbefore⟩ := getElem?_takeWhile.1 hk
    obtain ⟨rest, rfl⟩ := asserted?_eq_some.1 hbody
    refine ⟨k, body, rest, hk, fun j hj form hform hnot => ?_, h⟩
    have := hbefore j hj form hform
    rw [assertsDisjunction_iff.2 hnot] at this
    cases this
  · rintro ⟨k, body, rest, hk, hbefore, h⟩
    refine ⟨_, List.mem_of_getElem? (getElem?_takeWhile.2
      ⟨hk, fun j hj form hform => ?_⟩), body, rfl, h⟩
    rw [Bool.not_eq_true', ← Bool.not_eq_true, assertsDisjunction_iff]
    exact hbefore j hj form hform

theorem mem_labels_output {l : Nat} :
    (∃ form ∈ forms.dropWhile (!·.assertsDisjunction),
      l ∈ form.asserted?.elim [] dominated) ↔
    ∃ (j k : Nat) (first body : Form) (rest : List Form),
      forms[j]? = some first ∧ first.AssertsDisjunction ∧ j ≤ k ∧
      forms[k]? = some (list (atom "assert".toList :: body :: rest)) ∧
      body.Concedes l := by
  simp only [mem_dropWhile_iff, Bool.not_eq_false', assertsDisjunction_iff]
  constructor
  · rintro ⟨form, ⟨j, k, first, hle, hj, hfirst, hk⟩, hmem⟩
    cases hbody : form.asserted? with
    | none =>
        rw [hbody] at hmem
        cases hmem
    | some body =>
        rw [hbody] at hmem
        obtain ⟨rest, rfl⟩ := asserted?_eq_some.1 hbody
        exact ⟨j, k, first, body, rest, hj, hfirst, hle, hk,
          (mem_dominated body l).1 hmem⟩
  · rintro ⟨j, k, first, body, rest, hj, hfirst, hle, hk, h⟩
    exact ⟨_, ⟨j, k, first, hle, hj, hfirst, hk⟩, (mem_dominated body l).2 h⟩

/-- The classes that are gathered from a file are the ones that it states. -/
theorem mem_labels {l : Nat} :
    l ∈ (Statements.ofForms forms).labels ↔ Labels forms l := by
  rw [Statements.ofForms, List.mem_append, List.mem_filterMap,
    List.mem_flatMap, mem_labels_input, mem_labels_output]
  constructor
  · rintro (⟨k, body, rest, hk, hbefore, h⟩ |
      ⟨j, k, first, body, rest, hj, hfirst, hle, hk, h⟩)
    · exact .input hk hbefore h
    · exact .output hj hfirst hle hk h
  · rintro (⟨hk, hbefore, h⟩ | ⟨hj, hfirst, hle, hk, h⟩)
    · exact .inl ⟨_, _, _, hk, hbefore, h⟩
    · exact .inr ⟨_, _, _, _, _, hj, hfirst, hle, hk, h⟩

end Form

namespace Statements

variable {s : Statements} {l : Nat}

/-! ## One label -/

theorem label_of_nil (h : s.labels = []) :
    s.label = .error (.invalidSpec .noLabel) := by
  rw [label, h]

/-- A label is found if there is one and all agree on it. -/
theorem label_eq_ok_iff : s.label = .ok l ↔
    (∃ m, m ∈ s.labels) ∧ ∀ m ∈ s.labels, m = l := by
  rw [label]
  split
  · next hnil => simp [hnil]
  · next first rest hcons =>
      rw [hcons, List.forall_mem_cons]
      split
      · next other hother =>
          refine iff_of_false (fun h => by cases h) ?_
          rintro ⟨-, rfl, hrest⟩
          have hne := List.find?_some hother
          rw [hrest other (List.mem_of_find?_eq_some hother)] at hne
          simp at hne
      · next hnone =>
          have hrest : ∀ m ∈ rest, m = first := fun m hm => by
            simpa using List.find?_eq_none.1 hnone m hm
          constructor
          · intro h
            cases h
            exact ⟨⟨l, List.mem_cons_self⟩, rfl, hrest⟩
          · rintro ⟨-, rfl, -⟩
            rfl

/-- Where two labels differ, two that do are told. -/
theorem label_of_ne {l' : Nat} (hl : l ∈ s.labels) (hl' : l' ∈ s.labels)
    (hne : l ≠ l') : ∃ first ∈ s.labels, ∃ other ∈ s.labels, first ≠ other ∧
      s.label = .error (.invalidSpec (.conflictingLabels first other)) := by
  cases hlabel : s.label with
  | ok m =>
      obtain ⟨-, hall⟩ := label_eq_ok_iff.1 hlabel
      exact absurd ((hall l hl).trans (hall l' hl').symm) hne
  | error fault =>
      rw [label] at hlabel
      split at hlabel
      · next hnil =>
          rw [hnil] at hl
          cases hl
      · next first rest hcons =>
          split at hlabel
          · next other hother =>
              cases hlabel
              have hdiffers := List.find?_some hother
              rw [bne_iff_ne] at hdiffers
              rw [hcons]
              exact ⟨first, List.mem_cons_self, other,
                List.mem_cons_of_mem _ (List.mem_of_find?_eq_some hother),
                hdiffers.symm, rfl⟩
          · cases hlabel

end Statements

namespace Property

open Binary64 Form

variable {text : List Char} {forms : List Form}

/-- Reading a text whose forms are known: first the corners, then the label. -/
theorem read_of_forms (hforms : flattenAll forms = Token.scan text)
    (label : Option Nat) :
    read text label = (Statements.ofForms forms).corners.bind fun corners =>
      (label.elim (Statements.ofForms forms).label .ok).map fun l =>
        ⟨corners.1, corners.2, l⟩ := by
  rw [read, Form.read, nest_eq_ok_iff.2 hforms]
  dsimp only
  cases (Statements.ofForms forms).corners with
  | error fault => rfl
  | ok corners =>
      cases label with
      | some l => rfl
      | none => cases (Statements.ofForms forms).label <;> rfl

/-- A text is read as a property if it has the corners and the label of it. -/
theorem read_eq_ok_iff_of_forms (hforms : flattenAll forms = Token.scan text)
    {label : Option Nat} {p : Property} : read text label = .ok p ↔
      (Statements.ofForms forms).corners = .ok (p.lower, p.upper) ∧
        label.elim (Statements.ofForms forms).label .ok = .ok p.label := by
  rw [read_of_forms hforms]
  constructor
  · intro h
    obtain ⟨⟨lower, upper⟩, hcorners, h⟩ := bind_eq_ok.1 h
    obtain ⟨l, hlabel, h⟩ := bind_eq_ok.1 ((bind_pure_comp _ _).trans h)
    cases h
    exact ⟨hcorners, hlabel⟩
  · rintro ⟨hcorners, hlabel⟩
    rw [hcorners]
    show Except.map _ _ = _
    rw [hlabel]
    rfl

/-- A text that states a box has the label that all its output comparisons
agree on, and none if there are no such comparisons or two of them differ. A
label that is given is taken instead, whatever the text states, and the box is
the same in either case. -/
theorem read_label_unanimous {box : Property}
    (hforms : flattenAll forms = Token.scan text) (hbox : box.IsBoxOf forms) :
    (∀ p, read text none = .ok p ↔
      p.lower = box.lower ∧ p.upper = box.upper ∧
        (∃ l, Labels forms l) ∧ ∀ l, Labels forms l → l = p.label) ∧
    ((∀ l, ¬ Labels forms l) →
      read text none = .error (.invalidSpec .noLabel)) ∧
    (∀ l l', Labels forms l → Labels forms l' → l ≠ l' →
      ∃ first other, Labels forms first ∧ Labels forms other ∧
        first ≠ other ∧ read text none =
          .error (.invalidSpec (.conflictingLabels first other))) ∧
    ∀ l, read text (some l) = .ok ⟨box.lower, box.upper, l⟩ := by
  have hread := read_of_forms hforms
  rw [corners_of_isBoxOf hbox] at hread
  refine ⟨fun p => ?_, fun hnone => ?_, fun l l' hl hl' hne => ?_,
    fun l => hread (some l)⟩
  · have hlabel : (Statements.ofForms forms).label = .ok p.label ↔
        (∃ l, Labels forms l) ∧ ∀ l, Labels forms l → l = p.label := by
      simp only [Statements.label_eq_ok_iff, mem_labels]
    rw [read_eq_ok_iff_of_forms hforms, corners_of_isBoxOf hbox, ← hlabel,
      ← and_assoc]
    refine and_congr_left' ⟨fun h => ?_, fun ⟨hlower, hupper⟩ => ?_⟩
    · have hcorners := Prod.mk.inj (Except.ok.inj h)
      exact ⟨hcorners.1.symm, hcorners.2.symm⟩
    · rw [hlower, hupper]
  · have hnil : (Statements.ofForms forms).labels = [] :=
      List.eq_nil_iff_forall_not_mem.2 fun l hl => hnone l (mem_labels.1 hl)
    rw [hread none]
    show (Statements.label _).map _ = _
    rw [Statements.label_of_nil hnil]
    rfl
  · obtain ⟨first, hfirst, other, hother, hdiffers, hlabel⟩ :=
      Statements.label_of_ne (mem_labels.2 hl) (mem_labels.2 hl') hne
    refine ⟨first, other, mem_labels.1 hfirst, mem_labels.1 hother, hdiffers,
      ?_⟩
    rw [hread none]
    show (Statements.label _).map _ = _
    rw [hlabel]
    rfl

/-- A text whose output comparisons stand on both sides of the first asserted
disjunction, in all four spellings. -/
def contested : List Char :=
  ("(assert (<= Y_0 Y_1)) (assert (and (<= -1 X0) (>= 2 X_0)))" ++
    "(assert (or (and (>= Y_1 Y_0) (or (< Y0 Y_2))) (>= X_1 5)))" ++
    "(assert (and (> Y_2 Y_0)))").toList

/-- A form that applies an operator. -/
def applied (operator : String) (arguments : List Form) : Form :=
  list (atom operator.toList :: arguments)

/-- A comparison of two words. -/
def compared (operator left right : String) : Form :=
  applied operator [atom left.toList, atom right.toList]

def contestedForms : List Form :=
  [applied "assert" [compared "<=" "Y_0" "Y_1"],
    applied "assert" [applied "and" [compared "<=" "-1" "X0",
      compared ">=" "2" "X_0"]],
    applied "assert" [applied "or" [applied "and" [compared ">=" "Y_1" "Y_0",
      applied "or" [compared "<" "Y0" "Y_2"]], compared ">=" "X_1" "5"]],
    applied "assert" [applied "and" [compared ">" "Y_2" "Y_0"]]]

theorem read_label_unanimous_contested :
    flattenAll contestedForms = Token.scan contested ∧
    IsBoxOf ⟨[-1], [ofBits 0x4000000000000000], 0⟩ contestedForms ∧
    (∃ l, Labels contestedForms l) ∧ (∀ l, Labels contestedForms l → l = 0) ∧
    read contested none = .ok ⟨[-1], [ofBits 0x4000000000000000], 0⟩ ∧
    read contested (some 7) =
      .ok ⟨[-1], [ofBits 0x4000000000000000], 7⟩ := by
  have hforms : flattenAll contestedForms = Token.scan contested := by
    decide +kernel
  have hbox : IsBoxOf ⟨[-1], [ofBits 0x4000000000000000], 0⟩ contestedForms :=
    isBoxOf_of_corners (toOption_eq_some.1 (by decide +kernel))
  have hlabels : (Statements.ofForms contestedForms).labels = [0, 0, 0, 0] := by
    decide +kernel
  have hsome : ∃ l, Labels contestedForms l :=
    ⟨0, mem_labels.1 (hlabels ▸ List.mem_cons_self)⟩
  have hall : ∀ l, Labels contestedForms l → l = 0 := by
    intro l hl
    rw [← mem_labels, hlabels] at hl
    simpa using hl
  obtain ⟨hnone, -, -, hgiven⟩ := read_label_unanimous hforms hbox
  exact ⟨hforms, hbox, hsome, hall, (hnone _).2 ⟨rfl, rfl, hsome, hall⟩,
    hgiven 7⟩

end Property

end BoxCert
