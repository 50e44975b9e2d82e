import BoxCert.Proofs.Property.Comparisons
import Mathlib.Data.List.Nodup
import Mathlib.Tactic.Common

/-!
# What a property file states

A bound is stated at a place of the file: the path that leads from the forms
of the file to an assertion, and from there through nested conjunctions to a
comparison. This file says what is stated where without saying how it is read,
so a bound that is passed over, taken twice or put on the other side would show
against it.

Reading gathers the bounds of a form in a list. What is shown of that list is
that it *tallies* with the places: it holds the bounds that are stated, and no
input has two bounds on one side in it unless two places state them. Tallies
are put together along a list of forms, which settles the conjunctions and the
assertions of a file with one argument.
-/

namespace BoxCert

namespace Form

/-! ## Places -/

/-- Whether a path leads from a form, through conjunctions, to a form. -/
inductive Reaches : Form → List Nat → Form → Prop
  | here {form : Form} : Reaches form [] form
  | conjunct {items : List Form} {k : Nat} {item target : Form}
      {path : List Nat} (hitem : items[k]? = some item)
      (h : Reaches item path target) :
      Reaches (list (atom "and".toList :: items)) (k :: path) target

/-- Whether a bound is stated at a place below a form. -/
def Conjoins (form : Form) (path : List Nat) (b : WrittenBound) : Prop :=
  ∃ comparison, form.Reaches path comparison ∧ comparison.States b

theorem conjoins_and_iff {items : List Form} {path : List Nat}
    {b : WrittenBound} :
    (list (atom "and".toList :: items)).Conjoins path b ↔
      ∃ k rest item, path = k :: rest ∧ items[k]? = some item ∧
        item.Conjoins rest b := by
  constructor
  · rintro ⟨comparison, hreach, hstates⟩
    cases hreach with
    | here => cases hstates
    | conjunct hitem h => exact ⟨_, _, _, rfl, hitem, _, h, hstates⟩
  · rintro ⟨k, rest, item, rfl, hitem, comparison, h, hstates⟩
    exact ⟨comparison, .conjunct hitem h, hstates⟩

theorem conjoins_iff_of_ne_and {operator : List Char} {arguments : List Form}
    (hand : operator ≠ "and".toList) {path : List Nat} {b : WrittenBound} :
    (list (atom operator :: arguments)).Conjoins path b ↔
      path = [] ∧ writtenBound? operator arguments = some b := by
  rw [← states_iff]
  constructor
  · rintro ⟨comparison, hreach, hstates⟩
    cases hreach with
    | here => exact ⟨rfl, hstates⟩
    | conjunct hitem h => exact absurd rfl hand
  · rintro ⟨rfl, hstates⟩
    exact ⟨_, .here, hstates⟩

theorem not_conjoins_of_call?_eq_none {form : Form} (hcall : form.call? = none)
    (path : List Nat) (b : WrittenBound) : ¬ form.Conjoins path b := by
  rintro ⟨comparison, hreach, hstates⟩
  cases hreach with
  | here => cases hstates <;> cases hcall
  | conjunct hitem h => cases hcall

end Form

/-! ## Tallies -/

/-- What no two bounds may share. -/
def WrittenBound.key (b : WrittenBound) : Nat × Side := (b.index, b.side)

/-- Whether a list holds the bounds that are placed somewhere, those with one
key as often as they have places. -/
structure Tallies (placed : List Nat → WrittenBound → Prop)
    (bounds : List WrittenBound) : Prop where
  mem : ∀ b, b ∈ bounds ↔ ∃ path, placed path b
  nodup : (bounds.map WrittenBound.key).Nodup ↔ ∀ path path' b b',
    placed path b → placed path' b' → b.key = b'.key → path = path'

namespace Tallies

theorem of_iff {placed placed' : List Nat → WrittenBound → Prop}
    {bounds : List WrittenBound} (h : Tallies placed bounds)
    (hiff : ∀ path b, placed' path b ↔ placed path b) :
    Tallies placed' bounds := by
  obtain rfl : placed' = placed := by
    funext path b
    exact propext (hiff path b)
  exact h

theorem nil {placed : List Nat → WrittenBound → Prop}
    (h : ∀ path b, ¬ placed path b) : Tallies placed [] where
  mem b := iff_of_false List.not_mem_nil fun ⟨path, hb⟩ => h path b hb
  nodup := iff_of_true List.nodup_nil fun path _ b _ hb => absurd hb (h path b)

theorem toList (bound : Option WrittenBound) :
    Tallies (fun path b => path = [] ∧ bound = some b) bound.toList where
  mem b := by simp
  nodup := by
    refine iff_of_true ?_ ?_
    · cases bound <;> simp
    · rintro path path' b b' ⟨rfl, -⟩ ⟨rfl, -⟩ -
      rfl

/-- Tallies of the members of a list add up: a place in the list is the
position of a member and a place in it. -/
theorem flatMap {α : Type} {items : List α}
    {placed : α → List Nat → WrittenBound → Prop}
    {bounds : α → List WrittenBound}
    (h : ∀ a ∈ items, Tallies (placed a) (bounds a)) :
    Tallies (fun path b => ∃ k rest a, path = k :: rest ∧
      items[k]? = some a ∧ placed a rest b) (items.flatMap bounds) where
  mem b := by
    rw [List.mem_flatMap]
    constructor
    · rintro ⟨a, ha, hb⟩
      obtain ⟨k, hk⟩ := List.mem_iff_getElem?.1 ha
      obtain ⟨rest, hrest⟩ := ((h a ha).mem b).1 hb
      exact ⟨k :: rest, k, rest, a, rfl, hk, hrest⟩
    · rintro ⟨path, k, rest, a, rfl, hk, hrest⟩
      have ha := List.mem_of_getElem? hk
      exact ⟨a, ha, ((h a ha).mem b).2 ⟨rest, hrest⟩⟩
  nodup := by
    rw [List.map_flatMap, List.nodup_flatMap, List.pairwise_iff_getElem]
    constructor
    · rintro ⟨heach, hpairs⟩
      -- Equal keys stand in one member, since two members share none.
      have hle : ∀ {k k' : Nat} {a a' rest rest' b b'}, items[k]? = some a →
          items[k']? = some a' → placed a rest b → placed a' rest' b' →
          b.key = b'.key → k' ≤ k := by
        intro k k' a a' rest rest' b b' hk hk' hb hb' hkey
        by_contra hlt
        obtain ⟨hlen, rfl⟩ := List.getElem?_eq_some_iff.1 hk
        obtain ⟨hlen', rfl⟩ := List.getElem?_eq_some_iff.1 hk'
        refine hpairs k k' hlen hlen' (Nat.lt_of_not_le hlt)
          (List.mem_map.2 ⟨b, ?_, hkey⟩) (List.mem_map.2 ⟨b', ?_, rfl⟩)
        · exact ((h _ (List.getElem_mem hlen)).mem b).2 ⟨rest, hb⟩
        · exact ((h _ (List.getElem_mem hlen')).mem b').2 ⟨rest', hb'⟩
      rintro path path' b b' ⟨k, rest, a, rfl, hk, hb⟩
        ⟨k', rest', a', rfl, hk', hb'⟩ hkey
      obtain rfl : k = k' :=
        Nat.le_antisymm (hle hk' hk hb' hb hkey.symm) (hle hk hk' hb hb' hkey)
      obtain rfl : a = a' := Option.some.inj (hk.symm.trans hk')
      have ha := List.mem_of_getElem? hk
      rw [(h a ha).nodup.1 (heach a ha) rest rest' b b' hb hb' hkey]
    · intro hunique
      refine ⟨fun a ha => ?_, fun k k' hk hk' hlt key hkey hkey' => ?_⟩
      · obtain ⟨k, hk⟩ := List.mem_iff_getElem?.1 ha
        refine (h a ha).nodup.2 fun rest rest' b b' hb hb' hkey => ?_
        exact (List.cons.inj (hunique _ _ b b' ⟨k, rest, a, rfl, hk, hb⟩
          ⟨k, rest', a, rfl, hk, hb'⟩ hkey)).2
      · obtain ⟨b, hb, rfl⟩ := List.mem_map.1 hkey
        obtain ⟨b', hb', hkey⟩ := List.mem_map.1 hkey'
        obtain ⟨rest, hb⟩ := ((h _ (List.getElem_mem hk)).mem b).1 hb
        obtain ⟨rest', hb'⟩ := ((h _ (List.getElem_mem hk')).mem b').1 hb'
        have heq := hunique _ _ b b'
          ⟨k, rest, _, rfl, List.getElem?_eq_getElem hk, hb⟩
          ⟨k', rest', _, rfl, List.getElem?_eq_getElem hk', hb'⟩ hkey.symm
        exact Nat.ne_of_lt hlt (List.cons.inj heq).1

end Tallies

namespace Form

theorem boundsOfAll_eq_flatMap (items : List Form) :
    boundsOfAll items = items.flatMap bounds := by
  induction items with
  | nil => rfl
  | cons form rest ih => rw [boundsOfAll, ih, List.flatMap_cons]

theorem bounds_of_call?_eq_none {form : Form} (hcall : form.call? = none) :
    form.bounds = [] := by
  unfold bounds
  split
  · cases hcall
  · rfl

mutual

/-- The bounds that are gathered from a form are the ones stated below it. -/
theorem tallies_bounds (form : Form) :
    Tallies form.Conjoins form.bounds := by
  cases form with
  | atom text =>
      rw [bounds_of_call?_eq_none rfl]
      exact .nil (not_conjoins_of_call?_eq_none rfl)
  | list items =>
      cases items with
      | nil =>
          rw [bounds_of_call?_eq_none rfl]
          exact .nil (not_conjoins_of_call?_eq_none rfl)
      | cons head arguments =>
          cases head with
          | list items =>
              rw [bounds_of_call?_eq_none rfl]
              exact .nil (not_conjoins_of_call?_eq_none rfl)
          | atom operator =>
              rw [bounds]
              split
              · next hand =>
                  subst hand
                  rw [boundsOfAll_eq_flatMap]
                  exact (Tallies.flatMap (tallies_each arguments)).of_iff
                    fun path b => conjoins_and_iff
              · next hand =>
                  exact (Tallies.toList _).of_iff
                    fun path b => conjoins_iff_of_ne_and hand

theorem tallies_each (items : List Form) :
    ∀ form ∈ items, Tallies form.Conjoins form.bounds := by
  cases items with
  | nil => exact fun form hform => absurd hform List.not_mem_nil
  | cons head rest =>
      intro form hform
      rcases List.mem_cons.1 hform with hhead | hform
      · rw [hhead]
        exact tallies_bounds head
      · exact tallies_each rest form hform

end

/-! ## Clauses of a file -/

theorem call?_eq_some {form : Form} {operator : List Char}
    {arguments : List Form} : form.call? = some (operator, arguments) ↔
      form = list (atom operator :: arguments) := by
  constructor
  · intro h
    unfold call? at h
    split at h
    · cases h
      rfl
    · cases h
  · rintro rfl
    rfl

theorem asserted?_eq_some {form body : Form} :
    form.asserted? = some body ↔
      ∃ rest, form = list (atom "assert".toList :: body :: rest) := by
  constructor
  · intro h
    unfold asserted? at h
    split at h
    · next head _ rest hcall =>
        split at h
        · next hhead =>
            cases h
            subst hhead
            exact ⟨rest, call?_eq_some.1 hcall⟩
        · cases h
    · cases h
  · rintro ⟨rest, rfl⟩
    rfl

/-- Whether a form asserts a disjunction. -/
def AssertsDisjunction (form : Form) : Prop :=
  ∃ arguments rest, form = list (atom "assert".toList ::
    list (atom "or".toList :: arguments) :: rest)

theorem assertsDisjunction_iff {form : Form} :
    form.assertsDisjunction = true ↔ form.AssertsDisjunction := by
  constructor
  · intro h
    unfold assertsDisjunction at h
    split at h
    · next operator arguments hcall =>
        obtain ⟨body, hbody, hcall⟩ := Option.bind_eq_some_iff.1 hcall
        obtain ⟨rest, rfl⟩ := asserted?_eq_some.1 hbody
        obtain rfl := call?_eq_some.1 hcall
        obtain rfl := of_decide_eq_true h
        exact ⟨arguments, rest, rfl⟩
    · cases h
  · rintro ⟨arguments, rest, rfl⟩
    rfl

/-- Whether a form declares an input. -/
def Declares (form : Form) (i : Nat) : Prop :=
  ∃ name rest, form = list (atom "declare-const".toList :: name :: rest) ∧
    name.Names 'X' i

theorem declared?_eq_some {form : Form} {i : Nat} :
    form.declared? = some i ↔ form.Declares i := by
  constructor
  · intro h
    unfold declared? at h
    split at h
    · next head name rest hcall =>
        split at h
        · next hhead =>
            subst hhead
            exact ⟨name, rest, call?_eq_some.1 hcall,
              variableOf?_eq_some.1 h⟩
        · cases h
    · cases h
  · rintro ⟨name, rest, rfl, h⟩
    exact variableOf?_eq_some.2 h

/-- Whether a path leads from the forms of a file, through an assertion before
the first disjunctive one and through conjunctions, to a form. -/
inductive Asserts (forms : List Form) : List Nat → Form → Prop
  | intro {k : Nat} {body target : Form} {rest : List Form} {path : List Nat}
      (hform : forms[k]? = some (list (atom "assert".toList :: body :: rest)))
      (hbefore : ∀ j ≤ k, ∀ form, forms[j]? = some form →
        ¬ form.AssertsDisjunction)
      (h : body.Reaches path target) : Asserts forms (k :: path) target

/-- Whether a bound is recognised at a place of a file. -/
def Recognises (forms : List Form) (path : List Nat) (b : WrittenBound) :
    Prop :=
  ∃ comparison, Asserts forms path comparison ∧ comparison.States b

/-- Whether a file speaks of an input. -/
def Mentions (forms : List Form) (i : Nat) : Prop :=
  (∃ form ∈ forms, form.Declares i) ∨
    ∃ path b, Recognises forms path b ∧ b.index = i

theorem getElem?_takeWhile {α : Type} {p : α → Bool} {items : List α} {k : Nat}
    {a : α} : (items.takeWhile p)[k]? = some a ↔
      items[k]? = some a ∧ ∀ j ≤ k, ∀ b, items[j]? = some b → p b = true := by
  induction items generalizing k with
  | nil => simp
  | cons head rest ih =>
      cases hp : p head with
      | false =>
          rw [List.takeWhile_cons_of_neg (by simp [hp])]
          refine iff_of_false (by simp) fun ⟨_, h⟩ => ?_
          rw [h 0 (Nat.zero_le k) head rfl] at hp
          cases hp
      | true =>
          rw [List.takeWhile_cons_of_pos hp]
          cases k with
          | zero =>
              refine ⟨fun h => ⟨h, fun j hj b hb => ?_⟩, And.left⟩
              obtain rfl : j = 0 := Nat.le_zero.1 hj
              cases hb
              exact hp
          | succ k =>
              rw [List.getElem?_cons_succ, List.getElem?_cons_succ, ih]
              refine and_congr_right fun _ => ⟨fun h j hj b hb => ?_,
                fun h j hj b hb => h (j + 1) (Nat.succ_le_succ hj) b hb⟩
              cases j with
              | zero =>
                  cases hb
                  exact hp
              | succ j => exact h j (Nat.le_of_succ_le_succ hj) b hb

theorem recognises_iff {forms : List Form} {path : List Nat}
    {b : WrittenBound} : Recognises forms path b ↔
      ∃ k rest form, path = k :: rest ∧
        (forms.takeWhile (!·.assertsDisjunction))[k]? = some form ∧
        ∃ body, form.asserted? = some body ∧ body.Conjoins rest b := by
  constructor
  · rintro ⟨comparison, ⟨hform, hbefore, hreach⟩, hstates⟩
    refine ⟨_, _, _, rfl, getElem?_takeWhile.2 ⟨hform, fun j hj form hk => ?_⟩,
      _, rfl, comparison, hreach, hstates⟩
    rw [Bool.not_eq_true', ← Bool.not_eq_true, assertsDisjunction_iff]
    exact hbefore j hj form hk
  · rintro ⟨k, path, form, rfl, hk, body, hbody, comparison, hreach, hstates⟩
    obtain ⟨hform, hbefore⟩ := getElem?_takeWhile.1 hk
    obtain ⟨rest, rfl⟩ := asserted?_eq_some.1 hbody
    refine ⟨comparison, ⟨hform, fun j hj form hk => ?_, hreach⟩, hstates⟩
    have hnot := hbefore j hj form hk
    rwa [Bool.not_eq_true', ← Bool.not_eq_true, assertsDisjunction_iff] at hnot

theorem tallies_asserted (form : Form) :
    Tallies (fun path b => ∃ body, form.asserted? = some body ∧
      body.Conjoins path b) (form.asserted?.elim [] bounds) := by
  cases form.asserted? with
  | none => exact .nil fun path b ⟨body, h, _⟩ => by cases h
  | some body =>
      refine (tallies_bounds body).of_iff fun path b => ?_
      constructor
      · rintro ⟨_, ⟨⟩, h⟩
        exact h
      · exact fun h => ⟨body, rfl, h⟩

/-- The bounds that are gathered from a file are the recognised ones. -/
theorem tallies_recognises (forms : List Form) :
    Tallies (Recognises forms) (Statements.ofForms forms).bounds :=
  (Tallies.flatMap fun form _ => tallies_asserted form).of_iff
    fun _ _ => recognises_iff

end Form

end BoxCert
