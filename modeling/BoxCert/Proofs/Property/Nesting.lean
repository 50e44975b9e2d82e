import BoxCert.Property.Form
import Mathlib.Algebra.Order.Group.Int
import Mathlib.Tactic.Common

/-!
# Nesting and flattening

Nesting tokens is the inverse of flattening forms: a list of tokens has forms
if and only if its parentheses match, and then they are the only forms that
flatten to it. So what is proved of the forms of a text is proved of its
tokens, and nothing has to be said about the stack of open lists elsewhere.
-/

namespace BoxCert

namespace Token

/-- How many more parentheses a list of tokens opens than it closes. -/
def depth : List Token → Int
  | [] => 0
  | .opening :: rest => depth rest + 1
  | .closing :: rest => depth rest - 1
  | .word _ :: rest => depth rest

/-- Whether the parentheses match: none closes before it opens, and none stays
open. -/
structure Balanced (tokens : List Token) : Prop where
  nonneg : ∀ k, 0 ≤ depth (tokens.take k)
  closed : depth tokens = 0

theorem depth_eq_count (tokens : List Token) :
    depth tokens = tokens.count .opening - tokens.count .closing := by
  induction tokens with
  | nil => rfl
  | cons token rest ih =>
      cases token with
      | opening => simp [depth, ih]; omega
      | closing => simp [depth, ih]; omega
      | word text => simp [depth, ih]

/-- The parentheses match if no prefix closes more than it opens and all of
them close as many as they open. -/
theorem balanced_iff_count {tokens : List Token} : Balanced tokens ↔
    (∀ before, before <+: tokens →
      before.count .closing ≤ before.count .opening) ∧
    tokens.count .opening = tokens.count .closing := by
  have hclosed : depth tokens = 0 ↔
      tokens.count .opening = tokens.count .closing := by
    rw [depth_eq_count]
    omega
  constructor
  · rintro ⟨hnonneg, hdepth⟩
    refine ⟨fun before hbefore => ?_, hclosed.1 hdepth⟩
    have := hnonneg before.length
    rw [← List.prefix_iff_eq_take.1 hbefore, depth_eq_count] at this
    omega
  · rintro ⟨hbefore, hcount⟩
    refine ⟨fun k => ?_, hclosed.2 hcount⟩
    have := hbefore _ (List.take_prefix k tokens)
    rw [depth_eq_count]
    omega

/-- Whether the parentheses match once `n` lists are open. -/
structure BalancedFrom (n : Nat) (tokens : List Token) : Prop where
  nonneg : ∀ k, 0 ≤ n + depth (tokens.take k)
  closed : n + depth tokens = 0

theorem balancedFrom_zero {tokens : List Token} :
    BalancedFrom 0 tokens ↔ Balanced tokens := by
  constructor
  · rintro ⟨hnonneg, hclosed⟩
    exact ⟨fun k => by have := hnonneg k; omega, by omega⟩
  · rintro ⟨hnonneg, hclosed⟩
    exact ⟨fun k => by have := hnonneg k; omega, by omega⟩

/-- One token moves the number of open lists. -/
theorem balancedFrom_cons {n : Nat} {token : Token} {rest : List Token}
    {step : Int}
    (hstep : ∀ tokens, depth (token :: tokens) = depth tokens + step)
    {m : Nat} (hm : (n : Int) + step = m) :
    BalancedFrom n (token :: rest) ↔ BalancedFrom m rest := by
  constructor
  · rintro ⟨hnonneg, hclosed⟩
    refine ⟨fun k => ?_, ?_⟩
    · have := hnonneg (k + 1)
      rw [List.take_succ_cons, hstep] at this
      omega
    · rw [hstep] at hclosed
      omega
  · rintro ⟨hnonneg, hclosed⟩
    refine ⟨fun k => ?_, ?_⟩
    · cases k with
      | zero => simp [depth]
      | succ k =>
          have := hnonneg k
          rw [List.take_succ_cons, hstep]
          omega
    · rw [hstep]
      omega

end Token

namespace Form

open Token

/-! ## What the stack stands for -/

theorem flattenAll_append (items items' : List Form) :
    flattenAll (items ++ items') = flattenAll items ++ flattenAll items' := by
  induction items with
  | nil => rfl
  | cons form rest ih =>
      rw [List.cons_append, flattenAll, flattenAll, ih, List.append_assoc]

/-- The tokens behind the open lists and the forms gathered so far. -/
def unfinished : List (List Form) → List Form → List Token
  | [], done => flattenAll done.reverse
  | parent :: outer, done =>
      unfinished outer parent ++ .opening :: flattenAll done.reverse

theorem unfinished_cons (outer : List (List Form)) (form : Form)
    (done : List Form) :
    unfinished outer (form :: done) =
      unfinished outer done ++ flatten form := by
  have hlast : flattenAll (form :: done).reverse =
      flattenAll done.reverse ++ flatten form := by
    rw [List.reverse_cons, flattenAll_append, flattenAll, flattenAll,
      List.append_nil]
  cases outer with
  | nil => exact hlast
  | cons parent outer =>
      rw [unfinished, unfinished, hlast, List.append_assoc, List.cons_append]

/-- What has been nested flattens back to the tokens that were read. -/
theorem flattenAll_of_nestFrom {outer : List (List Form)}
    {done forms : List Form} {tokens : List Token}
    (h : nestFrom outer done tokens = .ok forms) :
    flattenAll forms = unfinished outer done ++ tokens := by
  induction tokens generalizing outer done with
  | nil =>
      cases outer with
      | nil =>
          cases h
          rw [List.append_nil]
          rfl
      | cons parent outer => cases h
  | cons token rest ih =>
      cases token with
      | opening =>
          rw [nestFrom] at h
          rw [ih h, unfinished, List.reverse_nil, flattenAll, List.append_assoc]
          rfl
      | closing =>
          cases outer with
          | nil => cases h
          | cons parent outer =>
              rw [nestFrom] at h
              rw [ih h, unfinished_cons, flatten, unfinished]
              simp only [List.append_assoc, List.cons_append, List.nil_append]
      | word text =>
          rw [nestFrom] at h
          rw [ih h, unfinished_cons, flatten, List.append_assoc]
          rfl

mutual

/-- The tokens of a form nest back to that form. -/
theorem nestFrom_flatten (form : Form) (outer : List (List Form))
    (done : List Form) (rest : List Token) :
    nestFrom outer done (flatten form ++ rest) =
      nestFrom outer (form :: done) rest := by
  cases form with
  | atom text =>
      rw [flatten, List.singleton_append, nestFrom]
  | list items =>
      rw [flatten, List.append_assoc, List.cons_append, nestFrom,
        nestFrom_flattenAll items, List.singleton_append, nestFrom,
        List.append_nil, List.reverse_reverse]

theorem nestFrom_flattenAll (items : List Form) (outer : List (List Form))
    (done : List Form) (rest : List Token) :
    nestFrom outer done (flattenAll items ++ rest) =
      nestFrom outer (items.reverse ++ done) rest := by
  cases items with
  | nil => rfl
  | cons form items =>
      rw [flattenAll, List.append_assoc, nestFrom_flatten form,
        nestFrom_flattenAll items, List.reverse_cons, List.append_assoc]
      rfl

end

/-- The forms of a list of tokens are the ones that flatten to it. -/
theorem nest_eq_ok_iff {tokens : List Token} {forms : List Form} :
    nest tokens = .ok forms ↔ flattenAll forms = tokens := by
  constructor
  · intro h
    rw [flattenAll_of_nestFrom h]
    rfl
  · rintro rfl
    have h := nestFrom_flattenAll forms [] [] []
    rw [List.append_nil, List.append_nil] at h
    rw [nest, h, nestFrom, List.reverse_reverse]

theorem flattenAll_injective {forms forms' : List Form}
    (h : flattenAll forms = flattenAll forms') : forms = forms' := by
  have hok := nest_eq_ok_iff.2 h
  rw [nest_eq_ok_iff.2 rfl] at hok
  cases hok
  rfl

/-! ## Which tokens have forms -/

theorem exists_nestFrom_iff {tokens : List Token} {outer : List (List Form)}
    {done : List Form} : (∃ forms, nestFrom outer done tokens = .ok forms) ↔
      BalancedFrom outer.length tokens := by
  induction tokens generalizing outer done with
  | nil =>
      cases outer with
      | nil =>
          refine iff_of_true ⟨_, rfl⟩ ⟨fun k => ?_, rfl⟩
          rw [List.take_nil]
          exact le_rfl
      | cons parent outer =>
          refine iff_of_false (fun ⟨_, h⟩ => by cases h) fun h => ?_
          have := h.closed
          rw [depth, List.length_cons] at this
          omega
  | cons token rest ih =>
      cases token with
      | opening =>
          rw [nestFrom, ih]
          exact (balancedFrom_cons (fun _ => rfl) (by simp)).symm
      | closing =>
          cases outer with
          | nil =>
              refine iff_of_false (fun ⟨_, h⟩ => by cases h) fun h => ?_
              have := h.nonneg 1
              rw [List.take_succ_cons, List.take_zero, depth, depth] at this
              simp at this
          | cons parent outer =>
              rw [nestFrom, ih]
              exact (balancedFrom_cons (fun _ => sub_eq_add_neg _ _)
                (by simp)).symm
      | word text =>
          rw [nestFrom, ih]
          exact (balancedFrom_cons (fun _ => (add_zero _).symm)
            (by simp)).symm

/-- Tokens have forms if and only if their parentheses match. -/
theorem exists_nest_iff {tokens : List Token} :
    (∃ forms, nest tokens = .ok forms) ↔ Balanced tokens := by
  rw [← balancedFrom_zero]
  exact exists_nestFrom_iff

end Form

end BoxCert
