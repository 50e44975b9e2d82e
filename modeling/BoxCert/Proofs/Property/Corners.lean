import BoxCert.Proofs.Certification
import BoxCert.Proofs.Property.Nesting
import BoxCert.Proofs.Property.Statements
import Mathlib.Order.Bounds.Basic

/-!
# The box of a property file

Reading goes from the stated bounds to corners in two loops. The first one
gathers the bounds and stops at a number that cannot be read or at a side that
is bounded already; the second one goes through the inputs and stops at the
first without a range. So both succeed or fail with the bounds as a whole, and
the order in which a file states them does not matter. `Boxes` says what has
to hold of them.

The main result is `Property.read_iff_states_box`: a text is read if and only
if its parentheses match and its forms state a box, and the corners are the
bounds of the text, so the points between them are those at which its
comparisons hold.
-/

namespace BoxCert

namespace Bound

/-! ## Gathering bounds -/

/-- What no two bounds share. -/
def key (b : Bound) : Nat × Side := (b.index, b.side)

/-- Whether a bound is the meaning of a written one. -/
structure Reads (b : Bound) (w : WrittenBound) : Prop where
  key : b.key = w.key
  value : w.number.Spells b.value

theorem Reads.unique {b b' : Bound} {w : WrittenBound} (h : b.Reads w)
    (h' : b'.Reads w) : b = b' := by
  obtain ⟨i, side, x⟩ := b
  obtain ⟨i', side', x'⟩ := b'
  obtain ⟨rfl, rfl⟩ := Prod.mk.inj (h.key.trans h'.key.symm)
  rw [show x = x' from h.value.unique h'.value]

variable {known result : List Bound} {written : List WrittenBound}

theorem find?_eq_none_iff {side : Side} {i : Nat} :
    find? known side i = none ↔ (i, side) ∉ known.map key := by
  rw [find?, Option.map_eq_none_iff, List.find?_eq_none]
  constructor
  · intro h hmem
    obtain ⟨b, hb, hkey⟩ := List.mem_map.1 hmem
    obtain ⟨rfl, rfl⟩ := Prod.mk.inj hkey
    exact h b hb (by simp)
  · intro h b hb hfound
    simp only [Bool.and_eq_true, beq_iff_eq] at hfound
    obtain ⟨rfl, rfl⟩ := hfound
    exact h (List.mem_map.2 ⟨b, hb, rfl⟩)

theorem mem_of_find?_eq_some {side : Side} {i : Nat} {x : Binary64}
    (h : find? known side i = some x) : ⟨i, side, x⟩ ∈ known := by
  obtain ⟨b, hb, rfl⟩ := Option.map_eq_some_iff.1 h
  have hkey := List.find?_some hb
  simp only [Bool.and_eq_true, beq_iff_eq] at hkey
  obtain ⟨rfl, rfl⟩ := hkey
  exact List.mem_of_find?_eq_some hb

theorem find?_eq_some_iff (hnodup : (known.map key).Nodup) {side : Side}
    {i : Nat} {x : Binary64} :
    find? known side i = some x ↔ ⟨i, side, x⟩ ∈ known := by
  refine ⟨mem_of_find?_eq_some, fun h => ?_⟩
  cases hfound : find? known side i with
  | none =>
      exact absurd (List.mem_map.2 ⟨_, h, rfl⟩) (find?_eq_none_iff.1 hfound)
  | some y =>
      have hsame := List.inj_on_of_nodup_map hnodup h
        (mem_of_find?_eq_some hfound) rfl
      cases hsame
      rfl

/-- A bound is added if its number can be read and its side is still free. -/
theorem add_eq_ok_iff {w : WrittenBound} :
    add known w = .ok result ↔
      ∃ b : Bound, b.Reads w ∧ w.key ∉ known.map key ∧ result = b :: known := by
  rw [add]
  constructor
  · intro h
    split at h
    · cases h
    · next value hvalue =>
        split at h
        · cases h
        · next hfree =>
            cases h
            refine ⟨_, ⟨rfl, Form.number_eq_ok.1 hvalue⟩, ?_, rfl⟩
            rw [Bool.not_eq_true, Option.isSome_eq_false_iff,
              Option.isNone_iff_eq_none] at hfree
            exact find?_eq_none_iff.1 hfree
  · rintro ⟨⟨i, side, value⟩, ⟨hkey, hvalue⟩, hfree, rfl⟩
    obtain ⟨rfl, rfl⟩ := Prod.mk.inj hkey
    simp [Form.number_eq_ok.2 hvalue, find?_eq_none_iff.2 hfree]

theorem nodup_cons_of_reads {b : Bound} {w : WrittenBound} (hb : b.Reads w)
    (hfree : w.key ∉ known.map key) (hnodup : (known.map key).Nodup) :
    ((b :: known).map key).Nodup := by
  rw [List.map_cons, hb.key]
  exact List.nodup_cons.2 ⟨hfree, hnodup⟩

theorem nodup_of_foldlM_add (hnodup : (known.map key).Nodup)
    (h : written.foldlM add known = .ok result) :
    (result.map key).Nodup := by
  induction written generalizing known with
  | nil =>
      cases h
      exact hnodup
  | cons w rest ih =>
      obtain ⟨next, hadd, h⟩ := bind_eq_ok.1 h
      obtain ⟨b, hb, hfree, rfl⟩ := add_eq_ok_iff.1 hadd
      exact ih (nodup_cons_of_reads hb hfree hnodup) h

theorem mem_of_foldlM_add (h : written.foldlM add known = .ok result)
    {b : Bound} : b ∈ result ↔ b ∈ known ∨ ∃ w ∈ written, b.Reads w := by
  induction written generalizing known with
  | nil =>
      cases h
      simp
  | cons w rest ih =>
      obtain ⟨next, hadd, h⟩ := bind_eq_ok.1 h
      obtain ⟨b', hb', -, rfl⟩ := add_eq_ok_iff.1 hadd
      have huniq : b = b' ↔ b.Reads w :=
        ⟨fun h => h ▸ hb', fun h => h.unique hb'⟩
      rw [ih h, List.mem_cons, huniq, List.exists_mem_cons_iff]
      tauto

/-- Bounds can be gathered if and only if each number can be read and no side
of an input is bounded twice. -/
theorem exists_foldlM_add_iff (hnodup : (known.map key).Nodup) :
    (∃ result, written.foldlM add known = .ok result) ↔
      (∀ w ∈ written, ∃ x, w.number.Spells x) ∧
        (written.map WrittenBound.key ++ known.map key).Nodup := by
  induction written generalizing known with
  | nil => exact iff_of_true ⟨known, rfl⟩ ⟨by simp, by simpa using hnodup⟩
  | cons w rest ih =>
      have hswap : ((w :: rest).map WrittenBound.key ++ known.map key).Nodup ↔
          (rest.map WrittenBound.key ++ w.key :: known.map key).Nodup :=
        List.nodup_middle.symm
      rw [hswap, List.forall_mem_cons]
      constructor
      · rintro ⟨result, h⟩
        obtain ⟨next, hadd, h⟩ := bind_eq_ok.1 h
        obtain ⟨b, hb, hfree, rfl⟩ := add_eq_ok_iff.1 hadd
        obtain ⟨hall, hkeys⟩ :=
          (ih (nodup_cons_of_reads hb hfree hnodup)).1 ⟨result, h⟩
        rw [List.map_cons, hb.key] at hkeys
        exact ⟨⟨⟨_, hb.value⟩, hall⟩, hkeys⟩
      · rintro ⟨⟨⟨x, hx⟩, hall⟩, hkeys⟩
        have hfree := (List.nodup_cons.1 hkeys.of_append_right).1
        have hb : Reads ⟨w.index, w.side, x⟩ w := ⟨rfl, hx⟩
        obtain ⟨result, h⟩ :=
          (ih (nodup_cons_of_reads hb hfree hnodup)).2 ⟨hall, hkeys⟩
        exact ⟨result, bind_eq_ok.2
          ⟨_, add_eq_ok_iff.2 ⟨_, hb, hfree, rfl⟩, h⟩⟩

/-- Bounds are gathered from none if and only if all can be read and no side of
an input is bounded twice. -/
theorem exists_foldlM_add_nil_iff :
    (∃ known, written.foldlM add [] = .ok known) ↔
      (∀ w ∈ written, ∃ x, w.number.Spells x) ∧
        (written.map WrittenBound.key).Nodup := by
  rw [@exists_foldlM_add_iff [] _ List.nodup_nil, List.map_nil,
    List.append_nil]

/-- What is found among them are the bounds that can be read. -/
theorem find?_of_foldlM_add_nil (h : written.foldlM add [] = .ok known)
    {side : Side} {i : Nat} {x : Binary64} :
    find? known side i = some x ↔ ∃ w ∈ written, Reads ⟨i, side, x⟩ w := by
  have hnodup := @nodup_of_foldlM_add [] _ _ List.nodup_nil h
  rw [find?_eq_some_iff hnodup, mem_of_foldlM_add h,
    or_iff_right List.not_mem_nil]

/-! ## Pairing bounds -/

variable {dim : Nat}

theorem ends_eq_ok_iff {i : Nat} {low high : Binary64} :
    ends known i = .ok (low, high) ↔ find? known .lower i = some low ∧
      find? known .upper i = some high ∧ ¬ high < low := by
  rw [ends]
  constructor
  · intro h
    split at h
    · cases h
    · cases h
    · next hlow hhigh =>
        split at h
        · cases h
        · cases h
          exact ⟨hlow, hhigh, ‹_›⟩
  · rintro ⟨hlow, hhigh, hle⟩
    simp only [hlow, hhigh, if_neg hle]

/-- Pairs are found from an input on if and only if each of the inputs has
one. -/
theorem exists_endsFrom_iff {i : Nat} :
    (∃ pairs, endsFrom known dim i = .ok pairs) ↔
      ∀ k, i ≤ k → k < dim → ∃ pair, ends known k = .ok pair := by
  fun_induction endsFrom known dim i with
  | case1 i hi fault hends =>
      refine iff_of_false nofun fun h => ?_
      obtain ⟨pair, hpair⟩ := h i le_rfl hi
      rw [hends] at hpair
      cases hpair
  | case2 i hi pair hends fault hrest ih =>
      refine iff_of_false nofun fun h => ?_
      obtain ⟨pairs, hpairs⟩ := ih.2 fun k hk => h k (Nat.le_of_succ_le hk)
      rw [hrest] at hpairs
      cases hpairs
  | case3 i hi pair hends rest hrest ih =>
      refine iff_of_true ⟨_, rfl⟩ fun k hk hdim => ?_
      rcases Nat.eq_or_lt_of_le hk with rfl | hlt
      · exact ⟨pair, hends⟩
      · exact ih.1 ⟨rest, hrest⟩ k hlt hdim
  | case4 i hi =>
      exact iff_of_true ⟨[], rfl⟩ fun k hk hdim => by omega

theorem getElem?_of_endsFrom {i : Nat} {pairs : List (Binary64 × Binary64)}
    (h : endsFrom known dim i = .ok pairs) : pairs.length = dim - i ∧
      ∀ k pair, pairs[k]? = some pair ↔
        i + k < dim ∧ ends known (i + k) = .ok pair := by
  fun_induction endsFrom known dim i generalizing pairs with
  | case1 i hi fault hends => cases h
  | case2 i hi pair hends fault hrest ih => cases h
  | case3 i hi pair hends rest hrest ih =>
      cases h
      obtain ⟨hlength, hrest⟩ := ih hrest
      refine ⟨by rw [List.length_cons, hlength]; omega, fun k pair' => ?_⟩
      cases k with
      | zero => simp [hi, hends]
      | succ k =>
          rw [List.getElem?_cons_succ, hrest]
          rw [show i + 1 + k = i + (k + 1) by omega]
  | case4 i hi =>
      cases h
      refine ⟨by rw [List.length_nil]; omega, fun k pair => ?_⟩
      exact iff_of_false (by simp) fun h => by omega

/-- A list of ends reads back the bounds on its side, as long as no bound lies
beyond the list. -/
theorem getElem?_map_iff {pairs : List (Binary64 × Binary64)}
    {f : Binary64 × Binary64 → Binary64} {side : Side} {i : Nat} {x : Binary64}
    (hends : ∀ pair, pairs[i]? = some pair → find? known side i = some (f pair))
    (hlt : find? known side i = some x → i < pairs.length) :
    (pairs.map f)[i]? = some x ↔ find? known side i = some x := by
  rw [List.getElem?_map, Option.map_eq_some_iff]
  constructor
  · rintro ⟨pair, hpair, rfl⟩
    exact hends pair hpair
  · intro h
    have hpair := List.getElem?_eq_getElem (hlt h)
    exact ⟨_, hpair, Option.some.inj ((hends _ hpair).symm.trans h)⟩

end Bound

namespace Form

/-! ## Boxes -/

/-- Whether a file states a bound for a side of an input. -/
def Bounds (forms : List Form) (i : Nat) (side : Side) (x : Binary64) : Prop :=
  ∃ path number, Recognises forms path ⟨i, side, number⟩ ∧ number.Spells x

/-- Whether the bounds of a file make a box of `dim` inputs. -/
structure Boxes (forms : List Form) (dim : Nat) : Prop where
  greatest : ∃ d, dim = d + 1 ∧ IsGreatest {i | Mentions forms i} d
  numeral : ∀ path b, Recognises forms path b → ∃ x, b.number.Spells x
  unique : ∀ path path' b b', Recognises forms path b →
    Recognises forms path' b' → b.key = b'.key → path = path'
  complete : ∀ i < dim, ∃ low high, Bounds forms i .lower low ∧
    Bounds forms i .upper high ∧ low ≤ high

variable {forms : List Form} {known : List Bound}

/-- What has been gathered from a file are the bounds that it states. -/
theorem bounds_iff_mem
    (h : (Statements.ofForms forms).bounds.foldlM Bound.add [] = .ok known)
    {i : Nat} {side : Side} {x : Binary64} :
    Bounds forms i side x ↔ Bound.find? known side i = some x := by
  rw [Bound.find?_of_foldlM_add_nil h]
  constructor
  · rintro ⟨path, number, hb, hx⟩
    exact ⟨_, ((tallies_recognises forms).mem _).2 ⟨path, hb⟩, rfl, hx⟩
  · rintro ⟨⟨j, side', number⟩, hw, hkey, hx⟩
    obtain ⟨path, hb⟩ := ((tallies_recognises forms).mem _).1 hw
    obtain ⟨rfl, rfl⟩ := Prod.mk.inj hkey
    exact ⟨path, number, hb, hx⟩

theorem bounds_isFinite {i : Nat} {side : Side} {x : Binary64}
    (h : Bounds forms i side x) : x.isFinite = true := by
  obtain ⟨_, _, _, _, _, _, hfin⟩ := h
  exact hfin

end Form

namespace Statements

open Form

variable {forms : List Form}

/-! ## The number of inputs -/

theorem foldl_max_succ_le_iff {α : Type} {f : α → Nat} {items : List α}
    {n m : Nat} : items.foldl (fun n a => max n (f a + 1)) n ≤ m ↔
      n ≤ m ∧ ∀ a ∈ items, f a < m := by
  induction items generalizing n with
  | nil => simp
  | cons a rest ih =>
      rw [List.foldl_cons, ih, List.forall_mem_cons, max_le_iff,
        Nat.succ_le_iff, and_assoc]

theorem dim_ofForms_le_iff {m : Nat} :
    (ofForms forms).dim ≤ m ↔ ∀ i, Mentions forms i → i < m := by
  have hdeclared : (ofForms forms).declaredInputs ≤ m ↔
      ∀ i, (∃ form ∈ forms, form.Declares i) → i < m := by
    rw [ofForms, foldl_max_succ_le_iff, and_iff_right (Nat.zero_le m)]
    simp only [List.mem_filterMap, declared?_eq_some]
  have hbounded : (∀ b ∈ (ofForms forms).bounds, b.index < m) ↔
      ∀ i, (∃ path b, Recognises forms path b ∧ b.index = i) → i < m := by
    simp only [(tallies_recognises forms).mem]
    constructor
    · rintro h i ⟨path, b, hb, rfl⟩
      exact h b ⟨path, hb⟩
    · rintro h b ⟨path, hb⟩
      exact h _ ⟨path, b, hb, rfl⟩
  rw [dim, foldl_max_succ_le_iff, hdeclared, hbounded, ← forall_and]
  simp only [Mentions, or_imp]

/-- The number of inputs is one more than the largest index in the file. -/
theorem dim_ofForms_eq_succ_iff {d : Nat} :
    (ofForms forms).dim = d + 1 ↔ IsGreatest {i | Mentions forms i} d := by
  constructor
  · intro hdim
    have hbound := dim_ofForms_le_iff.1 (le_of_eq hdim)
    refine ⟨?_, fun i hi => Nat.le_of_lt_succ (hbound i hi)⟩
    by_contra hd
    have hle : (ofForms forms).dim ≤ d := dim_ofForms_le_iff.2 fun i hi =>
      lt_of_le_of_ne (Nat.le_of_lt_succ (hbound i hi)) fun h => hd (h ▸ hi)
    omega
  · rintro ⟨hd, hle⟩
    apply le_antisymm
    · exact dim_ofForms_le_iff.2 fun i hi => Nat.lt_succ_of_le (hle hi)
    · exact dim_ofForms_le_iff.1 le_rfl d hd

/-! ## The corners of the box -/

theorem corners_eq_ok_iff {s : Statements} {lower upper : List Binary64} :
    s.corners = .ok (lower, upper) ↔ ∃ known pairs,
      s.bounds.foldlM Bound.add [] = .ok known ∧ s.dim ≠ 0 ∧
        Bound.endsFrom known s.dim 0 = .ok pairs ∧
        lower = pairs.map Prod.fst ∧ upper = pairs.map Prod.snd := by
  rw [corners, bind_eq_ok]
  constructor
  · rintro ⟨known, hknown, h⟩
    split at h
    · cases h
    · next hdim =>
        obtain ⟨pairs, hpairs, h⟩ := bind_eq_ok.1 h
        rw [List.unzip_eq_map] at h
        cases h
        exact ⟨known, pairs, hknown, hdim, hpairs, rfl, rfl⟩
  · rintro ⟨known, pairs, hknown, hdim, hpairs, rfl, rfl⟩
    refine ⟨known, hknown, ?_⟩
    rw [if_neg hdim]
    exact bind_eq_ok.2 ⟨pairs, hpairs, by rw [List.unzip_eq_map]; rfl⟩

/-- The bounds of a file can be gathered if and only if they have numbers and
no two places state one for the same side of the same input. -/
theorem exists_gathered_iff :
    (∃ known, (ofForms forms).bounds.foldlM Bound.add [] = .ok known) ↔
      (∀ path b, Recognises forms path b → ∃ x, b.number.Spells x) ∧
        ∀ path path' b b', Recognises forms path b →
          Recognises forms path' b' → b.key = b'.key → path = path' := by
  have htally := tallies_recognises forms
  rw [Bound.exists_foldlM_add_nil_iff, htally.nodup]
  refine and_congr_left fun _ => ⟨fun h path b hb => ?_, fun h b hb => ?_⟩
  · exact h b ((htally.mem b).2 ⟨path, hb⟩)
  · obtain ⟨path, hb⟩ := (htally.mem b).1 hb
    exact h path b hb

theorem lt_dim_of_bounds {i : Nat} {side : Side} {x : Binary64}
    (h : Bounds forms i side x) : i < (ofForms forms).dim := by
  obtain ⟨path, number, hb, -⟩ := h
  exact dim_ofForms_le_iff.1 le_rfl i (.inr ⟨path, _, hb, rfl⟩)

theorem exists_ends_iff {known : List Bound}
    (h : (ofForms forms).bounds.foldlM Bound.add [] = .ok known) {i : Nat} :
    (∃ pair, Bound.ends known i = .ok pair) ↔ ∃ low high,
      Bounds forms i .lower low ∧ Bounds forms i .upper high ∧ low ≤ high := by
  have hiff : ∀ low high, Bound.ends known i = .ok (low, high) ↔
      Bounds forms i .lower low ∧ Bounds forms i .upper high ∧
        low ≤ high := by
    intro low high
    rw [Bound.ends_eq_ok_iff, ← bounds_iff_mem h, ← bounds_iff_mem h]
    refine and_congr_right fun hlow => and_congr_right fun hhigh => ?_
    exact Binary64.not_below_iff
      (Binary64.isNan_of_isFinite (bounds_isFinite hlow))
      (Binary64.isNan_of_isFinite (bounds_isFinite hhigh))
  simp only [Prod.exists, hiff]

/-- Reading finds corners if and only if the file states a box. -/
theorem exists_corners_iff :
    (∃ corners, (ofForms forms).corners = .ok corners) ↔
      ∃ dim, Boxes forms dim := by
  constructor
  · rintro ⟨⟨lower, upper⟩, h⟩
    obtain ⟨known, pairs, hknown, hdim, hpairs, -⟩ := corners_eq_ok_iff.1 h
    obtain ⟨hnumeral, hunique⟩ := exists_gathered_iff.1 ⟨known, hknown⟩
    obtain ⟨d, hd⟩ := Nat.exists_eq_succ_of_ne_zero hdim
    refine ⟨_, ⟨d, hd, dim_ofForms_eq_succ_iff.1 hd⟩, hnumeral, hunique,
      fun i hi => ?_⟩
    exact (exists_ends_iff hknown).1
      (Bound.exists_endsFrom_iff.1 ⟨pairs, hpairs⟩ i (Nat.zero_le i) hi)
  · rintro ⟨dim, ⟨d, rfl, hgreatest⟩, hnumeral, hunique, hcomplete⟩
    obtain ⟨known, hknown⟩ := exists_gathered_iff.2 ⟨hnumeral, hunique⟩
    have hdim := dim_ofForms_eq_succ_iff.2 hgreatest
    obtain ⟨pairs, hpairs⟩ := Bound.exists_endsFrom_iff.2 fun i _ hi =>
      (exists_ends_iff hknown).2 (hcomplete i (hdim ▸ hi))
    exact ⟨_, corners_eq_ok_iff.2
      ⟨known, pairs, hknown, by omega, hpairs, rfl, rfl⟩⟩

theorem length_of_corners {lower upper : List Binary64}
    (h : (ofForms forms).corners = .ok (lower, upper)) :
    lower.length = (ofForms forms).dim ∧
      upper.length = (ofForms forms).dim := by
  obtain ⟨known, pairs, -, -, hpairs, rfl, rfl⟩ := corners_eq_ok_iff.1 h
  have hlength := (Bound.getElem?_of_endsFrom hpairs).1
  rw [List.length_map, List.length_map, hlength]
  exact ⟨Nat.sub_zero _, Nat.sub_zero _⟩

/-- The corners hold the bounds of the file, each at its input. -/
theorem getElem?_of_corners {lower upper : List Binary64}
    (h : (ofForms forms).corners = .ok (lower, upper)) (i : Nat)
    (x : Binary64) : (lower[i]? = some x ↔ Bounds forms i .lower x) ∧
      (upper[i]? = some x ↔ Bounds forms i .upper x) := by
  obtain ⟨known, pairs, hknown, -, hpairs, rfl, rfl⟩ := corners_eq_ok_iff.1 h
  obtain ⟨hlength, hget⟩ := Bound.getElem?_of_endsFrom hpairs
  have hends : ∀ pair, pairs[i]? = some pair →
      Bound.find? known .lower i = some pair.1 ∧
        Bound.find? known .upper i = some pair.2 := by
    intro pair hpair
    have hok := ((hget i pair).1 hpair).2
    rw [Nat.zero_add, Bound.ends_eq_ok_iff] at hok
    exact ⟨hok.1, hok.2.1⟩
  -- A bounded input has its pair, since it counts among the inputs.
  have hlt : ∀ {side}, Bound.find? known side i = some x →
      i < pairs.length := by
    intro side hx
    rw [hlength]
    exact lt_dim_of_bounds ((bounds_iff_mem hknown).2 hx)
  rw [bounds_iff_mem hknown, bounds_iff_mem hknown]
  exact ⟨Bound.getElem?_map_iff (fun pair hpair => (hends pair hpair).1) hlt,
    Bound.getElem?_map_iff (fun pair hpair => (hends pair hpair).2) hlt⟩

end Statements

namespace Property

open Binary64 Form

/-- Whether a property has the box that a file states: as many inputs as the
file speaks of, its bounds for corners, and all points at which its recognised
comparisons hold. -/
structure IsBoxOf (p : Property) (forms : List Form) : Prop where
  boxes : Boxes forms p.dim
  length_upper : p.upper.length = p.dim
  lower : ∀ i x, p.lower[i]? = some x ↔ Bounds forms i .lower x
  upper : ∀ i x, p.upper[i]? = some x ↔ Bounds forms i .upper x
  covers : ∀ y : Nat → ℝ, (∀ path comparison b, Asserts forms path comparison →
    comparison.States b → Holds y comparison) ↔
      p.Covers fun k : Fin p.dim => y k

variable {forms : List Form} {p : Property}

theorem covers_iff (hboxes : Boxes forms p.dim)
    (hlower : ∀ i x, p.lower[i]? = some x ↔ Bounds forms i .lower x)
    (hupper : ∀ i x, p.upper[i]? = some x ↔ Bounds forms i .upper x)
    (y : Nat → ℝ) :
    (∀ path comparison b, Asserts forms path comparison →
      comparison.States b → Holds y comparison) ↔
        p.Covers fun k : Fin p.dim => y k := by
  constructor
  · intro h
    have hadmits : ∀ {i side x}, Bounds forms i side x →
        side.Admits x.toReal (y i) := by
      rintro i side x ⟨path, number, ⟨comparison, hasserts, hstates⟩, hx⟩
      exact (holds_iff_of_states hstates hx).1
        (h path comparison _ hasserts hstates)
    exact ⟨fun k x hx => hadmits ((hlower k x).1 hx),
      fun k x hx => hadmits ((hupper k x).1 hx)⟩
  · rintro ⟨hlow, hhigh⟩ path comparison b hasserts hstates
    have hb : Recognises forms path b := ⟨comparison, hasserts, hstates⟩
    obtain ⟨d, hd, -, hgreatest⟩ := hboxes.greatest
    have hi : b.index < p.dim := by
      rw [hd]
      exact Nat.lt_succ_of_le (hgreatest (.inr ⟨path, b, hb, rfl⟩))
    obtain ⟨x, hx⟩ := hboxes.numeral path b hb
    rw [holds_iff_of_states hstates hx]
    obtain ⟨i, side, number⟩ := b
    have hbound : Bounds forms i side x := ⟨path, number, hb, hx⟩
    cases side with
    | lower => exact hlow ⟨i, hi⟩ x ((hlower i x).2 hbound)
    | upper => exact hhigh ⟨i, hi⟩ x ((hupper i x).2 hbound)

theorem read_eq_ok_iff {text : List Char} {label : Nat} :
    read text (some label) = .ok p ↔
      ∃ forms, flattenAll forms = Token.scan text ∧ ∃ lower upper,
        (Statements.ofForms forms).corners = .ok (lower, upper) ∧
          p = ⟨lower, upper, label⟩ := by
  simp only [← nest_eq_ok_iff]
  rw [read, Form.read]
  constructor
  · intro h
    split at h
    · cases h
    · next forms hforms =>
        obtain ⟨⟨lower, upper⟩, hcorners, h⟩ := bind_eq_ok.1 h
        cases h
        exact ⟨forms, hforms, lower, upper, hcorners, rfl⟩
  · rintro ⟨forms, hforms, lower, upper, hcorners, rfl⟩
    rw [hforms]
    exact bind_eq_ok.2 ⟨_, hcorners, rfl⟩

theorem isBoxOf_of_corners {lower upper : List Binary64} {label : Nat}
    (h : (Statements.ofForms forms).corners = .ok (lower, upper)) :
    IsBoxOf ⟨lower, upper, label⟩ forms := by
  have hget := Statements.getElem?_of_corners h
  obtain ⟨hlower, hupper⟩ := Statements.length_of_corners h
  obtain ⟨dim, hboxes⟩ := Statements.exists_corners_iff.1 ⟨_, h⟩
  have hdim : dim = lower.length := by
    obtain ⟨d, rfl, hgreatest⟩ := hboxes.greatest
    rw [hlower, Statements.dim_ofForms_eq_succ_iff.2 hgreatest]
  subst hdim
  exact ⟨hboxes, hupper.trans hlower.symm, fun i x => (hget i x).1,
    fun i x => (hget i x).2, covers_iff hboxes (fun i x => (hget i x).1)
      fun i x => (hget i x).2⟩

theorem corners_of_isBoxOf (h : p.IsBoxOf forms) :
    (Statements.ofForms forms).corners = .ok (p.lower, p.upper) := by
  obtain ⟨⟨lower, upper⟩, hcorners⟩ :=
    Statements.exists_corners_iff.2 ⟨_, h.boxes⟩
  have hget := Statements.getElem?_of_corners hcorners
  obtain rfl : lower = p.lower := List.ext_getElem? fun i =>
    Option.ext fun x => by rw [(hget i x).1, h.lower]
  obtain rfl : upper = p.upper := List.ext_getElem? fun i =>
    Option.ext fun x => by rw [(hget i x).2, h.upper]
  exact hcorners

/-- A text is read if and only if its parentheses match and its forms state a
box, and what is read is that box. -/
theorem read_iff_states_box (text : List Char) (label : Nat) :
    ((∃ p, read text (some label) = .ok p) ↔
      Token.Balanced (Token.scan text) ∧
        ∀ forms, flattenAll forms = Token.scan text →
          ∃ dim, Boxes forms dim) ∧
      ∀ p, read text (some label) = .ok p ↔
        ∃ forms, flattenAll forms = Token.scan text ∧ p.label = label ∧
          p.IsBoxOf forms := by
  constructor
  · constructor
    · rintro ⟨p, hread⟩
      obtain ⟨forms, hforms, lower, upper, hcorners, -⟩ :=
        read_eq_ok_iff.1 hread
      refine ⟨exists_nest_iff.1 ⟨forms, nest_eq_ok_iff.2 hforms⟩,
        fun forms' hforms' => ?_⟩
      obtain rfl := flattenAll_injective (hforms'.trans hforms.symm)
      exact Statements.exists_corners_iff.1 ⟨_, hcorners⟩
    · rintro ⟨hbalanced, hboxes⟩
      obtain ⟨forms, hnest⟩ := exists_nest_iff.2 hbalanced
      have hforms := nest_eq_ok_iff.1 hnest
      obtain ⟨⟨lower, upper⟩, hcorners⟩ :=
        Statements.exists_corners_iff.2 (hboxes forms hforms)
      exact ⟨_, read_eq_ok_iff.2 ⟨forms, hforms, lower, upper, hcorners, rfl⟩⟩
  · intro p
    rw [read_eq_ok_iff]
    constructor
    · rintro ⟨forms, hforms, lower, upper, hcorners, rfl⟩
      exact ⟨forms, hforms, rfl, isBoxOf_of_corners hcorners⟩
    · rintro ⟨forms, hforms, rfl, h⟩
      exact ⟨forms, hforms, p.lower, p.upper, corners_of_isBoxOf h, rfl⟩

-- What is asserted after the disjunction bounds nothing.
example : (read ("(assert (and (<= -1 X0) (>= 2 X_0)))" ++
    "(assert (or (>= Y_1 Y_0)))(assert (>= X_1 5))").toList
    (some 0)).toOption = some ⟨[-1], [ofBits 0x4000000000000000], 0⟩ := by
  decide +kernel

end Property

end BoxCert
