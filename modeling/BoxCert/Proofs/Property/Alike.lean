import BoxCert.Proofs.Property.Labels

/-!
# Statements that are read alike

What a file states is gathered in lists, but little of their order is left once
the box and the label are found: a bound counts by its input, its side and its
number, the declarations by the largest index, and the labels by whether they
agree. Two files whose statements differ in nothing else are read alike.

Of a bound only the meaning is compared, because the same bound can be written
around different forms. Where its number cannot be read it means nothing, and
then the file is not read at all.
-/

namespace BoxCert

/-- What a written bound means, if its number can be read. -/
def WrittenBound.meaning? (w : WrittenBound) : Option Bound :=
  w.number.number.toOption.map fun x => ⟨w.index, w.side, x⟩

namespace Bound

variable {known : List Bound} {written written' : List WrittenBound}

theorem reads_iff {b : Bound} {w : WrittenBound} :
    b.Reads w ↔ w.meaning? = some b := by
  rw [WrittenBound.meaning?, Option.map_eq_some_iff]
  constructor
  · rintro ⟨hkey, hvalue⟩
    obtain ⟨i, side, x⟩ := b
    obtain ⟨rfl, rfl⟩ := Prod.mk.inj hkey
    exact ⟨x, by rw [Form.number_eq_ok.2 hvalue]; rfl, rfl⟩
  · rintro ⟨x, hx, rfl⟩
    refine ⟨rfl, Form.number_eq_ok.1 ?_⟩
    cases hnumber : w.number.number with
    | error fault =>
        rw [hnumber] at hx
        cases hx
    | ok y =>
        rw [hnumber] at hx
        cases hx
        rfl

theorem exists_spells_iff {w : WrittenBound} :
    (∃ x, w.number.Spells x) ↔ ∃ b, w.meaning? = some b := by
  constructor
  · rintro ⟨x, hx⟩
    exact ⟨⟨w.index, w.side, x⟩, reads_iff.1 ⟨rfl, hx⟩⟩
  · rintro ⟨b, hb⟩
    exact ⟨_, (reads_iff.2 hb).value⟩

/-- Bounds that can be read have the inputs and sides of their meanings. -/
theorem map_key_meaning? (h : ∀ w ∈ written, ∃ x, w.number.Spells x) :
    (written.map WrittenBound.meaning?).map (Option.map key) =
      (written.map WrittenBound.key).map some := by
  rw [List.map_map, List.map_map]
  refine List.map_congr_left fun w hw => ?_
  obtain ⟨b, hb⟩ := exists_spells_iff.1 (h w hw)
  rw [Function.comp_apply, Function.comp_apply, hb, Option.map_some,
    (reads_iff.2 hb).key]

section Gathering

variable (hperm : (written.map WrittenBound.meaning?).Perm
  (written'.map WrittenBound.meaning?))

include hperm

theorem exists_reads_of_perm {b : Bound} :
    (∃ w ∈ written', b.Reads w) ↔ ∃ w ∈ written, b.Reads w := by
  simp only [reads_iff]
  rw [← List.mem_map, ← List.mem_map]
  exact hperm.symm.mem_iff

theorem spells_of_perm (h : ∀ w ∈ written, ∃ x, w.number.Spells x) :
    ∀ w ∈ written', ∃ x, w.number.Spells x := by
  intro w' hw'
  obtain ⟨w, hw, hmeaning⟩ :=
    List.mem_map.1 (hperm.mem_iff.2 (List.mem_map_of_mem hw'))
  rw [exists_spells_iff, ← hmeaning]
  exact exists_spells_iff.1 (h w hw)

theorem keys_perm (h : ∀ w ∈ written, ∃ x, w.number.Spells x) :
    (written.map WrittenBound.key).Perm (written'.map WrittenBound.key) := by
  have hkeys := hperm.map (Option.map key)
  rw [map_key_meaning? h, map_key_meaning? (spells_of_perm hperm h)] at hkeys
  exact (List.map_perm_map_iff (Option.some_injective _)).1 hkeys

/-- Bounds with the same meanings are gathered together, and every input has
the same ends after it. -/
theorem exists_gathered_of_perm (h : written.foldlM add [] = .ok known) :
    ∃ known', written'.foldlM add [] = .ok known' ∧
      ∀ side i, find? known' side i = find? known side i := by
  obtain ⟨hall, hkeys⟩ := exists_foldlM_add_nil_iff.1 ⟨known, h⟩
  obtain ⟨known', h'⟩ := exists_foldlM_add_nil_iff.2
    ⟨spells_of_perm hperm hall, (keys_perm hperm hall).nodup_iff.1 hkeys⟩
  refine ⟨known', h', fun side i => Option.ext fun x => ?_⟩
  rw [find?_of_foldlM_add_nil h', find?_of_foldlM_add_nil h,
    exists_reads_of_perm hperm]

end Gathering

/-- The ends of the inputs depend on nothing but which bounds are found. -/
theorem endsFrom_congr {known' : List Bound}
    (h : ∀ side i, find? known' side i = find? known side i) (dim i : Nat) :
    endsFrom known' dim i = endsFrom known dim i := by
  have hends : ∀ k, ends known' k = ends known k := by
    intro k
    rw [ends, ends, h, h]
  fun_induction endsFrom known dim i with
  | case1 i hi fault hfault => rw [endsFrom, if_pos hi, hends, hfault]
  | case2 i hi pair hpair fault hrest ih =>
      rw [endsFrom, if_pos hi, hends, hpair]
      dsimp only
      rw [ih, hrest]
  | case3 i hi pair hpair rest hrest ih =>
      rw [endsFrom, if_pos hi, hends, hpair]
      dsimp only
      rw [ih, hrest]
  | case4 i hi => rw [endsFrom, if_neg hi]

end Bound

namespace Statements

variable {s t : Statements}

/-- Whether two files state the same up to the order of what they state. -/
structure Alike (s t : Statements) : Prop where
  bounds : (s.bounds.map WrittenBound.meaning?).Perm
    (t.bounds.map WrittenBound.meaning?)
  declaredInputs : s.declaredInputs = t.declaredInputs
  labels : s.labels.Perm t.labels

theorem foldl_max_perm {α : Type} {f : α → Nat} {items items' : List α}
    (h : items.Perm items') (n : Nat) :
    items.foldl (fun n a => max n (f a + 1)) n =
      items'.foldl (fun n a => max n (f a + 1)) n := by
  have : RightCommutative fun (n : Nat) (a : α) => max n (f a + 1) :=
    ⟨fun n a b => by omega⟩
  exact h.foldl_eq n

theorem dim_of_keys_perm (h : (s.bounds.map WrittenBound.key).Perm
    (t.bounds.map WrittenBound.key))
    (hdeclared : s.declaredInputs = t.declaredInputs) : s.dim = t.dim := by
  have hfold := foldl_max_perm (f := Prod.fst) h t.declaredInputs
  rw [List.foldl_map, List.foldl_map] at hfold
  rw [dim, dim, hdeclared]
  exact hfold

/-- Statements that are alike make the same box. -/
theorem Alike.corners {corners : List Binary64 × List Binary64}
    (h : s.Alike t) (hs : s.corners = .ok corners) :
    t.corners = .ok corners := by
  obtain ⟨lower, upper⟩ := corners
  obtain ⟨known, pairs, hknown, hdim, hpairs, hlower, hupper⟩ :=
    corners_eq_ok_iff.1 hs
  obtain ⟨known', hknown', hfind⟩ :=
    Bound.exists_gathered_of_perm h.bounds hknown
  have hspells := (Bound.exists_foldlM_add_nil_iff.1 ⟨known, hknown⟩).1
  have hsame := dim_of_keys_perm (Bound.keys_perm h.bounds hspells)
    h.declaredInputs
  rw [hsame] at hdim hpairs
  rw [← Bound.endsFrom_congr hfind] at hpairs
  exact corners_eq_ok_iff.2
    ⟨known', pairs, hknown', hdim, hpairs, hlower, hupper⟩

theorem Alike.label {l : Nat} (h : s.Alike t) (hs : s.label = .ok l) :
    t.label = .ok l := by
  rw [label_eq_ok_iff] at hs ⊢
  simpa only [h.labels.mem_iff] using hs

end Statements

end BoxCert
