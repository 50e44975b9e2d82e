import BoxCert.Proofs.Checked
import BoxCert.Proofs.Json.Floats
import BoxCert.Proofs.Json.Layout

/-!
# Parts that read back

A record that is written with each of its fields once is taken apart into these
fields, a list into its items, and an index into itself. What a list of parts
reads back as is said part by part: a list is read exactly if every part is.
-/

namespace BoxCert.Json

open Number (wellSpelled_ofNat toNat?_ofNat)

/-! ## What may be written -/

theorem areSpelled_iff {items : List Json} :
    AreSpelled items ↔ ∀ item ∈ items, Spelled item := by
  induction items with
  | nil => exact iff_of_true trivial nofun
  | cons item items ih => rw [AreSpelled, ih, List.forall_mem_cons]

theorem spelled_record {members : List (String × Json)}
    (h : ∀ m ∈ members, m.2.Spelled) : (record members).Spelled := by
  rw [record, Spelled]
  induction members with
  | nil => exact trivial
  | cons m members ih =>
      obtain ⟨hm, hmembers⟩ := List.forall_mem_cons.1 h
      exact ⟨rfl, hm, ih hmembers⟩

theorem spelled_map {α : Type} {write : α → Json} {items : List α}
    (h : ∀ a ∈ items, (write a).Spelled) :
    (array (items.map write)).Spelled := by
  rw [Spelled, areSpelled_iff]
  exact List.forall_mem_map.2 h

theorem spelled_nat (n : Nat) : (nat n).Spelled := wellSpelled_ofNat n

theorem spelled_float (x : Binary64) : (float x).Spelled := by
  cases h : x.isFinite with
  | true =>
      obtain ⟨n, hn, hspelled, -⟩ := float_of_isFinite h
      rw [hn]
      exact hspelled
  | false =>
      rw [float_of_not_isFinite h]
      exact trivial

theorem spelled_floats (xs : List Binary64) : (floats xs).Spelled :=
  spelled_map fun x _ => spelled_float x

/-! ## What may be kept -/

theorem isSound_record {members : List (String × Json)}
    (h : ∀ m ∈ members, m.2.isSound = true) :
    (record members).isSound = true := by
  rw [record, isSound]
  induction members with
  | nil => rfl
  | cons m members ih =>
      obtain ⟨hm, hmembers⟩ := List.forall_mem_cons.1 h
      rw [List.map_cons, membersAreSound, hm, ih hmembers]
      rfl

theorem isSound_map {α : Type} {write : α → Json} {items : List α}
    (h : ∀ a ∈ items, (write a).isSound = true) :
    (array (items.map write)).isSound = true := by
  rw [isSound]
  induction items with
  | nil => rfl
  | cons a items ih =>
      obtain ⟨ha, hitems⟩ := List.forall_mem_cons.1 h
      rw [List.map_cons, areSound, ha, ih hitems]
      rfl

theorem isSound_nat {n : Nat} (h : n ≤ Numeral.indexBound) :
    (nat n).isSound = true :=
  isSome_toFloat?_nat (Nat.lt_of_le_of_lt h (by decide))

theorem depth_record_le {members : List (String × Json)} {limit : Nat}
    (h : ∀ m ∈ members, m.2.depth ≤ limit) :
    (record members).depth ≤ limit + 1 := by
  rw [record, depth]
  refine Nat.succ_le_succ ?_
  induction members with
  | nil => exact Nat.zero_le limit
  | cons m members ih =>
      obtain ⟨hm, hmembers⟩ := List.forall_mem_cons.1 h
      rw [List.map_cons, depthOfMembers]
      exact max_le hm (ih hmembers)

theorem depth_map_le {α : Type} {write : α → Json} {items : List α}
    {limit : Nat} (h : ∀ a ∈ items, (write a).depth ≤ limit) :
    (array (items.map write)).depth ≤ limit + 1 := by
  rw [depth]
  refine Nat.succ_le_succ ?_
  induction items with
  | nil => exact Nat.zero_le limit
  | cons a items ih =>
      obtain ⟨ha, hitems⟩ := List.forall_mem_cons.1 h
      rw [List.map_cons, depthOfItems]
      exact max_le ha (ih hitems)

/-! ## Fields -/

theorem onlyMember?_of_mem {members : List (String × Json)}
    (hnodup : (members.map (·.1)).Nodup) {m : String × Json}
    (hm : m ∈ members) :
    onlyMember? (members.map fun m => (some m.1, m.2)) m.1 =
      some (some m.2) := by
  have hfilter : members.filter (·.1 == m.1) = [m] := by
    induction members with
    | nil => cases hm
    | cons head members ih =>
        rw [List.map_cons, List.nodup_cons] at hnodup
        rcases List.mem_cons.1 hm with rfl | hm
        · rw [List.filter_cons, if_pos (beq_self_eq_true m.1),
            List.filter_eq_nil_iff.2]
          intro other hother heq
          exact hnodup.1 (List.mem_map.2 ⟨other, hother, beq_iff_eq.1 heq⟩)
        · rw [List.filter_cons, if_neg, ih hnodup.2 hm]
          intro heq
          exact hnodup.1 (List.mem_map.2 ⟨m, hm, (beq_iff_eq.1 heq).symm⟩)
  have hsome : ((fun member : Option String × Json => member.1 == some m.1) ∘
      fun m : String × Json => (some m.1, m.2)) = (·.1 == m.1) := rfl
  rw [onlyMember?, List.filter_map, hsome, hfilter]
  rfl

/-- A record has the fields that it was written with. -/
theorem fields?_record (members : List (String × Json))
    (h : (members.map (·.1)).Nodup) :
    fields? (members.map (·.1)) (record members) =
      some (members.map fun m => some m.2) := by
  have hnames : (members.map fun m : String × Json =>
      (some m.1, m.2)).any (·.1.isNone) = false := by
    rw [List.any_map, List.any_eq_false]
    exact fun _ _ => Bool.false_ne_true
  rw [record, fields?, hnames, if_neg Bool.false_ne_true, List.mapM_map]
  exact mapM_eq_pure fun m hm => onlyMember?_of_mem h hm

/-! ## Items -/

/-- A list is read exactly if every item is. -/
theorem mapM_eq_some_iff {α β : Type} {f : α → Option β} {reads : α → β → Prop}
    {items : List α} {results : List β}
    (h : ∀ a ∈ items, ∀ b, f a = some b ↔ reads a b) :
    items.mapM f = some results ↔ List.Forall₂ reads items results := by
  induction items generalizing results with
  | nil =>
      rw [List.forall₂_nil_left_iff, List.mapM_nil]
      exact ⟨fun h => (Option.some.inj h).symm, fun h => congrArg some h.symm⟩
  | cons a items ih =>
      obtain ⟨ha, hitems⟩ := List.forall_mem_cons.1 h
      rw [List.mapM_cons, List.forall₂_cons_left_iff]
      simp only [Option.bind_eq_bind, Option.bind_eq_some_iff, ha, ih hitems]
      constructor
      · rintro ⟨b, hb, rest, hrest, h⟩
        exact ⟨b, rest, hb, hrest, (Option.some.inj h).symm⟩
      · rintro ⟨b, rest, hb, hrest, rfl⟩
        exact ⟨b, hb, rest, hrest, rfl⟩

theorem exists_forall₂_iff {α β : Type} {reads : α → β → Prop}
    {items : List α} : (∃ results, List.Forall₂ reads items results) ↔
      ∀ a ∈ items, ∃ b, reads a b := by
  induction items with
  | nil => exact iff_of_true ⟨[], .nil⟩ nofun
  | cons a items ih =>
      rw [List.forall_mem_cons, ← ih]
      simp only [List.forall₂_cons_left_iff]
      constructor
      · rintro ⟨_, b, rest, hb, hrest, rfl⟩
        exact ⟨⟨b, hb⟩, rest, hrest⟩
      · rintro ⟨⟨b, hb⟩, rest, hrest⟩
        exact ⟨_, b, rest, hb, hrest, rfl⟩

theorem toList?_map {α β : Type} (decode : Decoder β) (write : α → Json)
    (items : List α) : toList? decode (array (items.map write)) =
      items.mapM fun a => decode (write a) := by
  rw [toList?, List.mapM_map]
  rfl

theorem toIndex?_nat {n : Nat} (h : n ≤ Numeral.indexBound) :
    toIndex? (nat n) = some n :=
  toNat?_ofNat h

theorem toList?_nats {ns : List Nat} (h : ∀ n ∈ ns, n ≤ Numeral.indexBound) :
    toList? toIndex? (array (ns.map nat)) = some ns := by
  rw [toList?_map]
  exact (mapM_eq_pure fun n hn => toIndex?_nat (h n hn)).trans
    (congrArg some (List.map_id ns))

end BoxCert.Json
