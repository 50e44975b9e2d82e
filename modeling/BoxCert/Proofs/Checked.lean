import BoxCert.Fault

/-!
# Checked computations

A checked computation succeeds or fails with a fault, and a chain of them does
what its first failing part does. Where only the result matters and not the
fault, the computation is read as an option.
-/

namespace BoxCert

/-- A chain of checks succeeds if and only if each of them does, whatever they
fail with. -/
theorem bind_eq_ok {ε α β : Type} {x : Except ε α} {f : α → Except ε β}
    {r : β} :
    x >>= f = .ok r ↔ ∃ a, x = .ok a ∧ f a = .ok r := by
  cases x with
  | error fault =>
      refine iff_of_false nofun ?_
      rintro ⟨_, h, -⟩
      cases h
  | ok a =>
      refine ⟨fun h => ⟨a, rfl, h⟩, ?_⟩
      rintro ⟨_, ha, h⟩
      cases ha
      exact h

/-- A computation over a list, of whatever kind, succeeds where it does so for
each item. -/
theorem mapM_eq_pure {m : Type → Type} [Monad m] [LawfulMonad m] {α β : Type}
    {f : α → m β} {g : α → β} {items : List α}
    (h : ∀ a ∈ items, f a = pure (g a)) :
    items.mapM f = pure (items.map g) := by
  induction items with
  | nil => exact List.mapM_nil
  | cons a items ih =>
      rw [List.mapM_cons, h a List.mem_cons_self, pure_bind,
        ih fun b hb => h b (List.mem_cons_of_mem a hb), pure_bind,
        List.map_cons]

/-- What a run computes, read from it without an equality of faults. -/
theorem exists_ok_of_toOption {α β : Type} {x : Checked α} {f : α → β} {y : β}
    (h : x.toOption.map f = some y) : ∃ a, x = .ok a ∧ f a = y := by
  cases x with
  | error fault => cases h
  | ok a => exact ⟨a, rfl, Option.some.inj h⟩

/-- A chain of checks fails with the fault of the first one that fails. -/
theorem bind_eq_error {α β : Type} {x : Checked α} {f : α → Checked β}
    {fault : Fault} : x >>= f = .error fault ↔
      x = .error fault ∨ ∃ a, x = .ok a ∧ f a = .error fault := by
  cases x with
  | error other =>
      constructor
      · intro h
        cases h
        exact .inl rfl
      · rintro (h | ⟨_, h, -⟩)
        · cases h
          rfl
        · cases h
  | ok a =>
      constructor
      · exact fun h => .inr ⟨a, rfl, h⟩
      · rintro (h | ⟨_, ha, h⟩)
        · cases h
        · cases ha
          exact h

theorem toOption_eq_some {α : Type} {x : Checked α} {a : α} :
    x.toOption = some a ↔ x = .ok a := by
  cases x with
  | error fault => exact iff_of_false nofun nofun
  | ok b =>
      constructor
      · intro h
        rw [Option.some.inj h]
      · intro h
        cases h
        rfl

theorem toOption_bind {α β : Type} (x : Checked α) (f : α → Checked β) :
    (x >>= f).toOption = x.toOption.bind fun a => (f a).toOption := by
  cases x <;> rfl

end BoxCert
