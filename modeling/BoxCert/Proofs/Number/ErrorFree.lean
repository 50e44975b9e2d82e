import BoxCert.Proofs.Number.Representable

/-!
# Recovering the error of a sum

The error of a rounded sum is an integer of 53 bits itself, so it can be
computed, and this file shows that subtracting the operands back out of the
sum computes it: each of the four subtractions and the last addition has a
representable result, whatever the sizes and signs of the operands.

Two facts carry the argument. Subtracting the larger term from a rounded sum
is exact (`Nearest.sub_left`). And where subtracting the first term is not
exact, that term is the smaller one and the sum is at least as large as it, so
the first fact applies to the subtraction instead.

How far the intermediate results can lie from zero is shown beside, because
the range is not part of this arithmetic.
-/

namespace BoxCert

namespace Nearest

variable {a b s t : Int}

theorem error_le_right (h : Nearest s (a + b) 1) (ha : Representable a) :
    (a + b - s).natAbs ≤ b.natAbs := by
  have := h.closest a ha
  omega

theorem error_le_left (h : Nearest s (a + b) 1) (hb : Representable b) :
    (a + b - s).natAbs ≤ a.natAbs := by
  have := h.closest b hb
  omega

/-- The error of a rounded sum is representable. -/
theorem error (h : Nearest s (a + b) 1) (ha : Representable a)
    (hb : Representable b) : Representable (a + b - s) := by
  have hleft := h.error_le_left hb
  have hright := h.error_le_right ha
  obtain ⟨k, hk, hak⟩ := ha.exists_step
  obtain ⟨l, hl, hbl⟩ := hb.exists_step
  rcases Nat.le_total k l with hkl | hlk
  · have hsum := dvd_add hk (dvd_trans (pow_dvd_pow 2 hkl) hl)
    exact .of_dvd (dvd_sub hsum (h.two_pow_dvd hsum)) (by omega)
  · have hsum := dvd_add (dvd_trans (pow_dvd_pow 2 hlk) hk) hl
    exact .of_dvd (dvd_sub hsum (h.two_pow_dvd hsum)) (by omega)

/-- Taking the larger term out of a rounded sum is exact. -/
theorem sub_left (h : Nearest s (a + b) 1) (ha : Representable a)
    (hb : Representable b) (hba : b.natAbs ≤ a.natAbs) :
    Representable (s - a) := by
  obtain ⟨j, hdvd, herr, hlt, hlow⟩ := h.exists_grid
  cases j with
  | zero =>
      rw [show s - a = b by omega]
      exact hb
  | succ i =>
      have hsucc : (2 : Nat) ^ (i + 1) = 2 * 2 ^ i := by
        rw [Nat.pow_succ, Nat.mul_comm]
      have hai : (2 : Int) ^ i ∣ a := ha.two_pow_dvd (by omega)
      have hsi : (2 : Int) ^ i ∣ s :=
        dvd_trans (pow_dvd_pow 2 (Nat.le_succ i)) hdvd
      by_cases hbi : b.natAbs ≤ (2 ^ 53 - 1) * 2 ^ i
      · exact .of_dvd (dvd_sub hsi hai) (by omega)
      · -- Both terms lie on the coarser grid, so the sum was exact.
        have hsum := dvd_add (ha.two_pow_succ_dvd (i := i) (by omega))
          (hb.two_pow_succ_dvd (by omega))
        rw [h.eq_of_representable (.of_dvd hsum (by omega)),
          add_sub_cancel_left]
        exact hb

/-- The first term can be taken out of the sum exactly unless it is smaller
than the second and no larger than the sum. -/
theorem sub_left_or (h : Nearest s (a + b) 1) (ha : Representable a)
    (hb : Representable b) : Representable (s - a) ∨
      a.natAbs < b.natAbs ∧ a.natAbs ≤ s.natAbs := by
  by_cases hba : b.natAbs ≤ a.natAbs
  · exact .inl (h.sub_left ha hb hba)
  · by_cases has : a.natAbs ≤ s.natAbs
    · exact .inr ⟨by omega, has⟩
    · -- The terms cancel, so nothing is rounded.
      have hsum : (a + b).natAbs < a.natAbs := by
        by_contra hle
        exact has (h.le_natAbs ha (by omega))
      rw [h.eq_of_representable (ha.add_of_le hb (by omega) (by omega)),
        add_sub_cancel_left]
      exact .inl hb

end Nearest

/-- What the compensated sum computes after `s` and `t`, the rounded values of
`a + b` and `s - a`: every further result is exact. -/
structure ErrorFree (a b s t : Int) : Prop where
  /-- What is left of the sum without the second term's share. -/
  restored : Representable (s - t)
  firstLoss : Representable (a - (s - t))
  secondLoss : Representable (b - t)
  /-- Both losses together are the error of the sum. -/
  error : Representable (a - (s - t) + (b - t))
  /-- What is left lies within every range that holds the other numbers. -/
  restored_le : ∀ bound : Nat, a.natAbs ≤ bound → s.natAbs ≤ bound →
    t.natAbs ≤ bound → (s - t).natAbs ≤ bound
  firstLoss_le : (a - (s - t)).natAbs ≤ a.natAbs
  /-- The second term and its share have one sign. -/
  secondLoss_le : ∀ bound : Nat, b.natAbs ≤ bound → t.natAbs ≤ bound →
    (b - t).natAbs ≤ bound
  error_le : (a - (s - t) + (b - t)).natAbs ≤ a.natAbs

namespace Nearest

variable {a b s t : Int}

theorem restored_eq (ht : Nearest t (s + -a) 1)
    (h : Representable (s - a)) : s - t = a := by
  have := ht.eq_of_representable h
  omega

/-- The second term lies on a grid that is coarse against the error, and so
does its share of the sum, which is that close to it. -/
theorem secondLoss (hb : Representable b) (hs : Nearest s (a + b) 1)
    (ht : Nearest t (s + -a) 1) (hab : a.natAbs < b.natAbs) :
    Representable (b - t) := by
  obtain ⟨j, -, herr, -, hlow⟩ := hs.exists_grid
  have hclose := ht.closest b hb
  by_cases hj : j ≤ 1
  · have : (2 : Nat) ^ j ≤ 2 := Nat.pow_le_pow_right (n := 2) (by decide) hj
    exact .of_natAbs_le (by omega)
  · obtain ⟨i, rfl⟩ : ∃ i, j = i + 2 := ⟨j - 2, by omega⟩
    have hpow : (2 : Nat) ^ (i + 2) = 4 * 2 ^ i := by
      rw [Nat.pow_add, Nat.mul_comm]
    have hbi : (2 : Int) ^ i ∣ b := hb.two_pow_dvd (by omega)
    have hti : (2 : Int) ^ i ∣ t := ht.representable.two_pow_dvd (by omega)
    exact .of_dvd (dvd_sub hbi hti) (by omega)

theorem share_nonneg (ha : Representable a) (hs : Nearest s (a + b) 1)
    (ht : Nearest t (s + -a) 1) (hb : 0 ≤ b) : 0 ≤ t := by
  have := hs.ge_of_ge ha (by decide) (by omega)
  exact ht.ge_of_ge .zero (by decide) (by omega)

theorem share_nonpos (ha : Representable a) (hs : Nearest s (a + b) 1)
    (ht : Nearest t (s + -a) 1) (hb : b ≤ 0) : t ≤ 0 := by
  have := hs.le_of_le ha (by decide) (by omega)
  exact ht.le_of_le .zero (by decide) (by omega)

theorem errorFree (ha : Representable a) (hb : Representable b)
    (hs : Nearest s (a + b) 1) (ht : Nearest t (s + -a) 1) :
    ErrorFree a b s t where
  restored := by
    rcases hs.sub_left_or ha hb with h | ⟨-, has⟩
    · rw [ht.restored_eq h]
      exact ha
    · rw [← Int.neg_sub]
      exact (ht.sub_left hs.representable ha.neg (by omega)).neg
  firstLoss := by
    rw [show a - (s - t) = -(s + -a - t) by omega]
    exact (ht.error hs.representable ha.neg).neg
  secondLoss := by
    rcases hs.sub_left_or ha hb with h | ⟨hab, -⟩
    · rw [show b - t = a + b - s by have := ht.restored_eq h; omega]
      exact hs.error ha hb
    · exact secondLoss hb hs ht hab
  error := by
    rw [show a - (s - t) + (b - t) = a + b - s by omega]
    exact hs.error ha hb
  restored_le := by
    intro bound hab hsb htb
    rcases hs.sub_left_or ha hb with h | ⟨-, has⟩
    · rw [ht.restored_eq h]
      exact hab
    · -- The sum outweighs the first term, so its share keeps its sign.
      rcases Int.le_total 0 s with hpos | hneg
      · have := ht.ge_of_ge .zero (by decide) (by omega)
        omega
      · have := ht.le_of_le .zero (by decide) (by omega)
        omega
  firstLoss_le := by
    have := ht.error_le_right hs.representable
    omega
  secondLoss_le := by
    intro bound hbb htb
    rcases Int.le_total 0 b with hpos | hneg
    · have := share_nonneg ha hs ht hpos
      omega
    · have := share_nonpos ha hs ht hneg
      omega
  error_le := by
    have := hs.error_le_left hb
    omega

end Nearest

end BoxCert
