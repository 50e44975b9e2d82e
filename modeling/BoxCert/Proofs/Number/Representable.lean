import Mathlib.Algebra.Order.Ring.Int
import Mathlib.Algebra.Ring.Divisibility.Basic
import Mathlib.Tactic.Ring
import BoxCert.Number.Power

/-!
# Integers of 53 significant bits

Counted in units, a finite number is an integer whose binary digits, trailing
zeros aside, fit 53 places; gradual underflow needs no case of its own because
nothing is finer than a unit. Overflow is left out here as well: the format is
unbounded above, and the range is cut off where the numbers are.

Rounding to nearest is a property of two integers, `Nearest v num den`: no
representable integer is closer to `num / den` than `v` is. Which one a tie
picks is left open, and nothing below depends on it. What is needed of a
rounded integer is its grid: a power of two that divides it, bounds its error
and is small against it.
-/

namespace BoxCert

/-- An integer with at most 53 significant bits. -/
def Representable (v : Int) : Prop :=
  ∃ (m : Int) (e : Nat), m.natAbs < 2 ^ 53 ∧ v = m * 2 ^ e

/-- Whether `v` is a representable integer closest to `num / den`. -/
structure Nearest (v num : Int) (den : Nat) : Prop where
  representable : Representable v
  closest : ∀ u, Representable u →
    (num - v * den).natAbs ≤ (num - u * den).natAbs

theorem natAbs_two_pow_mul (k : Nat) (q : Int) :
    (2 ^ k * q).natAbs = 2 ^ k * q.natAbs := by
  rw [Int.natAbs_mul, Int.natAbs_pow]
  rfl

namespace Representable

theorem neg {v : Int} (h : Representable v) : Representable (-v) := by
  obtain ⟨m, e, hm, rfl⟩ := h
  exact ⟨-m, e, by rwa [Int.natAbs_neg], by rw [Int.neg_mul]⟩

/-- Up to `2 ^ 53` steps of a power of two are representable, the last one
because it is a power of two itself. -/
theorem two_pow_mul {q : Int} (k : Nat) (hq : q.natAbs ≤ 2 ^ 53) :
    Representable (2 ^ k * q) := by
  rcases Nat.lt_or_eq_of_le hq with hlt | heq
  · exact ⟨q, k, hlt, Int.mul_comm _ _⟩
  · rcases Int.natAbs_eq q with h | h <;> rw [heq] at h <;> subst h
    · exact ⟨2 ^ 52, k + 1, by decide, by rw [pow_succ]; ring⟩
    · exact ⟨-2 ^ 52, k + 1, by decide, by rw [pow_succ]; ring⟩

theorem of_dvd {v : Int} {k : Nat} (hk : (2 : Int) ^ k ∣ v)
    (hv : v.natAbs ≤ 2 ^ 53 * 2 ^ k) : Representable v := by
  obtain ⟨q, rfl⟩ := hk
  rw [natAbs_two_pow_mul, Nat.mul_comm] at hv
  exact two_pow_mul k (Nat.le_of_mul_le_mul_right hv (Nat.two_pow_pos k))

theorem of_natAbs_le {v : Int} (hv : v.natAbs ≤ 2 ^ 53) : Representable v :=
  of_dvd (k := 0) (by simp) (by simpa using hv)

theorem zero : Representable 0 := of_natAbs_le (by decide)

theorem exists_step {v : Int} (h : Representable v) :
    ∃ k : Nat, (2 : Int) ^ k ∣ v ∧ v.natAbs < 2 ^ 53 * 2 ^ k := by
  obtain ⟨m, e, hm, rfl⟩ := h
  refine ⟨e, Int.dvd_mul_left _ _, ?_⟩
  rw [Int.natAbs_mul, Int.natAbs_pow]
  exact Nat.mul_lt_mul_of_pos_right hm (Nat.two_pow_pos e)

theorem two_pow_dvd {v : Int} {i : Nat} (h : Representable v)
    (hv : 2 ^ 52 * 2 ^ i ≤ v.natAbs) : (2 : Int) ^ i ∣ v := by
  obtain ⟨k, hk, hlt⟩ := h.exists_step
  have hik : i ≤ k := by
    by_contra hki
    have hpow : 2 ^ (k + 1) ≤ 2 ^ i :=
      Nat.pow_le_pow_right (by decide) (by omega)
    rw [Nat.pow_succ] at hpow
    omega
  exact dvd_trans (pow_dvd_pow 2 hik) hk

/-- The largest number of 53 bits is one step short of a power of two: what is
larger has one trailing zero more. -/
theorem two_pow_succ_dvd {v : Int} {i : Nat} (h : Representable v)
    (hv : (2 ^ 53 - 1) * 2 ^ i < v.natAbs) : (2 : Int) ^ (i + 1) ∣ v := by
  obtain ⟨q, hq⟩ := h.two_pow_dvd (i := i) (by omega)
  rw [hq, natAbs_two_pow_mul, Nat.mul_comm] at hv
  have hbits := Nat.mul_le_mul_right (2 ^ i) (Nat.lt_of_mul_lt_mul_left hv)
  refine h.two_pow_dvd ?_
  rw [hq, natAbs_two_pow_mul, Nat.mul_comm _ q.natAbs, Nat.pow_succ]
  omega

/-- A sum that is no larger than either term loses no bits. -/
theorem add_of_le {a b : Int} (ha : Representable a) (hb : Representable b)
    (hle : (a + b).natAbs ≤ a.natAbs) (hle' : (a + b).natAbs ≤ b.natAbs) :
    Representable (a + b) := by
  obtain ⟨k, hk, hak⟩ := ha.exists_step
  obtain ⟨l, hl, hbl⟩ := hb.exists_step
  rcases Nat.le_total k l with hkl | hlk
  · exact of_dvd (dvd_add hk (dvd_trans (pow_dvd_pow 2 hkl) hl)) (by omega)
  · exact of_dvd (dvd_add (dvd_trans (pow_dvd_pow 2 hlk) hk) hl) (by omega)

end Representable

namespace Nearest

variable {v num : Int} {den : Nat}

theorem neg (h : Nearest v num den) : Nearest (-v) (-num) den where
  representable := h.representable.neg
  closest u hu := by
    have := h.closest (-u) hu.neg
    rw [Int.neg_mul] at this ⊢
    omega

theorem le_of_le {u : Int} (h : Nearest v num den) (hu : Representable u)
    (hden : 0 < den) (hle : num ≤ u * den) : v ≤ u := by
  by_contra hlt
  have hprod : u * den < v * den :=
    Int.mul_lt_mul_of_pos_right (by omega) (by omega)
  have := h.closest u hu
  omega

theorem ge_of_ge {u : Int} (h : Nearest v num den) (hu : Representable u)
    (hden : 0 < den) (hle : u * den ≤ num) : u ≤ v := by
  have := h.neg.le_of_le hu.neg hden (by rw [Int.neg_mul]; omega)
  omega

/-- Rounding keeps a strict order, weakly; a tie may be broken either way. -/
theorem mono {v' num' : Int} (h : Nearest v num den)
    (h' : Nearest v' num' den) (hden : 0 < den) (hlt : num < num') :
    v ≤ v' := by
  by_contra hgt
  have hprod : v' * den < v * den :=
    Int.mul_lt_mul_of_pos_right (by omega) (by omega)
  have := h.closest v' h'.representable
  have := h'.closest v h.representable
  omega

theorem eq_of_representable {n : Int} (h : Nearest v n 1)
    (hn : Representable n) : v = n := by
  have := h.closest n hn
  omega

theorem le_natAbs {n u : Int} (h : Nearest v n 1) (hu : Representable u)
    (hle : u.natAbs ≤ n.natAbs) : u.natAbs ≤ v.natAbs := by
  rcases Int.natAbs_eq u with hu' | hu' <;>
    rcases Int.natAbs_eq n with hn | hn
  all_goals
    have hup := fun hle => h.ge_of_ge hu (by decide) hle
    have hdown := fun hle => h.le_of_le hu (by decide) hle
    have hup' := fun hle => h.ge_of_ge hu.neg (by decide) hle
    have hdown' := fun hle => h.le_of_le hu.neg (by decide) hle
    omega

/-- The grid of a rounded integer: the power of two by which the 53 bits are
counted. -/
theorem exists_grid {n : Int} (h : Nearest v n 1) :
    ∃ j : Nat, (2 : Int) ^ j ∣ v ∧ 2 * (n - v).natAbs ≤ 2 ^ j ∧
      n.natAbs < 2 ^ 53 * 2 ^ j ∧ (j = 0 ∨ 2 ^ 52 * 2 ^ j ≤ n.natAbs) := by
  by_cases hsmall : n.natAbs < 2 ^ 53
  · refine ⟨0, by simp, ?_, by simpa using hsmall, .inl rfl⟩
    rw [h.eq_of_representable (.of_natAbs_le (by omega))]
    simp
  · obtain ⟨j, hj⟩ : ∃ j, n.natAbs.log2 = 52 + j :=
      ⟨n.natAbs.log2 - 52, by
        have := (Nat.le_log2 (by omega)).2 (not_lt.1 hsmall)
        omega⟩
    have hlow : 2 ^ 52 * 2 ^ j ≤ n.natAbs := by
      rw [← Nat.pow_add, ← hj]
      exact Nat.log2_self_le (by omega)
    have hhigh : n.natAbs < 2 ^ 53 * 2 ^ j := by
      rw [← Nat.pow_add, show 53 + j = 52 + j + 1 by omega, ← hj]
      exact Nat.lt_log2_self
    refine ⟨j, ?_, ?_, hhigh, .inr hlow⟩
    · -- The exact value is at least `2 ^ 52` steps, so the rounded one is.
      refine h.representable.two_pow_dvd ?_
      have := h.le_natAbs (.two_pow_mul j (q := 2 ^ 52) (by decide)) (by
        rwa [natAbs_two_pow_mul, Nat.mul_comm])
      rwa [natAbs_two_pow_mul, Nat.mul_comm] at this
    · -- One of the two multiples around `n` is at most half a step away.
      have hpos : (0 : Int) < 2 ^ j := Int.pow_pos (by decide)
      have hcast : ((2 ^ j : Nat) : Int) = 2 ^ j := Int.natCast_pow 2 j
      have hq : -2 ^ 53 ≤ n / 2 ^ j :=
        Int.le_ediv_of_mul_le hpos (by rw [Int.neg_mul]; omega)
      have hq' : n / 2 ^ j < 2 ^ 53 :=
        Int.ediv_lt_of_lt_mul hpos (by omega)
      have hbelow := h.closest _ (.two_pow_mul j (q := n / 2 ^ j) (by omega))
      have habove := h.closest _ (.two_pow_mul j (q := n / 2 ^ j + 1) (by omega))
      have hdiv := Int.emod_add_mul_ediv n (2 ^ j)
      have hnonneg := Int.emod_nonneg n hpos.ne'
      have hlt := Int.emod_lt_of_pos n hpos
      rw [Int.mul_add] at habove
      omega

theorem two_pow_dvd {n : Int} {k : Nat} (h : Nearest v n 1)
    (hk : (2 : Int) ^ k ∣ n) : (2 : Int) ^ k ∣ v := by
  rcases Nat.le_total n.natAbs (2 ^ 53 * 2 ^ k) with hle | hle
  · rw [h.eq_of_representable (.of_dvd hk hle)]
    exact hk
  · have := h.le_natAbs (.two_pow_mul k (q := 2 ^ 53) (by decide)) (by
      rwa [natAbs_two_pow_mul, Nat.mul_comm])
    rw [natAbs_two_pow_mul, Nat.mul_comm] at this
    exact h.representable.two_pow_dvd
      (le_trans (Nat.mul_le_mul_right _ (by decide)) this)

end Nearest

end BoxCert
