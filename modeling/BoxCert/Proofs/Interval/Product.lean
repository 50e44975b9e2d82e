import BoxCert.Proofs.Interval.Enclosure
import BoxCert.Proofs.Number.Sharp

/-!
# Interval products are sharp

A product of intervals takes the extremes of four products of ends that are
rounded one by one. The extremes of rounded numbers are the rounded extremes,
so nothing is lost by that: where each of the four is sharp, the result is the
narrowest interval around the products of members. One that falls below the
underflow guard costs sharpness, but never a member.
-/

namespace BoxCert

namespace Binary64

variable {x y : Binary64} {r s : ℝ}

theorem isFloor_toReal (hx : x.isFinite = true) : x.IsFloor x.toReal where
  isNan_eq := isNan_of_isFinite hx
  le := (toEReal_of_isFinite hx).le
  greatest _ ht hle := le_iff.2
    ⟨ht, isNan_of_isFinite hx, hle.trans (toEReal_of_isFinite hx).ge⟩

theorem isCeiling_toReal (hx : x.isFinite = true) : x.IsCeiling x.toReal where
  isNan_eq := isNan_of_isFinite hx
  le := (toEReal_of_isFinite hx).ge
  least _ ht hle := le_iff.2
    ⟨isNan_of_isFinite hx, ht, (toEReal_of_isFinite hx).le.trans hle⟩

theorem isFloor_min (hx : x.IsFloor r) (hy : y.IsFloor s) :
    (min x y).IsFloor (min r s) := by
  have hnan := isNan_min hx.isNan_eq hy.isNan_eq
  have hmin := toEReal_min hx.isNan_eq hy.isNan_eq
  have hcoe := EReal.coe_strictMono.monotone.map_min (a := r) (b := s)
  refine ⟨hnan, ?_, fun t ht hle => ?_⟩
  · rw [hmin, hcoe]
    exact min_le_min hx.le hy.le
  · rw [hcoe, le_min_iff] at hle
    have hleft := (le_iff.1 (hx.greatest t ht hle.1)).2.2
    have hright := (le_iff.1 (hy.greatest t ht hle.2)).2.2
    exact le_iff.2 ⟨ht, hnan, hmin ▸ le_min hleft hright⟩

theorem isCeiling_max (hx : x.IsCeiling r) (hy : y.IsCeiling s) :
    (max x y).IsCeiling (max r s) := by
  have hnan := isNan_max hx.isNan_eq hy.isNan_eq
  have hmax := toEReal_max hx.isNan_eq hy.isNan_eq
  have hcoe := EReal.coe_strictMono.monotone.map_max (a := r) (b := s)
  refine ⟨hnan, ?_, fun t ht hle => ?_⟩
  · rw [hmax, hcoe]
    exact max_le_max hx.le hy.le
  · rw [hcoe, max_le_iff] at hle
    have hleft := (le_iff.1 (hx.least t ht hle.1)).2.2
    have hright := (le_iff.1 (hy.least t ht hle.2)).2.2
    exact le_iff.2 ⟨hnan, ht, hmax ▸ max_le hleft hright⟩

theorem IsFloor.of_unsignedZero (h : x.IsFloor r) :
    x.unsignedZero.IsFloor r := by
  refine ⟨by rw [isNan_unsignedZero, h.isNan_eq],
    by rw [toEReal_unsignedZero]; exact h.le, fun t ht hle => ?_⟩
  rw [le_iff, isNan_unsignedZero, toEReal_unsignedZero, ← le_iff]
  exact h.greatest t ht hle

theorem IsCeiling.of_unsignedZero (h : x.IsCeiling r) :
    x.unsignedZero.IsCeiling r := by
  refine ⟨by rw [isNan_unsignedZero, h.isNan_eq],
    by rw [toEReal_unsignedZero]; exact h.le, fun t ht hle => ?_⟩
  rw [le_iff, isNan_unsignedZero, toEReal_unsignedZero, ← le_iff]
  exact h.least t ht hle

/-- Whether the underflow guard leaves a product alone: a factor is zero, or
the rounded product reaches the guard or leaves the range. -/
inductive ClearsGuard (x y : Binary64) : Prop
  | zeroLeft (h : x.toReal = 0)
  | zeroRight (h : y.toReal = 0)
  | overflow (h : (x * y).isFinite = false)
  | large (h : 2 ^ (-960 : ℤ) ≤ |(x * y).toReal|)

theorem clearsGuard_iff (hx : x.isFinite = true) (hy : y.isFinite = true) :
    ClearsGuard x y ↔ x.isZero = true ∨ y.isZero = true ∨
      ¬ (x * y).abs < underflowGuard := by
  rw [← toReal_eq_zero_iff hx, ← toReal_eq_zero_iff hy]
  constructor
  · intro h
    cases h with
    | zeroLeft h => exact .inl h
    | zeroRight h => exact .inr (.inl h)
    | overflow h => exact .inr (.inr (not_abs_lt_guard (.inl h)))
    | large h => exact .inr (.inr (not_abs_lt_guard (.inr h)))
  · rintro (h | h | h)
    · exact .zeroLeft h
    · exact .zeroRight h
    · cases hfin : (x * y).isFinite with
      | false => exact .overflow hfin
      | true =>
          exact .large (not_lt.1 (mt (abs_lt_guard_iff_toReal hfin).2 h))

theorem ClearsGuard.directed (h : ClearsGuard x y) (hx : x.isFinite = true)
    (hy : y.isFinite = true) :
    (mulDown x y).IsFloor (x.toReal * y.toReal) ∧
      (mulUp x y).IsCeiling (x.toReal * y.toReal) := by
  rw [clearsGuard_iff hx hy, ← or_assoc, ← Bool.or_eq_true] at h
  rcases h with hzero | hlarge
  · have hproduct : x.toReal * y.toReal = toReal 0 := by
      rwa [(toReal_eq_zero_iff (x := 0) rfl).2 rfl, mul_eq_zero,
        toReal_eq_zero_iff hx, toReal_eq_zero_iff hy, ← Bool.or_eq_true]
    rw [mulDown_of_zero hzero, mulUp_of_zero hzero, hproduct]
    exact ⟨isFloor_toReal rfl, isCeiling_toReal rfl⟩
  · obtain ⟨m, hm⟩ := exists_units hx
    obtain ⟨n, hn⟩ := exists_units hy
    have hzero := mul_ne_zero_of_large hm hn hlarge
    exact ⟨mulDown_isFloor hm hn hzero hlarge,
      mulUp_isCeiling hm hn hzero hlarge⟩

end Binary64

namespace Interval

open Binary64

variable {a b : Interval}

def ends (a : Interval) : List Binary64 := [a.inf, a.sup]

/-- The least exact product of ends. -/
noncomputable def leastCorner (a b : Interval) : ℝ :=
  min (min (min (a.inf.toReal * b.inf.toReal) (a.inf.toReal * b.sup.toReal))
    (a.sup.toReal * b.inf.toReal)) (a.sup.toReal * b.sup.toReal)

/-- The greatest exact product of ends. -/
noncomputable def greatestCorner (a b : Interval) : ℝ :=
  max (max (max (a.inf.toReal * b.inf.toReal) (a.inf.toReal * b.sup.toReal))
    (a.sup.toReal * b.inf.toReal)) (a.sup.toReal * b.sup.toReal)

/-- Whether each product of ends is sharp. -/
structure SharpCorners (a b : Interval) : Prop where
  left : ∀ u ∈ a.ends, u.isFinite = true
  right : ∀ v ∈ b.ends, v.isFinite = true
  clears : ∀ u ∈ a.ends, ∀ v ∈ b.ends, ClearsGuard u v

theorem sharpCorners_iff : SharpCorners a b ↔
    (∀ u ∈ a.ends ++ b.ends, u.isFinite = true) ∧
      ∀ u ∈ a.ends, ∀ v ∈ b.ends, u.isZero = true ∨ v.isZero = true ∨
        ¬ (u * v).abs < underflowGuard := by
  constructor
  · intro h
    refine ⟨List.forall_mem_append.2 ⟨h.left, h.right⟩, fun u hu v hv => ?_⟩
    exact (clearsGuard_iff (h.left u hu) (h.right v hv)).1 (h.clears u hu v hv)
  · rintro ⟨hfin, hclears⟩
    obtain ⟨hleft, hright⟩ := List.forall_mem_append.1 hfin
    exact ⟨hleft, hright, fun u hu v hv =>
      (clearsGuard_iff (hleft u hu) (hright v hv)).2 (hclears u hu v hv)⟩

instance : Decidable (SharpCorners a b) :=
  decidable_of_iff _ sharpCorners_iff.symm

theorem mul_isFloor_isCeiling (h : SharpCorners a b) :
    (a * b).inf.IsFloor (leastCorner a b) ∧
      (a * b).sup.IsCeiling (greatestCorner a b) := by
  have hcorner : ∀ u ∈ a.ends, ∀ v ∈ b.ends,
      (mulDown u v).IsFloor (u.toReal * v.toReal) ∧
        (mulUp u v).IsCeiling (u.toReal * v.toReal) :=
    fun u hu v hv => (h.clears u hu v hv).directed (h.left u hu) (h.right v hv)
  simp only [ends, List.forall_mem_cons, List.not_mem_nil, false_imp_iff,
    implies_true, and_true] at hcorner
  obtain ⟨⟨⟨hdown₁, hup₁⟩, hdown₂, hup₂⟩, ⟨hdown₃, hup₃⟩, hdown₄, hup₄⟩ :=
    hcorner
  constructor
  · exact (isFloor_min (isFloor_min (isFloor_min hdown₁ hdown₂) hdown₃)
      hdown₄).of_unsignedZero
  · exact (isCeiling_max (isCeiling_max (isCeiling_max hup₁ hup₂) hup₃)
      hup₄).of_unsignedZero

/-! ## The narrowest interval -/

theorem end_mem (h : a.inf ≤ a.sup) (hfin : ∀ u ∈ a.ends, u.isFinite = true)
    {u : Binary64} (hu : u ∈ a.ends) : (u.toReal : EReal) ∈ a := by
  rw [← toEReal_of_isFinite (hfin u hu)]
  simp only [ends, List.mem_cons, List.not_mem_nil, or_false] at hu
  rcases hu with rfl | rfl
  · exact inf_mem h
  · exact sup_mem h

theorem le_leastCorner {t : EReal} (h : ∀ u ∈ a.ends, ∀ v ∈ b.ends,
    t ≤ (u.toReal * v.toReal : ℝ)) : t ≤ (leastCorner a b : ℝ) := by
  simp only [ends, List.forall_mem_cons, List.not_mem_nil, false_imp_iff,
    implies_true, and_true] at h
  obtain ⟨⟨h₁, h₂⟩, h₃, h₄⟩ := h
  simp only [leastCorner, EReal.coe_strictMono.monotone.map_min]
  exact le_min (le_min (le_min h₁ h₂) h₃) h₄

theorem greatestCorner_le {t : EReal} (h : ∀ u ∈ a.ends, ∀ v ∈ b.ends,
    (u.toReal * v.toReal : ℝ) ≤ t) : (greatestCorner a b : ℝ) ≤ t := by
  simp only [ends, List.forall_mem_cons, List.not_mem_nil, false_imp_iff,
    implies_true, and_true] at h
  obtain ⟨⟨h₁, h₂⟩, h₃, h₄⟩ := h
  simp only [greatestCorner, EReal.coe_strictMono.monotone.map_max]
  exact max_le (max_le (max_le h₁ h₂) h₃) h₄

/-- A product of intervals holds every product of members, infinite ends or
not. Where each product of ends is sharp, so is the result: its lower end is
the greatest number at or below the least of them, its upper end the least
number at or above the greatest, and no interval around all products of members
is narrower. -/
theorem mul_encloses_sharply (ha : a.inf ≤ a.sup) (hb : b.inf ≤ b.sup) :
    (∀ x y : ℝ, (x : EReal) ∈ a → (y : EReal) ∈ b →
      ((x * y : ℝ) : EReal) ∈ a * b) ∧
    (SharpCorners a b →
      (a * b).inf.IsFloor (leastCorner a b) ∧
      (a * b).sup.IsCeiling (greatestCorner a b) ∧
      ∀ c : Interval, (∀ x y : ℝ, (x : EReal) ∈ a → (y : EReal) ∈ b →
          ((x * y : ℝ) : EReal) ∈ c) →
        c.inf ≤ (a * b).inf ∧ (a * b).sup ≤ c.sup) := by
  refine ⟨fun x y hx hy => ?_, fun h => ?_⟩
  · rw [EReal.coe_mul]
    exact mul_mem hx hy
  · obtain ⟨hfloor, hceiling⟩ := mul_isFloor_isCeiling h
    refine ⟨hfloor, hceiling, fun c hc => ?_⟩
    have hmem : ∀ u ∈ a.ends, ∀ v ∈ b.ends,
        ((u.toReal * v.toReal : ℝ) : EReal) ∈ c := fun u hu v hv =>
      hc _ _ (end_mem ha h.left hu) (end_mem hb h.right hv)
    have hsome := hmem a.inf List.mem_cons_self b.inf List.mem_cons_self
    constructor
    · exact hfloor.greatest _ hsome.inf_isNan
        (le_leastCorner fun u hu v hv => (hmem u hu v hv).inf_le)
    · exact hceiling.least _ hsome.sup_isNan
        (greatestCorner_le fun u hu v hv => (hmem u hu v hv).le_sup)

theorem one_mem (hinf : a.inf ≤ 1) (hsup : 1 ≤ a.sup) :
    ((1 : ℝ) : EReal) ∈ a := by
  obtain ⟨hinfNan, -, hle⟩ := le_iff.1 hinf
  obtain ⟨-, hsupNan, hge⟩ := le_iff.1 hsup
  rw [toEReal_one] at hle hge
  exact ⟨hinfNan, hsupNan, hle, hge⟩

/-- From minus a tenth to the largest number. -/
def wideFactor : Interval := ⟨ofBits 0xbfb999999999999a, greatest false⟩

/-- From zero to three. -/
def zeroToThree : Interval := ⟨0, ofBits 0x4008000000000000⟩

/-- Two products of ends are zero and one leaves the range. -/
theorem mul_encloses_sharply_overflowing :
    wideFactor.inf ≤ wideFactor.sup ∧ zeroToThree.inf ≤ zeroToThree.sup ∧
    SharpCorners wideFactor zeroToThree ∧
    ((1 * 1 : ℝ) : EReal) ∈ wideFactor * zeroToThree ∧
    wideFactor * zeroToThree =
      ⟨ofBits 0xbfd3333333333334, infinite false⟩ ∧
    (ofBits 0xbfd3333333333334).IsFloor
      (leastCorner wideFactor zeroToThree) ∧
    (infinite false).IsCeiling (greatestCorner wideFactor zeroToThree) := by
  have hleft : wideFactor.inf ≤ wideFactor.sup := by decide
  have hright : zeroToThree.inf ≤ zeroToThree.sup := by decide
  have hsharp : SharpCorners wideFactor zeroToThree := by decide +kernel
  have hmul : wideFactor * zeroToThree =
      ⟨ofBits 0xbfd3333333333334, infinite false⟩ := by decide +kernel
  obtain ⟨hmem, hnarrow⟩ := mul_encloses_sharply hleft hright
  obtain ⟨hfloor, hceiling, -⟩ := hnarrow hsharp
  have hprod := hmem 1 1 (one_mem (by decide) (by decide))
    (one_mem (by decide) (by decide))
  rw [hmul] at hfloor hceiling
  exact ⟨hleft, hright, hsharp, hprod, hmul, hfloor, hceiling⟩

end Interval

end BoxCert
