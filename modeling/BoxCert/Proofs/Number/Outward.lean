import BoxCert.Number.Directed
import BoxCert.Proofs.Number.Rounded

/-!
# One step outwards

A rounded result is next to the exact one: the exact quotient lies between the
two neighbours of the number nearest to it. So one step down is always a lower
bound, and no step at all is needed where the exact value is not below the
rounded one. Where the rounded result leaves the range, the largest finite
number takes its place on the near side.

Bounds are stated of the exact quotient `num / den` of units, for sums with
the denominator one and for products with that of a unit. What is shown for
lower bounds holds for upper bounds by turning the signs around.
-/

namespace BoxCert.Binary64

variable {x y s : Binary64} {m n v num : Int} {den : Nat}

/-- Whether a number is a lower bound of `num / den` units. -/
def IsBelow (x : Binary64) (num : Int) (den : Nat) : Prop :=
  x = negInfinity ∨ ∃ k, x.units? = some k ∧ k * den ≤ num

def IsAbove (x : Binary64) (num : Int) (den : Nat) : Prop :=
  x = infinity ∨ ∃ k, x.units? = some k ∧ num ≤ k * den

theorem IsBelow.isNan_eq (h : x.IsBelow num den) : x.isNan = false := by
  rcases h with rfl | ⟨k, hk, -⟩
  · rfl
  · exact isNan_of_units hk

/-- The real number that a quotient of units stands for. -/
noncomputable def quotient (num : Int) (den : Nat) : ℝ := num / den * unit

theorem IsBelow.toEReal_le (h : x.IsBelow num den) (hden : 0 < den) :
    x.toEReal ≤ (quotient num den : EReal) := by
  rcases h with rfl | ⟨k, hk, hle⟩
  · exact bot_le
  · have hden' : (0 : ℝ) < den := Nat.cast_pos.2 hden
    rw [toEReal_of_units hk, EReal.coe_le_coe_iff, quotient,
      mul_le_mul_iff_left₀ unit_pos, le_div_iff₀ hden']
    exact_mod_cast hle

/-! ## Neighbours -/

theorem units?_ofRank (t : Bool) {rank : Nat} (h : rank < magnitudeCount) :
    (ofRank t rank).units? = some (signed t (magnitudeUnits rank)) := by
  rw [ofRank, dif_pos h]
  rfl

theorem nextUp_eq_or (hx : x.units? = some n) :
    x.nextUp = infinity ∨ ∃ k, x.nextUp.units? = some k ∧ n < k := by
  obtain ⟨t, r, rfl, rfl⟩ := exists_rank_of_units hx
  cases t with
  | false =>
      show ofRank false (r + 1) = infinity ∨ _
      by_cases h : r.val + 1 < magnitudeCount
      · exact .inr ⟨_, units?_ofRank false h, by
          have := magnitudeUnits_strictMono (Nat.lt_succ_self r.val)
          simpa [signed] using this⟩
      · rw [ofRank, dif_neg h]
        exact .inl rfl
  | true =>
      refine .inr ?_
      by_cases h : r.val = 0
      · refine ⟨1, ?_, ?_⟩
        · rw [nextUp, if_pos h]
          decide
        · rw [h]
          decide
      · have hlt : r.val - 1 < magnitudeCount := by omega
        refine ⟨signed true (magnitudeUnits (r.val - 1)), ?_, ?_⟩
        · rw [nextUp, if_neg h]
          exact units?_ofRank true hlt
        · have := magnitudeUnits_strictMono (show r.val - 1 < r by omega)
          simpa [signed] using this

theorem isNan_nextUp (hx : x.units? = some n) : x.nextUp.isNan = false := by
  rcases nextUp_eq_or hx with h | ⟨k, hk, -⟩
  · rw [h]
    rfl
  · exact isNan_of_units hk

theorem isNan_nextDown (hx : x.units? = some n) :
    x.nextDown.isNan = false := by
  rw [nextDown, isNan_neg]
  exact isNan_nextUp (units?_neg hx)

theorem le_nextUp (hx : x.units? = some n) : x.toEReal ≤ x.nextUp.toEReal := by
  rcases nextUp_eq_or hx with h | ⟨k, hk, hlt⟩
  · rw [h]
    exact le_top
  · rw [toEReal_le_iff_reach (isNan_of_units hx) (isNan_of_units hk),
      reach_of_units hx, reach_of_units hk]
    exact Int.le_of_lt hlt

theorem nextDown_le (hx : x.units? = some n) :
    x.nextDown.toEReal ≤ x.toEReal := by
  rw [nextDown, toEReal_neg, EReal.neg_le, ← toEReal_neg]
  exact le_nextUp (units?_neg hx)

/-- Above the number nearest to a quotient there is no room between the
quotient and the next number. -/
theorem nextUp_isAbove (hs : s.units? = some v) (hv : Nearest v num den)
    (hden : 0 < den) : s.nextUp.IsAbove num den := by
  rcases nextUp_eq_or hs with h | ⟨k, hk, hlt⟩
  · exact .inl h
  · refine .inr ⟨k, hk, ?_⟩
    have hprod : v * den < k * den :=
      Int.mul_lt_mul_of_pos_right hlt (by omega)
    have := hv.closest k (representable_of_units hk)
    omega

theorem nextDown_isBelow (hs : s.units? = some v) (hv : Nearest v num den)
    (hden : 0 < den) : s.nextDown.IsBelow num den := by
  rcases nextUp_isAbove (units?_neg hs) hv.neg hden with h | ⟨k, hk, hle⟩
  · exact .inl (by rw [nextDown, h]; rfl)
  · exact .inr ⟨-k, units?_neg hk, by rw [Int.neg_mul]; omega⟩

/-! ## Beyond the range -/

def greatestUnits : Nat := magnitudeUnits (magnitudeCount - 1)

theorem units?_greatest (t : Bool) :
    (greatest t).units? = some (signed t greatestUnits) := rfl

theorem greatestUnits_lt : greatestUnits < overflowUnits :=
  magnitudeUnits_strictMono (by decide)

/-- What is rounded beyond the range lies at least at the largest finite
number. -/
theorem greatestUnits_mul_le (hv : Nearest v num den) (hden : 0 < den)
    (hover : overflowUnits ≤ v) : greatestUnits * den ≤ num := by
  by_contra hlt
  have := hv.le_of_le (u := greatestUnits)
    (representable_magnitudeUnits _) hden (by omega)
  have := greatestUnits_lt
  omega

/-- Beyond the range the lower result is at most the infinity that rounding to
nearest gives. -/
theorem lowerUnbounded_le (hx : x.isFinite = true) (hy : y.isFinite = true)
    (hs : s.isFinite = false) (hnan : s.isNan = false) :
    (lowerUnbounded x y s).toEReal ≤ s.toEReal := by
  simp only [lowerUnbounded, isNan_of_isFinite hx, isNan_of_isFinite hy, hx, hy]
  cases s with
  | nan => cases hnan
  | finite t r => cases hs
  | infinite t =>
      cases t with
      | false => exact le_top
      | true => exact le_rfl

theorem lowerUnbounded_isBelow (hx : x.units? = some m)
    (hy : y.units? = some n) (hs : Clamps s v) (hfin : s.isFinite = false)
    (hv : Nearest v num den) (hden : 0 < den) :
    (lowerUnbounded x y s).IsBelow num den := by
  cases s with
  | nan => cases hs
  | finite t r => cases hfin
  | infinite t =>
      simp only [lowerUnbounded, isNan_of_units hx, isNan_of_units hy,
        isFinite_of_units hx, isFinite_of_units hy]
      cases t with
      | false => exact .inr ⟨_, units?_greatest false,
          greatestUnits_mul_le hv hden hs⟩
      | true => exact .inl rfl

end BoxCert.Binary64
