import BoxCert.Proofs.Number.Value

/-!
# Rounded results

An operation on finite numbers rounds an exact integer or quotient of units to
the nearest representable integer, as if there were no largest number, and
then cuts the range off. `Clamps` is the second step: the result of an
operation is related to the integer it was rounded to, which is all that later
arguments need to know about either.
-/

namespace BoxCert

/-- The integer nearest to `num / den`, with ties to even. -/
def roundUnits (num : Int) (den : Nat) : Int :=
  num.sign * magnitudeUnits (nearestRank num.natAbs den)

theorem nearest_roundUnits (num : Int) {den : Nat} (hden : 0 < den) :
    Nearest (roundUnits num den) num den := by
  have h := nearest_nearestRank num.natAbs hden
  unfold roundUnits
  rcases Int.lt_trichotomy num 0 with hneg | rfl | hpos
  · rw [Int.sign_eq_neg_one_of_neg hneg, Int.neg_one_mul]
    rw [show num = -(num.natAbs : Int) by omega, Int.natAbs_neg]
    exact h.neg
  · rw [Int.sign_zero, Int.zero_mul]
    exact ⟨.zero, fun u _ => by simp⟩
  · rw [Int.sign_eq_one_of_pos hpos, Int.one_mul]
    rwa [show num = (num.natAbs : Int) by omega, Int.natAbs_natCast]

theorem roundUnits_eq {v : Int} (h : Representable v) : roundUnits v 1 = v :=
  (nearest_roundUnits v Nat.one_pos).eq_of_representable h

theorem roundUnits_mono {num num' : Int} {den : Nat} (hden : 0 < den)
    (hle : num ≤ num') : roundUnits num den ≤ roundUnits num' den := by
  rcases Int.lt_or_eq_of_le hle with hlt | rfl
  · exact (nearest_roundUnits num hden).mono (nearest_roundUnits num' hden) hden
      hlt
  · exact Int.le_refl _

namespace Binary64

variable {x y : Binary64} {m n : Int}

/-- Whether `x` is the rounded integer `n` once the range is cut off. -/
def Clamps (x : Binary64) (n : Int) : Prop :=
  match x with
  | nan => False
  | infinite s => overflowUnits ≤ if s then -n else n
  | finite s r => signed s (magnitudeUnits r) = n

theorem clamps_of_units (hx : x.units? = some n) : Clamps x n := by
  obtain ⟨s, r, rfl, rfl⟩ := exists_rank_of_units hx
  rfl

theorem clamps_ofRank (s : Bool) (rank : Nat) :
    Clamps (ofRank s rank) (signed s (magnitudeUnits rank)) := by
  unfold ofRank
  split
  · next h => rfl
  · next h =>
      have hle : overflowUnits ≤ magnitudeUnits rank :=
        magnitudeUnits_strictMono.monotone (Nat.le_of_not_lt h)
      cases s
      · show (overflowUnits : Int) ≤ magnitudeUnits rank
        omega
      · show (overflowUnits : Int) ≤ - -(magnitudeUnits rank : Int)
        omega

theorem roundUnits_signed (s : Bool) (num den : Nat) :
    roundUnits (signed s num) den =
      signed s (magnitudeUnits (nearestRank num den)) := by
  rw [roundUnits, signed_natAbs]
  rcases Nat.eq_zero_or_pos num with rfl | hpos
  · cases s <;> simp [signed]
  · cases s
    · simp [signed, Int.sign_eq_one_of_pos (Int.natCast_pos.2 hpos)]
    · simp [signed, Int.sign_eq_one_of_pos (Int.natCast_pos.2 hpos)]

theorem clamps_ofRatio (s : Bool) (num den : Nat) :
    Clamps (ofRatio s num den) (roundUnits (signed s num) den) := by
  rw [roundUnits_signed]
  exact clamps_ofRank s (nearestRank num den)

theorem clamps_ofScaledInt (s : Bool) (n : Int) (den : Nat) :
    Clamps (ofScaledInt s n den) (roundUnits n den) := by
  unfold ofScaledInt
  split
  · next h =>
      subst h
      rw [roundUnits, Int.sign_zero, Int.zero_mul]
      cases s <;> rfl
  · next h =>
      have hsigned : signed (n < 0) n.natAbs = n := by
        by_cases hneg : n < 0
        · simp only [signed, hneg, decide_true, if_true]
          omega
        · simp only [signed, hneg, decide_false, Bool.false_eq_true, if_false]
          omega
      have := clamps_ofRatio (n < 0) n.natAbs den
      rwa [hsigned] at this

/-! ## The operations on finite numbers -/

theorem clamps_add (hx : x.units? = some m) (hy : y.units? = some n) :
    Clamps (x + y) (roundUnits (m + n) 1) := by
  obtain ⟨s, a, rfl, rfl⟩ := exists_rank_of_units hx
  obtain ⟨t, b, rfl, rfl⟩ := exists_rank_of_units hy
  exact clamps_ofScaledInt (s && t) _ 1

theorem clamps_sub (hx : x.units? = some m) (hy : y.units? = some n) :
    Clamps (x - y) (roundUnits (m + -n) 1) :=
  clamps_add hx (units?_neg hy)

theorem signed_bne (s t : Bool) (a b : Nat) :
    signed (s != t) (a * b) = signed s a * signed t b := by
  cases s <;> cases t <;> simp [signed]

theorem clamps_mul (hx : x.units? = some m) (hy : y.units? = some n) :
    Clamps (x * y) (roundUnits (m * n) oneUnits) := by
  obtain ⟨s, a, rfl, rfl⟩ := exists_rank_of_units hx
  obtain ⟨t, b, rfl, rfl⟩ := exists_rank_of_units hy
  rw [← signed_bne]
  exact clamps_ofRatio (s != t) _ oneUnits

theorem clamps_mulAdd {z : Binary64} {k : Int} (hx : x.units? = some m)
    (hy : y.units? = some n) (hz : z.units? = some k) :
    Clamps (mulAdd x y z) (roundUnits (m * n + k * oneUnits) oneUnits) := by
  obtain ⟨s, a, rfl, rfl⟩ := exists_rank_of_units hx
  obtain ⟨t, b, rfl, rfl⟩ := exists_rank_of_units hy
  obtain ⟨u, c, rfl, rfl⟩ := exists_rank_of_units hz
  rw [← signed_bne]
  exact clamps_ofScaledInt ((s != t) && u) _ oneUnits

theorem Clamps.units_eq (h : Clamps x n) (hn : n.natAbs < overflowUnits) :
    x.units? = some n := by
  cases x with
  | nan => cases h
  | infinite s =>
      cases s <;> simp only [Clamps, if_true, Bool.false_eq_true, if_false] at h
      · omega
      · omega
  | finite s r => rw [units?_finite, h]

theorem Clamps.units_of_isFinite (h : Clamps x n) (hx : x.isFinite = true) :
    x.units? = some n := by
  cases x with
  | finite s r => rw [units?_finite, h]
  | _ => cases hx

theorem Clamps.isNan_eq (h : Clamps x n) : x.isNan = false := by
  cases x with
  | nan => cases h
  | _ => rfl

/-- Where the range ends, the reach of a rounded number stops. -/
theorem Clamps.reach_eq (h : Clamps x n) :
    x.reach = max (-(overflowUnits : Int)) (min overflowUnits n) := by
  cases x with
  | nan => cases h
  | infinite s =>
      cases s <;> simp only [Clamps, reach, signed, if_true,
        Bool.false_eq_true, if_false] at h ⊢ <;> omega
  | finite s r =>
      have := natAbs_lt_of_units (units?_finite s r)
      rw [Clamps] at h
      rw [reach]
      omega

theorem Clamps.toEReal_mono (hx : Clamps x m) (hy : Clamps y n)
    (hle : m ≤ n) : x.toEReal ≤ y.toEReal := by
  rw [toEReal_le_iff_reach hx.isNan_eq hy.isNan_eq, hx.reach_eq, hy.reach_eq]
  omega

theorem Clamps.lt_zero_iff (h : Clamps x n) : x < 0 ↔ n < 0 := by
  rw [lt_iff_reach h.isNan_eq rfl, h.reach_eq, reach_of_units units?_zero]
  have := overflowUnits_pos
  omega

theorem Clamps.zero_lt_iff (h : Clamps x n) : 0 < x ↔ 0 < n := by
  rw [lt_iff_reach rfl h.isNan_eq, h.reach_eq, reach_of_units units?_zero]
  have := overflowUnits_pos
  omega

end Binary64

end BoxCert
