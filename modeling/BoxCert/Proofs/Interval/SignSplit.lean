import BoxCert.Proofs.Interval.Matrix

/-!
# Splitting a matrix by sign

The two parts of an interval are on either side of zero, and what is in the
interval is a member of one part or the other, with zero taken from the one
left over. The parts also add up to the interval they are from: one summand of
every end is a zero, and adding a zero rounds nothing.
-/

namespace BoxCert

namespace Interval

open Binary64

variable {a : Interval}

theorem positivePart_add_negativePart (h : a.inf ≤ a.sup) :
    (a.positivePart + a.negativePart).sameEnds a = true := by
  obtain ⟨hinf, hsup, -⟩ := le_iff.1 h
  rw [sameEnds_iff, positivePart, negativePart]
  split
  · exact ⟨(addDown_of_isZero rfl _).2.sameValue hinf,
      (addUp_of_isZero rfl _).1.sameValue hsup⟩
  · split
    · exact ⟨(addDown_of_isZero rfl _).1.sameValue hinf,
        (addUp_of_isZero rfl _).1.sameValue hsup⟩
    · exact ⟨(addDown_of_isZero rfl _).2.sameValue hinf,
        (addUp_of_isZero rfl _).2.sameValue hsup⟩

theorem le_positivePart_inf (a : Interval) : 0 ≤ a.positivePart.inf := by
  unfold positivePart
  split
  · exact le_iff.2 ⟨rfl, rfl, le_rfl⟩
  · split
    · next h => exact isNonnegative_iff.1 h
    · exact le_iff.2 ⟨rfl, rfl, le_rfl⟩

theorem negativePart_sup_le (h : a.inf ≤ a.sup) : a.negativePart.sup ≤ 0 := by
  unfold negativePart
  split
  · exact le_iff.2 ⟨rfl, rfl, le_rfl⟩
  · next hstraddles =>
      split
      · exact le_iff.2 ⟨rfl, rfl, le_rfl⟩
      · next hnonneg =>
          have hsup := sup_nonpos h hstraddles hnonneg
          exact le_iff.2 ⟨(le_iff.1 h).2.1, rfl, hsup.trans toEReal_zero.ge⟩

/-- A member splits into the part of it above zero and the part below, one of
which is zero. -/
theorem exists_parts_of_mem {w : ℝ} (hw : (w : EReal) ∈ a) :
    ∃ p n : ℝ, (p : EReal) ∈ a.positivePart ∧ (n : EReal) ∈ a.negativePart ∧
      w = p + n ∧ p * n = 0 := by
  have hcoe := EReal.coe_strictMono.monotone
  refine ⟨max w 0, min w 0, ?_, ?_, ?_, ?_⟩
  · rw [hcoe.map_max, EReal.coe_zero]
    exact max_mem_positivePart hw
  · rw [hcoe.map_min, EReal.coe_zero]
    exact min_mem_negativePart hw
  · rw [max_add_min, add_zero]
  · rw [max_mul_min, mul_zero]

end Interval

namespace IntervalMatrix

open Binary64

variable {m : IntervalMatrix}

/-- What it is for two matrices to split a third one by sign: they add up to
it, they lie on either side of zero, and every weight in one of its cells is
the sum of weights in their cells, of which one is zero. -/
structure IsSignSplit (m pos neg : IntervalMatrix) : Prop where
  sum_eq : ∃ total, sum pos neg = .ok total ∧ total.sameCells m = true
  inf_nonneg : ∀ a ∈ pos.cells, 0 ≤ a.inf
  sup_nonpos : ∀ a ∈ neg.cells, a.sup ≤ 0
  exists_parts : ∀ i j a, m.cell? i j = some a → ∃ above below,
    pos.cell? i j = some above ∧ neg.cell? i j = some below ∧
      ∀ w : ℝ, (w : EReal) ∈ a → ∃ p n : ℝ, (p : EReal) ∈ above ∧
        (n : EReal) ∈ below ∧ w = p + n ∧ p * n = 0

theorem sameCells_map {f : Interval → Interval}
    (h : ∀ a ∈ m.cells, (f a).sameEnds a = true) :
    sameCells (m.map f) m = true := by
  have hcells : List.zipWith Interval.sameEnds (m.cells.map f) m.cells =
      m.cells.map fun a => (f a).sameEnds a := by
    rw [List.zipWith_map_left, List.zipWith_self]
  show (m.shape == m.shape && (List.zipWith _ (m.cells.map f) _).all id) = true
  rw [hcells, beq_self_eq_true, Bool.true_and, List.all_map, List.all_eq_true]
  exact h

/-- The parts of a matrix split it by sign. -/
theorem isSignSplit_parts (h : ∀ a ∈ m.cells, a.inf ≤ a.sup) :
    IsSignSplit m m.positivePart m.negativePart where
  sum_eq := by
    have hsum : sum m.positivePart m.negativePart =
        .ok (m.map fun a => a.positivePart + a.negativePart) := by
      rw [sum, positivePart, negativePart, Grid.zipWith?_map]
    exact ⟨_, hsum, sameCells_map fun a ha =>
      Interval.positivePart_add_negativePart (h a ha)⟩
  inf_nonneg a ha := by
    obtain ⟨c, -, rfl⟩ := List.mem_map.1 ha
    exact c.le_positivePart_inf
  sup_nonpos a ha := by
    obtain ⟨c, hc, rfl⟩ := List.mem_map.1 ha
    exact Interval.negativePart_sup_le (h c hc)
  exists_parts i j a ha := by
    refine ⟨a.positivePart, a.negativePart, ?_, ?_,
      fun w hw => Interval.exists_parts_of_mem hw⟩
    · rw [positivePart, Grid.cell?_map, ha]
      rfl
    · rw [negativePart, Grid.cell?_map, ha]
      rfl

/-- Two cells around zero, one of them without bounds, and two that end at a
zero. -/
def mixedSigns : IntervalMatrix :=
  ⟨2, 2, [⟨-1, 1⟩, ⟨negInfinity, infinity⟩, ⟨-0, 1⟩, ⟨negInfinity, 0⟩], rfl⟩

theorem isSignSplit_parts_mixedSigns :
    (∀ a ∈ mixedSigns.cells, a.inf ≤ a.sup) ∧
    mixedSigns.positivePart.cells =
      [⟨0, 1⟩, ⟨0, infinity⟩, ⟨-0, 1⟩, ⟨0, 0⟩] ∧
    mixedSigns.negativePart.cells =
      [⟨-1, 0⟩, ⟨negInfinity, 0⟩, ⟨0, 0⟩, ⟨negInfinity, 0⟩] ∧
    IsSignSplit mixedSigns mixedSigns.positivePart mixedSigns.negativePart := by
  have hordered : ∀ a ∈ mixedSigns.cells, a.inf ≤ a.sup := by decide
  exact ⟨hordered, by decide, by decide, isSignSplit_parts hordered⟩

end IntervalMatrix

end BoxCert
