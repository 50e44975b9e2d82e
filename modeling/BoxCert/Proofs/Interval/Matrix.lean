import BoxCert.Box
import BoxCert.Proofs.Grid
import BoxCert.Proofs.Interval.Linear

/-!
# Matrices on columns, and boxes

Matrix products and sums never fail on columns of fitting height, and come
down to scalar products and sums of cells. A box is accepted if and only if
its columns match and none of its ranges is empty.
-/

namespace BoxCert

namespace IntervalMatrix

variable {a b : IntervalMatrix} {u v : List Interval}

theorem product_of_isColumn (h : a.cols = b.rows) (hb : b.isColumn = true) :
    product a b = .ok (Grid.column (a.rowList.map fun r => dot r b.cells)) := by
  rw [product, if_pos h, Grid.table_of_isColumn _ hb]

theorem sum_column (h : u.length = v.length) :
    sum (Grid.column u) (Grid.column v) =
      .ok (Grid.column (List.zipWith (· + ·) u v)) := by
  rw [sum, Grid.zipWith?_column _ h]

theorem sumAll_two (h : u.length = v.length) :
    sumAll [Grid.column u, Grid.column v] =
      .ok (Grid.column (List.zipWith (· + ·) u v)) := by
  rw [sumAll, List.foldlM_cons, sum_column h]
  rfl

theorem sumAll_three {w : List Interval} (h : u.length = v.length)
    (h' : v.length = w.length) :
    sumAll [Grid.column u, Grid.column v, Grid.column w] =
      .ok (Grid.column
        (List.zipWith (· + ·) (List.zipWith (· + ·) u v) w)) := by
  have hlength : (List.zipWith (· + ·) u v).length = w.length := by
    rw [List.length_zipWith, h, Nat.min_self, h']
  rw [sumAll, List.foldlM_cons, sum_column h]
  show List.foldlM sum (Grid.column _) [Grid.column w] = _
  rw [List.foldlM_cons, sum_column hlength]
  rfl

theorem rowList_positivePart (a : IntervalMatrix) :
    a.positivePart.rowList = a.rowList.map (List.map Interval.positivePart) :=
  Grid.rowList_map _ a

theorem rowList_negativePart (a : IntervalMatrix) :
    a.negativePart.rowList = a.rowList.map (List.map Interval.negativePart) :=
  Grid.rowList_map _ a

end IntervalMatrix

namespace Box

variable {b : Box} {lower upper : IntervalMatrix}

theorem emptyRange?_eq_none {u v : List Interval} (h : u.length = v.length) :
    emptyRange? u v = none ↔
      List.Forall₂ (fun a b => a.inf ≤ b.sup) u v := by
  rw [emptyRange?, Option.map_eq_none_iff, List.find?_eq_none,
    List.forall₂_iff_zip]
  constructor
  · intro hnone
    refine ⟨h, fun {a b} hab => ?_⟩
    obtain ⟨i, hi⟩ := List.getElem?_of_mem hab
    have := hnone ⟨(a, b), i⟩ (List.mem_zipIdx_iff_getElem?.2 hi)
    simpa using this
  · rintro ⟨-, hall⟩ ⟨⟨a, b⟩, i⟩ hmem
    have := hall (List.mem_of_getElem? (List.mem_zipIdx_iff_getElem?.1 hmem))
    simpa using this

/-- What makes two columns a box: they are columns of one height and no range
is empty. -/
structure Accepted (b : Box) : Prop where
  lower_isColumn : b.lower.isColumn = true
  upper_isColumn : b.upper.isColumn = true
  rows_eq : b.lower.rows = b.upper.rows
  ranges : List.Forall₂ (fun l u : Interval => l.inf ≤ u.sup)
    b.lower.cells b.upper.cells

theorem Accepted.length_lower (h : b.Accepted) :
    b.lower.cells.length = b.dim :=
  Grid.length_of_isColumn h.lower_isColumn

theorem Accepted.length_upper (h : b.Accepted) :
    b.upper.cells.length = b.dim := by
  rw [Grid.length_of_isColumn h.upper_isColumn, ← h.rows_eq]
  rfl

theorem Accepted.exists_lower_iff (h : b.Accepted) {i : Nat} :
    (∃ a, b.lower.cells[i]? = some a) ↔ i < b.dim := by
  rw [← h.length_lower]
  constructor
  · rintro ⟨a, ha⟩
    exact (List.getElem?_eq_some_iff.1 ha).1
  · intro hi
    exact ⟨_, List.getElem?_eq_getElem hi⟩

theorem Accepted.exists_upper_iff (h : b.Accepted) {i : Nat} :
    (∃ a, b.upper.cells[i]? = some a) ↔ i < b.dim := by
  rw [← h.length_upper]
  constructor
  · rintro ⟨a, ha⟩
    exact (List.getElem?_eq_some_iff.1 ha).1
  · intro hi
    exact ⟨_, List.getElem?_eq_getElem hi⟩

theorem Accepted.exists_ends (h : b.Accepted) {i : Nat} (hi : i < b.dim) :
    ∃ low high, b.lower.cells[i]? = some low ∧
      b.upper.cells[i]? = some high := by
  obtain ⟨low, hlow⟩ := h.exists_lower_iff.2 hi
  obtain ⟨high, hhigh⟩ := h.exists_upper_iff.2 hi
  exact ⟨low, high, hlow, hhigh⟩

theorem Accepted.inf_le_sup (h : b.Accepted) {i : Nat} {low high : Interval}
    (hlow : b.lower.cells[i]? = some low)
    (hhigh : b.upper.cells[i]? = some high) : low.inf ≤ high.sup := by
  obtain ⟨hi, rfl⟩ := List.getElem?_eq_some_iff.1 hlow
  obtain ⟨hi', rfl⟩ := List.getElem?_eq_some_iff.1 hhigh
  exact h.ranges.get hi hi'

theorem Accepted.exists_cells (h : b.Accepted) (hone : b.dim = 1) :
    ∃ l u, b.lower.cells = [l] ∧ b.upper.cells = [u] := by
  have hlower := h.length_lower
  have hupper := h.length_upper
  rw [hone, List.length_eq_one_iff] at hlower hupper
  obtain ⟨l, hl⟩ := hlower
  obtain ⟨u, hu⟩ := hupper
  exact ⟨l, u, hl, hu⟩

/-- The check of a box accepts exactly the boxes of that kind, and gives back
what it was given. -/
theorem ofColumns_eq_ok :
    ofColumns lower upper = .ok b ↔ b = ⟨lower, upper⟩ ∧ b.Accepted := by
  unfold ofColumns
  constructor
  · intro h
    split at h
    · cases h
    · next hcolumn =>
        split at h
        · cases h
        · next hshape =>
            have hlower : lower.isColumn = true := by simpa using hcolumn
            have hshapes : lower.rows = upper.rows ∧ lower.cols = upper.cols := by
              simpa [Grid.shape] using hshape
            have hupper : upper.isColumn = true := by
              rw [Grid.isColumn, ← hshapes.2]
              exact hlower
            split at h
            · cases h
            · next hranges =>
                cases h
                refine ⟨rfl, hlower, hupper, hshapes.1, ?_⟩
                rwa [emptyRange?_eq_none] at hranges
                rw [Grid.length_of_isColumn hlower,
                  Grid.length_of_isColumn hupper, hshapes.1]
  · rintro ⟨rfl, h⟩
    have hcols : lower.cols = upper.cols :=
      (Grid.cols_of_isColumn h.lower_isColumn).trans
        (Grid.cols_of_isColumn h.upper_isColumn).symm
    have hranges := (emptyRange?_eq_none (h.length_lower.trans
      h.length_upper.symm)).2 h.ranges
    have hshape : lower.shape = upper.shape := by
      rw [Grid.shape, Grid.shape, hcols, h.rows_eq]
    rw [if_neg (by simpa using h.lower_isColumn),
      if_neg (by simpa using hshape)]
    dsimp only at hranges
    rw [hranges]

/-- An accepted box whose ends are intervals with their own ends in order. -/
structure Proper (b : Box) : Prop extends b.Accepted where
  lower_proper : ∀ a ∈ b.lower.cells, a.inf ≤ a.sup
  upper_proper : ∀ a ∈ b.upper.cells, a.inf ≤ a.sup

theorem Proper.lower_inf_le_sup (h : b.Proper) {i : Nat} {a : Interval}
    (ha : b.lower.cells[i]? = some a) : a.inf ≤ a.sup :=
  h.lower_proper a (List.mem_of_getElem? ha)

theorem Proper.upper_inf_le_sup (h : b.Proper) {i : Nat} {a : Interval}
    (ha : b.upper.cells[i]? = some a) : a.inf ≤ a.sup :=
  h.upper_proper a (List.mem_of_getElem? ha)

theorem proper_of_cells (h : ofColumns b.lower b.upper = .ok b)
    (hcells : ∀ a ∈ b.lower.cells ++ b.upper.cells, a.inf ≤ a.sup) :
    b.Proper :=
  ⟨(ofColumns_eq_ok.1 h).2, fun a ha => hcells a (List.mem_append_left _ ha),
    fun a ha => hcells a (List.mem_append_right _ ha)⟩

/-- Whether a point lies in the box, component by component. -/
structure Encloses {n : Nat} (b : Box) (x : Fin n → ℝ) : Prop where
  lower_le : ∀ (k : Fin n) a, b.lower.cells[k.val]? = some a →
    a.inf.toEReal ≤ x k
  le_upper : ∀ (k : Fin n) a, b.upper.cells[k.val]? = some a →
    x k ≤ a.sup.toEReal

end Box

end BoxCert
