import BoxCert.Grid

/-!
# Grids row by row

What the rows and columns of a grid are, for the shapes a computation on
vectors meets: a column, a single row, and a grid put together from rows.
-/

namespace BoxCert.Grid

variable {α β γ : Type} {g : Grid α}

theorem ext {g k : Grid α} (hrows : g.rows = k.rows) (hcols : g.cols = k.cols)
    (hcells : g.cells = k.cells) : g = k := by
  cases g
  cases k
  subst hrows hcols hcells
  rfl

theorem getElem?_row (g : Grid α) (i j : Nat) : (g.row i)[j]? = g.cell? i j := by
  rw [row, List.getElem?_take, List.getElem?_drop]
  rfl

theorem getElem?_rowList {i : Nat} (h : i < g.rows) :
    g.rowList[i]? = some (g.row i) := by
  rw [rowList, List.getElem?_map, List.getElem?_range h]
  rfl

theorem row_map (f : α → β) (g : Grid α) (i : Nat) :
    (g.map f).row i = (g.row i).map f := by
  rw [row, row, List.map_take, List.map_drop]
  rfl

theorem rowList_map (f : α → β) (g : Grid α) :
    (g.map f).rowList = g.rowList.map (List.map f) := by
  rw [rowList, rowList, List.map_map]
  exact List.map_congr_left fun i _ => row_map f g i

theorem cell?_map (f : α → β) (g : Grid α) (i j : Nat) :
    (g.map f).cell? i j = (g.cell? i j).map f := by
  rw [← getElem?_row, ← getElem?_row, row_map, List.getElem?_map]

theorem mem_of_mem_row {i : Nat} {a : α} (ha : a ∈ g.row i) : a ∈ g.cells :=
  List.mem_of_mem_drop (List.mem_of_mem_take ha)

theorem mem_of_cell? {i j : Nat} {a : α} (h : g.cell? i j = some a) :
    a ∈ g.cells := by
  rw [← getElem?_row] at h
  exact mem_of_mem_row (List.mem_of_getElem? h)

theorem mem_of_mem_col {j : Nat} {a : α} (ha : a ∈ g.col j) : a ∈ g.cells := by
  obtain ⟨line, hline, hcell⟩ := List.mem_filterMap.1 ha
  obtain ⟨i, -, rfl⟩ := List.mem_map.1 hline
  exact mem_of_mem_row (List.mem_of_getElem? hcell)

/-- A cell of a table comes from a row of the one grid and a column of the
other. -/
theorem exists_of_mem_table {f : List α → List β → γ} {k : Grid β} {c : γ}
    (hc : c ∈ (table f g k).cells) :
    ∃ i j, f (g.row i) (k.col j) = c := by
  obtain ⟨line, hline, hcell⟩ := List.mem_flatten.1 hc
  obtain ⟨_, hrow, rfl⟩ := List.mem_map.1 hline
  obtain ⟨_, hcol, rfl⟩ := List.mem_map.1 hcell
  obtain ⟨i, -, rfl⟩ := List.mem_map.1 hrow
  obtain ⟨j, -, rfl⟩ := List.mem_map.1 hcol
  exact ⟨i, j, rfl⟩

theorem exists_of_mem_zipWith {f : α → β → γ} {u : List α} {v : List β} {c : γ}
    (hc : c ∈ List.zipWith f u v) : ∃ a ∈ u, ∃ b ∈ v, f a b = c := by
  rw [← List.map_uncurry_zip_eq_zipWith] at hc
  obtain ⟨⟨a, b⟩, hmem, rfl⟩ := List.mem_map.1 hc
  obtain ⟨ha, hb⟩ := List.of_mem_zip hmem
  exact ⟨a, ha, b, hb, rfl⟩

theorem cells_of_zipWith? {f : α → β → γ} {k : Grid β} {c : Grid γ}
    (h : zipWith? f g k = some c) : c.cells = List.zipWith f g.cells k.cells := by
  unfold zipWith? at h
  split at h
  · cases h
    rfl
  · cases h

theorem cells_of_ofCells? {rows cols : Nat} {cells : List α}
    (h : ofCells? rows cols cells = some g) : g.cells = cells := by
  unfold ofCells? at h
  split at h
  · cases h
    rfl
  · cases h

/-- The rows of a grid that was put together from rows. -/
theorem rowList_flatten {k : Nat} {lines : List (List α)}
    (h : ∀ xs ∈ lines, xs.length = k) :
    rowList ⟨lines.length, k, lines.flatten, length_flatten_of_forall h⟩ =
      lines := by
  unfold rowList row
  dsimp only
  induction lines with
  | nil => rfl
  | cons xs lines ih =>
      have hxs : xs.length = k := h xs List.mem_cons_self
      rw [List.length_cons, List.range_succ_eq_map, List.map_cons,
        List.map_map]
      congr 1
      · rw [Nat.zero_mul, List.drop_zero, List.flatten_cons,
          List.take_left' hxs]
      · refine Eq.trans (List.map_congr_left fun i _ => ?_)
          (ih fun ys hys => h ys (List.mem_cons_of_mem _ hys))
        rw [Function.comp_apply, Nat.succ_mul, Nat.add_comm, List.flatten_cons,
          ← List.drop_drop, List.drop_left' hxs]

theorem rowList_singleRow (cells : List α) :
    (singleRow cells).rowList = [cells] := by
  show [((cells.drop (0 * cells.length)).take cells.length)] = [cells]
  rw [Nat.zero_mul, List.drop_zero, List.take_length]

/-! ## Columns -/

theorem cols_of_isColumn (h : g.isColumn = true) : g.cols = 1 :=
  eq_of_beq h

theorem length_of_isColumn (h : g.isColumn = true) :
    g.cells.length = g.rows := by
  rw [g.length_cells, cols_of_isColumn h, Nat.mul_one]

theorem cell?_of_isColumn (h : g.isColumn = true) (i : Nat) :
    g.cell? i 0 = g.cells[i]? := by
  rw [cell?, cols_of_isColumn h, if_pos Nat.one_pos, Nat.mul_one, Nat.add_zero]

theorem rowList_of_isColumn (h : g.isColumn = true) :
    g.rowList = g.cells.map fun a => [a] := by
  have hcells : g.cells = (g.cells.map fun a => [a]).flatten := by
    rw [← List.flatMap_def, List.flatMap_singleton']
  have hlines : ∀ xs ∈ g.cells.map fun a => [a], xs.length = 1 := by
    intro xs hxs
    obtain ⟨a, -, rfl⟩ := List.mem_map.1 hxs
    rfl
  have hrows : g.rows = (g.cells.map fun a => [a]).length := by
    rw [List.length_map, length_of_isColumn h]
  have hg : g = ⟨_, 1, _, length_flatten_of_forall hlines⟩ :=
    ext hrows (cols_of_isColumn h) hcells
  exact (congrArg rowList hg).trans (rowList_flatten hlines)

theorem colList_of_isColumn (h : g.isColumn = true) : g.colList = [g.cells] := by
  rw [colList, cols_of_isColumn h]
  show [g.col 0] = _
  rw [col, rowList_of_isColumn h, List.filterMap_map]
  congr 1
  exact List.filterMap_some

theorem table_of_isColumn (f : List α → List β → γ) {k : Grid β}
    (h : k.isColumn = true) :
    table f g k = column (g.rowList.map fun r => f r k.cells) := by
  refine ext ?_ (cols_of_isColumn h) ?_
  · exact (by rw [List.length_map, length_rowList] :
      g.rows = (g.rowList.map fun r => f r k.cells).length)
  · show (g.rowList.map fun r => k.colList.map (f r)).flatten = _
    rw [colList_of_isColumn h, ← List.flatMap_def]
    exact List.map_eq_flatMap.symm

theorem zipWith?_column (f : α → β → γ) {u : List α} {v : List β}
    (h : u.length = v.length) :
    zipWith? f (column u) (column v) = some (column (List.zipWith f u v)) := by
  rw [zipWith?, dif_pos ⟨h, rfl⟩, Option.some.injEq]
  refine ext ?_ rfl rfl
  exact (by rw [List.length_zipWith, h, Nat.min_self] :
    u.length = (List.zipWith f u v).length)

/-- Two grids made from one have the same shape. -/
theorem zipWith?_map {δ : Type} (h : β → γ → δ) (f : α → β) (f' : α → γ)
    (g : Grid α) :
    zipWith? h (g.map f) (g.map f') = some (g.map fun a => h (f a) (f' a)) := by
  rw [zipWith?, dif_pos ⟨rfl, rfl⟩, Option.some.injEq]
  refine ext rfl rfl ?_
  show List.zipWith h (g.cells.map f) (g.cells.map f') = _
  rw [List.zipWith_map, List.zipWith_self]
  rfl

/-! ## Transposing -/

theorem getElem?_filterMap {f : α → Option β} {items : List α}
    (h : ∀ a ∈ items, (f a).isSome = true) (i : Nat) :
    (items.filterMap f)[i]? = items[i]?.bind f := by
  induction items generalizing i with
  | nil => rfl
  | cons a items ih =>
      obtain ⟨hhead, htail⟩ := List.forall_mem_cons.1 h
      obtain ⟨b, hb⟩ := Option.isSome_iff_exists.1 hhead
      rw [List.filterMap_cons_some hb]
      cases i with
      | zero => exact hb.symm
      | succ i => exact ih htail i

theorem getElem?_col {i j : Nat} (hi : i < g.rows) (hj : j < g.cols) :
    (g.col j)[i]? = g.cell? i j := by
  have hrows : ∀ xs ∈ g.rowList, (xs[j]?).isSome = true := by
    intro xs hxs
    obtain ⟨k, hk, rfl⟩ := List.mem_map.1 hxs
    rw [List.getElem?_eq_getElem (by rwa [length_row (List.mem_range.1 hk)])]
    rfl
  rw [col, getElem?_filterMap hrows, getElem?_rowList hi, ← getElem?_row]
  rfl

theorem rows_transpose (g : Grid α) : g.transpose.rows = g.cols := by
  unfold transpose
  split <;> rfl

theorem cols_transpose (g : Grid α) : g.transpose.cols = g.rows := by
  unfold transpose
  split <;> rfl

theorem rowList_transpose (h : g.cells ≠ []) :
    g.transpose.rowList = g.colList := by
  have hlines : ∀ xs ∈ g.colList, xs.length = g.rows := by
    intro xs hxs
    obtain ⟨j, hj, rfl⟩ := List.mem_map.1 hxs
    exact length_col (List.mem_range.1 hj)
  have hgrid : g.transpose =
      ⟨_, g.rows, _, length_flatten_of_forall hlines⟩ := by
    rw [transpose, dif_neg h]
    refine ext ?_ rfl rfl
    show g.cols = g.colList.length
    rw [colList, List.length_map, List.length_range]
  rw [hgrid]
  exact rowList_flatten hlines

theorem cell?_transpose {i j : Nat} (hi : i < g.cols) (hj : j < g.rows) :
    g.transpose.cell? i j = g.cell? j i := by
  have hcells : g.cells ≠ [] := by
    rw [← List.length_pos_iff, g.length_cells]
    exact Nat.mul_pos (by omega) (by omega)
  have hrow := getElem?_rowList (g := g.transpose) (i := i)
    (by rwa [rows_transpose])
  rw [rowList_transpose hcells, colList, List.getElem?_map,
    List.getElem?_range hi, Option.map_some, Option.some.injEq] at hrow
  rw [← getElem?_row, ← hrow, getElem?_col hj hi]

/-- Grids of one shape with the same cells are the same. -/
theorem ext_cell? {k : Grid α} (hrows : g.rows = k.rows) (hcols : g.cols = k.cols)
    (h : ∀ i < g.rows, ∀ j < g.cols, g.cell? i j = k.cell? i j) : g = k := by
  refine ext hrows hcols (List.ext_getElem? fun n => ?_)
  by_cases hn : n < g.rows * g.cols
  · have hcols_pos : 0 < g.cols := by
      apply Nat.pos_of_ne_zero
      intro hzero
      rw [hzero, Nat.mul_zero] at hn
      cases hn
    have hcell := h (n / g.cols) (Nat.div_lt_of_lt_mul (by rwa [Nat.mul_comm]))
      (n % g.cols) (Nat.mod_lt _ hcols_pos)
    rwa [cell?, cell?, ← hcols, if_pos (Nat.mod_lt _ hcols_pos),
      if_pos (Nat.mod_lt _ hcols_pos), Nat.div_add_mod'] at hcell
  · rw [List.getElem?_eq_none (by rw [g.length_cells]; omega),
      List.getElem?_eq_none (by rw [k.length_cells, ← hrows, ← hcols]; omega)]

end BoxCert.Grid
