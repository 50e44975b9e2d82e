/-!
# Grids

A grid is a rectangular table. It keeps its two dimensions beside its cells,
which stand row by row in one list, so a grid without rows still knows its
width and a grid without columns its height. That the list has the right
length is part of the type.
-/

namespace BoxCert

/-- A table of `rows * cols` cells, row by row. -/
structure Grid (α : Type) where
  rows : Nat
  cols : Nat
  cells : List α
  length_cells : cells.length = rows * cols
deriving DecidableEq, Repr

namespace Grid

variable {α β γ : Type}

/-- The grid of the given cells, if their number fits. -/
def ofCells? (rows cols : Nat) (cells : List α) : Option (Grid α) :=
  if h : cells.length = rows * cols then some ⟨rows, cols, cells, h⟩
  else none

theorem length_flatten_of_forall {k : Nat} {l : List (List α)}
    (h : ∀ xs ∈ l, xs.length = k) : l.flatten.length = l.length * k := by
  induction l with
  | nil => simp
  | cons xs l ih =>
      rw [List.flatten_cons, List.length_append, h xs List.mem_cons_self,
        ih fun m hm => h m (List.mem_cons_of_mem _ hm), List.length_cons,
        Nat.succ_mul, Nat.add_comm]

/-- A row that breaks the rectangle: where it stands and how long it is, and
the length the first row asks for. -/
structure Ragged where
  index : Nat
  length : Nat
  expected : Nat
deriving DecidableEq, Repr

/-- The grid of equally long rows, or the first row whose length differs from
the first one's. A grid of no rows has no columns. -/
def ofRows (lines : List (List α)) : Except Ragged (Grid α) :=
  let cols := lines.head?.elim 0 List.length
  match h : lines.find? fun xs => xs.length != cols with
  | some xs =>
      .error ⟨lines.findIdx fun xs => xs.length != cols, xs.length, cols⟩
  | none => .ok ⟨lines.length, cols, lines.flatten,
      length_flatten_of_forall fun xs hl => by
        simpa using List.find?_eq_none.1 h xs hl⟩

def column (cells : List α) : Grid α :=
  ⟨cells.length, 1, cells, (Nat.mul_one _).symm⟩

def singleRow (cells : List α) : Grid α :=
  ⟨1, cells.length, cells, (Nat.one_mul _).symm⟩

def fill (rows cols : Nat) (a : α) : Grid α :=
  ⟨rows, cols, List.replicate (rows * cols) a, List.length_replicate⟩

def shape (g : Grid α) : List Nat := [g.rows, g.cols]

def isColumn (g : Grid α) : Bool := g.cols == 1

def cell? (g : Grid α) (i j : Nat) : Option α :=
  if j < g.cols then g.cells[i * g.cols + j]? else none

def row (g : Grid α) (i : Nat) : List α := (g.cells.drop (i * g.cols)).take g.cols

/-- The rows from top to bottom. -/
def rowList (g : Grid α) : List (List α) := (List.range g.rows).map g.row

def col (g : Grid α) (j : Nat) : List α := g.rowList.filterMap (·[j]?)

/-- The columns from left to right. -/
def colList (g : Grid α) : List (List α) := (List.range g.cols).map g.col

/-- Row `i` as a grid of its own. -/
def row? (g : Grid α) (i : Nat) : Option (Grid α) :=
  if i < g.rows then some (singleRow (g.row i)) else none

def map (f : α → β) (g : Grid α) : Grid β :=
  ⟨g.rows, g.cols, g.cells.map f, by rw [List.length_map, g.length_cells]⟩

/-- Combines two grids of one shape cell by cell. -/
def zipWith? (f : α → β → γ) (g : Grid α) (k : Grid β) : Option (Grid γ) :=
  if h : g.rows = k.rows ∧ g.cols = k.cols then
    some ⟨g.rows, g.cols, List.zipWith f g.cells k.cells, by
      rw [List.length_zipWith, g.length_cells, k.length_cells, h.1, h.2,
        Nat.min_self]⟩
  else none

theorem length_row {g : Grid α} {i : Nat} (h : i < g.rows) :
    (g.row i).length = g.cols := by
  have := Nat.mul_le_mul_right g.cols h
  rw [Nat.succ_mul, ← g.length_cells] at this
  rw [row, List.length_take, List.length_drop]
  omega

theorem length_rowList (g : Grid α) : g.rowList.length = g.rows := by
  rw [rowList, List.length_map, List.length_range]

theorem length_col {g : Grid α} {j : Nat} (h : j < g.cols) :
    (g.col j).length = g.rows := by
  have some_of_mem : ∀ xs ∈ g.rowList, (xs[j]?).isSome := by
    intro xs hl
    obtain ⟨i, hi, rfl⟩ := List.mem_map.1 hl
    rw [List.getElem?_eq_getElem (by rwa [length_row (List.mem_range.1 hi)])]
    rfl
  rw [col, List.length_filterMap_eq_countP,
    List.countP_eq_length.2 some_of_mem, length_rowList]

def transpose (g : Grid α) : Grid α :=
  if h : g.cells = [] then
    ⟨g.cols, g.rows, [], by
      rw [Nat.mul_comm, ← g.length_cells, h]⟩
  else
    ⟨g.cols, g.rows, g.colList.flatten, by
      rw [length_flatten_of_forall (k := g.rows), colList, List.length_map,
        List.length_range]
      intro xs hl
      obtain ⟨j, hj, rfl⟩ := List.mem_map.1 hl
      exact length_col (List.mem_range.1 hj)⟩

/-- The table of `f` on the rows of `g` and the columns of `k`. -/
def table (f : List α → List β → γ) (g : Grid α) (k : Grid β) : Grid γ :=
  ⟨g.rows, k.cols,
    let columns := k.colList
    (g.rowList.map fun r => columns.map (f r)).flatten, by
      rw [length_flatten_of_forall (k := k.cols), List.length_map,
        length_rowList]
      intro xs hl
      obtain ⟨r, _, rfl⟩ := List.mem_map.1 hl
      rw [List.length_map, colList, List.length_map, List.length_range]⟩

end Grid

end BoxCert
