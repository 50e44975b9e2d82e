import BoxCert.Proofs.Checked
import BoxCert.Proofs.Interval.Matrix
import BoxCert.Proofs.Number.Monotone

/-!
# The interval kernel keeps its intervals valid

An interval is valid if its ends are in order, which says that neither is NaN.
Nothing in the type of intervals asks for that: the operations have to keep it.
They do so whatever the ends are, infinite ones and spilled sums included, so
no condition on an addition or a product is needed here, in contrast to what
encloses what.

One lemma per operation says that it keeps validity. A computation with the
kernel is a straight line of operations on registers, each of which appends
its results; that one of them keeps all registers valid is the step, and the
rest is induction on the line.
-/

namespace BoxCert

open Binary64

namespace Interval

variable {a b : Interval} {x t : Binary64} {items row column : List Interval}

theorem point_inf_le_sup (hx : x.isNan = false) :
    (point x).inf ≤ (point x).sup :=
  le_iff.2 ⟨hx, hx, le_rfl⟩

theorem around_inf_le_sup (hx : x.isNan = false) (ht : 0 ≤ t) :
    (around x t).inf ≤ (around x t).sup := by
  obtain ⟨-, hnan, hpos⟩ := le_iff.1 ht
  rw [toEReal_zero] at hpos
  exact inf_le_sup_of_mem (mem_around hx hnan hpos)

theorem neg_inf_le_sup (h : a.inf ≤ a.sup) : (-a).inf ≤ (-a).sup :=
  neg_atMost_neg_iff.2 h

theorem hull_inf_le_sup (ha : a.inf ≤ a.sup) (hb : b.inf ≤ b.sup) :
    (hull a b).inf ≤ (hull a b).sup := by
  obtain ⟨hai, has, hle⟩ := le_iff.1 ha
  obtain ⟨hbi, hbs, -⟩ := le_iff.1 hb
  refine le_iff.2 ⟨?_, ?_, ?_⟩
  · exact (isNan_unsignedZero _).trans (isNan_min hai hbi)
  · exact (isNan_unsignedZero _).trans (isNan_max has hbs)
  · show (unsignedZero _).toEReal ≤ (unsignedZero _).toEReal
    rw [toEReal_unsignedZero, toEReal_unsignedZero, toEReal_min hai hbi,
      toEReal_max has hbs]
    exact (min_le_left _ _).trans (hle.trans (le_max_left _ _))

theorem sum_items_inf_le_sup (h : ∀ a ∈ items, a.inf ≤ a.sup) :
    (sum items).inf ≤ (sum items).sup :=
  sum_inf_le_sup (List.forall₂_same.2 h)

theorem dot_inf_le_sup (hrow : ∀ a ∈ row, a.inf ≤ a.sup)
    (hcolumn : ∀ b ∈ column, b.inf ≤ b.sup) :
    (IntervalMatrix.dot row column).inf ≤
      (IntervalMatrix.dot row column).sup := by
  refine sum_items_inf_le_sup fun c hc => ?_
  obtain ⟨a, ha, b, hb, rfl⟩ := Grid.exists_of_mem_zipWith hc
  exact mul_inf_le_sup (hrow a ha) (hcolumn b hb)

/-- The distance between ends in order is a number at or above zero. -/
theorem width_nonneg (h : a.inf ≤ a.sup) : 0 ≤ a.width := by
  obtain ⟨hinf, hsup, -⟩ := le_iff.1 h
  have hneg : (-a.inf).isNan = false := by rwa [isNan_neg]
  show 0 ≤ addUp a.sup (-a.inf)
  -- An end that is infinite makes the distance infinite, also against itself.
  rcases infinity_or_units hinf with hinf | hinf | ⟨n, hn⟩
  · rw [hinf] at h
    rw [eq_infinity_of_le h, (addUp_infinity hneg).1]
    decide
  · rw [hinf]
    show 0 ≤ addUp a.sup infinity
    rw [(addUp_infinity hsup).2]
    decide
  · have hzero : (0 : Binary64).toEReal ≤ a.inf.toEReal + (-a.inf).toEReal := by
      rw [toEReal_neg, toEReal_of_units hn, ← EReal.coe_neg, ← EReal.coe_add,
        add_neg_cancel, toEReal_zero, EReal.coe_zero]
    exact le_of_le_of_le (le_addDown hinf hneg rfl hzero)
      (addDown_le_addUp h (le_iff.2 ⟨hneg, hneg, le_rfl⟩))

end Interval

namespace IntervalMatrix

variable {a b c : IntervalMatrix} {i : Nat}

/-- Whether all cells have their ends in order. -/
def Valid (a : IntervalMatrix) : Prop := ∀ x ∈ a.cells, x.inf ≤ x.sup

instance (a : IntervalMatrix) : Decidable a.Valid :=
  inferInstanceAs (Decidable (∀ x ∈ a.cells, x.inf ≤ x.sup))

theorem Valid.row (h : a.Valid) (i : Nat) : ∀ x ∈ a.row i, x.inf ≤ x.sup :=
  fun x hx => h x (Grid.mem_of_mem_row hx)

theorem Valid.row? (h : a.Valid) (hc : a.row? i = some c) : c.Valid := by
  unfold Grid.row? at hc
  split at hc
  · cases hc
    exact h.row i
  · cases hc

theorem Valid.map (h : a.Valid) {f : Interval → Interval}
    (hf : ∀ {x : Interval}, x.inf ≤ x.sup → (f x).inf ≤ (f x).sup) :
    Valid (Grid.map f a) := by
  intro y hy
  obtain ⟨x, hx, rfl⟩ := List.mem_map.1 hy
  exact hf (h x hx)

theorem Valid.product (ha : a.Valid) (hb : b.Valid) (hc : product a b = .ok c) :
    c.Valid := by
  unfold IntervalMatrix.product at hc
  split at hc
  · cases hc
    intro x hx
    obtain ⟨i, j, rfl⟩ := Grid.exists_of_mem_table hx
    exact Interval.dot_inf_le_sup (ha.row i)
      fun y hy => hb y (Grid.mem_of_mem_col hy)
  · cases hc

theorem Valid.sum (ha : a.Valid) (hb : b.Valid) (hc : sum a b = .ok c) :
    c.Valid := by
  unfold IntervalMatrix.sum at hc
  split at hc
  · next hzip =>
      cases hc
      intro x hx
      rw [Grid.cells_of_zipWith? hzip] at hx
      obtain ⟨y, hy, z, hz, rfl⟩ := Grid.exists_of_mem_zipWith hx
      exact Interval.add_inf_le_sup (ha y hy) (hb z hz)
  · cases hc

theorem Valid.foldlM_sum {rest : List IntervalMatrix} (ha : a.Valid)
    (hrest : ∀ b ∈ rest, b.Valid) (hc : rest.foldlM IntervalMatrix.sum a = .ok c) :
    c.Valid := by
  induction rest generalizing a with
  | nil =>
      cases hc
      exact ha
  | cons b rest ih =>
      obtain ⟨hb, hrest⟩ := List.forall_mem_cons.1 hrest
      rw [List.foldlM_cons] at hc
      obtain ⟨s, hs, hc⟩ := bind_eq_ok.1 hc
      exact ih (ha.sum hb hs) hrest hc

theorem valid_of_sumAll {operands : List IntervalMatrix}
    (h : ∀ a ∈ operands, a.Valid) (hc : sumAll operands = .ok c) : c.Valid := by
  match operands, h, hc with
  | first :: second :: rest, h, hc =>
      obtain ⟨hfirst, hrest⟩ := List.forall_mem_cons.1 h
      exact hfirst.foldlM_sum hrest hc

end IntervalMatrix

/-! ## Straight-line computations -/

namespace Kernel

/-- What a register holds. -/
inductive Value where
  | interval (a : Interval)
  | matrix (a : IntervalMatrix)
deriving DecidableEq, Repr

/-- The interval in a register, or all cells of the matrix in it. -/
def Value.intervals : Value → List Interval
  | .interval a => [a]
  | .matrix a => a.cells

/-- The results so far, the oldest one first. -/
abbrev Registers := List Value

def Registers.interval? (r : Registers) (i : Nat) : Option Interval :=
  match r[i]? with
  | some (.interval a) => some a
  | _ => none

def Registers.matrix? (r : Registers) (i : Nat) : Option IntervalMatrix :=
  match r[i]? with
  | some (.matrix a) => some a
  | _ => none

/-- One operation of the kernel. Operands are registers, given by number. -/
inductive Instruction where
  | point (x : Binary64)
  | around (x tolerance : Binary64)
  | add (i j : Nat)
  | mul (i j : Nat)
  | neg (i : Nat)
  | hull (i j : Nat)
  | sum (items : List Nat)
  | positivePart (i : Nat)
  | negativePart (i : Nat)
  /-- The cell of a matrix at a row and a column. -/
  | cell (i line column : Nat)
  /-- The matrix of given dimensions whose cells are intervals at hand. -/
  | grid (rows cols : Nat) (items : List Nat)
  | product (i j : Nat)
  | matrixSum (i j : Nat)
  | sumAll (operands : List Nat)
  /-- Both parts of a matrix by sign. -/
  | signSplit (i : Nat)
  | row (i index : Nat)
deriving DecidableEq, Repr

/-- The results of an operation, if there are any: operands may be missing or
may not fit each other. -/
def Instruction.results? (r : Registers) : Instruction → Option (List Value)
  | .point x => some [.interval (.point x)]
  | .around x tolerance => some [.interval (.around x tolerance)]
  | .add i j => do return [.interval ((← r.interval? i) + (← r.interval? j))]
  | .mul i j => do return [.interval ((← r.interval? i) * (← r.interval? j))]
  | .neg i => do return [.interval (-(← r.interval? i))]
  | .hull i j => do
      return [.interval ((← r.interval? i).hull (← r.interval? j))]
  | .sum items => do
      return [.interval (Interval.sum (← items.mapM r.interval?))]
  | .positivePart i => do return [.interval (← r.interval? i).positivePart]
  | .negativePart i => do return [.interval (← r.interval? i).negativePart]
  | .cell i line column => do
      return [.interval (← (← r.matrix? i).cell? line column)]
  | .grid rows cols items => do
      return [.matrix (← Grid.ofCells? rows cols (← items.mapM r.interval?))]
  | .product i j => do
      return [.matrix (← ((← r.matrix? i).product (← r.matrix? j)).toOption)]
  | .matrixSum i j => do
      return [.matrix (← ((← r.matrix? i).sum (← r.matrix? j)).toOption)]
  | .sumAll operands => do
      return [.matrix (← (IntervalMatrix.sumAll
        (← operands.mapM r.matrix?)).toOption)]
  | .signSplit i => do
      let a ← r.matrix? i
      return [.matrix a.positivePart, .matrix a.negativePart]
  | .row i index => do return [.matrix (← (← r.matrix? i).row? index)]

/-- What an operation asks of the numbers it is given: that none is NaN and no
tolerance is negative. -/
def Instruction.Admissible : Instruction → Prop
  | .point x => x.isNan = false
  | .around x tolerance => x.isNan = false ∧ 0 ≤ tolerance
  | _ => True

instance (instruction : Instruction) : Decidable instruction.Admissible := by
  cases instruction <;> unfold Instruction.Admissible <;> infer_instance

/-- Appends the results of an operation. One without results leaves the
registers as they are. -/
def step (r : Registers) (instruction : Instruction) : Registers :=
  r ++ (instruction.results? r).getD []

def run (r : Registers) (program : List Instruction) : Registers :=
  program.foldl step r

/-- Whether all intervals in the registers have their ends in order. -/
def Valid (r : Registers) : Prop := ∀ v ∈ r, ∀ a ∈ v.intervals, a.inf ≤ a.sup

instance (r : Registers) : Decidable (Valid r) :=
  inferInstanceAs (Decidable (∀ v ∈ r, ∀ a ∈ v.intervals, a.inf ≤ a.sup))

variable {r : Registers} {i j : Nat} {results : List Value}
  {instruction : Instruction} {program : List Instruction}

theorem Valid.interval? (h : Valid r) {a : Interval}
    (ha : r.interval? i = some a) : a.inf ≤ a.sup := by
  unfold Registers.interval? at ha
  split at ha
  · next hi =>
      cases ha
      exact h _ (List.mem_of_getElem? hi) a (List.mem_singleton_self a)
  · cases ha

theorem Valid.matrix? (h : Valid r) {a : IntervalMatrix}
    (ha : r.matrix? i = some a) : a.Valid := by
  unfold Registers.matrix? at ha
  split at ha
  · next hi =>
      cases ha
      exact h _ (List.mem_of_getElem? hi)
  · cases ha

theorem exists_of_mapM {α β : Type} {f : α → Option β} {items : List α}
    {results : List β} (h : items.mapM f = some results) {b : β}
    (hb : b ∈ results) : ∃ a, f a = some b := by
  induction items generalizing results with
  | nil =>
      cases h
      cases hb
  | cons a items ih =>
      rw [List.mapM_cons] at h
      obtain ⟨head, hhead, h⟩ := Option.bind_eq_some_iff.1 h
      obtain ⟨tail, htail, h⟩ := Option.bind_eq_some_iff.1 h
      cases h
      rcases List.mem_cons.1 hb with rfl | hb
      · exact ⟨a, hhead⟩
      · exact ih htail hb

theorem Valid.intervals (h : Valid r) {items : List Nat}
    {operands : List Interval} (hitems : items.mapM r.interval? = some operands) :
    ∀ a ∈ operands, a.inf ≤ a.sup := by
  intro a ha
  obtain ⟨i, hi⟩ := exists_of_mapM hitems ha
  exact h.interval? hi

theorem valid_interval {a : Interval} (h : a.inf ≤ a.sup) :
    Valid [.interval a] := by
  simpa [Valid, Value.intervals] using h

theorem valid_matrix {a : IntervalMatrix} (h : a.Valid) : Valid [.matrix a] := by
  intro v hv
  rw [List.mem_singleton.1 hv]
  exact h

section Operations

variable (h : Valid r)

include h

theorem Valid.interval_map {f : Interval → Interval}
    (hf : ∀ {a : Interval}, a.inf ≤ a.sup → (f a).inf ≤ (f a).sup)
    (hresults : (do return [.interval (f (← r.interval? i))]) =
      some results) : Valid results := by
  obtain ⟨a, ha, hresults⟩ := Option.bind_eq_some_iff.1 hresults
  cases hresults
  exact valid_interval (hf (h.interval? ha))

theorem Valid.interval_map₂ {f : Interval → Interval → Interval}
    (hf : ∀ {a b : Interval}, a.inf ≤ a.sup → b.inf ≤ b.sup →
      (f a b).inf ≤ (f a b).sup)
    (hresults : (do
      return [.interval (f (← r.interval? i) (← r.interval? j))]) =
        some results) : Valid results := by
  obtain ⟨a, ha, hresults⟩ := Option.bind_eq_some_iff.1 hresults
  obtain ⟨b, hb, hresults⟩ := Option.bind_eq_some_iff.1 hresults
  cases hresults
  exact valid_interval (hf (h.interval? ha) (h.interval? hb))

theorem Valid.matrix_map₂
    {f : IntervalMatrix → IntervalMatrix → Checked IntervalMatrix}
    (hf : ∀ {a b c : IntervalMatrix}, a.Valid → b.Valid → f a b = .ok c →
      c.Valid)
    (hresults : (do
      return [.matrix (← (f (← r.matrix? i) (← r.matrix? j)).toOption)]) =
        some results) : Valid results := by
  obtain ⟨a, ha, hresults⟩ := Option.bind_eq_some_iff.1 hresults
  obtain ⟨b, hb, hresults⟩ := Option.bind_eq_some_iff.1 hresults
  obtain ⟨c, hc, hresults⟩ := Option.bind_eq_some_iff.1 hresults
  cases hresults
  exact valid_matrix
    (hf (h.matrix? ha) (h.matrix? hb) (toOption_eq_some.1 hc))

/-- What one operation gives is valid if its operands are. -/
theorem valid_results (hadmissible : instruction.Admissible)
    (hresults : instruction.results? r = some results) : Valid results := by
  cases instruction with
  | point x =>
      cases hresults
      exact valid_interval (Interval.point_inf_le_sup hadmissible)
  | around x tolerance =>
      cases hresults
      exact valid_interval
        (Interval.around_inf_le_sup hadmissible.1 hadmissible.2)
  | add i j => exact h.interval_map₂ Interval.add_inf_le_sup hresults
  | mul i j => exact h.interval_map₂ Interval.mul_inf_le_sup hresults
  | neg i => exact h.interval_map Interval.neg_inf_le_sup hresults
  | hull i j => exact h.interval_map₂ Interval.hull_inf_le_sup hresults
  | sum items =>
      obtain ⟨operands, hitems, hresults⟩ := Option.bind_eq_some_iff.1 hresults
      cases hresults
      exact valid_interval
        (Interval.sum_items_inf_le_sup (h.intervals hitems))
  | positivePart i =>
      exact h.interval_map Interval.positivePart_inf_le_sup hresults
  | negativePart i =>
      exact h.interval_map Interval.negativePart_inf_le_sup hresults
  | cell i line column =>
      obtain ⟨a, ha, hresults⟩ := Option.bind_eq_some_iff.1 hresults
      obtain ⟨x, hx, hresults⟩ := Option.bind_eq_some_iff.1 hresults
      cases hresults
      exact valid_interval (h.matrix? ha x (Grid.mem_of_cell? hx))
  | grid rows cols items =>
      obtain ⟨cells, hitems, hresults⟩ := Option.bind_eq_some_iff.1 hresults
      obtain ⟨a, ha, hresults⟩ := Option.bind_eq_some_iff.1 hresults
      cases hresults
      refine valid_matrix fun x hx => h.intervals hitems x ?_
      rwa [Grid.cells_of_ofCells? ha] at hx
  | product i j => exact h.matrix_map₂ IntervalMatrix.Valid.product hresults
  | matrixSum i j => exact h.matrix_map₂ IntervalMatrix.Valid.sum hresults
  | sumAll operands =>
      obtain ⟨as, has, hresults⟩ := Option.bind_eq_some_iff.1 hresults
      obtain ⟨c, hc, hresults⟩ := Option.bind_eq_some_iff.1 hresults
      cases hresults
      refine valid_matrix (IntervalMatrix.valid_of_sumAll (fun a ha => ?_)
        (toOption_eq_some.1 hc))
      obtain ⟨i, hi⟩ := exists_of_mapM has ha
      exact h.matrix? hi
  | signSplit i =>
      obtain ⟨a, ha, hresults⟩ := Option.bind_eq_some_iff.1 hresults
      cases hresults
      have hpositive := (h.matrix? ha).map Interval.positivePart_inf_le_sup
      have hnegative := (h.matrix? ha).map Interval.negativePart_inf_le_sup
      exact List.forall_mem_cons.2 ⟨hpositive, valid_matrix hnegative⟩
  | row i index =>
      obtain ⟨a, ha, hresults⟩ := Option.bind_eq_some_iff.1 hresults
      obtain ⟨c, hc, hresults⟩ := Option.bind_eq_some_iff.1 hresults
      cases hresults
      exact valid_matrix ((h.matrix? ha).row? hc)

end Operations

theorem valid_step (h : Valid r) (hadmissible : instruction.Admissible) :
    Valid (step r instruction) := by
  unfold step
  cases hresults : instruction.results? r with
  | none => rwa [Option.getD_none, List.append_nil]
  | some results =>
      rw [Option.getD_some]
      intro v hv
      rcases List.mem_append.1 hv with hv | hv
      · exact h v hv
      · exact valid_results h hadmissible hresults v hv

theorem valid_run (h : Valid r)
    (hadmissible : ∀ instruction ∈ program, instruction.Admissible) :
    Valid (run r program) := by
  induction program generalizing r with
  | nil => exact h
  | cons instruction program ih =>
      obtain ⟨hhead, htail⟩ := List.forall_mem_cons.1 hadmissible
      exact ih (valid_step h hhead) htail

/-- Started from intervals with their ends in order, a computation of any
length gives only intervals with their ends in order, none of which is NaN, and
the width of each is a number at or above zero. -/
theorem run_keeps_order (h : Valid r)
    (hadmissible : ∀ instruction ∈ program, instruction.Admissible) :
    ∀ v ∈ run r program, ∀ a ∈ v.intervals,
      a.inf.isNan = false ∧ a.sup.isNan = false ∧ a.inf ≤ a.sup ∧
        a.width.isNan = false ∧ 0 ≤ a.width := by
  intro v hv a ha
  have hle := valid_run h hadmissible v hv a ha
  have hwidth := Interval.width_nonneg hle
  exact ⟨(isNan_of_le hle).1, (isNan_of_le hle).2, hle,
    (isNan_of_le hwidth).2, hwidth⟩

/-- The whole line, and a row of two numbers. -/
def sampleRegisters : Registers :=
  [.interval ⟨negInfinity, infinity⟩,
    .matrix ⟨1, 2, [.point 1, .around 1 1], rfl⟩]

/-- Zero times infinity, infinity minus infinity, and the row against the
column of both results, split by sign and put together again. -/
def sampleProgram : List Instruction :=
  [.point 0, .neg 0, .add 0 3, .mul 2 0, .around infinity infinity,
    .grid 2 1 [4, 5], .product 1 7, .signSplit 8, .sumAll [9, 10, 8],
    .row 11 0, .cell 12 0 0, .hull 13 6, .sum [14, 0, 2]]

theorem run_keeps_order_sample :
    Valid sampleRegisters ∧
      (∀ instruction ∈ sampleProgram, instruction.Admissible) ∧
      (run sampleRegisters sampleProgram).length = 16 ∧
      ∀ v ∈ run sampleRegisters sampleProgram, ∀ a ∈ v.intervals,
        a.inf.isNan = false ∧ a.sup.isNan = false ∧ a.inf ≤ a.sup ∧
          a.width.isNan = false ∧ 0 ≤ a.width :=
  ⟨by decide +kernel, by decide +kernel, by decide +kernel,
    run_keeps_order (by decide +kernel) (by decide +kernel)⟩

end Kernel

end BoxCert
