import BoxCert.Model.Loading
import BoxCert.Proofs.Building
import BoxCert.Proofs.Decision.Check

/-!
# Faults that compare two shapes

A fault that reports a mismatch of shapes names the shape that was expected
and the one that was found. It would be a bug to name the same shape twice, and
it could come about: each check picks its own part of the shapes to report,
such as a count, one dimension or all of them, and what it compares need not
be what it names.

It never comes about, whatever an operation of the library is given. Each check
is taken by itself, and chains of them inherit it, because a chain fails with
the fault of one of its parts. One check cannot fail at all: each competitor of
a disjunction has a row, though competitors and rows are listed apart.
-/

namespace BoxCert

/-- Whether a fault that compares two shapes names two different ones, and is
none over the rows of a disjunction. -/
def Fault.Apart : Fault → Prop
  | .shapeMismatch check expected got =>
      expected ≠ got ∧ check ≠ .disjunctionRow
  | _ => True

/-- Whether a computation fails with such faults only. -/
def FailsApart {α : Type} (x : Checked α) : Prop :=
  ∀ fault, x = .error fault → fault.Apart

/-! ## Chains of checks -/

namespace FailsApart

variable {α β : Type} {x : Checked α} {f : α → Checked β}

theorem ok (a : α) : FailsApart (.ok a) := nofun

theorem error {fault : Fault} (h : fault.Apart) :
    FailsApart (.error fault : Checked α) := by
  intro _ he
  cases he
  exact h

theorem bind (hx : FailsApart x) (hf : ∀ a, x = .ok a → FailsApart (f a)) :
    FailsApart (x >>= f) := by
  intro fault h
  rcases bind_eq_error.1 h with h | ⟨a, ha, h⟩
  · exact hx fault h
  · exact hf a ha fault h

theorem discard (hx : FailsApart x) :
    FailsApart (x.map fun _ => () : Checked Unit) := by
  cases x with
  | ok a => exact ok ()
  | error fault => exact error (hx fault rfl)

theorem mapM {items : List α} (h : ∀ a ∈ items, FailsApart (f a)) :
    FailsApart (items.mapM f) := by
  induction items with
  | nil => exact ok []
  | cons a items ih =>
      rw [List.mapM_cons]
      exact (h a List.mem_cons_self).bind fun b _ =>
        (ih fun c hc => h c (List.mem_cons_of_mem a hc)).bind fun bs _ =>
          ok (b :: bs)

theorem foldlM {step : β → α → Checked β} (h : ∀ b a, FailsApart (step b a))
    (items : List α) (start : β) : FailsApart (items.foldlM step start) := by
  induction items generalizing start with
  | nil => exact ok start
  | cons a items ih =>
      rw [List.foldlM_cons]
      exact (h start a).bind fun b _ => ih b

end FailsApart

open FailsApart

/-! ## Matrices and boxes -/

namespace IntervalMatrix

variable (a b : IntervalMatrix)

theorem failsApart_toColumn : FailsApart a.toColumn := by
  unfold toColumn
  split
  · exact ok _
  · next h =>
      refine error ⟨fun he => h ?_, nofun⟩
      simp only [Grid.shape, List.cons.injEq] at he
      exact beq_iff_eq.2 he.2.1.symm

theorem failsApart_product : FailsApart (a.product b) := by
  unfold product
  split
  · exact ok _
  · next h =>
      refine error ⟨fun he => h ?_, nofun⟩
      simp only [Grid.shape, List.cons.injEq] at he
      exact he.1

theorem failsApart_sum : FailsApart (IntervalMatrix.sum a b) := by
  unfold IntervalMatrix.sum Grid.zipWith?
  split
  · exact ok _
  · next h =>
      refine error ⟨fun he => ?_, nofun⟩
      simp only [Grid.shape, List.cons.injEq, and_true] at he
      rw [dif_pos he] at h
      cases h

theorem failsApart_sumAll (items : List IntervalMatrix) :
    FailsApart (sumAll items) := by
  unfold sumAll
  split
  · exact foldlM failsApart_sum _ _
  · next h =>
      refine error ⟨fun he => ?_, nofun⟩
      -- Two or more items are not refused for their number.
      match items, h with
      | [], _ => cases he
      | [_], _ => cases he
      | first :: second :: rest, h => exact h first second rest rfl

end IntervalMatrix

namespace Box

variable {lower upper : List Binary64} {t : Binary64}

theorem failsApart_ofColumns (lower upper : IntervalMatrix) :
    FailsApart (ofColumns lower upper) := by
  unfold ofColumns
  split
  · next h =>
      refine error ⟨fun he => ?_, by decide⟩
      simp only [Grid.shape, List.cons.injEq] at he
      rw [Grid.isColumn, ← he.2.1] at h
      cases h
  · split
    · next h => exact error ⟨bne_iff_ne.1 h, by decide⟩
    · split
      · exact error trivial
      · exact ok _

theorem apart_of_pairFault? {i : Nat} {low high : Binary64} {fault : Fault}
    (h : pairFault? i low high = some fault) : fault.Apart := by
  unfold pairFault? at h
  split at h
  · cases h
    trivial
  · split at h
    · cases h
      trivial
    · cases h

theorem failsApart_ofPoints (lower upper : List Binary64) (t : Binary64) :
    FailsApart (ofPoints lower upper t) := by
  unfold ofPoints
  split
  · next fault h =>
      unfold cornerFault? at h
      split at h
      · next hlength =>
          cases h
          refine error ⟨fun he => hlength ?_, nofun⟩
          simpa using he
      · obtain ⟨pair, -, hpair⟩ := List.exists_of_findSome?_eq_some h
        exact error (apart_of_pairFault? hpair)
  · exact failsApart_ofColumns _ _

end Box

/-! ## Layers -/

namespace Layer

theorem failsApart_build (weight : Grid Binary64) (bias : List Binary64)
    (t : Binary64) (order : StorageOrder) :
    FailsApart (build weight bias t order) := by
  by_cases ht : t.isTolerance = true
  · by_cases hbias : bias.length = weight.rows
    · by_cases h : Usable weight bias
      · obtain ⟨layer, hlayer, -⟩ := build_of_usable ht hbias order h
        exact hlayer ▸ ok layer
      · obtain ⟨cause, hcause⟩ := build_of_not_usable ht hbias order h
        exact hcause ▸ error trivial
    · unfold build
      rw [dif_pos ht]
      simp only [hbias, dite_false]
      split
      · refine error ⟨fun he => hbias ?_, by decide⟩
        simpa using he.symm
      · exact error trivial
  · unfold build
    rw [dif_neg ht]
    exact error trivial

theorem failsApart_ofRows (weight : List (List Binary64))
    (bias : List Binary64) (t : Binary64) :
    FailsApart (ofRows weight bias t) := by
  unfold ofRows Grid.ofRows
  dsimp only
  split
  · next ragged h =>
      split at h
      · next row hrow =>
          cases h
          refine error ⟨fun he => ?_, nofun⟩
          have hlength := List.find?_some hrow
          rw [bne_iff_ne] at hlength
          simp only [List.cons.injEq, and_true] at he
          exact hlength he.symm
      · cases h
  · exact failsApart_build _ bias t _

variable (l : Layer)

theorem failsApart_evaluate (x : List Binary64) :
    FailsApart (l.evaluate x) := by
  unfold evaluate
  split
  · exact ok _
  · next h =>
      refine error ⟨fun he => h ?_, nofun⟩
      simpa using he.symm

theorem failsApart_propagate (box : Box) : FailsApart (l.propagate box) := by
  unfold propagate
  split
  · next h =>
      refine error ⟨fun he => h ?_, nofun⟩
      simpa using he.symm
  · refine (IntervalMatrix.failsApart_product _ _).bind fun a _ =>
      (IntervalMatrix.failsApart_product _ _).bind fun b _ =>
      (IntervalMatrix.failsApart_sumAll _).bind fun lower _ =>
      (IntervalMatrix.failsApart_product _ _).bind fun c _ =>
      (IntervalMatrix.failsApart_product _ _).bind fun d _ =>
      (IntervalMatrix.failsApart_sumAll _).bind fun upper _ =>
        Box.failsApart_ofColumns lower upper

end Layer

/-! ## Decisions -/

theorem failsApart_checkLabel (outputs label : Nat) :
    FailsApart (checkLabel outputs label) := by
  unfold checkLabel
  split
  · exact error trivial
  · exact ok _

namespace Disjunction

variable {outputs label : Nat} {d : Disjunction}

theorem failsApart_signMatrix (outputs label : Nat) :
    FailsApart (signMatrix outputs label) := by
  refine (failsApart_checkLabel outputs label).bind fun _ _ => ?_
  split
  · exact ok _
  · exact ok _

theorem failsApart_ofLabel (outputs label : Nat) :
    FailsApart (ofLabel outputs label) :=
  (failsApart_signMatrix outputs label).bind fun _ _ => ok _

/-- Each competitor of a disjunction has a row. -/
theorem exists_row (h : ofLabel outputs label = .ok d) {i competitor : Nat}
    (hi : d.competitors[i]? = some competitor) : ∃ row, d.row i = .ok row := by
  obtain ⟨_, hmatrix, -⟩ := bind_eq_ok.1 h
  obtain ⟨_, hlabel, -⟩ := bind_eq_ok.1 hmatrix
  obtain ⟨d', hd', -, -, hrow⟩ := ofLabel_eq_ok hlabel
  cases h.symm.trans hd'
  exact ⟨_, hrow i competitor hi⟩

end Disjunction

namespace Box

variable (b : Box)

theorem failsApart_signedDot (row first second : IntervalMatrix) :
    FailsApart (signedDot row first second) := by
  refine (IntervalMatrix.failsApart_product _ _).bind fun u _ =>
    (IntervalMatrix.failsApart_product _ _).bind fun v _ =>
    (IntervalMatrix.failsApart_sumAll _).bind fun sum _ => ?_
  split
  · exact ok _
  · next h =>
      refine error ⟨fun he => ?_, nofun⟩
      -- A matrix of one row and one column has a cell.
      simp only [Grid.shape, List.cons.injEq, and_true] at he
      have hlength : 0 < sum.cells.length := by
        rw [sum.length_cells, ← he.1, ← he.2]
        exact Nat.one_pos
      rw [Grid.cell?, ← he.2, if_pos Nat.one_pos, Nat.zero_mul, Nat.zero_add,
        List.getElem?_eq_getElem hlength] at h
      cases h

theorem failsApart_minOf (row : IntervalMatrix) : FailsApart (b.minOf row) :=
  failsApart_signedDot row b.lower b.upper

theorem failsApart_maxOf (row : IntervalMatrix) : FailsApart (b.maxOf row) :=
  failsApart_signedDot row b.upper b.lower

theorem failsApart_checkSimple (label : Nat) :
    FailsApart (b.checkSimple label) := by
  refine (failsApart_checkLabel b.dim label).bind fun _ _ => ?_
  dsimp only
  split
  · exact ok _
  · split
    · exact error trivial
    · split
      · exact ok _
      · exact ok _

theorem failsApart_checkFull (label : Nat) (threshold : Binary64) :
    FailsApart (b.checkFull label threshold) := by
  refine (Disjunction.failsApart_ofLabel b.dim label).bind fun d hd =>
    mapM fun pair hpair => ?_
  obtain ⟨row, hrow⟩ :=
    Disjunction.exists_row hd (List.mem_zipIdx_iff_getElem?.1 hpair)
  dsimp only
  rw [hrow]
  exact (b.failsApart_minOf row).bind fun _ _ =>
    (b.failsApart_maxOf row).bind fun _ _ => ok _

theorem failsApart_decideFull (label : Nat) (threshold : Binary64) :
    FailsApart (b.decideFull label threshold) :=
  (b.failsApart_checkFull label threshold).bind fun _ _ => ok _

theorem failsApart_decide (mode : DecisionMode) (label : Nat)
    (threshold : Binary64) : FailsApart (b.decide mode label threshold) := by
  cases mode with
  | simple => exact (b.failsApart_checkSimple label).bind fun _ _ => ok _
  | full => exact b.failsApart_decideFull label threshold
  | auto =>
      refine (b.failsApart_checkSimple label).bind fun simple _ => ?_
      split
      · exact ok _
      · exact b.failsApart_decideFull label threshold

end Box

/-! ## Runs -/

namespace Settings

variable (s : Settings)

theorem failsApart_check : FailsApart s.check := by
  unfold check
  split
  · exact ok _
  · exact error trivial

theorem failsApart_buildLayer (weight : Grid Binary64) (bias : List Binary64)
    (order : StorageOrder) : FailsApart (s.buildLayer weight bias order) :=
  s.failsApart_check.bind fun _ _ => Layer.failsApart_build weight bias _ order

theorem failsApart_inputBox (p : Property) : FailsApart (s.inputBox p) :=
  Box.failsApart_ofPoints p.lower p.upper _

theorem failsApart_outputBox (layer : Layer) (p : Property) :
    FailsApart (s.outputBox layer p) :=
  (s.failsApart_inputBox p).bind fun box _ => layer.failsApart_propagate box

theorem failsApart_survey (layer : Layer) (p : Property) :
    FailsApart (s.survey layer p) :=
  s.failsApart_check.bind fun _ _ =>
    (failsApart_checkLabel layer.outputs p.label).bind fun _ _ =>
    (s.failsApart_inputBox p).bind fun input _ =>
    (layer.failsApart_propagate input).bind fun output _ =>
    (output.failsApart_decide s.mode p.label _).bind fun _ _ => ok _

/-- The refiner adds no fault of its own. -/
theorem failsApart_certifyWith (refiner : Refiner Id) (layer : Layer)
    (p : Property) : FailsApart (s.certifyWith (m := Id) refiner layer p) := by
  have hsurvey := s.failsApart_survey layer p
  unfold certifyWith
  cases h : s.survey layer p with
  | error fault => exact error (hsurvey fault h)
  | ok result =>
      dsimp only
      split
      · exact ok _
      · exact ok _

end Settings

/-! ## Model graphs -/

namespace Onnx

namespace Tensor

variable (t : Tensor)

theorem failsApart_values : FailsApart t.values := by
  unfold values
  split
  · split
    · exact ok _
    · split
      · exact ok _
      · exact error trivial
  · split
    · split
      · exact ok _
      · split
        · exact ok _
        · exact error trivial
    · exact error trivial

theorem failsApart_shape : FailsApart t.shape := by
  unfold shape
  split
  · exact error trivial
  · exact ok _

theorem failsApart_matrix : FailsApart t.matrix := by
  refine t.failsApart_shape.bind fun dims _ => ?_
  split
  · refine t.failsApart_values.bind fun cells _ => ?_
    split
    · exact ok _
    · exact error trivial
  · exact error trivial

/-- Dimensions that are no vector of length `n` differ from the ones that name
such a vector. -/
theorem failsApart_vector (n : Nat) : FailsApart (t.vector n) := by
  refine t.failsApart_shape.bind fun dims _ =>
    t.failsApart_values.bind fun cells _ => ?_
  by_cases hcount : cells.length ≠ dims.foldl (· * ·) 1
  · rw [if_pos hcount]
    exact error trivial
  · rw [if_neg hcount]
    dsimp only
    split
    · exact ok _
    · next h =>
        refine error ⟨fun he => h ?_, nofun⟩
        rw [← he]
        exact beq_self_eq_true n

end Tensor

namespace Graph

variable (g : Graph)

theorem failsApart_generalProduct (node : Node) :
    FailsApart (g.generalProduct node) := by
  unfold generalProduct
  cases node.flag "transA" with
  | true =>
      cases node.inputs[1]? with
      | none => exact error trivial
      | some name => exact error trivial
  | false =>
      simp only [Bool.false_eq_true, if_false]
      split
      · split
        · refine (Tensor.failsApart_matrix _).bind fun b _ => ?_
          split
          · exact ok _
          · split
            · exact (Tensor.failsApart_vector _ _).bind fun _ _ => ok _
            · exact error trivial
        · exact error trivial
      · exact error trivial

theorem failsApart_matrixProduct (node : Node) :
    FailsApart (g.matrixProduct node) := by
  unfold matrixProduct
  split
  · split
    · exact (Tensor.failsApart_matrix _).bind fun _ _ => ok _
    · exact (Tensor.failsApart_matrix _).bind fun _ _ => ok _
    · exact error trivial
    · exact error trivial
  · exact error trivial

theorem failsApart_addedBias (product sum : Node) (outputs : Nat) :
    FailsApart (g.addedBias product sum outputs) := by
  unfold addedBias
  split
  · dsimp only
    split
    · split
      · refine FailsApart.bind (ok _) fun name _ => ?_
        split
        · exact Tensor.failsApart_vector _ _
        · exact error trivial
      · split
        · refine FailsApart.bind (ok _) fun name _ => ?_
          split
          · exact Tensor.failsApart_vector _ _
          · exact error trivial
        · exact error trivial
    · exact error trivial
  · exact error trivial

theorem failsApart_layer : FailsApart g.layer := by
  unfold layer
  split
  · exact error trivial
  · dsimp only
    split
    · exact g.failsApart_generalProduct _
    · exact (g.failsApart_matrixProduct _).bind fun _ _ => ok _
    · exact (g.failsApart_matrixProduct _).bind fun w _ =>
        (g.failsApart_addedBias _ _ w.cells.rows).bind fun _ _ => ok _
    · exact error trivial
    · exact error trivial

theorem failsApart_toModel (name : String) : FailsApart (g.toModel name) :=
  g.failsApart_layer.bind fun _ _ => ok _

end Graph

end Onnx

/-! ## Files -/

theorem Model.failsApart_ofGraphBytes (bytes : List UInt8) (name : String) :
    FailsApart (ofGraphBytes bytes name) := by
  unfold ofGraphBytes
  split
  · exact error trivial
  · exact error trivial
  · next g _ => exact g.failsApart_toModel name

theorem RowModel.failsApart_toModel (m : RowModel) (fallback : String) :
    FailsApart (m.toModel fallback) := by
  unfold toModel
  split
  · exact error trivial
  · exact ok _

theorem RowModel.failsApart_read (text : List Char) (fallback : String) :
    FailsApart (read text fallback) := by
  unfold read
  split
  · exact error trivial
  · next m _ => exact m.failsApart_toModel fallback

theorem Model.failsApart_toLayer (m : Model) (t : Binary64) :
    FailsApart (m.toLayer t) :=
  Layer.failsApart_build m.weight m.bias t m.order

namespace Bound

variable (bounds : List Bound)

theorem failsApart_add (known : List Bound) (written : WrittenBound) :
    FailsApart (add known written) := by
  unfold add
  split
  · exact error trivial
  · split
    · exact error trivial
    · exact ok _

theorem failsApart_ends (index : Nat) : FailsApart (ends bounds index) := by
  unfold ends
  split
  · exact error trivial
  · exact error trivial
  · split
    · exact error trivial
    · exact ok _

theorem failsApart_endsFrom (dim index : Nat) :
    FailsApart (endsFrom bounds dim index) := by
  fun_induction endsFrom bounds dim index with
  | case1 index _ fault h =>
      exact error (failsApart_ends bounds index fault h)
  | case2 index _ pair _ fault h ih => exact error (ih fault h)
  | case3 => exact ok _
  | case4 => exact ok _

end Bound

theorem Statements.failsApart_corners (s : Statements) :
    FailsApart s.corners := by
  refine (foldlM Bound.failsApart_add _ _).bind fun bounds _ => ?_
  split
  · exact error trivial
  · exact (Bound.failsApart_endsFrom bounds _ _).bind fun _ _ => ok _

theorem Statements.failsApart_label (s : Statements) : FailsApart s.label := by
  unfold label
  split
  · exact error trivial
  · split
    · exact error trivial
    · exact ok _

theorem Property.failsApart_read (text : List Char) (label : Option Nat) :
    FailsApart (read text label) := by
  unfold read
  split
  · exact error trivial
  · refine (Statements.failsApart_corners _).bind fun _ _ => ?_
    cases label with
    | some l => exact ok _
    | none => exact (Statements.failsApart_label _).bind fun _ _ => ok _

theorem DecisionMode.failsApart_ofName (text : String) :
    FailsApart (ofName text) := by
  unfold ofName
  split
  · exact ok _
  · exact ok _
  · exact ok _
  · exact error trivial

theorem Path.failsApart_modelFormat (p : Path) : FailsApart p.modelFormat := by
  unfold modelFormat
  dsimp only
  split
  · exact ok _
  · split
    · exact ok _
    · exact error trivial

namespace FileView

variable (view : FileView) (p : Path)

theorem failsApart_loadModel : FailsApart (view.loadModel p) := by
  refine p.failsApart_modelFormat.bind fun format _ => ?_
  split
  · split
    · exact error trivial
    · exact Model.failsApart_ofGraphBytes _ _
  · split
    · exact error trivial
    · exact RowModel.failsApart_read _ _

theorem failsApart_loadProperty (label : Option Nat) :
    FailsApart (view.loadProperty p label) := by
  unfold loadProperty
  split
  · exact error trivial
  · exact Property.failsApart_read _ _

theorem failsApart_loadSettings : FailsApart (view.loadSettings p) := by
  unfold loadSettings
  split
  · exact error trivial
  · exact error trivial
  · split
    · split
      · exact (Settings.failsApart_check _).bind fun _ _ => ok _
      · exact error trivial
    · exact error trivial

end FileView

/-! ## The operations of the library -/

/-- A call of an operation that may be refused, with what it is given. -/
inductive Operation where
  /- Matrices -/
  | toColumn (a : IntervalMatrix)
  | product (a b : IntervalMatrix)
  | sum (a b : IntervalMatrix)
  | sumAll (items : List IntervalMatrix)
  /- Boxes -/
  | boxOfColumns (lower upper : IntervalMatrix)
  | boxOfPoints (lower upper : List Binary64) (tolerance : Binary64)
  /- Layers -/
  | layerOfGrid (weight : Grid Binary64) (bias : List Binary64)
      (tolerance : Binary64) (order : StorageOrder)
  | layerOfRows (weight : List (List Binary64)) (bias : List Binary64)
      (tolerance : Binary64)
  | evaluate (layer : Layer) (x : List Binary64)
  | propagate (layer : Layer) (box : Box)
  /- Decisions -/
  | checkLabel (outputs label : Nat)
  | signMatrix (outputs label : Nat)
  | disjunction (outputs label : Nat)
  | minOf (box : Box) (row : IntervalMatrix)
  | maxOf (box : Box) (row : IntervalMatrix)
  | checkSimple (box : Box) (label : Nat)
  | checkFull (box : Box) (label : Nat) (threshold : Binary64)
  /- Runs -/
  | modeOfName (text : String)
  | checkSettings (settings : Settings)
  | buildLayer (settings : Settings) (weight : Grid Binary64)
      (bias : List Binary64) (order : StorageOrder)
  | inputBox (settings : Settings) (property : Property)
  | outputBox (settings : Settings) (layer : Layer) (property : Property)
  | certify (settings : Settings) (refiner : Refiner Id) (layer : Layer)
      (property : Property)
  | certifyPoints (settings : Settings) (refiner : Refiner Id)
      (weight : Grid Binary64) (bias : List Binary64) (order : StorageOrder)
      (property : Property)
  /- Models and properties -/
  | modelOfGraph (bytes : List UInt8) (name : String)
  | modelOfRows (rows : RowModel) (fallback : String)
  | readRows (text : List Char) (fallback : String)
  | modelLayer (model : Model) (tolerance : Binary64)
  | readProperty (text : List Char) (label : Option Nat)
  | modelFormat (path : Path)
  | loadModel (view : FileView) (path : Path)
  | loadProperty (view : FileView) (path : Path) (label : Option Nat)
  | loadSettings (view : FileView) (path : Path)

namespace Operation

/-- What a call comes to, apart from the result. -/
def run : Operation → Checked Unit
  | toColumn a => a.toColumn.map fun _ => ()
  | product a b => (a.product b).map fun _ => ()
  | sum a b => (IntervalMatrix.sum a b).map fun _ => ()
  | sumAll items => (IntervalMatrix.sumAll items).map fun _ => ()
  | boxOfColumns lower upper => (Box.ofColumns lower upper).map fun _ => ()
  | boxOfPoints lower upper t => (Box.ofPoints lower upper t).map fun _ => ()
  | layerOfGrid weight bias t order =>
      (Layer.build weight bias t order).map fun _ => ()
  | layerOfRows weight bias t => (Layer.ofRows weight bias t).map fun _ => ()
  | evaluate layer x => (layer.evaluate x).map fun _ => ()
  | propagate layer box => (layer.propagate box).map fun _ => ()
  | checkLabel outputs label => BoxCert.checkLabel outputs label
  | signMatrix outputs label =>
      (Disjunction.signMatrix outputs label).map fun _ => ()
  | disjunction outputs label =>
      (Disjunction.ofLabel outputs label).map fun _ => ()
  | minOf box row => (box.minOf row).map fun _ => ()
  | maxOf box row => (box.maxOf row).map fun _ => ()
  | checkSimple box label => (box.checkSimple label).map fun _ => ()
  | checkFull box label threshold =>
      (box.checkFull label threshold).map fun _ => ()
  | modeOfName text => (DecisionMode.ofName text).map fun _ => ()
  | checkSettings s => s.check
  | buildLayer s weight bias order =>
      (s.buildLayer weight bias order).map fun _ => ()
  | inputBox s p => (s.inputBox p).map fun _ => ()
  | outputBox s layer p => (s.outputBox layer p).map fun _ => ()
  | certify s refiner layer p =>
      Except.map (fun _ => ()) (s.certifyWith (m := Id) refiner layer p)
  | certifyPoints s refiner weight bias order p => do
      let layer ← s.buildLayer weight bias order
      Except.map (fun _ => ()) (s.certifyWith (m := Id) refiner layer p)
  | modelOfGraph bytes name => (Model.ofGraphBytes bytes name).map fun _ => ()
  | modelOfRows rows fallback => (rows.toModel fallback).map fun _ => ()
  | readRows text fallback => (RowModel.read text fallback).map fun _ => ()
  | modelLayer model t => (model.toLayer t).map fun _ => ()
  | readProperty text label => (Property.read text label).map fun _ => ()
  | modelFormat path => path.modelFormat.map fun _ => ()
  | loadModel view path => (view.loadModel path).map fun _ => ()
  | loadProperty view path label =>
      (view.loadProperty path label).map fun _ => ()
  | loadSettings view path => (view.loadSettings path).map fun _ => ()

theorem failsApart_run (op : Operation) : FailsApart op.run := by
  cases op with
  | toColumn a => exact (IntervalMatrix.failsApart_toColumn a).discard
  | product a b => exact (IntervalMatrix.failsApart_product a b).discard
  | sum a b => exact (IntervalMatrix.failsApart_sum a b).discard
  | sumAll items => exact (IntervalMatrix.failsApart_sumAll items).discard
  | boxOfColumns lower upper =>
      exact (Box.failsApart_ofColumns lower upper).discard
  | boxOfPoints lower upper t =>
      exact (Box.failsApart_ofPoints lower upper t).discard
  | layerOfGrid weight bias t order =>
      exact (Layer.failsApart_build weight bias t order).discard
  | layerOfRows weight bias t =>
      exact (Layer.failsApart_ofRows weight bias t).discard
  | evaluate layer x => exact (layer.failsApart_evaluate x).discard
  | propagate layer box => exact (layer.failsApart_propagate box).discard
  | checkLabel outputs label => exact failsApart_checkLabel outputs label
  | signMatrix outputs label =>
      exact (Disjunction.failsApart_signMatrix outputs label).discard
  | disjunction outputs label =>
      exact (Disjunction.failsApart_ofLabel outputs label).discard
  | minOf box row => exact (box.failsApart_minOf row).discard
  | maxOf box row => exact (box.failsApart_maxOf row).discard
  | checkSimple box label => exact (box.failsApart_checkSimple label).discard
  | checkFull box label threshold =>
      exact (box.failsApart_checkFull label threshold).discard
  | modeOfName text => exact (DecisionMode.failsApart_ofName text).discard
  | checkSettings s => exact s.failsApart_check
  | buildLayer s weight bias order =>
      exact (s.failsApart_buildLayer weight bias order).discard
  | inputBox s p => exact (s.failsApart_inputBox p).discard
  | outputBox s layer p => exact (s.failsApart_outputBox layer p).discard
  | certify s refiner layer p =>
      exact (s.failsApart_certifyWith refiner layer p).discard
  | certifyPoints s refiner weight bias order p =>
      exact (s.failsApart_buildLayer weight bias order).bind fun layer _ =>
        (s.failsApart_certifyWith refiner layer p).discard
  | modelOfGraph bytes name =>
      exact (Model.failsApart_ofGraphBytes bytes name).discard
  | modelOfRows rows fallback =>
      exact (rows.failsApart_toModel fallback).discard
  | readRows text fallback =>
      exact (RowModel.failsApart_read text fallback).discard
  | modelLayer model t => exact (model.failsApart_toLayer t).discard
  | readProperty text label =>
      exact (Property.failsApart_read text label).discard
  | modelFormat path => exact path.failsApart_modelFormat.discard
  | loadModel view path => exact (view.failsApart_loadModel path).discard
  | loadProperty view path label =>
      exact (view.failsApart_loadProperty path label).discard
  | loadSettings view path => exact (view.failsApart_loadSettings path).discard

end Operation

/-! ## What is asserted inside -/

namespace Interval

variable {a : Interval}

/-- The parts that a sign split cuts off have their ends in order. -/
theorem ofEnds?_parts (h : a.straddlesZero = true) :
    ofEnds? 0 a.sup = some a.positivePart ∧
      ofEnds? a.inf 0 = some a.negativePart := by
  have hsigns := h
  rw [straddlesZero, Bool.and_eq_true, decide_eq_true_iff,
    decide_eq_true_iff] at hsigns
  rw [positivePart, negativePart, if_pos h, if_pos h]
  exact ⟨if_pos (Binary64.le_of_lt hsigns.1),
    if_pos (Binary64.le_of_lt hsigns.2)⟩

end Interval

/-- No call of an operation names one shape twice as a mismatch, each
competitor of a disjunction has a row, and a sign split builds intervals from
ends in order only. -/
theorem Operation.mismatches_apart :
    (∀ (op : Operation) (check : ShapeCheck) (expected got : List Nat),
      op.run = .error (.shapeMismatch check expected got) →
        expected ≠ got ∧ check ≠ .disjunctionRow) ∧
    (∀ (outputs label : Nat) (d : Disjunction),
      Disjunction.ofLabel outputs label = .ok d →
        ∀ i < d.competitors.length, ∃ row, d.row i = .ok row) ∧
    ∀ a : Interval, a.straddlesZero = true →
      Interval.ofEnds? 0 a.sup = some a.positivePart ∧
        Interval.ofEnds? a.inf 0 = some a.negativePart := by
  refine ⟨fun op check expected got h => op.failsApart_run _ h,
    fun outputs label d hd i hi => ?_, fun a h => Interval.ofEnds?_parts h⟩
  exact Disjunction.exists_row hd (List.getElem?_eq_getElem hi)

/-- A row against a row, three labels, and the interval around zero. -/
theorem Operation.mismatches_apart_rows :
    ((product (Grid.singleRow [0, 0]) (Grid.singleRow [0, 0])).run =
        .error (.shapeMismatch .matrixProduct [2, 2] [1, 2]) ∧
      [2, 2] ≠ [1, 2]) ∧
    (∃ d, Disjunction.ofLabel 3 1 = .ok d ∧ d.competitors = [0, 2] ∧
      ∃ row, d.row 1 = .ok row) ∧
    Interval.ofEnds? 0 1 = some (Interval.positivePart ⟨-1, 1⟩) := by
  refine ⟨⟨rfl, ?_⟩, ⟨_, rfl, rfl, ?_⟩, ?_⟩
  · exact (mismatches_apart.1 (product (Grid.singleRow [0, 0])
      (Grid.singleRow [0, 0])) .matrixProduct [2, 2] [1, 2] rfl).1
  · exact mismatches_apart.2.1 3 1 _ rfl 1 (by decide)
  · exact (mismatches_apart.2.2 ⟨-1, 1⟩ (by decide +kernel)).1

end BoxCert
