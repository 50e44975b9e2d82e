import Mathlib.Data.List.Nodup
import BoxCert.Onnx.Affine
import BoxCert.Proofs.Checked
import BoxCert.Proofs.Grid
import BoxCert.Proofs.Number.One

/-!
# One layer, many graphs

The same affine map can be written as a graph in several ways: as a general
product or as a product and a sum, with the weight as it stands or transposed,
the addends in either order, and with nodes in between that only pass a value
on. All of these load as the same weight and the same bias, or not at all.

What a tensor means for the weight is settled first, apart from any graph: a
tensor and its transpose are read as grids that are each other's transpose, or
neither is read. Each form then comes down to that reading. The bias of a
general product has to have a name, because an operand without one counts as
missing there and nowhere else.
-/

namespace BoxCert.Onnx

open Binary64

/-! ## Tensors and their transposes -/

namespace Tensor

variable {t t' : Tensor} {rows cols : Nat} {cells : List Binary64}

/-- Whether the second tensor holds the elements of the first one, which is a
matrix, transposed. Of a tensor without elements that can be read, it says that
the other one has none either. -/
structure IsTranspose (t t' : Tensor) (rows cols : Nat) : Prop where
  dims : t.dims = [(rows : Int), (cols : Int)]
  dims_transposed : t'.dims = [(cols : Int), (rows : Int)]
  isSome_values : t'.values.toOption.isSome = t.values.toOption.isSome
  length_eq : ∀ cells cells', t.values = .ok cells → t'.values = .ok cells' →
    cells'.length = cells.length
  cell_eq : ∀ cells cells', t.values = .ok cells → t'.values = .ok cells' →
    ∀ j < cols, ∀ k < rows, cells'[j * rows + k]? = cells[k * cols + j]?

theorem shape_of_dims (h : t.dims = [(rows : Int), (cols : Int)]) :
    t.shape = .ok [rows, cols] := by
  have hrows : ¬ (rows : Int) < 0 := by omega
  have hcols : ¬ (cols : Int) < 0 := by omega
  simp [shape, h, hrows, hcols]

/-- Whether elements fill a matrix whose places can be counted. -/
def Fills (rows cols : Nat) (cells : List Binary64) : Prop :=
  max rows 1 * max cols 1 ≤ placeBound ∧ cells.length = rows * cols

theorem fill_eq_ok (h : Fills rows cols cells) :
    fill rows cols cells = .ok ⟨rows, cols, cells, h.2⟩ := by
  rw [fill, if_neg (not_lt.2 h.1), dif_pos h.2]

theorem fill_eq_error (h : ¬ Fills rows cols cells) :
    ∃ cause, fill rows cols cells = .error cause := by
  unfold fill
  split
  · exact ⟨_, rfl⟩
  · next hbound =>
      rw [dif_neg fun hlength => h ⟨not_lt.1 hbound, hlength⟩]
      split
      · exact ⟨_, rfl⟩
      · exact ⟨_, rfl⟩

theorem matrix_eq (h : t.dims = [(rows : Int), (cols : Int)]) :
    t.matrix.toOption = t.values.toOption.bind fun cells =>
      (fill rows cols cells).toOption := by
  rw [matrix, shape_of_dims h]
  show (t.values >>= _).toOption = _
  rw [toOption_bind]
  congr 1
  funext cells
  cases fill rows cols cells <;> rfl

/-- A tensor is read as the transpose of what its transpose is read as. -/
theorem matrix_of_isTranspose (h : IsTranspose t t' rows cols) :
    t'.matrix.toOption = t.matrix.toOption.map Grid.transpose := by
  rw [matrix_eq h.dims, matrix_eq h.dims_transposed]
  have hsome := h.isSome_values
  cases hvalues : t.values with
  | error fault =>
      rw [hvalues] at hsome
      cases hvalues' : t'.values with
      | error fault' => rfl
      | ok cells' =>
          rw [hvalues'] at hsome
          cases hsome
  | ok cells =>
      rw [hvalues] at hsome
      cases hvalues' : t'.values with
      | error fault' =>
          rw [hvalues'] at hsome
          cases hsome
      | ok cells' =>
          have hlength := h.length_eq cells cells' hvalues hvalues'
          have hcell := h.cell_eq cells cells' hvalues hvalues'
          have hfills : Fills cols rows cells' ↔ Fills rows cols cells := by
            rw [Fills, Fills, hlength, Nat.mul_comm (max cols 1),
              Nat.mul_comm cols]
          show (fill cols rows cells').toOption =
            (fill rows cols cells).toOption.map Grid.transpose
          by_cases hfit : Fills rows cols cells
          · rw [fill_eq_ok hfit, fill_eq_ok (hfills.2 hfit)]
            refine congrArg some (Grid.ext_cell? ?_ ?_ fun j hj k hk => ?_)
            · rw [Grid.rows_transpose]
            · rw [Grid.cols_transpose]
            · rw [Grid.cell?_transpose hj hk, Grid.cell?, Grid.cell?, if_pos hk,
                if_pos hj]
              exact hcell j hj k hk
          · obtain ⟨cause, hcause⟩ := fill_eq_error hfit
            obtain ⟨cause', hcause'⟩ := fill_eq_error (mt hfills.1 hfit)
            rw [hcause, hcause']
            rfl

/-- What a tensor of two dimensions is read as: a grid of those dimensions that
holds its elements. -/
theorem of_matrix_eq_ok (h : t.dims = [(rows : Int), (cols : Int)])
    {b : Grid Binary64} (hb : t.matrix.toOption = some b) :
    b.rows = rows ∧ b.cols = cols ∧ t.values = .ok b.cells := by
  rw [matrix_eq h] at hb
  cases hvalues : t.values with
  | error fault =>
      rw [hvalues] at hb
      cases hb
  | ok cells =>
      rw [hvalues] at hb
      change (fill rows cols cells).toOption = some b at hb
      by_cases hfit : Fills rows cols cells
      · rw [fill_eq_ok hfit] at hb
        cases hb
        exact ⟨rfl, rfl, rfl⟩
      · obtain ⟨cause, hcause⟩ := fill_eq_error hfit
        rw [hcause] at hb
        cases hb

theorem product_of_isVectorShape {n : Nat} {dims : List Nat}
    (h : isVectorShape n dims = true) : dims.foldl (· * ·) 1 = n := by
  unfold isVectorShape at h
  split at h
  · exact (eq_of_beq h).symm
  · next d =>
      rw [← eq_of_beq h]
      exact Nat.one_mul d
  · next a b =>
      show 1 * a * b = n
      split at h
      · next hone =>
          rw [hone, eq_of_beq h]
          exact Nat.one_mul n
      · rw [Bool.and_eq_true, beq_iff_eq, beq_iff_eq] at h
        rw [h.1, h.2, Nat.one_mul, Nat.mul_one]
  · cases h

/-- A bias that is read is the elements of its tensor, as many as asked for. -/
theorem of_vector_eq_ok {n : Nat} {v : List Binary64}
    (h : t.vector n = .ok v) : t.values = .ok v ∧ v.length = n := by
  unfold vector at h
  cases hshape : t.shape with
  | error fault =>
      rw [hshape] at h
      cases h
  | ok dims =>
      cases hvalues : t.values with
      | error fault =>
          rw [hshape, hvalues] at h
          cases h
      | ok values =>
          rw [hshape, hvalues] at h
          simp only [bind, Except.bind] at h
          split at h
          · cases h
          · next hlength =>
              split at h
              · next hvector =>
                  cases h
                  rw [not_not] at hlength
                  exact ⟨rfl, hlength.trans (product_of_isVectorShape hvector)⟩
              · cases h

end Tensor

/-! ## Nodes -/

namespace Node

variable {node : Node} {name : String}

/-- Whether a node only passes its operand on. -/
def passes (node : Node) : Bool :=
  node.operator == "Flatten" || node.operator == "Identity"

theorem role_passage_iff : node.role = .passage ↔ node.passes = true := by
  unfold role passes
  split <;> simp_all

theorem role_of_gemm (h : node.operator = "Gemm") :
    node.role = .generalProduct := by
  rw [role, h]
  rfl

theorem role_of_matMul (h : node.operator = "MatMul") :
    node.role = .matrixProduct := by
  rw [role, h]
  rfl

theorem role_of_add (h : node.operator = "Add") : node.role = .sum := by
  rw [role, h]
  rfl

theorem attribute?_of_nil (h : node.attributes = []) :
    node.attribute? name = none := by
  rw [attribute?, h]
  rfl

theorem attribute?_of_single {a : Attribute} (h : node.attributes = [a]) :
    node.attribute? name = if a.name == name then some a else none := by
  rw [attribute?, h, List.find?_cons, List.find?_nil]
  cases a.name == name <;> rfl

end Node

/-! ## Graphs -/

namespace Graph

variable {g : Graph} {t weight bias : Tensor} {transposed : Bool}
  {nodes : List Node} {x w c : String}

/-- The ways to write a layer as the nodes of a graph that compute something,
with the name of the weight and of the bias. The flag says whether the weight
stands transposed. -/
inductive Form (g : Graph) (w c : String) : Bool → List Node → Prop where
  /-- The product `x * w + c`. -/
  | general (node : Node) (x : String) (operator : node.operator = "Gemm")
      (inputs : node.inputs = [x, w, c]) (attributes : node.attributes = []) :
      Form g w c false [node]
  /-- The same product with an operand that is to be transposed. -/
  | generalTransposed (node : Node) (x : String) (a : Attribute)
      (operator : node.operator = "Gemm") (inputs : node.inputs = [x, w, c])
      (attributes : node.attributes = [a]) (name : a.name = "transB")
      (set : a.int ≠ 0) : Form g w c true [node]
  /-- The product `x * w`, and a sum with the bias on either side. -/
  | rightProduct (product sum : Node) (x result : String)
      (operator : product.operator = "MatMul") (inputs : product.inputs = [x, w])
      (variable_x : x ∉ g.tensors.map (·.name))
      (output : product.outputs.head? = some result)
      (added : sum.operator = "Add")
      (addends : sum.inputs = [result, c] ∨ sum.inputs = [c, result]) :
      Form g w c false [product, sum]
  /-- The product `w * x`, and a sum with the bias on either side. -/
  | leftProduct (product sum : Node) (x result : String)
      (operator : product.operator = "MatMul") (inputs : product.inputs = [w, x])
      (variable_x : x ∉ g.tensors.map (·.name))
      (output : product.outputs.head? = some result)
      (added : sum.operator = "Add")
      (addends : sum.inputs = [result, c] ∨ sum.inputs = [c, result]) :
      Form g w c true [product, sum]

/-- Whether a graph is a layer with the given weight and bias: the nodes that
compute something have one of the forms, and no two tensors share a name. -/
structure IsLayer (g : Graph) (transposed : Bool) (weight bias : Tensor) :
    Prop where
  form : g.Form weight.name bias.name transposed
    (g.nodes.filter fun node => !node.passes)
  names_nodup : (g.tensors.map (·.name)).Nodup
  weight_mem : weight ∈ g.tensors
  bias_mem : bias ∈ g.tensors

theorem constant?_of_mem (hnodup : (g.tensors.map (·.name)).Nodup)
    (h : t ∈ g.tensors) : g.constant? t.name = some t := by
  cases hfind : g.constant? t.name with
  | none =>
      have hnone := List.find?_eq_none.1 hfind t (List.mem_reverse.2 h)
      exact absurd (beq_self_eq_true t.name) hnone
  | some other =>
      have hmem := List.mem_reverse.1 (List.mem_of_find?_eq_some hfind)
      have hname := eq_of_beq
        (List.find?_some (p := fun s : Tensor => s.name == t.name) hfind)
      rw [List.inj_on_of_nodup_map hnodup hmem h hname]

theorem constant?_of_not_mem (h : x ∉ g.tensors.map (·.name)) :
    g.constant? x = none := by
  refine List.find?_eq_none.2 fun t ht hname => h ?_
  rw [← eq_of_beq hname]
  exact List.mem_map_of_mem (List.mem_reverse.1 ht)

/-- What a layer of this weight and bias is loaded as, whatever its form. -/
def loaded (transposed : Bool) (weight bias : Tensor) :
    Option (Grid Binary64 × List Binary64) :=
  weight.matrix.toOption.bind fun b =>
    let cells := if transposed then b else b.transpose
    (bias.vector cells.rows).toOption.map fun v => (cells, v)

/-- The cells of a weight and a bias, without the order in which they lie. -/
def cellsOf (layer : Checked (Weight × List Binary64)) :
    Option (Grid Binary64 × List Binary64) :=
  layer.toOption.map fun pair => (pair.1.cells, pair.2)

theorem map_one_mul (b : Grid Binary64) : b.map (1 * ·) = b := by
  refine Grid.ext rfl rfl ?_
  show b.cells.map (1 * ·) = b.cells
  rw [List.map_congr_left fun x _ => one_mul_eq x, List.map_id']

theorem map_mul_one (v : List Binary64) : v.map (· * 1) = v := by
  rw [List.map_congr_left fun x _ => mul_one_eq x, List.map_id']

/-- Scaling the weight and the bias by one leaves both as they are. -/
theorem cellsOf_scaled (b : Grid Binary64) (order : StorageOrder) :
    cellsOf (do
        let v ← bias.vector b.rows
        return (⟨b.map (1 * ·), order⟩, v.map (· * 1))) =
      (bias.vector b.rows).toOption.map fun v => (b, v) := by
  cases bias.vector b.rows with
  | error fault => rfl
  | ok v =>
      show some (b.map (1 * ·), v.map (· * 1)) = some (b, v)
      rw [map_one_mul, map_mul_one]

section Forms

variable (hnodup : (g.tensors.map (·.name)).Nodup)

include hnodup

theorem generalProduct_eq {node : Node} (hweight : weight ∈ g.tensors)
    (hbias : bias ∈ g.tensors) (hname : bias.name ≠ "")
    (hinputs : node.inputs = [x, weight.name, bias.name])
    (hleft : node.flag "transA" = false)
    (halpha : node.factor "alpha" = 1) (hbeta : node.factor "beta" = 1) :
    cellsOf (g.generalProduct node) =
      loaded (node.flag "transB") weight bias := by
  have hweight := constant?_of_mem hnodup hweight
  have hbias := constant?_of_mem hnodup hbias
  have hfilter : node.inputs[2]?.filter (!·.isEmpty) = some bias.name := by
    simp [hinputs, hname]
  rw [cellsOf, generalProduct, hleft, hfilter, hinputs, halpha, hbeta]
  simp only [Bool.false_eq_true, if_false, List.getElem?_cons_succ,
    List.getElem?_cons_zero, hweight, hbias]
  rw [loaded]
  cases weight.matrix with
  | error fault => rfl
  | ok b =>
      cases node.flag "transB" with
      | false => exact cellsOf_scaled b.transpose .byColumn
      | true => exact cellsOf_scaled b .byRow

theorem matrixProduct_right {product : Node} (hweight : weight ∈ g.tensors)
    (hinputs : product.inputs = [x, weight.name])
    (hx : x ∉ g.tensors.map (·.name)) :
    g.matrixProduct product = weight.matrix.map Weight.ofTransposed := by
  rw [matrixProduct, hinputs]
  simp only [constant?_of_not_mem hx, constant?_of_mem hnodup hweight]
  cases weight.matrix <;> rfl

theorem matrixProduct_left {product : Node} (hweight : weight ∈ g.tensors)
    (hinputs : product.inputs = [weight.name, x])
    (hx : x ∉ g.tensors.map (·.name)) :
    g.matrixProduct product = weight.matrix.map fun w => ⟨w, .byRow⟩ := by
  rw [matrixProduct, hinputs]
  simp only [constant?_of_not_mem hx, constant?_of_mem hnodup hweight]
  cases weight.matrix <;> rfl

theorem addedBias_eq {product sum : Node} {result : String}
    (hbias : bias ∈ g.tensors)
    (houtput : product.outputs.head? = some result)
    (haddends : sum.inputs = [result, bias.name] ∨
      sum.inputs = [bias.name, result]) (outputs : Nat) :
    g.addedBias product sum outputs = bias.vector outputs := by
  have hbias := constant?_of_mem hnodup hbias
  rcases haddends with hsum | hsum
  · rw [addedBias, houtput, hsum]
    simp only [if_true, pure_bind, hbias]
  · rw [addedBias, houtput, hsum]
    by_cases hname : bias.name = result
    · obtain rfl := hname
      simp only [if_true, pure_bind, hbias]
    · simp only [hname, if_true, if_false, pure_bind, hbias]

end Forms

/-- A weight that is read one way, and the bias that fits it. -/
theorem cellsOf_sum (f : Grid Binary64 → Weight) :
    cellsOf (weight.matrix.map f >>= fun w => do
        return (w, ← bias.vector w.cells.rows)) =
      weight.matrix.toOption.bind fun b =>
        (bias.vector (f b).cells.rows).toOption.map
          fun v => ((f b).cells, v) := by
  cases weight.matrix with
  | error fault => rfl
  | ok b =>
      show Option.map _ (bias.vector (f b).cells.rows >>= _).toOption =
        (bias.vector (f b).cells.rows).toOption.map _
      cases bias.vector (f b).cells.rows <;> rfl

theorem filter_passage (nodes : List Node) :
    nodes.filter (fun node => node.role != .passage) =
      nodes.filter fun node => !node.passes := by
  refine List.filter_congr fun node _ => ?_
  rw [Bool.eq_iff_iff, bne_iff_ne, Ne, Node.role_passage_iff]
  simp

theorem Form.role_ne_foreign (h : g.Form w c transposed nodes) :
    ∀ node ∈ nodes, node.role ≠ .foreign := by
  cases h with
  | general node x operator =>
      simp [Node.role_of_gemm operator]
  | generalTransposed node x a operator =>
      simp [Node.role_of_gemm operator]
  | rightProduct product sum x result operator inputs fresh output added =>
      simp [Node.role_of_matMul operator, Node.role_of_add added]
  | leftProduct product sum x result operator inputs fresh output added =>
      simp [Node.role_of_matMul operator, Node.role_of_add added]

theorem IsLayer.find?_foreign (h : g.IsLayer transposed weight bias) :
    g.nodes.find? (fun node => node.role == .foreign) = none := by
  refine List.find?_eq_none.2 fun node hnode hrole => ?_
  rw [beq_iff_eq] at hrole
  refine h.form.role_ne_foreign node (List.mem_filter.2 ⟨hnode, ?_⟩) hrole
  rw [Bool.not_eq_true', ← Bool.not_eq_true, ← Node.role_passage_iff, hrole]
  nofun

/-- A graph of any form is loaded as what its weight and bias are read as. -/
theorem layer_of_isLayer (h : g.IsLayer transposed weight bias)
    (hname : bias.name ≠ "") :
    cellsOf g.layer = loaded transposed weight bias := by
  rw [cellsOf, layer, h.find?_foreign, filter_passage]
  have hform := h.form
  generalize (g.nodes.filter fun node => !node.passes) = nodes at hform ⊢
  cases hform with
  | general node x operator inputs attributes =>
      have hflag : ∀ name, node.flag name = false := by
        intro name
        rw [Node.flag, Node.attribute?_of_nil attributes]
        rfl
      have hfactor : ∀ name, node.factor name = 1 := by
        intro name
        rw [Node.factor, Node.attribute?_of_nil attributes]
        rfl
      have hproduct := generalProduct_eq h.names_nodup h.weight_mem h.bias_mem
        hname inputs (hflag _) (hfactor _) (hfactor _)
      rw [hflag] at hproduct
      simp only [List.map_cons, List.map_nil, Node.role_of_gemm operator]
      exact hproduct
  | generalTransposed node x a operator inputs attributes name set =>
      have hattribute := fun other =>
        @Node.attribute?_of_single node other a attributes
      have hfactor : ∀ name, a.name ≠ name → node.factor name = 1 := by
        intro other hne
        simp [Node.factor, hattribute, hne]
      have hproduct := generalProduct_eq h.names_nodup h.weight_mem h.bias_mem
        hname inputs (by simp [Node.flag, hattribute, name])
        (hfactor _ (by simp [name])) (hfactor _ (by simp [name]))
      have hflag : node.flag "transB" = true := by
        simp [Node.flag, hattribute, name, set]
      rw [hflag] at hproduct
      simp only [List.map_cons, List.map_nil, Node.role_of_gemm operator]
      exact hproduct
  | rightProduct product sum x result operator inputs fresh output added
      addends =>
      simp only [List.map_cons, List.map_nil, Node.role_of_matMul operator,
        Node.role_of_add added,
        matrixProduct_right h.names_nodup h.weight_mem inputs fresh,
        addedBias_eq h.names_nodup h.bias_mem output addends]
      exact cellsOf_sum Weight.ofTransposed
  | leftProduct product sum x result operator inputs fresh output added
      addends =>
      simp only [List.map_cons, List.map_nil, Node.role_of_matMul operator,
        Node.role_of_add added,
        matrixProduct_left h.names_nodup h.weight_mem inputs fresh,
        addedBias_eq h.names_nodup h.bias_mem output addends]
      exact cellsOf_sum fun b => ⟨b, .byRow⟩

/-! ## The loaded model -/

/-- Whether a graph is the layer `x * t + bias`, written with the tensor `t` or
with its transpose. -/
def Writes (g : Graph) (t transpose bias : Tensor) : Prop :=
  g.IsLayer false t bias ∨ g.IsLayer true transpose bias

/-- The weight and the bias of a model that is loaded. -/
def parametersOf (model : Checked Model) :
    Option (Grid Binary64 × List Binary64) :=
  model.toOption.map fun m => (m.weight, m.bias)

theorem parametersOf_toModel (g : Graph) (name : String) :
    parametersOf (g.toModel name) = cellsOf g.layer := by
  rw [parametersOf, toModel, cellsOf]
  cases g.layer <;> rfl

variable {t' : Tensor} {m n : Nat}

theorem loaded_transpose (h : t.IsTranspose t' m n) :
    loaded true t' bias = loaded false t bias := by
  rw [loaded, loaded, Tensor.matrix_of_isTranspose h]
  cases t.matrix <;> rfl

theorem parametersOf_of_writes (htranspose : t.IsTranspose t' m n)
    (hname : bias.name ≠ "") (hg : g.Writes t t' bias) (name : String) :
    parametersOf (g.toModel name) = loaded false t bias := by
  rw [parametersOf_toModel]
  rcases hg with hg | hg
  · exact layer_of_isLayer hg hname
  · rw [layer_of_isLayer hg hname, loaded_transpose htranspose]

theorem loaded_isSome (h : t.dims = [(m : Int), (n : Int)]) :
    (∃ pair, loaded false t bias = some pair) ↔
      (∃ b, t.matrix = .ok b) ∧ ∃ v, bias.vector n = .ok v := by
  constructor
  · rintro ⟨_, hpair⟩
    obtain ⟨b, hb, hpair⟩ := Option.bind_eq_some_iff.1 hpair
    obtain ⟨v, hv, -⟩ := Option.map_eq_some_iff.1 hpair
    change (bias.vector b.transpose.rows).toOption = _ at hv
    rw [Grid.rows_transpose, (Tensor.of_matrix_eq_ok h hb).2.1] at hv
    exact ⟨⟨b, toOption_eq_some.1 hb⟩, v, toOption_eq_some.1 hv⟩
  · rintro ⟨⟨b, hb⟩, v, hv⟩
    have hcols := (Tensor.of_matrix_eq_ok h (toOption_eq_some.2 hb)).2.1
    refine ⟨(b.transpose, v), Option.bind_eq_some_iff.2
      ⟨b, toOption_eq_some.2 hb, Option.map_eq_some_iff.2 ⟨v, ?_, rfl⟩⟩⟩
    show (bias.vector b.transpose.rows).toOption = _
    rw [Grid.rows_transpose, hcols, hv]
    rfl

/-- What is loaded for a matrix of `m` inputs and `n` outputs: its transpose,
cell by cell, and the elements of the bias. -/
theorem loaded_eq_some (h : t.dims = [(m : Int), (n : Int)])
    {w : Grid Binary64} {v : List Binary64}
    (hloaded : loaded false t bias = some (w, v)) :
    w.rows = n ∧ w.cols = m ∧ bias.values = .ok v ∧ v.length = n ∧
      ∃ cells, t.values = .ok cells ∧
        ∀ j < n, ∀ k < m, w.cell? j k = cells[k * n + j]? := by
  obtain ⟨b, hb, hloaded⟩ := Option.bind_eq_some_iff.1 hloaded
  obtain ⟨rfl, rfl, hvalues⟩ := Tensor.of_matrix_eq_ok h hb
  obtain ⟨_, hv, hpair⟩ := Option.map_eq_some_iff.1 hloaded
  cases hpair
  change (bias.vector b.transpose.rows).toOption = some v at hv
  rw [Grid.rows_transpose, toOption_eq_some] at hv
  obtain ⟨hbias, hlength⟩ := Tensor.of_vector_eq_ok hv
  refine ⟨Grid.rows_transpose b, Grid.cols_transpose b, hbias, hlength,
    b.cells, hvalues, fun j hj k hk => ?_⟩
  show b.transpose.cell? j k = _
  rw [Grid.cell?_transpose hj hk, Grid.cell?, if_pos hj]

/-- All graphs that write one layer load as the same weight and bias, or none
does. They load if the matrix and the bias can be read, and then the weight is
the transposed matrix. -/
theorem toModel_of_writes (htranspose : t.IsTranspose t' m n)
    (hname : bias.name ≠ "") {g g' : Graph} (hg : g.Writes t t' bias)
    (hg' : g'.Writes t t' bias) (name name' : String) :
    parametersOf (g.toModel name) = parametersOf (g'.toModel name') ∧
      ((∃ model, g.toModel name = .ok model) ↔
        (∃ b, t.matrix = .ok b) ∧ ∃ v, bias.vector n = .ok v) ∧
      ∀ model, g.toModel name = .ok model →
        model.weight.rows = n ∧ model.weight.cols = m ∧
        bias.values = .ok model.bias ∧ model.bias.length = n ∧
        ∃ cells, t.values = .ok cells ∧
          ∀ j < n, ∀ k < m, model.weight.cell? j k = cells[k * n + j]? := by
  have hloaded := parametersOf_of_writes htranspose hname hg name
  refine ⟨?_, ?_, fun model hmodel => ?_⟩
  · rw [hloaded, parametersOf_of_writes htranspose hname hg' name']
  · rw [← loaded_isSome htranspose.dims, ← hloaded, parametersOf]
    cases g.toModel name with
    | error fault =>
        refine iff_of_false nofun ?_
        rintro ⟨_, h⟩
        cases h
    | ok model => exact iff_of_true ⟨model, rfl⟩ ⟨_, rfl⟩
  · rw [hmodel] at hloaded
    exact loaded_eq_some htranspose.dims hloaded.symm

/-- One and two as the weights of two inputs. -/
def sampleMatrix : Tensor where
  name := "w"
  dims := [2, 1]
  elementType := Tensor.doubleCode
  singles := []
  doubles := [0x3FF0000000000000, 0x4000000000000000]
  raw := []

def sampleTranspose : Tensor where
  name := "v"
  dims := [1, 2]
  elementType := Tensor.doubleCode
  singles := []
  doubles := [0x3FF0000000000000, 0x4000000000000000]
  raw := []

/-- Five as the bias, under a name. -/
def sampleBias (name : String) : Tensor where
  name := name
  dims := [1]
  elementType := Tensor.doubleCode
  singles := []
  doubles := [0x4014000000000000]
  raw := []

/-- A general product after a node that only passes its operand on. -/
def generalSample (bias : String) : Graph where
  nodes := [⟨"Flatten", "", ["input"], ["x"], []⟩,
    ⟨"Gemm", "", ["x", "w", bias], ["y"], []⟩]
  tensors := [sampleMatrix, sampleBias bias]

/-- A product with the transposed weight, and a sum. -/
def summedSample (bias : String) : Graph where
  nodes := [⟨"MatMul", "", ["v", "x"], ["h"], []⟩,
    ⟨"Add", "", [bias, "h"], ["y"], []⟩]
  tensors := [sampleTranspose, sampleBias bias]

theorem sample_isTranspose : sampleMatrix.IsTranspose sampleTranspose 2 1 where
  dims := rfl
  dims_transposed := rfl
  isSome_values := rfl
  length_eq := by
    rintro cells cells' ⟨⟩ ⟨⟩
    rfl
  cell_eq := by
    rintro cells cells' ⟨⟩ ⟨⟩
    decide

theorem generalSample_writes {name : String} (hw : "w" ≠ name) :
    (generalSample name).Writes sampleMatrix sampleTranspose
      (sampleBias name) := by
  refine .inl ⟨.general _ "x" rfl rfl rfl, ?_, List.mem_cons_self,
    List.mem_cons_of_mem _ List.mem_cons_self⟩
  show ["w", name].Nodup
  simpa using hw

theorem summedSample_writes {name : String} (hv : "v" ≠ name)
    (hx : "x" ≠ name) :
    (summedSample name).Writes sampleMatrix sampleTranspose
      (sampleBias name) := by
  refine .inr ⟨.leftProduct _ _ "x" "h" rfl rfl ?_ rfl rfl (.inr rfl), ?_,
    List.mem_cons_self, List.mem_cons_of_mem _ List.mem_cons_self⟩
  · show "x" ∉ ["v", name]
    simpa using hx
  · show ["v", name].Nodup
    simpa using hv

theorem toModel_of_writes_sample :
    sampleMatrix.IsTranspose sampleTranspose 2 1 ∧
    (sampleBias "c").name ≠ "" ∧
    (generalSample "c").Writes sampleMatrix sampleTranspose (sampleBias "c") ∧
    (summedSample "c").Writes sampleMatrix sampleTranspose (sampleBias "c") ∧
    parametersOf ((generalSample "c").toModel "net") =
      parametersOf ((summedSample "c").toModel "net") ∧
    ∃ model, (generalSample "c").toModel "net" = .ok model ∧
      model.weight.rows = 1 ∧ model.weight.cols = 2 ∧
      model.bias.length = 1 := by
  have hname : (sampleBias "c").name ≠ "" := by decide
  have hgeneral := @generalSample_writes "c" (by decide)
  have hsummed := @summedSample_writes "c" (by decide) (by decide)
  obtain ⟨hsame, hloads, hmodel⟩ := toModel_of_writes sample_isTranspose hname
    hgeneral hsummed "net" "net"
  obtain ⟨model, hok⟩ := hloads.2 ⟨⟨_, rfl⟩, _, rfl⟩
  obtain ⟨hrows, hcols, -, hlength, -⟩ := hmodel model hok
  exact ⟨sample_isTranspose, hname, hgeneral, hsummed, hsame, model, hok, hrows,
    hcols, hlength⟩

/-- A bias whose name is empty is added by a sum, but dropped by a general
product. -/
theorem unnamed_bias_dropped :
    sampleMatrix.IsTranspose sampleTranspose 2 1 ∧
    (generalSample "").Writes sampleMatrix sampleTranspose (sampleBias "") ∧
    (summedSample "").Writes sampleMatrix sampleTranspose (sampleBias "") ∧
    (parametersOf ((generalSample "").toModel "net")).map (·.2) = some [0] ∧
    (parametersOf ((summedSample "").toModel "net")).map (·.2) =
      some [ofBits 0x4014000000000000] := by
  refine ⟨sample_isTranspose, generalSample_writes (by decide),
    summedSample_writes (by decide) (by decide), ?_, ?_⟩
  · decide +kernel
  · decide +kernel

end Graph

end BoxCert.Onnx
