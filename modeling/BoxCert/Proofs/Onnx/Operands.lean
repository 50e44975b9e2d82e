import BoxCert.Proofs.Onnx.Forms

/-!
# The operand that stands for the input

A layer multiplies its weight by one operand, and that operand is the input of
the model, so it should not be a constant: a graph that multiplies two
constants computes something, but not a function of an input.

A matrix product is held to that. Exactly one of its operands is a constant in
a graph that is loaded. A general product is not: its first operand is never
looked at, and whatever name stands there, the graph is loaded as the same
model or refused with the same fault. So a product of two constants is loaded
if it is a general one, as the layer that it would be with an input in the
place of its first operand.
-/

namespace BoxCert.Onnx

open Binary64

/-! ## Operators by role -/

namespace Node

variable {node : Node}

theorem operator_of_generalProduct (h : node.role = .generalProduct) :
    node.operator = "Gemm" := by
  unfold role at h
  split at h <;> simp_all

theorem operator_of_matrixProduct (h : node.role = .matrixProduct) :
    node.operator = "MatMul" := by
  unfold role at h
  split at h <;> simp_all

/-- A node with another first operand, if it is a general product. -/
def withInput (y : String) (node : Node) : Node :=
  if node.role = .generalProduct then
    { node with inputs := node.inputs.set 0 y }
  else node

theorem withInput_of_ne (h : node.role ≠ .generalProduct) (y : String) :
    node.withInput y = node := if_neg h

variable (y : String) (node : Node)

@[simp] theorem operator_withInput :
    (node.withInput y).operator = node.operator := by
  unfold withInput
  split <;> rfl

@[simp] theorem name_withInput : (node.withInput y).name = node.name := by
  unfold withInput
  split <;> rfl

@[simp] theorem role_withInput : (node.withInput y).role = node.role := by
  rw [role, operator_withInput]
  rfl

@[simp] theorem attributes_withInput :
    (node.withInput y).attributes = node.attributes := by
  unfold withInput
  split <;> rfl

@[simp] theorem flag_withInput (name : String) :
    (node.withInput y).flag name = node.flag name := by
  rw [flag, attribute?, attributes_withInput]
  rfl

@[simp] theorem factor_withInput (name : String) :
    (node.withInput y).factor name = node.factor name := by
  rw [factor, attribute?, attributes_withInput]
  rfl

theorem getElem?_inputs_withInput (k : Nat) :
    (node.withInput y).inputs[k + 1]? = node.inputs[k + 1]? := by
  unfold withInput
  split
  · simp
  · rfl

theorem role_comp_withInput (p : Role → Bool) :
    (fun node : Node => p node.role) ∘ Node.withInput y =
      fun node => p node.role := by
  funext node
  rw [Function.comp_apply, role_withInput]

theorem map_role_withInput (nodes : List Node) :
    (nodes.map (Node.withInput y)).map Node.role = nodes.map Node.role := by
  rw [List.map_map]
  exact List.map_congr_left fun node _ => role_withInput y node

theorem map_operator_withInput (nodes : List Node) :
    (nodes.map (Node.withInput y)).map Node.operator =
      nodes.map Node.operator := by
  rw [List.map_map]
  exact List.map_congr_left fun node _ => operator_withInput y node

end Node

namespace Graph

variable {g : Graph} {node : Node} {x : String}

/-! ## Constants -/

/-- Whether a name is that of a constant. -/
def IsConstant (g : Graph) (x : String) : Prop := x ∈ g.tensors.map (·.name)

instance (g : Graph) (x : String) : Decidable (g.IsConstant x) :=
  inferInstanceAs (Decidable (x ∈ g.tensors.map (·.name)))

theorem constant?_eq_none_iff : g.constant? x = none ↔ ¬ g.IsConstant x := by
  refine ⟨fun h hx => ?_, constant?_of_not_mem⟩
  obtain ⟨t, ht, rfl⟩ := List.mem_map.1 hx
  have hnone := List.find?_eq_none.1 h t (List.mem_reverse.2 ht)
  exact hnone (beq_self_eq_true t.name)

theorem isConstant_of_constant? {t : Tensor} (h : g.constant? x = some t) :
    g.IsConstant x := by
  by_contra hx
  rw [constant?_eq_none_iff.2 hx] at h
  cases h

/-! ## Products that are loaded -/

/-- A general product that is loaded has a first operand, which may be
anything. -/
theorem exists_input_of_generalProduct {pair : Weight × List Binary64}
    (h : g.generalProduct node = .ok pair) :
    ∃ x rest, node.inputs = x :: rest := by
  unfold generalProduct at h
  cases hinputs : node.inputs with
  | nil =>
      rw [hinputs] at h
      cases hflag : node.flag "transA" <;> rw [hflag] at h <;> cases h
  | cons x rest => exact ⟨x, rest, rfl⟩

/-- A matrix product that is loaded has two operands, one of them constant. -/
theorem operands_of_matrixProduct {w : Weight}
    (h : g.matrixProduct node = .ok w) :
    ∃ left right, node.inputs = [left, right] ∧
      (g.IsConstant left ↔ ¬ g.IsConstant right) := by
  unfold matrixProduct at h
  split at h
  · next left right hinputs =>
      refine ⟨left, right, hinputs, ?_⟩
      split at h
      · next hleft hright =>
          simp [constant?_eq_none_iff.1 hleft, isConstant_of_constant? hright]
      · next hleft hright =>
          simp [constant?_eq_none_iff.1 hright, isConstant_of_constant? hleft]
      · cases h
      · cases h
  · cases h

/-- The product of a graph: the first of the nodes that compute something. -/
def product? (g : Graph) : Option Node :=
  (g.nodes.filter fun node => !node.passes).head?

/-- A graph that is loaded has a product, of one kind or the other. -/
theorem product_of_layer {pair : Weight × List Binary64}
    (h : g.layer = .ok pair) :
    ∃ node, g.product? = some node ∧
      (node.operator = "Gemm" ∧ g.generalProduct node = .ok pair ∨
        node.operator = "MatMul" ∧ ∃ w, g.matrixProduct node = .ok w) := by
  unfold layer at h
  unfold product?
  rw [filter_passage] at h
  generalize (g.nodes.filter fun node => !node.passes) = linear at h ⊢
  split at h
  · cases h
  · dsimp only at h
    split at h
    · next node hrole =>
        have hrole : node.role = .generalProduct := by simpa using hrole
        exact ⟨node, rfl, .inl ⟨Node.operator_of_generalProduct hrole, h⟩⟩
    · next node hrole =>
        have hrole : node.role = .matrixProduct := by simpa using hrole
        obtain ⟨w, hw, -⟩ := bind_eq_ok.1 h
        exact ⟨node, rfl, .inr ⟨Node.operator_of_matrixProduct hrole, w, hw⟩⟩
    · next product sum hrole =>
        have hrole : product.role = .matrixProduct := by
          simp at hrole
          exact hrole.1
        obtain ⟨w, hw, -⟩ := bind_eq_ok.1 h
        exact ⟨product, rfl, .inr
          ⟨Node.operator_of_matrixProduct hrole, w, hw⟩⟩
    · cases h
    · cases h

/-! ## The operand that is not looked at -/

/-- A graph with another first operand of its general products. -/
def withInput (y : String) (g : Graph) : Graph :=
  { g with nodes := g.nodes.map (Node.withInput y) }

@[simp] theorem constant?_withInput (g : Graph) (y : String) :
    (g.withInput y).constant? = g.constant? := rfl

theorem generalProduct_withInput (g : Graph) (y : String) (node : Node) :
    (g.withInput y).generalProduct (node.withInput y) =
      g.generalProduct node := by
  unfold generalProduct
  rw [Node.getElem?_inputs_withInput y node 0,
    Node.getElem?_inputs_withInput y node 1]
  simp

theorem matrixProduct_withInput (g : Graph) (y : String)
    (h : node.role = .matrixProduct) :
    (g.withInput y).matrixProduct (node.withInput y) =
      g.matrixProduct node := by
  rw [Node.withInput_of_ne (by rw [h]; nofun)]
  rfl

theorem addedBias_withInput (g : Graph) (y : String) {product sum : Node}
    (hproduct : product.role = .matrixProduct) (hsum : sum.role = .sum)
    (outputs : Nat) :
    (g.withInput y).addedBias (product.withInput y) (sum.withInput y) outputs =
      g.addedBias product sum outputs := by
  rw [Node.withInput_of_ne (by rw [hproduct]; nofun),
    Node.withInput_of_ne (by rw [hsum]; nofun)]
  rfl

/-- A graph is loaded as the same layer, or refused with the same fault,
whatever the first operand of a general product is. -/
theorem layer_withInput (g : Graph) (y : String) :
    (g.withInput y).layer = g.layer := by
  unfold layer
  rw [show (g.withInput y).nodes = g.nodes.map (Node.withInput y) from rfl,
    List.find?_map, List.filter_map, Node.role_comp_withInput y (· == .foreign),
    Node.role_comp_withInput y (· != .passage)]
  cases g.nodes.find? fun node => node.role == .foreign with
  | some node =>
      simp only [Option.map_some, Node.operator_withInput,
        Node.name_withInput]
      rfl
  | none =>
      simp only [Option.map_none]
      generalize g.nodes.filter (fun node => node.role != .passage) = linear
      rw [Node.map_role_withInput, Node.map_operator_withInput]
      -- Only a single node and a pair are told apart by what they do.
      match linear with
      | [] => rfl
      | [node] =>
          cases h : node.role with
          | generalProduct =>
              simp only [List.map_cons, List.map_nil, h]
              exact generalProduct_withInput g y node
          | matrixProduct =>
              simp only [List.map_cons, List.map_nil, h,
                matrixProduct_withInput g y h]
          | sum | passage | foreign =>
              simp only [List.map_cons, List.map_nil, h]
      | [product, sum] =>
          cases h : product.role with
          | matrixProduct =>
              cases h' : sum.role with
              | sum =>
                  simp only [List.map_cons, List.map_nil, h, h',
                    matrixProduct_withInput g y h,
                    addedBias_withInput g y h h']
              | generalProduct | matrixProduct | passage | foreign =>
                  simp only [List.map_cons, List.map_nil, h, h']
          | generalProduct | sum | passage | foreign =>
              simp only [List.map_cons, List.map_nil, h]
      | first :: second :: third :: rest =>
          cases h : first.role with
          | matrixProduct =>
              cases h' : second.role <;> simp only [List.map_cons, h, h']
          | generalProduct | sum | passage | foreign =>
              simp only [List.map_cons, h]

/-! ## What is loaded -/

/-- The operand that a product multiplies by its weight: the first one of a
general product, and of a matrix product the one beside a constant. -/
inductive Multiplies (g : Graph) (node : Node) (x : String) : Prop where
  | general (rest : List String) (operator : node.operator = "Gemm")
      (inputs : node.inputs = x :: rest)
  | right (w : String) (operator : node.operator = "MatMul")
      (inputs : node.inputs = [x, w]) (weight : g.IsConstant w)
  | left (w : String) (operator : node.operator = "MatMul")
      (inputs : node.inputs = [w, x]) (weight : g.IsConstant w)

theorem not_isConstant_of_matrixProduct {w : Weight}
    (hoperator : node.operator = "MatMul")
    (hproduct : g.matrixProduct node = .ok w) (h : g.Multiplies node x) :
    ¬ g.IsConstant x := by
  obtain ⟨left, right, hinputs, hone⟩ := operands_of_matrixProduct hproduct
  cases h with
  | general rest operator inputs => simp [hoperator] at operator
  | right w operator inputs weight =>
      simp only [hinputs, List.cons.injEq] at inputs
      obtain ⟨rfl, rfl, -⟩ := inputs
      exact fun hx => hone.1 hx weight
  | left w operator inputs weight =>
      simp only [hinputs, List.cons.injEq] at inputs
      obtain ⟨rfl, rfl, -⟩ := inputs
      exact hone.1 weight

theorem exists_multiplies_of_matrixProduct {w : Weight}
    (hoperator : node.operator = "MatMul")
    (hproduct : g.matrixProduct node = .ok w) : ∃ x, g.Multiplies node x := by
  obtain ⟨left, right, hinputs, hone⟩ := operands_of_matrixProduct hproduct
  by_cases hright : g.IsConstant right
  · exact ⟨left, .right right hoperator hinputs hright⟩
  · exact ⟨right, .left left hoperator hinputs (hone.2 hright)⟩

theorem toModel_withInput (g : Graph) (y name : String) :
    (g.withInput y).toModel name = g.toModel name := by
  rw [toModel, toModel, layer_withInput]

/-- A graph that is loaded has one product, which multiplies its weight by some
operand. That operand is no constant, unless the product is a general one; and
a general product is loaded as the same model whatever its first operand is
called. -/
theorem operand_of_loaded {bytes : List UInt8} {name : String} {model : Model}
    (h : Model.ofGraphBytes bytes name = .ok model) :
    ∃ g product, Graph.ofBytes? bytes = some (some g) ∧
      g.product? = some product ∧
      (∃ x, g.Multiplies product x) ∧
      (∀ x, g.Multiplies product x → g.IsConstant x →
        product.operator = "Gemm") ∧
      (product.operator = "Gemm" →
        ∀ y, (g.withInput y).toModel name = .ok model) := by
  unfold Model.ofGraphBytes at h
  split at h
  · cases h
  · cases h
  · next g hbytes =>
      obtain ⟨pair, hlayer, -⟩ := bind_eq_ok.1 h
      obtain ⟨product, hproduct, ⟨hoperator, hgeneral⟩ | ⟨hoperator, w, hw⟩⟩ :=
        product_of_layer hlayer
      · obtain ⟨x, rest, hinputs⟩ := exists_input_of_generalProduct hgeneral
        exact ⟨g, product, hbytes, hproduct, ⟨x, .general rest hoperator hinputs⟩,
          fun _ _ _ => hoperator, fun _ y => by rw [toModel_withInput, h]⟩
      · refine ⟨g, product, hbytes, hproduct,
          exists_multiplies_of_matrixProduct hoperator hw, fun x hx hconstant =>
            ?_, fun _ y => by rw [toModel_withInput, h]⟩
        exact absurd hconstant (not_isConstant_of_matrixProduct hoperator hw hx)

/-- A file whose graph is the general product of two constants, of three and
four by one and two. -/
def constantProductBytes : List UInt8 :=
  [0x08, 0x08, 0x3a, 0x4b, 0x0a, 0x0f, 0x0a, 0x01, 0x61, 0x0a, 0x01, 0x77,
   0x12, 0x01, 0x79, 0x22, 0x04, 0x47, 0x65, 0x6d, 0x6d, 0x2a, 0x1b, 0x08,
   0x01, 0x08, 0x02, 0x10, 0x0b, 0x52, 0x10, 0x00, 0x00, 0x00, 0x00, 0x00,
   0x00, 0x08, 0x40, 0x00, 0x00, 0x00, 0x00, 0x00, 0x00, 0x10, 0x40, 0x42,
   0x01, 0x61, 0x2a, 0x1b, 0x08, 0x02, 0x08, 0x01, 0x10, 0x0b, 0x52, 0x10,
   0x00, 0x00, 0x00, 0x00, 0x00, 0x00, 0xf0, 0x3f, 0x00, 0x00, 0x00, 0x00,
   0x00, 0x00, 0x00, 0x40, 0x42, 0x01, 0x77]

def constantProduct : Graph where
  nodes := [⟨"Gemm", "", ["a", "w"], ["y"], []⟩]
  tensors := [
    ⟨"a", [1, 2], 11, [], [0x4008000000000000, 0x4010000000000000], []⟩,
    ⟨"w", [2, 1], 11, [], [0x3FF0000000000000, 0x4000000000000000], []⟩]

theorem ofBytes?_constantProductBytes :
    Graph.ofBytes? constantProductBytes = some (some constantProduct) := by
  decide +kernel

theorem exists_model_constantProduct :
    ∃ model, Model.ofGraphBytes constantProductBytes "net" = .ok model := by
  obtain ⟨model, hmodel, -⟩ := exists_ok_of_toOption
    (show (Model.ofGraphBytes constantProductBytes "net").toOption.map
      (·.name) = some "net" by decide +kernel)
  exact ⟨model, hmodel⟩

/-- The product of two constants is loaded as the model of a graph with an
input. -/
theorem operand_of_loaded_constantProduct :
    ∃ model,
      Model.ofGraphBytes constantProductBytes "net" = .ok model ∧
      (constantProduct.withInput "x").toModel "net" = .ok model ∧
      ¬ (constantProduct.withInput "x").IsConstant "x" := by
  obtain ⟨model, hmodel⟩ := exists_model_constantProduct
  obtain ⟨g, product, hg, hproduct, -, -, hsame⟩ := operand_of_loaded hmodel
  cases hg.symm.trans ofBytes?_constantProductBytes
  cases hproduct
  exact ⟨model, hmodel, hsame rfl "x", by decide⟩

/-- A model that ignores its input is loaded: both operands of the only product
of this graph are constants. -/
theorem constant_operand_loaded :
    ∃ g product model,
      Model.ofGraphBytes constantProductBytes "net" = .ok model ∧
      Graph.ofBytes? constantProductBytes = some (some g) ∧
      g.product? = some product ∧ g.Multiplies product "a" ∧
      g.IsConstant "a" := by
  obtain ⟨model, hmodel⟩ := exists_model_constantProduct
  exact ⟨constantProduct, _, model, hmodel, ofBytes?_constantProductBytes, rfl,
    .general ["w"] rfl rfl, by decide⟩

end Graph

end BoxCert.Onnx
