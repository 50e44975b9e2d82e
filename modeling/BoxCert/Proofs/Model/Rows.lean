import BoxCert.Model.Rows
import BoxCert.Proofs.Building
import BoxCert.Proofs.Checked
import BoxCert.Proofs.Grid

/-!
# Layers from rows

Rows and a bias become a layer in two ways: as a model that is loaded first and
turned into a layer afterwards, or at once. Each way flattens the rows by
itself and has its own complaint about a row of another length, but they make
the same layers from the same rows, with the entries where the rows have them.

Equal numbers of entries do not make rows a rectangle, and rows without entries
make one that is empty. `RowModel.Fits` says what is asked of the rows one by
one.
-/

namespace BoxCert

namespace Grid

variable {α : Type} {lines : List (List α)} {g : Grid α}

/-- The length that all rows have to have: that of the first one. -/
def width (lines : List (List α)) : Nat := lines.head?.elim 0 List.length

/-- Rows make a grid if and only if they are equally long, and then they are
its rows. -/
theorem ofRows_eq_ok_iff : ofRows lines = .ok g ↔
    ∃ h : ∀ xs ∈ lines, xs.length = width lines,
      g = ⟨lines.length, width lines, lines.flatten,
        length_flatten_of_forall h⟩ := by
  unfold ofRows
  dsimp only
  split
  · next xs hxs =>
      refine iff_of_false (fun h => by cases h) ?_
      rintro ⟨h, -⟩
      have hne := List.find?_some hxs
      rw [bne_iff_ne] at hne
      exact hne (h xs (List.mem_of_find?_eq_some hxs))
  · next hnone =>
      have h : ∀ xs ∈ lines, xs.length = width lines := fun xs hxs => by
        simpa [width] using List.find?_eq_none.1 hnone xs hxs
      constructor
      · intro hg
        cases hg
        exact ⟨h, rfl⟩
      · rintro ⟨-, rfl⟩
        rfl

/-- Row `i` is the first one that is not as long as those before it. -/
structure IsRaggedAt (lines : List (List α)) (i : Nat) (xs : List α) :
    Prop where
  getElem?_eq : lines[i]? = some xs
  length_ne : xs.length ≠ width lines
  before : ∀ ys ∈ lines.take i, ys.length = width lines

theorem isRaggedAt_of_ofRows {ragged : Ragged}
    (h : ofRows lines = .error ragged) :
    ∃ xs, IsRaggedAt lines ragged.index xs ∧
      ragged = ⟨ragged.index, xs.length, width lines⟩ := by
  unfold ofRows at h
  dsimp only at h
  split at h
  · next xs hxs =>
      cases h
      obtain ⟨hne, i, hi, rfl, hbefore⟩ :=
        List.find?_eq_some_iff_getElem.1 hxs
      have hindex : lines.findIdx (fun xs => xs.length != width lines) = i :=
        (List.findIdx_eq hi).2
          ⟨hne, fun j hj => (Bool.not_eq_true' _).mp (hbefore j hj)⟩
      refine ⟨lines[i], ⟨?_, bne_iff_ne.1 hne, ?_⟩, rfl⟩
      · exact hindex ▸ List.getElem?_eq_getElem hi
      · intro ys hys
        obtain ⟨j, hj, rfl⟩ := List.mem_take_iff_getElem.1 hys
        have hlt : j < i := hindex ▸ (Nat.lt_min.1 hj).1
        simpa [width] using hbefore j hlt
  · cases h

theorem width_eq {n : Nat} (hne : lines ≠ [])
    (h : ∀ xs ∈ lines, xs.length = n) : width lines = n := by
  cases lines with
  | nil => exact absurd rfl hne
  | cons xs rest => exact h xs List.mem_cons_self

theorem cell?_of_rowList (g : Grid α) (i j : Nat) :
    g.cell? i j = g.rowList[i]?.bind (·[j]?) := by
  by_cases hi : i < g.rows
  · rw [getElem?_rowList hi, ← getElem?_row]
    rfl
  · have hcells : g.cells.length ≤ i * g.cols := by
      rw [g.length_cells]
      exact Nat.mul_le_mul_right _ (not_lt.1 hi)
    rw [List.getElem?_eq_none (by rw [length_rowList]; omega), cell?]
    split
    · exact List.getElem?_eq_none (by omega)
    · rfl

end Grid

namespace Layer

variable {weight : Grid Binary64} {bias : List Binary64} {t : Binary64}
  {order : StorageOrder} {l : Layer}

/-- A layer is built from its own parameters and from no others. -/
theorem build_eq_ok_iff : build weight bias t order = .ok l ↔
    l.weightPoints = weight ∧ l.biasPoints = bias ∧ l.tolerance = t ∧
      l.order = order := by
  constructor
  · intro h
    unfold build at h
    split at h
    · split at h
      · split at h
        · split at h
          · cases h
          · cases h
            exact ⟨rfl, rfl, rfl, rfl⟩
        · cases h
      · cases h
    · cases h
  · rintro ⟨rfl, rfl, rfl, rfl⟩
    obtain ⟨layer, hlayer, hweight, hbias, ht, horder⟩ :=
      build_of_usable l.isTolerance_tolerance l.length_biasPoints l.order
        ⟨l.nonempty.1, l.nonempty.2, l.finite⟩
    rw [hlayer]
    cases l
    cases layer
    cases hweight
    cases hbias
    cases ht
    cases horder
    rfl

theorem exists_build_iff : (∃ l, build weight bias t order = .ok l) ↔
    t.isTolerance = true ∧ bias.length = weight.rows ∧
      Usable weight bias := by
  constructor
  · rintro ⟨l, h⟩
    obtain ⟨rfl, rfl, rfl, -⟩ := build_eq_ok_iff.1 h
    exact ⟨l.isTolerance_tolerance, l.length_biasPoints,
      ⟨l.nonempty.1, l.nonempty.2, l.finite⟩⟩
  · rintro ⟨ht, hbias, husable⟩
    obtain ⟨l, hl, -⟩ := build_of_usable ht hbias order husable
    exact ⟨l, hl⟩

theorem ofRows_eq_ok_iff {rows : List (List Binary64)} :
    ofRows rows bias t = .ok l ↔
      ∃ g, Grid.ofRows rows = .ok g ∧ build g bias t = .ok l := by
  unfold ofRows
  cases Grid.ofRows rows with
  | error ragged =>
      exact iff_of_false (fun h => by cases h) (by rintro ⟨_, ⟨⟩, _⟩)
  | ok g =>
      refine ⟨fun h => ⟨g, rfl, h⟩, ?_⟩
      rintro ⟨_, ⟨⟩, h⟩
      exact h

end Layer

namespace RowModel

variable {m : RowModel} {t : Binary64}

/-- Whether the rows and the bias of a model are the parameters of a layer. -/
structure Fits (m : RowModel) (t : Binary64) : Prop where
  rows_ne_nil : m.weight ≠ []
  equallyLong : ∃ n, n ≠ 0 ∧ ∀ row ∈ m.weight, row.length = n
  length_bias : m.bias.length = m.weight.length
  finite_weight : ∀ row ∈ m.weight, ∀ x ∈ row, x.isFinite = true
  finite_bias : ∀ x ∈ m.bias, x.isFinite = true
  finite_tolerance : t.isFinite = true
  tolerance_nonneg : 0 ≤ t

theorem toLayer_eq_ok_iff {fallback : String} {l : Layer} :
    (m.toModel fallback >>= fun model => model.toLayer t) = .ok l ↔
      ∃ g, Grid.ofRows m.weight = .ok g ∧ Layer.build g m.bias t = .ok l := by
  rw [bind_eq_ok, toModel]
  cases Grid.ofRows m.weight with
  | error ragged =>
      exact iff_of_false (by rintro ⟨_, ⟨⟩, _⟩) (by rintro ⟨_, ⟨⟩, _⟩)
  | ok g =>
      constructor
      · rintro ⟨_, ⟨⟩, h⟩
        exact ⟨g, rfl, h⟩
      · rintro ⟨_, ⟨⟩, h⟩
        exact ⟨_, rfl, h⟩

/-- Rows and a bias make a layer exactly if they are the parameters of one. -/
theorem exists_layer_iff :
    (∃ l, Layer.ofRows m.weight m.bias t = .ok l) ↔ m.Fits t := by
  constructor
  · rintro ⟨l, h⟩
    obtain ⟨g, hg, hl⟩ := Layer.ofRows_eq_ok_iff.1 h
    obtain ⟨hlong, rfl⟩ := Grid.ofRows_eq_ok_iff.1 hg
    obtain ⟨ht, hbias, husable⟩ := Layer.exists_build_iff.1 ⟨l, hl⟩
    obtain ⟨hfin, hnonneg⟩ := Layer.isTolerance_iff_nonneg.1 ht
    refine ⟨fun hnil => ?_, ⟨_, husable.cols_ne_zero, hlong⟩, hbias,
      fun row hrow x hx => ?_, fun x hx => ?_, hfin, hnonneg⟩
    · exact husable.rows_ne_zero (congrArg List.length hnil)
    · exact husable.finite x
        (List.mem_append_left _ (List.mem_flatten_of_mem hrow hx))
    · exact husable.finite x (List.mem_append_right _ hx)
  · intro h
    obtain ⟨n, hn, hlong⟩ := h.equallyLong
    have hwidth := Grid.width_eq h.rows_ne_nil hlong
    have hcells : ∀ x ∈ m.weight.flatten ++ m.bias, x.isFinite = true := by
      intro x hx
      rcases List.mem_append.1 hx with hweight | hbias
      · obtain ⟨row, hrow, hx⟩ := List.mem_flatten.1 hweight
        exact h.finite_weight row hrow x hx
      · exact h.finite_bias x hbias
    obtain ⟨l, hl⟩ := (@Layer.exists_build_iff _ _ _ .byRow).2
      ⟨Layer.isTolerance_iff_nonneg.2 ⟨h.finite_tolerance, h.tolerance_nonneg⟩,
        h.length_bias, (⟨mt List.length_eq_zero_iff.1 h.rows_ne_nil,
          hwidth ▸ hn, hcells⟩ : Layer.Usable
            ⟨_, Grid.width m.weight, _,
              Grid.length_flatten_of_forall (hwidth ▸ hlong)⟩ m.bias)⟩
    exact ⟨l, Layer.ofRows_eq_ok_iff.2
      ⟨_, Grid.ofRows_eq_ok_iff.2 ⟨hwidth ▸ hlong, rfl⟩, hl⟩⟩

/-- The parameters of the layer that rows make stand where the rows have
them. -/
theorem parameters_of_ofRows {l : Layer}
    (h : Layer.ofRows m.weight m.bias t = .ok l) :
    l.weightPoints.rowList = m.weight ∧ l.biasPoints = m.bias ∧
      l.tolerance = t := by
  obtain ⟨g, hg, hl⟩ := Layer.ofRows_eq_ok_iff.1 h
  obtain ⟨hlong, rfl⟩ := Grid.ofRows_eq_ok_iff.1 hg
  obtain ⟨hweight, hbias, ht, -⟩ := Layer.build_eq_ok_iff.1 hl
  exact ⟨hweight ▸ Grid.rowList_flatten hlong, hbias, ht⟩

/-- Whether rows are loaded as a model first or made a layer at once, the
layer is the same: there is one exactly if the rows and the bias fit, and its
intervals lie around the entries of the rows, in their places. Where there is
none, both ways fail, and with the same fault unless a row has another length.
They both complain of the first such row then, each with a fault of its own. -/
theorem toLayer_agrees_ofRows (m : RowModel) (fallback : String)
    (t : Binary64) :
    (∀ l, (m.toModel fallback >>= fun model => model.toLayer t) = .ok l ↔
      Layer.ofRows m.weight m.bias t = .ok l) ∧
    ((∃ l, Layer.ofRows m.weight m.bias t = .ok l) ↔ m.Fits t) ∧
    (∀ fault, Layer.ofRows m.weight m.bias t = .error fault →
      (m.toModel fallback >>= fun model => model.toLayer t) = .error fault ∨
      ∃ i row, Grid.IsRaggedAt m.weight i row ∧
        (m.toModel fallback >>= fun model => model.toLayer t) =
          .error (.invalidModel
            (.raggedRow i row.length (Grid.width m.weight))) ∧
        fault = .shapeMismatch .weightRow [Grid.width m.weight]
          [row.length]) ∧
    ∀ l, Layer.ofRows m.weight m.bias t = .ok l →
      l.weightPoints.rowList = m.weight ∧ l.biasPoints = m.bias ∧
      l.tolerance = t ∧
      (∀ j k, l.weight.cell? j k =
        (m.weight[j]?.bind (·[k]?)).map (Interval.around · t)) ∧
      ∀ j, l.bias.cell? j 0 = m.bias[j]?.map (Interval.around · t) := by
  refine ⟨fun l => ?_, exists_layer_iff, fun fault h => ?_, fun l h => ?_⟩
  · rw [toLayer_eq_ok_iff, Layer.ofRows_eq_ok_iff]
  · unfold Layer.ofRows at h
    unfold toModel
    cases hg : Grid.ofRows m.weight with
    | ok g =>
        rw [hg] at h
        exact .inl h
    | error ragged =>
        rw [hg] at h
        obtain ⟨row, hrow, hragged⟩ := Grid.isRaggedAt_of_ofRows hg
        rw [hragged] at h ⊢
        cases h
        exact .inr ⟨_, row, hrow, rfl, rfl⟩
  · obtain ⟨hweight, hbias, rfl⟩ := parameters_of_ofRows h
    refine ⟨hweight, hbias, rfl, fun j k => ?_, fun j => ?_⟩
    · rw [Layer.weight, Grid.cell?_map, Grid.cell?_of_rowList, hweight]
    · rw [Grid.cell?_of_isColumn rfl, ← hbias]
      exact List.getElem?_map

end RowModel

end BoxCert
