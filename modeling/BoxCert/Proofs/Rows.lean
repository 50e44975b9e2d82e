import BoxCert.Proofs.Decision.Check
import BoxCert.Proofs.Propagation

/-!
# Propagation row by row

A layer is propagated as a whole: its weight is split by sign once and then
multiplied with both columns of the box. A linear form is bounded on its own:
its row is split by sign and multiplied as a matrix of one row. Both take the
same operands in the same order, so the bounds of an output are those of its
row plus its bias, to the last bit. Of the layer, an output therefore depends
on nothing but its own row and its own bias.
-/

namespace BoxCert.Layer

open Binary64 BoxCert.Interval

variable {l l' : Layer} {box : Box} {i i' : Nat}

theorem row?_weight (hi : i < l.outputs) :
    l.weight.row? i = some (Grid.singleRow (l.weight.row i)) :=
  if_pos hi

theorem cell?_bias (l : Layer) (i : Nat) :
    l.bias.cell? i 0 = l.bias.cells[i]? :=
  Grid.cell?_of_isColumn rfl i

/-- A row of the weight has the same bounds alone as within the layer. -/
theorem minOf_row (hbox : box.Accepted) (hdim : box.dim = l.inputs)
    (hi : i < l.outputs) :
    box.minOf (Grid.singleRow (l.weight.row i)) =
        .ok (splitDot (l.weight.row i) box.lower.cells box.upper.cells) ∧
      box.maxOf (Grid.singleRow (l.weight.row i)) =
        .ok (splitDot (l.weight.row i) box.upper.cells box.lower.cells) := by
  have hlower : (l.weight.row i).length = box.lower.rows :=
    (Grid.length_row (g := l.weight) hi).trans hdim.symm
  have hupper := hlower.trans hbox.rows_eq
  exact ⟨Box.signedDot_singleRow hbox.lower_isColumn hbox.upper_isColumn hlower
      hupper,
    Box.signedDot_singleRow hbox.upper_isColumn hbox.lower_isColumn hupper
      hlower⟩

/-- Layers that share a row and its bias share its bounds, wherever the row
stands in either. -/
theorem getElem?_bounds_congr (hi : i < l.outputs)
    (hrow : l'.weight.row? i' = l.weight.row? i)
    (hbias : l'.bias.cell? i' 0 = l.bias.cell? i 0)
    (first second : List Interval) :
    (l'.bounds first second)[i']? = (l.bounds first second)[i]? := by
  obtain ⟨b, hb⟩ := exists_bias hi
  rw [cell?_bias, cell?_bias, hb] at hbias
  rw [row?_weight hi, row?_weight (lt_outputs_of_bias hbias)] at hrow
  have hcells := congrArg Grid.cells (Option.some.inj hrow)
  rw [getElem?_bounds hb, getElem?_bounds hbias]
  exact congrArg (fun row => some (splitDot row first second + b)) hcells

/-- Propagation bounds each output by its row. On every accepted box of the
right height it makes a box of two columns with one bound per output: the bound
that the row of the output has alone, plus its bias. That box is accepted if
the cells of the given one are intervals; and a layer with the same row and
bias in another place has the same bounds there. -/
theorem propagate_by_rows
    (haccepted : Box.ofColumns box.lower box.upper = .ok box)
    (hdim : box.dim = l.inputs) :
    ∃ lower upper, l.propagate box = Box.ofColumns lower upper ∧
      lower.shape = [l.outputs, 1] ∧ upper.shape = [l.outputs, 1] ∧
      ((∀ a ∈ box.lower.cells ++ box.upper.cells, a.inf ≤ a.sup) →
        l.propagate box = .ok ⟨lower, upper⟩) ∧
      (∀ i < l.outputs, ∃ row bias lowest highest,
        l.weight.row? i = some row ∧ l.bias.cell? i 0 = some bias ∧
        box.minOf row = .ok lowest ∧ box.maxOf row = .ok highest ∧
        lower.cell? i 0 = some (lowest + bias) ∧
        upper.cell? i 0 = some (highest + bias)) ∧
      ∀ (l' : Layer) (i i' : Nat) (out : Box), i < l.outputs →
        l'.weight.row? i' = l.weight.row? i →
        l'.bias.cell? i' 0 = l.bias.cell? i 0 →
        l'.propagate box = .ok out →
        out.lower.cell? i' 0 = lower.cell? i 0 ∧
          out.upper.cell? i' 0 = upper.cell? i 0 := by
  have hbox := (Box.ofColumns_eq_ok.1 haccepted).2
  have hcell : ∀ (a : List Interval) i, (Grid.column a).cell? i 0 = a[i]? :=
    fun a i => Grid.cell?_of_isColumn rfl i
  refine ⟨_, _, propagate_eq hbox hdim, ?_, ?_, fun hcells => ?_,
    fun i hi => ?_, fun l' i i' out hi hrow hbias hout => ?_⟩
  · exact congrArg (fun n => [n, 1]) (length_bounds _ _ _)
  · exact congrArg (fun n => [n, 1]) (length_bounds _ _ _)
  · exact propagate_eq_ok (Box.proper_of_cells haccepted hcells) hdim
  · obtain ⟨b, hb⟩ := exists_bias hi
    obtain ⟨hmin, hmax⟩ := minOf_row hbox hdim hi
    refine ⟨_, b, _, _, row?_weight hi, by rw [cell?_bias, hb], hmin, hmax, ?_,
      ?_⟩
    · rw [hcell, getElem?_bounds hb]
    · rw [hcell, getElem?_bounds hb]
  · have hdim' : box.dim = l'.inputs := by
      by_contra hne
      rw [propagate, if_pos hne] at hout
      cases hout
    rw [propagate_eq hbox hdim'] at hout
    obtain ⟨rfl, -⟩ := Box.ofColumns_eq_ok.1 hout
    rw [hcell, hcell, hcell, hcell]
    exact ⟨getElem?_bounds_congr hi hrow hbias _ _,
      getElem?_bounds_congr hi hrow hbias _ _⟩

/-- Two scores of two inputs, with weights of either sign. -/
def mixed : Layer where
  weightPoints := ⟨2, 2, [ofBits 0x4008000000000000, ofBits 0xC000000000000000,
    ofBits 0xBFF0000000000000, ofBits 0x4010000000000000], rfl⟩
  biasPoints := [1, ofBits 0xC020000000000000]
  tolerance := 0
  order := .byRow
  isTolerance_tolerance := isTolerance_zero
  nonempty := by decide
  length_biasPoints := by decide
  finite := by decide

/-- The second of these scores, and a third one. -/
def remixed : Layer where
  weightPoints := ⟨2, 2, [ofBits 0xBFF0000000000000, ofBits 0x4010000000000000,
    1, 1], rfl⟩
  biasPoints := [ofBits 0xC020000000000000, 0]
  tolerance := 0
  order := .byColumn
  isTolerance_tolerance := isTolerance_zero
  nonempty := by decide
  length_biasPoints := by decide
  finite := by decide

/-- One input between zero and two, each known up to one, and one that is
unbounded above. -/
def mixedBox : Box :=
  ⟨.column [⟨0, 1⟩, ⟨-1, -1⟩],
    .column [⟨1, ofBits 0x4000000000000000⟩, ⟨1, infinity⟩]⟩

theorem propagate_by_rows_remixed :
    Box.ofColumns mixedBox.lower mixedBox.upper = .ok mixedBox ∧
    mixedBox.dim = mixed.inputs ∧
    ∃ out out' row bias lowest highest, mixed.propagate mixedBox = .ok out ∧
      remixed.propagate mixedBox = .ok out' ∧
      mixed.weight.row? 1 = some row ∧ mixed.bias.cell? 1 0 = some bias ∧
      mixedBox.minOf row = .ok lowest ∧ mixedBox.maxOf row = .ok highest ∧
      out.lower.cell? 1 0 = some (lowest + bias) ∧
      out.upper.cell? 1 0 = some (highest + bias) ∧
      out'.lower.cell? 0 0 = some (lowest + bias) ∧
      out'.upper.cell? 0 0 = some (highest + bias) := by
  have haccepted : Box.ofColumns mixedBox.lower mixedBox.upper =
      .ok mixedBox := rfl
  have hcells : ∀ a ∈ mixedBox.lower.cells ++ mixedBox.upper.cells,
      a.inf ≤ a.sup := by decide
  obtain ⟨lower, upper, -, -, -, hok, hrows, hshared⟩ :=
    propagate_by_rows (l := mixed) haccepted rfl
  obtain ⟨row, bias, lowest, highest, hrow, hbias, hmin, hmax, hlow, hhigh⟩ :=
    hrows 1 (by decide)
  have hout' : remixed.propagate mixedBox = .ok (remixed.image mixedBox) :=
    propagate_eq_ok (Box.proper_of_cells haccepted hcells) rfl
  obtain ⟨hlow', hhigh'⟩ := hshared remixed 1 0 _ (by decide)
    (by decide +kernel) (by decide +kernel) hout'
  exact ⟨haccepted, rfl, _, _, row, bias, lowest, highest, hok hcells, hout',
    hrow, hbias, hmin, hmax, hlow, hhigh, hlow'.trans hlow,
    hhigh'.trans hhigh⟩

end BoxCert.Layer
