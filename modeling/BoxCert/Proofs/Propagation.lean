import BoxCert.Layer
import BoxCert.Proofs.Interval.Matrix
import Mathlib.Algebra.BigOperators.Fin

/-!
# What propagation encloses

Propagating a box through a layer bounds each output by a row of the weight,
split by sign, plus the bias. On an accepted box of the right height that
never fails: the two bounds of an output are ordered whatever was rounded or
spilled on the way.

If none of the additions spills, the bounds enclose: for every point of the
box and every map the layer stands for, the exact value lies between them.
-/

namespace BoxCert

open Binary64 BoxCert.Interval
open IntervalMatrix (dot product_of_isColumn)

/-! ## Lists and families -/

theorem forall₂_ofFn {α β : Type} {R : α → β → Prop} {n : Nat} {l : List α}
    {f : Fin n → β} (hlen : l.length = n)
    (h : ∀ (k : Fin n) a, l[k.val]? = some a → R a (f k)) :
    List.Forall₂ R l (List.ofFn f) := by
  refine List.forall₂_of_length_eq_of_get (by rw [hlen, List.length_ofFn])
    fun i hi hi' => ?_
  rw [List.get_ofFn]
  exact h ⟨i, by omega⟩ _ (List.getElem?_eq_getElem hi)

theorem of_forall₂_ofFn {α β : Type} {R : α → β → Prop} {n : Nat} {l : List α}
    {f : Fin n → β} (h : List.Forall₂ R l (List.ofFn f)) {k : Fin n} {a : α}
    (ha : l[k.val]? = some a) : R a (f k) := by
  obtain ⟨hk, rfl⟩ := List.getElem?_eq_some_iff.1 ha
  have hget := h.get hk (by rw [List.length_ofFn]; exact k.isLt)
  rwa [List.get_ofFn] at hget

theorem exists_of_forall₂_ofFn {α β : Type} {R : α → β → Prop} {n : Nat}
    {l : List α} {f : Fin n → β} (h : List.Forall₂ R l (List.ofFn f))
    (k : Fin n) : ∃ a, l[k.val]? = some a ∧ R a (f k) := by
  have hlength := h.length_eq
  rw [List.length_ofFn] at hlength
  have ha := List.getElem?_eq_getElem (l := l) (i := k) (by omega)
  exact ⟨_, ha, of_forall₂_ofFn h ha⟩

theorem zipWith_ofFn {α β γ : Type} {n : Nat} (h : α → β → γ) (f : Fin n → α)
    (g : Fin n → β) :
    List.zipWith h (List.ofFn f) (List.ofFn g) =
      List.ofFn fun k => h (f k) (g k) := by
  refine List.ext_getElem (by simp) fun i _ _ => ?_
  simp

theorem sum_zipWith_ofFn {n : Nat} (f g : Fin n → ℝ) :
    (List.zipWith (· * ·) (List.ofFn f) (List.ofFn g)).sum =
      ∑ k, f k * g k := by
  rw [zipWith_ofFn, List.sum_ofFn]

theorem isTolerance_iff {t : Binary64} : t.isTolerance = true ↔
    t.isFinite = true ∧ 0 ≤ t.toEReal := by
  simp only [Binary64.isTolerance, Bool.and_eq_true, Bool.not_eq_true',
    decide_eq_false_iff_not]
  refine and_congr_right fun hfin => ?_
  have hnan := isNan_of_isFinite hfin
  rw [not_below_iff rfl hnan, le_iff, toEReal_zero]
  exact ⟨fun h => h.2.2, fun h => ⟨rfl, hnan, h⟩⟩

theorem isTolerance_zero : (0 : Binary64).isTolerance = true := rfl

/-! ## The bounds of an output -/

namespace Layer

variable {l : Layer} {box : Box}

/-- The bounds of all outputs on one side: each row against the ends that
pull it to that side, plus its bias. -/
def bounds (l : Layer) (first second : List Interval) : List Interval :=
  List.zipWith (fun row b => splitDot row first second + b) l.weight.rowList
    l.bias.cells

def boundAdditions (first second row : List Interval) (b : Interval) :
    List (Interval × Interval) :=
  splitAdditions row first second ++ [(splitDot row first second, b)]

/-- The operands of all additions of intervals that propagating a box makes:
products onto the running sum, the negative part onto the positive one, the
bias onto both. -/
def additions (l : Layer) (box : Box) : List (Interval × Interval) :=
  (List.zip l.weight.rowList l.bias.cells).flatMap fun (row, b) =>
    boundAdditions box.lower.cells box.upper.cells row b ++
      boundAdditions box.upper.cells box.lower.cells row b

theorem length_bias (l : Layer) : l.bias.cells.length = l.outputs := by
  show (l.biasPoints.map _).length = _
  rw [List.length_map, l.length_biasPoints]
  rfl

theorem length_weight_rowList (l : Layer) :
    l.weight.rowList.length = l.outputs :=
  Grid.length_rowList l.weight

theorem length_bounds (l : Layer) (first second : List Interval) :
    (l.bounds first second).length = l.outputs := by
  rw [bounds, List.length_zipWith, length_weight_rowList, length_bias,
    Nat.min_self]

theorem sumAll_eq_bounds (l : Layer) (first second : List Interval) :
    IntervalMatrix.sumAll [
      Grid.column (l.weight.positivePart.rowList.map (dot · first)),
      Grid.column (l.weight.negativePart.rowList.map (dot · second)),
      l.bias] = .ok (Grid.column (l.bounds first second)) := by
  rw [IntervalMatrix.rowList_positivePart, IntervalMatrix.rowList_negativePart,
    List.map_map, List.map_map]
  refine (IntervalMatrix.sumAll_three ?_ ?_).trans ?_
  · rw [List.length_map, List.length_map]
  · rw [List.length_map, length_weight_rowList, ← length_bias]
    rfl
  · rw [List.zipWith_map, List.zipWith_self, List.zipWith_map_left]
    rfl

theorem propagate_eq (hbox : box.Accepted) (hdim : box.dim = l.inputs) :
    l.propagate box =
      Box.ofColumns (Grid.column (l.bounds box.lower.cells box.upper.cells))
        (Grid.column (l.bounds box.upper.cells box.lower.cells)) := by
  have hcols : l.weight.cols = box.lower.rows := hdim.symm
  have hcols' : l.weight.cols = box.upper.rows := hcols.trans hbox.rows_eq
  have hlower := hbox.lower_isColumn
  have hupper := hbox.upper_isColumn
  rw [propagate, if_neg (not_not_intro hdim)]
  dsimp only
  rw [product_of_isColumn (a := l.weight.positivePart) hcols hlower,
    product_of_isColumn (a := l.weight.negativePart) hcols' hupper,
    product_of_isColumn (a := l.weight.positivePart) hcols' hupper,
    product_of_isColumn (a := l.weight.negativePart) hcols hlower]
  -- No product fails; what is left are the two sums.
  show (do
    let lower ← IntervalMatrix.sumAll [_, _, l.bias]
    let upper ← IntervalMatrix.sumAll [_, _, l.bias]
    Box.ofColumns lower upper) = _
  rw [sumAll_eq_bounds, sumAll_eq_bounds]
  rfl

/-! ## Well-formed parameters -/

theorem mem_around_tolerance (l : Layer) {p : Binary64}
    (hp : p.isFinite = true) : p.toEReal ∈ around p l.tolerance := by
  obtain ⟨hfin, hpos⟩ := isTolerance_iff.1 l.isTolerance_tolerance
  exact mem_around (isNan_of_isFinite hp) (isNan_of_isFinite hfin) hpos

theorem weight_inf_le_sup (l : Layer) {a : Interval}
    (ha : a ∈ l.weight.cells) : a.inf ≤ a.sup := by
  obtain ⟨p, hp, rfl⟩ := List.mem_map.1 ha
  exact inf_le_sup_of_mem (l.mem_around_tolerance
    (l.finite p (List.mem_append_left _ hp)))

theorem bias_inf_le_sup (l : Layer) {a : Interval} (ha : a ∈ l.bias.cells) :
    a.inf ≤ a.sup := by
  obtain ⟨p, hp, rfl⟩ := List.mem_map.1 ha
  exact inf_le_sup_of_mem (l.mem_around_tolerance
    (l.finite p (List.mem_append_right _ hp)))

/-! ## The output box -/

def image (l : Layer) (box : Box) : Box :=
  ⟨Grid.column (l.bounds box.lower.cells box.upper.cells),
    Grid.column (l.bounds box.upper.cells box.lower.cells)⟩

theorem lt_outputs_of_bias {i : Nat} {b : Interval}
    (hb : l.bias.cells[i]? = some b) : i < l.outputs := by
  have := (List.getElem?_eq_some_iff.1 hb).1
  rwa [length_bias] at this

theorem getElem?_bounds {f s : List Interval} {i : Nat} {b : Interval}
    (hb : l.bias.cells[i]? = some b) : (l.bounds f s)[i]? =
      some (splitDot (l.weight.row i) f s + b) := by
  have hi : i < l.weight.rows := lt_outputs_of_bias hb
  rw [bounds, List.getElem?_zipWith, Grid.getElem?_rowList hi, hb]

theorem exists_bias {i : Nat} (hi : i < l.outputs) :
    ∃ b, l.bias.cells[i]? = some b :=
  ⟨_, List.getElem?_eq_getElem (by rwa [length_bias])⟩

/-- What holds of the bounds of each output holds of the lists of bounds. -/
theorem forall₂_bounds {R : Interval → Interval → Prop}
    {f s f' s' : List Interval}
    (h : ∀ i b, l.bias.cells[i]? = some b →
      R (splitDot (l.weight.row i) f s + b)
        (splitDot (l.weight.row i) f' s' + b)) :
    List.Forall₂ R (l.bounds f s) (l.bounds f' s') := by
  refine List.forall₂_of_length_eq_of_get
    ((length_bounds l f s).trans (length_bounds l f' s').symm) fun i hi hi' => ?_
  obtain ⟨b, hb⟩ := exists_bias (l := l) (i := i) (by rwa [← length_bounds l f s])
  have hbound := fun first second =>
    List.getElem?_eq_some_iff.1 (getElem?_bounds (f := first) (s := second) hb)
  have hR := h i b hb
  rw [← (hbound f s).2, ← (hbound f' s').2] at hR
  exact hR

/-- The bounds of an output are ordered, spilled or not. -/
theorem bound_inf_le_sup (hbox : box.Proper) (i : Nat) :
    (splitDot (l.weight.row i) box.lower.cells box.upper.cells).inf ≤
      (splitDot (l.weight.row i) box.upper.cells box.lower.cells).sup :=
  splitDot_inf_le_sup
    (fun _ ha => l.weight_inf_le_sup (Grid.mem_of_mem_row ha))
    hbox.lower_proper hbox.upper_proper hbox.ranges

theorem bounds_proper {first second : List Interval}
    (hfirst : ∀ a ∈ first, a.inf ≤ a.sup)
    (hsecond : ∀ a ∈ second, a.inf ≤ a.sup) :
    ∀ a ∈ l.bounds first second, a.inf ≤ a.sup := by
  intro a ha
  obtain ⟨i, hi⟩ := List.getElem?_of_mem ha
  have hlt := (List.getElem?_eq_some_iff.1 hi).1
  obtain ⟨b, hb⟩ := exists_bias (by rwa [length_bounds] at hlt)
  cases (getElem?_bounds hb).symm.trans hi
  exact add_inf_le_sup
    (splitDot_proper (fun _ ha => l.weight_inf_le_sup (Grid.mem_of_mem_row ha))
      hfirst hsecond)
    (l.bias_inf_le_sup (List.mem_of_getElem? hb))

theorem image_proper (hbox : box.Proper) : (l.image box).Proper := by
  refine ⟨⟨rfl, rfl, ?_, ?_⟩, bounds_proper hbox.lower_proper hbox.upper_proper,
    bounds_proper hbox.upper_proper hbox.lower_proper⟩
  · exact (length_bounds _ _ _).trans (length_bounds _ _ _).symm
  · refine forall₂_bounds fun i b hb => ?_
    -- The same bias is added to both bounds, which are in order before.
    exact add_inf_le_sup (bound_inf_le_sup hbox i)
      (l.bias_inf_le_sup (List.mem_of_getElem? hb))

theorem dim_image (l : Layer) (box : Box) : (l.image box).dim = l.outputs :=
  length_bounds l _ _

/-- Propagation accepts every box of the right height and gives the box of the
bounds. -/
theorem propagate_eq_ok (hbox : box.Proper) (hdim : box.dim = l.inputs) :
    l.propagate box = .ok (l.image box) := by
  rw [propagate_eq hbox.toAccepted hdim, Box.ofColumns_eq_ok]
  exact ⟨rfl, (image_proper hbox).toAccepted⟩

/-- The bounds of an output are apart by the tolerance on either side, spilled
or not. -/
theorem image_width (hbox : box.Proper) {i : Nat} {low high : Interval}
    (hlow : (l.image box).lower.cells[i]? = some low)
    (hhigh : (l.image box).upper.cells[i]? = some high) :
    low.inf.toEReal + (l.tolerance.toEReal + l.tolerance.toEReal) ≤
      high.sup.toEReal := by
  obtain ⟨hfin, hpos⟩ := isTolerance_iff.1 l.isTolerance_tolerance
  have hlt := (List.getElem?_eq_some_iff.1 hlow).1
  obtain ⟨b, hb⟩ := exists_bias (l := l) (by
    rwa [← length_bounds l box.lower.cells box.upper.cells])
  cases (getElem?_bounds hb).symm.trans hlow
  cases (getElem?_bounds hb).symm.trans hhigh
  obtain ⟨p, hp, rfl⟩ := List.mem_map.1 (List.mem_of_getElem? hb)
  exact add_around_width (bound_inf_le_sup hbox i)
    (l.finite p (List.mem_append_right _ hp)) hfin hpos

/-! ## Enclosure -/

/-- Whether the layer stands for the affine map with weight `W` and bias `c`:
each entry lies in its interval. -/
structure Admits (l : Layer) (W : Fin l.outputs → Fin l.inputs → ℝ)
    (c : Fin l.outputs → ℝ) : Prop where
  weight : ∀ (i : Fin l.outputs) (k : Fin l.inputs) a,
    l.weight.cell? i k = some a → (W i k : EReal) ∈ a
  bias : ∀ (i : Fin l.outputs) a, l.bias.cells[i.val]? = some a →
    (c i : EReal) ∈ a

theorem spillFree_boundAdditions {first second row : List Interval}
    {b : Interval} : SpillFree (boundAdditions first second row b) ↔
      SpillFree (splitAdditions row first second) ∧
        spills (splitDot row first second) b = false := by
  rw [boundAdditions, SpillFree.append]
  exact and_congr_right fun _ => List.forall_mem_singleton

theorem spillFree_of_additions (h : SpillFree (l.additions box)) {i : Nat}
    {b : Interval} (hb : l.bias.cells[i]? = some b) :
    SpillFree (boundAdditions box.lower.cells box.upper.cells
      (l.weight.row i) b) ∧
    SpillFree (boundAdditions box.upper.cells box.lower.cells
      (l.weight.row i) b) := by
  have hi : i < l.weight.rows := lt_outputs_of_bias hb
  have hpair : (l.weight.row i, b) ∈ List.zip l.weight.rowList l.bias.cells := by
    refine List.mem_of_getElem? (i := i) ?_
    rw [List.getElem?_zip_eq_some]
    exact ⟨Grid.getElem?_rowList hi, hb⟩
  exact SpillFree.append.1 fun pair hp => h pair
    (List.mem_flatMap.2 ⟨_, hpair, hp⟩)

section

variable {W : Fin l.outputs → Fin l.inputs → ℝ} {c : Fin l.outputs → ℝ}
  {x : Fin l.inputs → ℝ}

theorem forall₂_row (hW : l.Admits W c) (i : Fin l.outputs) :
    List.Forall₂ (· ∈ ·) ((List.ofFn (W i)).map Real.toEReal)
      (l.weight.row i) := by
  rw [List.forall₂_map_left_iff]
  refine List.Forall₂.flip (forall₂_ofFn (Grid.length_row i.isLt)
    fun k a ha => ?_)
  rw [Grid.getElem?_row] at ha
  exact hW.weight i k a ha

/-- Unless an addition spills, the bounds of an output enclose its exact value
at every point of the box, for every map the layer stands for. -/
theorem image_encloses (hbox : box.Proper) (hdim : box.dim = l.inputs)
    (hspill : SpillFree (l.additions box)) (hW : l.Admits W c)
    (hx : box.Encloses x) :
    (l.image box).Encloses fun i => ∑ k, W i k * x k + c i := by
  have hl : List.Forall₂ (fun (a : Interval) (v : ℝ) => a.inf.toEReal ≤ v)
      box.lower.cells (List.ofFn x) :=
    forall₂_ofFn (hbox.length_lower.trans hdim) hx.lower_le
  have hu : List.Forall₂ (fun (a : Interval) (v : ℝ) => v ≤ a.sup.toEReal)
      box.upper.cells (List.ofFn x) :=
    forall₂_ofFn (hbox.length_upper.trans hdim) hx.le_upper
  constructor
  · intro i a ha
    obtain ⟨b, hb⟩ := exists_bias i.isLt
    cases (getElem?_bounds hb).symm.trans ha
    obtain ⟨hrow, hlast⟩ :=
      spillFree_boundAdditions.1 (spillFree_of_additions hspill hb).1
    obtain ⟨z, hz, hle⟩ := exists_mem_splitDot_le hbox.lower_proper
      hbox.upper_proper (forall₂_row hW i) hl hu hrow
    have hmem := add_mem hz (hW.bias i b hb) hlast
    rw [sum_zipWith_ofFn] at hle
    calc (splitDot _ _ _ + b).inf.toEReal ≤ z + c i := hmem.inf_le
      _ ≤ (∑ k, W i k * x k : ℝ) + c i := add_le_add_left hle _
      _ = _ := (EReal.coe_add _ _).symm
  · intro i a ha
    obtain ⟨b, hb⟩ := exists_bias i.isLt
    cases (getElem?_bounds hb).symm.trans ha
    obtain ⟨hrow, hlast⟩ :=
      spillFree_boundAdditions.1 (spillFree_of_additions hspill hb).2
    obtain ⟨z, hz, hge⟩ := exists_mem_splitDot_ge hbox.lower_proper
      hbox.upper_proper (forall₂_row hW i) hl hu hrow
    have hmem := add_mem hz (hW.bias i b hb) hlast
    rw [sum_zipWith_ofFn] at hge
    calc ((∑ k, W i k * x k + c i : ℝ) : EReal)
      _ = (∑ k, W i k * x k : ℝ) + c i := EReal.coe_add _ _
      _ ≤ z + c i := add_le_add_left hge _
      _ ≤ (splitDot _ _ _ + b).sup.toEReal := hmem.le_sup

/-- Propagation encloses: on every accepted box of the right height whose ends
are intervals it succeeds, and the output box holds the exact value of every
affine map the layer stands for at every point of the box, in every run in
which no right-hand operand of an addition has a largest number as an end. -/
theorem propagate_encloses
    (haccepted : Box.ofColumns box.lower box.upper = .ok box)
    (hcells : ∀ a ∈ box.lower.cells ++ box.upper.cells, a.inf ≤ a.sup)
    (hdim : box.dim = l.inputs)
    (hlargest : ∀ pair ∈ l.additions box,
      pair.2.inf.abs ≠ greatest false ∧ pair.2.sup.abs ≠ greatest false) :
    ∃ out, l.propagate box = .ok out ∧
      out.lower.cells.length = l.outputs ∧
      out.upper.cells.length = l.outputs ∧
      ∀ W c x, l.Admits W c → box.Encloses x →
        out.Encloses fun i => ∑ k, W i k * x k + c i := by
  have hbox : box.Proper :=
    ⟨(Box.ofColumns_eq_ok.1 haccepted).2,
      fun a ha => hcells a (List.mem_append_left _ ha),
      fun a ha => hcells a (List.mem_append_right _ ha)⟩
  exact ⟨l.image box, propagate_eq_ok hbox hdim, length_bounds _ _ _,
    length_bounds _ _ _, fun W c x hW hx =>
      image_encloses hbox hdim (spillFree_of_ne_greatest hlargest) hW hx⟩

end

/-- Two scores of one input, known up to one: the first grows with the input,
the second is kept down. -/
def sample : Layer where
  weightPoints := .column [ofBits 0x4010000000000000, 0]
  biasPoints := [0, ofBits 0xC020000000000000]
  tolerance := 1
  order := .byRow
  isTolerance_tolerance := by decide
  nonempty := by decide
  length_biasPoints := by decide
  finite := by decide

/-- An input that is known to be at least a number between zero and one. -/
def sampleBox : Box := ⟨.column [⟨0, 1⟩], .column [⟨1, infinity⟩]⟩

theorem propagate_encloses_sample :
    Box.ofColumns sampleBox.lower sampleBox.upper = .ok sampleBox ∧
    (∀ a ∈ sampleBox.lower.cells ++ sampleBox.upper.cells, a.inf ≤ a.sup) ∧
    sampleBox.dim = sample.inputs ∧
    (∀ pair ∈ sample.additions sampleBox,
      pair.2.inf.abs ≠ greatest false ∧ pair.2.sup.abs ≠ greatest false) ∧
    ∃ out, sample.propagate sampleBox = .ok out ∧
      out.lower.cells.length = 2 ∧ out.upper.cells.length = 2 ∧
      ∀ W c x, sample.Admits W c → sampleBox.Encloses x →
        out.Encloses fun i => ∑ k, W i k * x k + c i := by
  have haccepted : Box.ofColumns sampleBox.lower sampleBox.upper =
      .ok sampleBox := rfl
  have hcells : ∀ a ∈ sampleBox.lower.cells ++ sampleBox.upper.cells,
      a.inf ≤ a.sup := by decide
  have hlargest : ∀ pair ∈ sample.additions sampleBox,
      pair.2.inf.abs ≠ greatest false ∧ pair.2.sup.abs ≠ greatest false := by
    decide +kernel
  exact ⟨haccepted, hcells, rfl, hlargest,
    propagate_encloses haccepted hcells rfl hlargest⟩

end Layer

end BoxCert
