import BoxCert.Proofs.Certification
import BoxCert.Proofs.Interval.Monotone

/-!
# Widening the input

A wider input box has a wider output box in every run in which two things do
not happen: no addition of the wide run spills, and no product of the narrow
run vanishes.

Neither condition can be dropped. A product of positive numbers that is too
small to be told from zero is rounded to the number below zero, while a factor
that is zero makes the product zero; so a corner of the box at zero can have
the higher lower bound. And a sum that spills comes out higher than that of a
number above it.
-/

namespace BoxCert

open Binary64 BoxCert.Interval

namespace Layer

variable {l : Layer} {narrow wide : Box}

/-- The operands of all products of intervals that propagating a box makes. -/
def products (l : Layer) (box : Box) : List (Interval × Interval) :=
  l.weight.rowList.flatMap fun row =>
    splitProducts row box.lower.cells box.upper.cells ++
      splitProducts row box.upper.cells box.lower.cells

theorem vanishFree_of_products {box : Box} (h : VanishFree (l.products box))
    {i : Nat} (hi : i < l.outputs) :
    VanishFree (splitProducts (l.weight.row i) box.lower.cells
      box.upper.cells) ∧
    VanishFree (splitProducts (l.weight.row i) box.upper.cells
      box.lower.cells) := by
  have hrow : l.weight.row i ∈ l.weight.rowList :=
    List.mem_of_getElem? (Grid.getElem?_rowList hi)
  exact VanishFree.append.1 fun pair hp => h pair
    (List.mem_flatMap.2 ⟨_, hrow, hp⟩)

section Bound

variable {first first' second second' : List Interval} {i : Nat}
  {b : Interval} (hb : l.bias.cells[i]? = some b)
  (hfirst : ∀ a ∈ first, a.inf ≤ a.sup)
  (hfirst' : ∀ a ∈ first', a.inf ≤ a.sup)
  (hsecond : ∀ a ∈ second, a.inf ≤ a.sup)
  (hsecond' : ∀ a ∈ second', a.inf ≤ a.sup)
  (hspill : SpillFree (boundAdditions first' second' (l.weight.row i) b))
  (hvanish : VanishFree (splitProducts (l.weight.row i) first second))

include hb hfirst hfirst' hsecond hsecond' hspill hvanish

theorem bound_inf_mono
    (hlow : List.Forall₂ (fun b c => c.Precedes b) first first')
    (hhigh : List.Forall₂ Precedes second second') :
    (splitDot (l.weight.row i) first' second' + b).inf ≤
      (splitDot (l.weight.row i) first second + b).inf := by
  have hrow : ∀ a ∈ l.weight.row i, a.inf ≤ a.sup := fun a ha =>
    l.weight_inf_le_sup (Grid.mem_of_mem_row ha)
  obtain ⟨hrest, hlast⟩ := spillFree_boundAdditions.1 hspill
  obtain ⟨hinf, -, -⟩ :=
    le_iff.1 (l.bias_inf_le_sup (List.mem_of_getElem? hb))
  exact add_inf_mono (splitDot_inf_mono hrow hfirst hfirst' hsecond hsecond'
    hrest hvanish hlow hhigh) (le_iff.2 ⟨hinf, hinf, le_rfl⟩) hlast

theorem bound_sup_mono (hhigh : List.Forall₂ Precedes first first')
    (hlow : List.Forall₂ (fun b c => c.Precedes b) second second') :
    (splitDot (l.weight.row i) first second + b).sup ≤
      (splitDot (l.weight.row i) first' second' + b).sup := by
  have hrow : ∀ a ∈ l.weight.row i, a.inf ≤ a.sup := fun a ha =>
    l.weight_inf_le_sup (Grid.mem_of_mem_row ha)
  obtain ⟨hrest, hlast⟩ := spillFree_boundAdditions.1 hspill
  obtain ⟨-, hsup, -⟩ :=
    le_iff.1 (l.bias_inf_le_sup (List.mem_of_getElem? hb))
  exact add_sup_mono (splitDot_sup_mono hrow hfirst hfirst' hsecond hsecond'
    hrest hvanish hhigh hlow) (le_iff.2 ⟨hsup, hsup, le_rfl⟩) hlast

end Bound

section Image

variable (hnarrow : narrow.Proper) (hwide : wide.Proper)
  (hlower : List.Forall₂ (fun b c => c.Precedes b) narrow.lower.cells
    wide.lower.cells)
  (hupper : List.Forall₂ Precedes narrow.upper.cells wide.upper.cells)
  (hspill : SpillFree (l.additions wide))
  (hvanish : VanishFree (l.products narrow))

include hnarrow hwide hlower hupper hspill hvanish

/-- The bounds of one output move apart when the input is widened. -/
theorem bound_mono {i : Nat} {b : Interval} (hb : l.bias.cells[i]? = some b) :
    (splitDot (l.weight.row i) wide.lower.cells wide.upper.cells + b).inf ≤
      (splitDot (l.weight.row i) narrow.lower.cells
        narrow.upper.cells + b).inf ∧
    (splitDot (l.weight.row i) narrow.upper.cells
        narrow.lower.cells + b).sup ≤
      (splitDot (l.weight.row i) wide.upper.cells wide.lower.cells + b).sup := by
  obtain ⟨hlow, hhigh⟩ := spillFree_of_additions hspill hb
  obtain ⟨hvlow, hvhigh⟩ :=
    vanishFree_of_products hvanish (lt_outputs_of_bias hb)
  constructor
  · exact bound_inf_mono hb hnarrow.lower_proper hwide.lower_proper
      hnarrow.upper_proper hwide.upper_proper hlow hvlow hlower hupper
  · exact bound_sup_mono hb hnarrow.upper_proper hwide.upper_proper
      hnarrow.lower_proper hwide.lower_proper hhigh hvhigh hupper hlower

theorem image_mono :
    List.Forall₂ (· ≤ ·) (l.image wide).lowerEnds (l.image narrow).lowerEnds ∧
      List.Forall₂ (· ≤ ·) (l.image narrow).upperEnds
        (l.image wide).upperEnds := by
  have hbound := fun {i b} (hb : l.bias.cells[i]? = some b) =>
    bound_mono hnarrow hwide hlower hupper hspill hvanish hb
  constructor
  · show List.Forall₂ _ ((l.bounds _ _).map _) ((l.bounds _ _).map _)
    rw [List.forall₂_map_left_iff, List.forall₂_map_right_iff]
    exact forall₂_bounds fun i b hb => (hbound hb).1
  · show List.Forall₂ _ ((l.bounds _ _).map _) ((l.bounds _ _).map _)
    rw [List.forall₂_map_left_iff, List.forall₂_map_right_iff]
    exact forall₂_bounds fun i b hb => (hbound hb).2

end Image

variable {lower upper lower' upper' : List Binary64} {t : Binary64}

theorem forall₂_widened (ht : t.isNan = false) (hpos : 0 ≤ t.toEReal)
    {points points' : List Binary64}
    (h : List.Forall₂ (· ≤ ·) points points') :
    List.Forall₂ Precedes (Box.widened t points).cells
      (Box.widened t points').cells := by
  show List.Forall₂ _ (points.map _) (points'.map _)
  rw [List.forall₂_map_left_iff, List.forall₂_map_right_iff]
  exact h.imp fun _ _ hle => around_precedes hpos ht hle

/-- Of two boxes with one tolerance, the one between the wider corners has the
wider output box, in every run in which no addition on the wider one spills and
no product on the narrower one vanishes. -/
theorem propagate_widens (ht : 0 ≤ t)
    (hnarrow : Box.ofPoints lower upper t = .ok narrow)
    (hwide : Box.ofPoints lower' upper' t = .ok wide)
    (hlower : List.Forall₂ (· ≤ ·) lower' lower)
    (hupper : List.Forall₂ (· ≤ ·) upper upper')
    (hdim : lower.length = l.inputs) (hspill : SpillFree (l.additions wide))
    (hvanish : VanishFree (l.products narrow)) :
    ∃ out out', l.propagate narrow = .ok out ∧ l.propagate wide = .ok out' ∧
      List.Forall₂ (· ≤ ·) out'.lowerEnds out.lowerEnds ∧
      List.Forall₂ (· ≤ ·) out.upperEnds out'.upperEnds := by
  obtain ⟨-, hnan, hpos⟩ := le_iff.1 ht
  rw [toEReal_zero] at hpos
  have hproper := Box.proper_of_ofPoints hnan hpos hnarrow
  have hproper' := Box.proper_of_ofPoints hnan hpos hwide
  obtain ⟨-, rfl, -, -⟩ := Box.ofPoints_eq_ok hnarrow
  obtain ⟨-, rfl, -, -⟩ := Box.ofPoints_eq_ok hwide
  have hrows : (Box.widened t lower).rows = l.inputs := by
    show (lower.map _).length = _
    rwa [List.length_map]
  have hrows' : (Box.widened t lower').rows = l.inputs := by
    show (lower'.map _).length = _
    rwa [List.length_map, hlower.length_eq]
  exact ⟨_, _, propagate_eq_ok hproper hrows, propagate_eq_ok hproper' hrows',
    image_mono hproper hproper' (forall₂_widened hnan hpos hlower).flip
      (forall₂_widened hnan hpos hupper) hspill hvanish⟩

theorem propagate_widens_sample :
    ∃ narrow wide out out', Box.ofPoints [1] [1] 1 = .ok narrow ∧
      Box.ofPoints [0] [ofBits 0x4000000000000000] 1 = .ok wide ∧
      SpillFree (sample.additions wide) ∧ VanishFree (sample.products narrow) ∧
      sample.propagate narrow = .ok out ∧ sample.propagate wide = .ok out' ∧
      List.Forall₂ (· ≤ ·) out'.lowerEnds out.lowerEnds ∧
      List.Forall₂ (· ≤ ·) out.upperEnds out'.upperEnds := by
  obtain ⟨narrow, hnarrow, hvanish⟩ := exists_ok_of_toOption
    (show (Box.ofPoints [1] [1] 1).toOption.map
      (fun box => decide (VanishFree (sample.products box))) = some true
      by decide +kernel)
  obtain ⟨wide, hwide, hspill⟩ := exists_ok_of_toOption
    (show (Box.ofPoints [0] [ofBits 0x4000000000000000] 1).toOption.map
      (fun box => decide (SpillFree (sample.additions box))) = some true
      by decide +kernel)
  have hvanish := of_decide_eq_true hvanish
  have hspill := of_decide_eq_true hspill
  obtain ⟨out, out', hout, hout', hlower, hupper⟩ :=
    propagate_widens (by decide) hnarrow hwide (.cons (by decide) .nil)
      (.cons (by decide) .nil) rfl hspill hvanish
  exact ⟨narrow, wide, out, out', hnarrow, hwide, hspill, hvanish, hout, hout',
    hlower, hupper⟩

/-- Two scores: a tiny multiple of the first input, and the sum of the other
two. -/
def shrinking : Layer where
  weightPoints := ⟨2, 3, [ofBits 0x1A70000000000000, 0, 0, 0, 1, 1], rfl⟩
  biasPoints := [0, 0]
  tolerance := 0
  order := .byRow
  isTolerance_tolerance := rfl
  nonempty := by decide
  length_biasPoints := by decide
  finite := by decide

/-- A tiny number, the number next above minus three times `2 ^ 970`, and the
largest number. -/
def innerCorner : List Binary64 :=
  [ofBits 0x1A70000000000000, ofBits 0xFCA7FFFFFFFFFFFF, greatest false]

/-- Zero, minus three times `2 ^ 970`, and the largest number. -/
def outerCorner : List Binary64 :=
  [0, ofBits 0xFCA8000000000000, greatest false]

/-- Where a product vanishes or an addition spills, widening the input can
raise a lower end: the first score's because the lower corner of its input
moves to zero, the second one's because the sum with the lower corner
spills. -/
theorem lower_raised_by_widening :
    ∃ narrow wide out out',
      List.Forall₂ (· ≤ ·) outerCorner innerCorner ∧
      Box.ofPoints innerCorner innerCorner 0 = .ok narrow ∧
      Box.ofPoints outerCorner innerCorner 0 = .ok wide ∧
      shrinking.propagate narrow = .ok out ∧
      shrinking.propagate wide = .ok out' ∧
      List.Forall₂ (· < ·) out.lowerEnds out'.lowerEnds := by
  obtain ⟨narrow, hnarrow, hout⟩ := exists_ok_of_toOption
    (show (Box.ofPoints innerCorner innerCorner 0).toOption.map
      (fun box => (shrinking.propagate box).toOption.map (·.lowerEnds)) =
        some (some [ofBits 0x8000000000000001, ofBits 0x7FEFFFFFFFFFFFFD])
      by decide +kernel)
  obtain ⟨wide, hwide, hout'⟩ := exists_ok_of_toOption
    (show (Box.ofPoints outerCorner innerCorner 0).toOption.map
      (fun box => (shrinking.propagate box).toOption.map (·.lowerEnds)) =
        some (some [0, ofBits 0x7FEFFFFFFFFFFFFE])
      by decide +kernel)
  obtain ⟨out, hout, hlow⟩ := exists_ok_of_toOption hout
  obtain ⟨out', hout', hlow'⟩ := exists_ok_of_toOption hout'
  have hcorners : List.Forall₂ (· ≤ ·) outerCorner innerCorner :=
    .cons (by decide) (.cons (by decide) (.cons (by decide) .nil))
  refine ⟨narrow, wide, out, out', hcorners, hnarrow, hwide, hout, hout', ?_⟩
  rw [hlow, hlow']
  exact .cons (by decide) (.cons (by decide) .nil)

end Layer

end BoxCert
