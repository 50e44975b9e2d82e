import BoxCert.Command.Output
import BoxCert.Proofs.Number.One
import BoxCert.Proofs.Widening

/-!
# The ranges of a box and its ends

A box is described in two ways. Its range in a component is the hull of an
interval of the lower column and one of the upper column; its ends there are
the lower end of the one and the upper end of the other. The hull can reach
further: it does unless the lower column precedes the upper one at both ends.

A box between two lists of numbers has its columns in that order. Propagation
keeps them so where it is monotone, because it gets its upper column from the
lower one by swapping the columns of the input, which raises the one and lowers
the other. So what is said about widening a box carries over, and its two
conditions with it.
-/

namespace BoxCert

open Binary64 BoxCert.Interval

theorem Interval.hull_of_precedes {a b : Interval} (h : a.Precedes b) :
    hull a b = ⟨a.inf.unsignedZero, b.sup.unsignedZero⟩ := by
  obtain ⟨hai, hbi, hinf⟩ := le_iff.1 h.inf
  obtain ⟨has, hbs, hsup⟩ := le_iff.1 h.sup
  have hlow : (min a.inf b.inf).unsignedZero = a.inf.unsignedZero :=
    unsignedZero_congr (isNan_min hai hbi) hai
      (by rw [toEReal_min hai hbi, min_eq_left hinf])
  have hhigh : (max a.sup b.sup).unsignedZero = b.sup.unsignedZero :=
    unsignedZero_congr (isNan_max has hbs) hbs
      (by rw [toEReal_max has hbs, max_eq_right hsup])
  rw [hull, hlow, hhigh]

/-! ## Boxes with their columns in order -/

namespace Box

variable {b : Box} {point : List Binary64}

/-- Whether the lower column lies at or below the upper one, at both ends of
each component. -/
def Ordered (b : Box) : Prop :=
  List.Forall₂ Precedes b.lower.cells b.upper.cells

/-- The range between two ends. -/
def rangeOfEnds (low high : Binary64) : Interval :=
  ⟨low.unsignedZero, high.unsignedZero⟩

/-- What readers are told of the ends of a box: a line per component. -/
def textOfEnds (lows highs : List Binary64) : String :=
  textOfLines <| (List.zip lows highs).zipIdx.map fun ((low, high), j) =>
    "y[" ++ toString j ++ "] in " ++ toString (rangeOfEnds low high)

theorem Ordered.ranges_eq (h : b.Ordered) :
    b.ranges = List.zipWith rangeOfEnds b.lowerEnds b.upperEnds := by
  rw [ranges, lowerEnds, upperEnds, List.zipWith_map]
  exact List.zipWith_congr _ _ _ _ (h.imp fun _ _ => hull_of_precedes)

theorem Ordered.text_eq (h : b.Ordered) :
    b.text = textOfEnds b.lowerEnds b.upperEnds := by
  rw [text, h.ranges_eq, ← List.map_uncurry_zip_eq_zipWith, List.zipIdx_map,
    List.map_map]
  rfl

theorem rangeOfEnds_contains {low high x : Binary64} :
    (rangeOfEnds low high).contains x = true ↔ low ≤ x ∧ x ≤ high := by
  rw [Interval.contains, Bool.and_eq_true, decide_eq_true_iff,
    decide_eq_true_iff, rangeOfEnds]
  simp only [le_iff, isNan_unsignedZero, toEReal_unsignedZero]

theorem ranges_contain_iff {lows highs : List Binary64}
    (hlow : point.length = lows.length) (hhigh : point.length = highs.length) :
    (List.zipWith Interval.contains (List.zipWith rangeOfEnds lows highs)
        point).all id = true ↔
      List.Forall₂ (· ≤ ·) lows point ∧ List.Forall₂ (· ≤ ·) point highs := by
  induction point generalizing lows highs with
  | nil =>
      rw [List.length_eq_zero_iff.1 hlow.symm,
        List.length_eq_zero_iff.1 hhigh.symm]
      exact iff_of_true rfl ⟨.nil, .nil⟩
  | cons x point ih =>
      cases lows with
      | nil => cases hlow
      | cons low lows =>
          cases highs with
          | nil => cases hhigh
          | cons high highs =>
              have hrest := ih (Nat.succ.inj hlow) (Nat.succ.inj hhigh)
              rw [List.zipWith_cons_cons, List.zipWith_cons_cons,
                List.all_cons, Bool.and_eq_true, hrest, id_eq,
                rangeOfEnds_contains, List.forall₂_cons, List.forall₂_cons]
              exact and_and_and_comm

/-- A box with its columns in order holds the points between its ends. -/
theorem Ordered.contains_iff (h : b.Ordered) (hbox : b.Accepted) :
    b.contains point = true ↔ List.Forall₂ (· ≤ ·) b.lowerEnds point ∧
      List.Forall₂ (· ≤ ·) point b.upperEnds := by
  have hlow : b.lowerEnds.length = b.dim := by
    rw [lowerEnds, List.length_map, hbox.length_lower]
  have hhigh : b.upperEnds.length = b.dim := by
    rw [upperEnds, List.length_map, hbox.length_upper]
  rw [contains, Bool.and_eq_true, beq_iff_eq, h.ranges_eq]
  constructor
  · rintro ⟨hdim, hall⟩
    exact (ranges_contain_iff (hdim.trans hlow.symm)
      (hdim.trans hhigh.symm)).1 hall
  · rintro hends
    have hdim := hends.1.length_eq.symm.trans hlow
    exact ⟨hdim, (ranges_contain_iff (hdim.trans hlow.symm)
      (hdim.trans hhigh.symm)).2 hends⟩

section Corners

variable {lower upper : List Binary64} {t : Binary64}

theorem le_of_pairFault? {i : Nat} {low high : Binary64}
    (h : pairFault? i low high = none) : low ≤ high := by
  obtain ⟨hlow, hhigh⟩ := isFinite_of_pairFault? h
  rw [pairFault?, hlow, hhigh, if_neg (by decide)] at h
  split at h
  · cases h
  · next hle =>
      exact (not_below_iff (isNan_of_isFinite hlow)
        (isNan_of_isFinite hhigh)).1 hle

theorem corners_le_of_ofPoints (h : ofPoints lower upper t = .ok b) :
    List.Forall₂ (· ≤ ·) lower upper := by
  obtain ⟨hlength, hpair⟩ :=
    of_cornerFault?_eq_none (ofPoints_eq_ok_iff_ofColumns.1 h).1
  refine List.forall₂_of_length_eq_of_get hlength fun i hi hi' => ?_
  exact le_of_pairFault? (hpair i _ _ (List.getElem?_eq_getElem hi)
    (List.getElem?_eq_getElem hi'))

theorem ordered_of_ofPoints (ht : t.isNan = false) (hpos : 0 ≤ t.toEReal)
    (h : ofPoints lower upper t = .ok b) : b.Ordered := by
  have hcorners := corners_le_of_ofPoints h
  obtain ⟨-, rfl, -, -⟩ := ofPoints_eq_ok h
  exact Layer.forall₂_widened ht hpos hcorners

end Corners

end Box

/-! ## Propagation -/

namespace Layer

variable {l : Layer} {box : Box}

/-- Propagation keeps the columns of a box in order, in every run in which no
addition spills and no product vanishes. -/
theorem image_ordered (hbox : box.Proper) (hordered : box.Ordered)
    (hspill : SpillFree (l.additions box))
    (hvanish : VanishFree (l.products box)) : (l.image box).Ordered := by
  -- The upper bounds are the lower ones with the columns swapped, so both of
  -- their ends are compared along a column that is raised and one lowered.
  refine forall₂_bounds fun i b hb => ?_
  obtain ⟨hlow, hhigh⟩ := spillFree_of_additions hspill hb
  obtain ⟨hvlow, hvhigh⟩ :=
    vanishFree_of_products hvanish (lt_outputs_of_bias hb)
  constructor
  · exact bound_inf_mono hb hbox.upper_proper hbox.lower_proper
      hbox.lower_proper hbox.upper_proper hlow hvhigh hordered.flip hordered
  · exact bound_sup_mono hb hbox.lower_proper hbox.upper_proper
      hbox.upper_proper hbox.lower_proper hhigh hvlow hordered hordered.flip

variable {lower upper : List Binary64} {t : Binary64}

/-- The ranges of an output box reach from its lower ends to its upper ends,
in every run in which no addition spills and no product vanishes. So a point is
held if it lies between the ends, and readers are told the ends. -/
theorem propagate_ranges (ht : 0 ≤ t)
    (hbox : Box.ofPoints lower upper t = .ok box)
    (hdim : lower.length = l.inputs) (hspill : SpillFree (l.additions box))
    (hvanish : VanishFree (l.products box)) :
    ∃ out, l.propagate box = .ok out ∧
      out.ranges =
        List.zipWith Box.rangeOfEnds out.lowerEnds out.upperEnds ∧
      (∀ point, out.contains point = true ↔
        List.Forall₂ (· ≤ ·) out.lowerEnds point ∧
          List.Forall₂ (· ≤ ·) point out.upperEnds) ∧
      out.text = Box.textOfEnds out.lowerEnds out.upperEnds := by
  obtain ⟨-, hnan, hpos⟩ := le_iff.1 ht
  rw [toEReal_zero] at hpos
  have hproper := Box.proper_of_ofPoints hnan hpos hbox
  have hordered := Box.ordered_of_ofPoints hnan hpos hbox
  have himage := image_ordered hproper hordered hspill hvanish
  have haccepted := (image_proper (l := l) hproper).toAccepted
  obtain ⟨-, rfl, -, -⟩ := Box.ofPoints_eq_ok hbox
  have hrows : (Box.widened t lower).rows = l.inputs := by
    show (lower.map _).length = _
    rwa [List.length_map]
  exact ⟨_, propagate_eq_ok hproper hrows, himage.ranges_eq,
    fun _ => himage.contains_iff haccepted, himage.text_eq⟩

theorem propagate_ranges_sample :
    ∃ box out, Box.ofPoints [0] [1] 1 = .ok box ∧
      SpillFree (sample.additions box) ∧ VanishFree (sample.products box) ∧
      sample.propagate box = .ok out ∧
      out.ranges =
        List.zipWith Box.rangeOfEnds out.lowerEnds out.upperEnds ∧
      (∀ point, out.contains point = true ↔
        List.Forall₂ (· ≤ ·) out.lowerEnds point ∧
          List.Forall₂ (· ≤ ·) point out.upperEnds) ∧
      out.text = Box.textOfEnds out.lowerEnds out.upperEnds := by
  obtain ⟨box, hbox, hfree⟩ := exists_ok_of_toOption
    (show (Box.ofPoints [0] [1] 1).toOption.map
      (fun box => decide (SpillFree (sample.additions box) ∧
        VanishFree (sample.products box))) = some true
      by decide +kernel)
  obtain ⟨hspill, hvanish⟩ := of_decide_eq_true hfree
  obtain ⟨out, hout, hranges, hcontains, htext⟩ :=
    propagate_ranges (by decide) hbox rfl hspill hvanish
  exact ⟨box, out, hbox, hspill, hvanish, hout, hranges, hcontains, htext⟩

/-- Where a product vanishes or an addition spills, the ranges can reach below
the lower ends: the point at the lower ends of both ranges is held, though each
of its coordinates lies below a lower end. -/
theorem holds_below_lower_ends :
    ∃ box out point, Box.ofPoints outerCorner innerCorner 0 = .ok box ∧
      shrinking.propagate box = .ok out ∧
      out.contains point = true ∧
      List.Forall₂ (· < ·) point out.lowerEnds := by
  obtain ⟨box, hbox, hrun⟩ := exists_ok_of_toOption
    (show (Box.ofPoints outerCorner innerCorner 0).toOption.map
      (fun box => (shrinking.propagate box).toOption.map fun out =>
        (out.lowerEnds,
          out.contains [ofBits 0x8000000000000001, ofBits 0x7FEFFFFFFFFFFFFD])) =
        some (some ([0, ofBits 0x7FEFFFFFFFFFFFFE], true))
      by decide +kernel)
  obtain ⟨out, hout, hends⟩ := exists_ok_of_toOption hrun
  obtain ⟨hlow, hcontains⟩ := Prod.mk.inj hends
  refine ⟨box, out, _, hbox, hout, hcontains, ?_⟩
  rw [hlow]
  exact .cons (by decide) (.cons (by decide) .nil)

end Layer

end BoxCert
