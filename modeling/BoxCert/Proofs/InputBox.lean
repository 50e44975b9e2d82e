import BoxCert.Proofs.Number.Mirror
import BoxCert.Proofs.Number.Sharp
import BoxCert.Proofs.Refusal

/-!
# Input boxes around their property

The input box of a property is made without checking the settings, unlike the
layer and the run as a whole. This file shows when it holds the property
nevertheless. A tolerance that is not negative widens. A negative one moves
the ends inwards, and is harmless exactly if every corner absorbs it: if what
is left of the tolerance after rounding does not reach the next number. A
tolerance that is no number makes no box with components.

All that stands between a negative tolerance and a box that is too narrow is an
assertion. A debug build stops at it, so the boxes that it makes always hold
their property; a release build does not.
-/

namespace BoxCert

namespace Binary64

variable {x y : Binary64}

/-- A sum that spills is not negative, and its first operand is. -/
theorem nextUp_le_of_spillsBelow (h : spillsBelow x y = true) :
    x.nextUp.toEReal ≤ x.toEReal + y.toEReal := by
  obtain ⟨hx, hy⟩ := eq_greatest_of_spillsBelow h
  have hyfin : y.isFinite = true := by rw [hy]; rfl
  obtain ⟨-, i, -, hval⟩ := (spillsBelow_iff_isOddHalfSteps hx hyfin).1 h
  have hneg : x < 0 := by
    refine lt_iff.2 ⟨isNan_of_isFinite hx, rfl, ?_⟩
    rw [toReal_neg hx] at hval
    rw [toEReal_of_isFinite hx, toEReal_zero, EReal.coe_neg']
    have hpos : (0 : ℝ) < (4 * i + 3) * 2 ^ 970 := by positivity
    exact neg_pos.1 (hval ▸ hpos)
  have hnext := (le_iff.1 (nextUp_le_of_lt hx hneg)).2.2
  rw [toEReal_zero] at hnext
  refine hnext.trans ?_
  have hreach := le_toEReal_greatest (x := -x) ((isFinite_neg x).trans hx)
  rw [← hy, toEReal_neg, toEReal_of_isFinite hx, toEReal_of_isFinite hyfin]
    at hreach
  rw [toEReal_of_isFinite hx, toEReal_of_isFinite hyfin]
  norm_cast at hreach ⊢
  linarith

/-- A sum rounded downwards stays at its first operand unless the exact sum
reaches the next number. -/
theorem addDown_le_left_iff (hx : x.isFinite = true) (hy : y.isNan = false) :
    addDown x y ≤ x ↔ x.toEReal + y.toEReal < x.nextUp.toEReal := by
  have hxn := isNan_of_isFinite hx
  have hdown := isNan_addDown hxn hy
  have hstep := stepsTo_nextUp hx
  constructor
  · intro hle
    by_contra hreach
    have hnan := (isNan_of_lt hstep.lt).2
    have hnext := le_addDown hxn hy hnan (not_lt.1 hreach)
    exact (not_below_iff hnan hxn).2 (le_of_le_of_le hnext hle) hstep.lt
  · intro hlt
    by_contra hgt
    rw [← not_below_iff hdown hxn, not_not] at hgt
    have hnext := (le_iff.1 (nextUp_le_of_lt hx hgt)).2.2
    cases hspill : spillsBelow x y with
    | true => exact absurd (nextUp_le_of_spillsBelow hspill) (not_le.2 hlt)
    | false =>
        have hexact := addDown_le hxn hy hspill
        exact absurd (hnext.trans hexact) (not_le.2 hlt)

theorem addDown_of_isNan (h : y.isNan = true) : (addDown x y).isNan = true := by
  rw [eq_nan_of_isNan h]
  cases x <;> rfl

/-- A NaN is worth zero here, and so not less. -/
theorem nonneg_of_not_lt (h : ¬ x < 0) : 0 ≤ x.toEReal := by
  cases hx : x.isNan with
  | true => rw [eq_nan_of_isNan hx]; exact le_rfl
  | false => simpa using (le_iff.1 ((not_below_iff rfl hx).1 h)).2.2

end Binary64

namespace Interval

open Binary64

variable {x t : Binary64}

theorem around_inf_le_iff (hx : x.isFinite = true) (ht : t.isNan = false) :
    (around x t).inf ≤ x ↔ x.toEReal - t.toEReal < x.nextUp.toEReal := by
  rw [sub_eq_add_neg, ← toEReal_neg]
  exact addDown_le_left_iff hx ((isNan_neg t).trans ht)

/-- The upper end, as the lower end around the negated number. -/
theorem le_around_sup_iff (hx : x.isFinite = true) (ht : t.isNan = false) :
    x ≤ (around x t).sup ↔ x.nextDown.toEReal < x.toEReal + t.toEReal := by
  have hlower := around_inf_le_iff ((isFinite_neg x).trans hx) ht
  have hmirror : (around x t).sup.Agrees (-(around (-x) t).inf) :=
    addUp_agrees x t
  rw [le_iff, isNan_neg, toEReal_neg] at hlower
  rw [le_iff, hmirror.isNan_eq, hmirror.toEReal_eq, isNan_neg, toEReal_neg,
    EReal.le_neg, nextDown, toEReal_neg, EReal.neg_lt_comm, ← and_assoc,
    and_comm (a := x.isNan = false), and_assoc, hlower]
  rw [toEReal_of_isFinite hx, EReal.neg_add (.inl (EReal.coe_ne_bot _))
    (.inl (EReal.coe_ne_top _))]

/-- A tolerance that is not negative keeps a number within its ends. -/
theorem absorbs_of_nonneg (hx : x.isFinite = true) (ht : 0 ≤ t.toEReal) :
    x.toEReal - t.toEReal < x.nextUp.toEReal ∧
      x.nextDown.toEReal < x.toEReal + t.toEReal := by
  have hup := (lt_iff.1 (stepsTo_nextUp hx).lt).2.2
  have hdown := (lt_iff.1 (nextDown_stepsTo hx).lt).2.2
  constructor
  · calc x.toEReal - t.toEReal ≤ x.toEReal - 0 := EReal.sub_le_sub le_rfl ht
      _ = x.toEReal := sub_zero _
      _ < x.nextUp.toEReal := hup
  · exact hdown.trans_le (le_add_of_nonneg_right ht)

end Interval

/-! ## Builds -/

theorem Build.assert_eq_none_iff {build : Build} {holds : Bool} :
    build.assert holds = none ↔ build = .debug ∧ holds = false := by
  cases build <;> cases holds <;> decide

namespace Box

open Binary64

variable {build : Build} {lower upper points : List Binary64} {t : Binary64}

/-- A column is made as in a release build, unless the assertion fails on its
first number. -/
theorem widenedIn_eq (build : Build) (t : Binary64) (points : List Binary64) :
    widenedIn build t points =
      if build = .debug ∧ ¬ 0 ≤ t ∧ points ≠ [] then none
      else some (widened t points) := by
  unfold widenedIn widened
  cases hassert : build.assert (0 ≤ t) with
  | none =>
      have hstep : (Interval.aroundIn build · t) = fun _ => none := by
        funext x
        rw [Interval.aroundIn, hassert]
        rfl
      obtain ⟨hdebug, hfails⟩ := Build.assert_eq_none_iff.1 hassert
      rw [hstep]
      cases points with
      | nil => rw [if_neg fun h => h.2.2 rfl]; rfl
      | cons x points =>
          rw [if_pos ⟨hdebug, of_decide_eq_false hfails, List.cons_ne_nil _ _⟩,
            List.mapM_cons]
          rfl
  | some passed =>
      have hstep : (Interval.aroundIn build · t) =
          fun x => pure (Interval.around x t) := by
        funext x
        rw [Interval.aroundIn, hassert]
        rfl
      rw [hstep, List.mapM_pure, if_neg]
      · rfl
      · rintro ⟨hdebug, hfails, -⟩
        rw [Build.assert_eq_none_iff.2 ⟨hdebug, decide_eq_false hfails⟩]
          at hassert
        cases hassert

/-- A box is made as in a release build, unless it has a component to widen and
the assertion fails. -/
theorem ofPointsIn_eq (build : Build) (lower upper : List Binary64)
    (t : Binary64) : ofPointsIn build lower upper t =
      if build = .debug ∧ ¬ 0 ≤ t ∧ lower ≠ [] ∧ cornerFault? lower upper = none
      then none else some (ofPoints lower upper t) := by
  unfold ofPointsIn ofPoints
  cases h : cornerFault? lower upper with
  | some fault => rw [if_neg fun h => nomatch h.2.2.2]
  | none =>
      have hnil : upper ≠ [] ↔ lower ≠ [] := by
        rw [← List.length_pos_iff, ← List.length_pos_iff,
          (of_cornerFault?_eq_none h).1]
      simp only [widenedIn_eq, hnil, and_true]
      split
      · rfl
      · rfl

end Box

/-! ## Corners that absorb a tolerance -/

/-- Whether every corner of a property absorbs a tolerance: the tolerance may
be negative, but what it moves a corner inwards by stays short of the next
number. -/
@[mk_iff]
structure Property.Absorbs (p : Property) (t : Binary64) : Prop where
  lower : ∀ x ∈ p.lower, x.toEReal - t.toEReal < x.nextUp.toEReal
  upper : ∀ x ∈ p.upper, x.nextDown.toEReal < x.toEReal + t.toEReal

theorem Property.absorbs_of_nonneg {p : Property} {t : Binary64}
    (hfinite : ∀ x ∈ p.lower ++ p.upper, x.isFinite = true)
    (ht : 0 ≤ t.toEReal) : p.Absorbs t where
  lower x hx := (Interval.absorbs_of_nonneg
    (hfinite x (List.mem_append_left _ hx)) ht).1
  upper x hx := (Interval.absorbs_of_nonneg
    (hfinite x (List.mem_append_right _ hx)) ht).2

namespace Box

open Binary64

variable {b : Box} {p : Property} {t : Binary64}

/-- Whether a box is at least as wide as a property, component by
component. -/
@[mk_iff]
structure Surrounds (b : Box) (p : Property) : Prop where
  lower : List.Forall₂ (· ≤ ·) b.lowerEnds p.lower
  upper : List.Forall₂ (· ≤ ·) p.upper b.upperEnds

theorem surrounds_widened_iff :
    Surrounds ⟨widened t p.lower, widened t p.upper⟩ p ↔
      (∀ x ∈ p.lower, (Interval.around x t).inf ≤ x) ∧
        ∀ x ∈ p.upper, x ≤ (Interval.around x t).sup := by
  rw [surrounds_iff, lowerEnds, upperEnds, widened, widened, Grid.column,
    Grid.column, List.map_map, List.map_map, List.forall₂_map_left_iff,
    List.forall₂_map_right_iff, List.forall₂_same, List.forall₂_same]
  rfl

/-- A range around a NaN is empty, so there are no components. -/
theorem corners_eq_nil_of_isNan {lower upper : List Binary64}
    (h : ofPoints lower upper t = .ok b) (ht : t.isNan = true) :
    lower ++ upper = [] := by
  obtain ⟨hlength, rfl, haccepted, -⟩ := ofPoints_eq_ok h
  cases lower with
  | nil => exact List.length_eq_zero_iff.1 hlength.symm
  | cons low lower =>
      cases upper with
      | nil => cases hlength
      | cons high upper =>
          obtain ⟨hhead, -⟩ := List.forall₂_cons.1 haccepted.ranges
          have hnan : (Interval.around low t).inf.isNan = true :=
            addDown_of_isNan ((isNan_neg t).trans ht)
          rw [(le_iff.1 hhead).1] at hnan
          cases hnan

/-- The box around two corners is as wide as they are exactly if the corners
absorb the tolerance. -/
theorem surrounds_iff_absorbs (h : ofPoints p.lower p.upper t = .ok b) :
    b.Surrounds p ↔ p.Absorbs t := by
  have hnan : ∀ x ∈ p.lower ++ p.upper, t.isNan = false := by
    intro x hx
    by_contra ht
    rw [Bool.not_eq_false] at ht
    rw [corners_eq_nil_of_isNan h ht] at hx
    cases hx
  obtain ⟨-, rfl, -, hfinite⟩ := ofPoints_eq_ok h
  rw [surrounds_widened_iff, Property.absorbs_iff]
  refine and_congr (forall₂_congr fun x hx => ?_)
    (forall₂_congr fun x hx => ?_)
  · have hmem := List.mem_append_left p.upper hx
    exact Interval.around_inf_le_iff (hfinite x hmem) (hnan x hmem)
  · have hmem := List.mem_append_right p.lower hx
    exact Interval.le_around_sup_iff (hfinite x hmem) (hnan x hmem)

end Box

namespace Settings

open Binary64

variable {s : Settings} {build : Build} {layer : Layer} {p : Property}
  {box output : Box}

/-- A build stops for nothing but the assertion, and only once the corners have
been found in order. -/
theorem inputBoxIn_eq_none_iff : s.inputBoxIn build p = none ↔
    build = .debug ∧ ¬ 0 ≤ s.effectiveTolerance ∧ p.lower ≠ [] ∧
      p.lower.length = p.upper.length ∧
      Box.RangesBelow p.lower p.upper p.dim := by
  have hcorners : Box.cornerFault? p.lower p.upper = none ↔
      p.lower.length = p.upper.length ∧
        Box.RangesBelow p.lower p.upper p.dim := Box.cornerFault?_eq_none_iff
  unfold inputBoxIn
  rw [Box.ofPointsIn_eq]
  split
  · next h =>
      obtain ⟨hdebug, hneg, hne, hnone⟩ := h
      exact iff_of_true rfl ⟨hdebug, hneg, hne, hcorners.1 hnone⟩
  · next h =>
      refine iff_of_false nofun fun ⟨hdebug, hneg, hne, hok⟩ => h ?_
      exact ⟨hdebug, hneg, hne, hcorners.2 hok⟩

theorem inputBox_of_inputBoxIn {result : Checked Box}
    (h : s.inputBoxIn build p = some result) : s.inputBox p = result := by
  unfold inputBoxIn at h
  rw [Box.ofPointsIn_eq] at h
  split at h
  · cases h
  · exact Option.some.inj h

theorem inputBoxIn_release (s : Settings) (p : Property) :
    s.inputBoxIn .release p = some (s.inputBox p) := by
  unfold inputBoxIn
  rw [Box.ofPointsIn_eq, if_neg fun h => nomatch h.1]
  rfl

/-- In a run, where the settings have been checked, no build stops. -/
theorem Valid.inputBoxIn_eq (h : s.Valid) (build : Build) (p : Property) :
    s.inputBoxIn build p = some (s.inputBox p) := by
  unfold inputBoxIn
  rw [Box.ofPointsIn_eq, if_neg fun hstops => hstops.2.1 h.nonneg]
  rfl

theorem outputBoxIn_eq_ok :
    s.outputBoxIn build layer p = some (.ok output) ↔ ∃ box,
      s.inputBoxIn build p = some (.ok box) ∧
      layer.propagate box = .ok output := by
  unfold outputBoxIn
  cases s.inputBoxIn build p with
  | none => exact iff_of_false nofun nofun
  | some result =>
      refine Option.some_inj.trans (bind_eq_ok.trans ?_)
      simp only [Option.some_inj]

/-- What a debug build goes on with. -/
theorem nonneg_or_eq_nil_of_debug (h : s.inputBoxIn .debug p = some (.ok box)) :
    0 ≤ s.effectiveTolerance ∨ p.lower = [] := by
  have hcorners := Box.cornerFault?_eq_none_iff.1
    (Box.ofPoints_eq_ok_iff_ofColumns.1 (inputBox_of_inputBoxIn h)).1
  by_contra hfails
  obtain ⟨hneg, hne⟩ := not_or.1 hfails
  rw [inputBoxIn_eq_none_iff.2 ⟨rfl, hneg, hne, hcorners⟩] at h
  cases h

/-- A tolerance that is not negative keeps the box around its property, and in
a debug build a box with components has such a tolerance. -/
theorem surrounds_of_inputBoxIn (h : s.inputBoxIn build p = some (.ok box))
    (hsafe : build = .debug ∨ ¬ s.effectiveTolerance < 0) :
    box.Surrounds p := by
  have hbox := inputBox_of_inputBoxIn h
  obtain ⟨hlength, -, -, hfinite⟩ := Box.ofPoints_eq_ok hbox
  rw [Box.surrounds_iff_absorbs hbox]
  rcases hsafe with rfl | hpos
  · rcases nonneg_or_eq_nil_of_debug h with hpos | hnil
    · have hle := (le_iff.1 hpos).2.2
      rw [toEReal_zero] at hle
      exact Property.absorbs_of_nonneg hfinite hle
    · have hnil' : p.upper = [] := by
        rwa [← List.length_eq_zero_iff, ← hlength, List.length_eq_zero_iff]
      refine ⟨fun x hx => ?_, fun x hx => ?_⟩
      · rw [hnil] at hx
        cases hx
      · rw [hnil'] at hx
        cases hx
  · exact Property.absorbs_of_nonneg hfinite (nonneg_of_not_lt hpos)

/-- A box that is made for a property is as wide as the property exactly if
the corners absorb the tolerance. They do if the tolerance is not negative, and
a debug build makes no other box: it stops, where a release build goes on with
a box that may be too narrow. An output box comes from such an input box
alone. -/
theorem inputBox_surrounds (s : Settings) (build : Build) (layer : Layer)
    (p : Property) :
    (∀ box, s.inputBoxIn build p = some (.ok box) →
      (box.Surrounds p ↔ p.Absorbs s.effectiveTolerance) ∧
      (build = .debug ∨ ¬ s.effectiveTolerance < 0 → box.Surrounds p)) ∧
    (∀ output, s.outputBoxIn build layer p = some (.ok output) → ∃ box,
      s.inputBoxIn build p = some (.ok box) ∧
      layer.propagate box = .ok output ∧
      (build = .debug ∨ ¬ s.effectiveTolerance < 0 → box.Surrounds p)) ∧
    (s.inputBoxIn build p = none ↔
      build = .debug ∧ ¬ 0 ≤ s.effectiveTolerance ∧ p.lower ≠ [] ∧
        p.lower.length = p.upper.length ∧
        Box.RangesBelow p.lower p.upper p.dim) := by
  refine ⟨fun box hbox => ⟨?_, surrounds_of_inputBoxIn hbox⟩,
    fun output houtput => ?_, inputBoxIn_eq_none_iff⟩
  · exact Box.surrounds_iff_absorbs (inputBox_of_inputBoxIn hbox)
  · obtain ⟨box, hbox, hpropagate⟩ := outputBoxIn_eq_ok.1 houtput
    exact ⟨box, hbox, hpropagate, surrounds_of_inputBoxIn hbox⟩

/-- The negative tolerance next to zero. -/
def leastNegative : Settings := { tolerance := some (ofBits 0x8000000000000001) }

/-- In a release build the least negative tolerance is absorbed by the corners.
A debug build stops at it, but widens by a tolerance of one. -/
theorem inputBox_surrounds_sample :
    ∃ box wide output,
      leastNegative.inputBoxIn .release (sampleProperty 0) = some (.ok box) ∧
      (sampleProperty 0).Absorbs (ofBits 0x8000000000000001) ∧
      leastNegative.inputBoxIn .debug (sampleProperty 0) = none ∧
      sampleSettings.outputBoxIn .debug Layer.sample (sampleProperty 0) =
        some (.ok output) ∧
      sampleSettings.inputBoxIn .debug (sampleProperty 0) = some (.ok wide) ∧
      Layer.sample.propagate wide = .ok output ∧
      wide.Surrounds (sampleProperty 0) := by
  obtain ⟨box, hbox, hends⟩ := exists_ok_of_toOption
    (show (leastNegative.inputBox (sampleProperty 0)).toOption.map
      (fun box => (box.lowerEnds, box.upperEnds)) =
        some ((sampleProperty 0).lower, (sampleProperty 0).upper) by
          decide +kernel)
  obtain ⟨hlower, hupper⟩ := Prod.mk.inj hends
  have hsurrounds : box.Surrounds (sampleProperty 0) := by
    rw [Box.surrounds_iff, hlower, hupper]
    decide
  have hrelease : leastNegative.inputBoxIn .release (sampleProperty 0) =
      some (.ok box) := by rw [inputBoxIn_release, hbox]
  obtain ⟨output, houtput, -⟩ := exists_ok_of_toOption
    (show (sampleSettings.outputBox Layer.sample
      (sampleProperty 0)).toOption.map (fun _ => ()) = some () by
        decide +kernel)
  have hdebug : sampleSettings.outputBoxIn .debug Layer.sample
      (sampleProperty 0) = some (.ok output) := by
    obtain ⟨wide, hwide, hpropagate⟩ := bind_eq_ok.1 houtput
    refine outputBoxIn_eq_ok.2 ⟨wide, ?_, hpropagate⟩
    rw [Valid.inputBoxIn_eq (valid_iff.2 (by decide)), hwide]
  obtain ⟨hextent, -, -⟩ := inputBox_surrounds leastNegative .release
    Layer.sample (sampleProperty 0)
  obtain ⟨-, -, hstops⟩ := inputBox_surrounds leastNegative .debug
    Layer.sample (sampleProperty 0)
  obtain ⟨wide, hwide, hpropagate, hsettled⟩ := (inputBox_surrounds
    sampleSettings .debug Layer.sample (sampleProperty 0)).2.1 output hdebug
  refine ⟨box, wide, output, hrelease, (hextent box hrelease).1.1 hsurrounds,
    hstops.2 ⟨rfl, by decide, by decide, rfl, ?_⟩, hdebug, hwide, hpropagate,
    hsettled (.inl rfl)⟩
  exact (Box.cornerFault?_eq_none_iff.1 (by decide)).2

/-- A tolerance of minus a quarter. -/
def minusQuarter : Settings := { tolerance := some (ofBits 0xBFD0000000000000) }

def zeroToOne : Property := ⟨[0], [1], 0⟩

/-- A release build takes a quarter off either end of the range, and propagates
the box all the same. A debug build stops. -/
theorem inputBox_narrowed :
    (∃ box output,
      minusQuarter.inputBoxIn .release zeroToOne = some (.ok box) ∧
      box.lowerEnds = [ofBits 0x3FD0000000000000] ∧
      box.upperEnds = [ofBits 0x3FE8000000000000] ∧
      ¬ box.Surrounds zeroToOne ∧
      minusQuarter.outputBoxIn .release Layer.sample zeroToOne =
        some (.ok output) ∧
      Layer.sample.propagate box = .ok output) ∧
    minusQuarter.inputBoxIn .debug zeroToOne = none := by
  obtain ⟨box, hbox, hends⟩ := exists_ok_of_toOption
    (show (minusQuarter.inputBox zeroToOne).toOption.map
      (fun box => (box.lowerEnds, box.upperEnds)) =
        some ([ofBits 0x3FD0000000000000], [ofBits 0x3FE8000000000000]) by
          decide +kernel)
  obtain ⟨hlower, hupper⟩ := Prod.mk.inj hends
  have hrelease : minusQuarter.inputBoxIn .release zeroToOne =
      some (.ok box) := by rw [inputBoxIn_release, hbox]
  obtain ⟨output, houtput, -⟩ := exists_ok_of_toOption
    (show (minusQuarter.outputBox Layer.sample zeroToOne).toOption.map
      (fun _ => ()) = some () by decide +kernel)
  obtain ⟨box', hbox', hpropagate⟩ := bind_eq_ok.1 houtput
  obtain rfl : box' = box := Except.ok.inj (hbox'.symm.trans hbox)
  refine ⟨⟨box', output, hrelease, hlower, hupper, ?_,
    outputBoxIn_eq_ok.2 ⟨box', hrelease, hpropagate⟩, hpropagate⟩, ?_⟩
  · rw [Box.surrounds_iff, hlower, hupper]
    decide
  · exact inputBoxIn_eq_none_iff.2 ⟨rfl, by decide, by decide,
      Box.cornerFault?_eq_none_iff.1 (by decide)⟩

end Settings

end BoxCert
