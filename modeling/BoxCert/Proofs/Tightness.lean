import BoxCert.Proofs.Certification
import BoxCert.Proofs.Interval.Integer
import BoxCert.Proofs.Rows

/-!
# Bounds that are attained

Bounds that enclose may still be wider than they have to be. On integers that
are small enough together they are not: nothing is rounded on the way, and the
split by sign takes each weight to the end of its component where the row is
least or greatest. Each bound is then the value of the row at a corner of the
box, and the least or greatest value that the row has on the box at all.
-/

namespace BoxCert

open Binary64

namespace Interval

open IntervalMatrix (dot)

/-! ## A row on integers -/

section Row

variable {n : Nat} {w x first second : Fin n → Int} {c : Int}
  {row column column' : List Interval} {b : Interval}

/-- The corner of a box to which a row is drawn: the first end of a component
under a nonnegative weight, the second end under a negative one. -/
def corner (w first second : Fin n → Int) (k : Fin n) : Int :=
  if 0 ≤ w k then first k else second k

theorem corner_eq_or (w first second : Fin n → Int) (k : Fin n) :
    corner w first second k = first k ∨
      corner w first second k = second k := by
  unfold corner
  split
  · exact .inl rfl
  · exact .inr rfl

theorem parts_mul_corner (k : Fin n) :
    max (w k) 0 * first k + min (w k) 0 * second k =
      w k * corner w first second k := by
  unfold corner
  split
  · next hpos => rw [max_eq_left hpos, min_eq_right hpos, zero_mul, add_zero]
  · next hneg =>
      have hneg := (not_le.1 hneg).le
      rw [max_eq_right hneg, min_eq_left hneg, zero_mul, zero_add]

theorem abs_parts_mul_le (k : Fin n) :
    |max (w k) 0 * first k| + |min (w k) 0 * second k| ≤
      |w k| * max |first k| |second k| := by
  rcases le_total 0 (w k) with hpos | hneg
  · rw [max_eq_left hpos, min_eq_right hpos, zero_mul, abs_zero, add_zero,
      abs_mul]
    exact mul_le_mul_of_nonneg_left (le_max_left _ _) (abs_nonneg _)
  · rw [max_eq_right hneg, min_eq_left hneg, zero_mul, abs_zero, zero_add,
      abs_mul]
    exact mul_le_mul_of_nonneg_left (le_max_right _ _) (abs_nonneg _)

theorem dot_eq_point (hrow : List.Forall₂ IsInteger row (List.ofFn w))
    (hcolumn : List.Forall₂ IsInteger column (List.ofFn x))
    (hsmall : ∑ k, |w k * x k| ≤ 2 ^ 53) :
    dot row column = point (ofInt (∑ k, w k * x k)) := by
  have hdot := foldl_mul_eq_point (s := 0) hrow hcolumn (by
    rwa [zipWith_ofFn, List.map_ofFn, List.sum_ofFn, abs_zero, zero_add])
  rwa [ofInt_zero, zipWith_ofFn, List.sum_ofFn, zero_add] at hdot

theorem forall₂_map_ofFn {part : Interval → Interval} {f : Int → Int}
    (hpart : ∀ {a m}, IsInteger a m → IsInteger (part a) (f m))
    (hrow : List.Forall₂ IsInteger row (List.ofFn w)) :
    List.Forall₂ IsInteger (row.map part) (List.ofFn fun k => f (w k)) := by
  rw [List.forall₂_map_left_iff, ← Function.comp_def, ← List.map_ofFn,
    List.forall₂_map_right_iff]
  exact hrow.imp fun _ _ => hpart

/-- A row split by sign takes the value of the row at its corner, if the
magnitudes of all products and of the bias fit the bound together. -/
theorem splitDot_add_eq_point
    (hrow : List.Forall₂ IsInteger row (List.ofFn w))
    (hfirst : List.Forall₂ IsInteger column (List.ofFn first))
    (hsecond : List.Forall₂ IsInteger column' (List.ofFn second))
    (hb : b.IsInteger c)
    (hsmall : |c| + ∑ k, |w k| * max |first k| |second k| ≤ 2 ^ 53) :
    ∃ z : Binary64, z.IsInteger (∑ k, w k * corner w first second k + c) ∧
      splitDot row column column' + b = point z := by
  have hparts : ∑ k, |max (w k) 0 * first k| + ∑ k, |min (w k) 0 * second k| ≤
      ∑ k, |w k| * max |first k| |second k| := by
    rw [← Finset.sum_add_distrib]
    exact Finset.sum_le_sum fun k _ => abs_parts_mul_le k
  have hpos := Finset.abs_sum_le_sum_abs (fun k => max (w k) 0 * first k)
    Finset.univ
  have hneg := Finset.abs_sum_le_sum_abs (fun k => min (w k) 0 * second k)
    Finset.univ
  have hsum : ∑ k, max (w k) 0 * first k + ∑ k, min (w k) 0 * second k =
      ∑ k, w k * corner w first second k := by
    rw [← Finset.sum_add_distrib]
    exact Finset.sum_congr rfl fun k _ => parts_mul_corner k
  have htriangle := abs_add_le (∑ k, max (w k) 0 * first k)
    (∑ k, min (w k) 0 * second k)
  have htriangle' := abs_add_le
    (∑ k, max (w k) 0 * first k + ∑ k, min (w k) 0 * second k) c
  have hc := abs_nonneg c
  have hpos' := abs_nonneg (∑ k, max (w k) 0 * first k)
  have hneg' := abs_nonneg (∑ k, min (w k) 0 * second k)
  rw [← hsum]
  refine ⟨_, isInteger_ofInt (by omega), ?_⟩
  rw [splitDot,
    dot_eq_point (forall₂_map_ofFn IsInteger.positivePart hrow) hfirst
      (by omega),
    dot_eq_point (forall₂_map_ofFn IsInteger.negativePart hrow) hsecond
      (by omega),
    add_eq_point (by omega) (isInteger_point (by omega)) (by omega),
    add_eq_point (by omega) hb (by omega)]

/-- On a box between the two ends, no value of the row is below the one at its
corner. -/
theorem corner_mul_le {y : Fin n → ℝ} {k : Fin n} (hfirst : first k ≤ y k)
    (hsecond : y k ≤ second k) :
    (w k : ℝ) * corner w first second k ≤ w k * y k := by
  unfold corner
  split
  · next hpos => exact mul_le_mul_of_nonneg_left hfirst (Int.cast_nonneg hpos)
  · next hneg =>
      exact mul_le_mul_of_nonpos_left hsecond
        (Int.cast_nonpos.2 (not_le.1 hneg).le)

theorem le_corner_mul {y : Fin n → ℝ} {k : Fin n} (hfirst : y k ≤ first k)
    (hsecond : second k ≤ y k) :
    w k * y k ≤ (w k : ℝ) * corner w first second k := by
  unfold corner
  split
  · next hpos => exact mul_le_mul_of_nonneg_left hfirst (Int.cast_nonneg hpos)
  · next hneg =>
      exact mul_le_mul_of_nonpos_left hsecond
        (Int.cast_nonpos.2 (not_le.1 hneg).le)

end Row

/-! ## Columns of integers -/

section Column

variable {n : Nat} {z : Fin n → Int} {points : List Binary64} {t : Binary64}

/-- Numbers with integer values and a tolerance of zero are exact cells. -/
theorem forall₂_around (hlength : points.length = n)
    (hfinite : ∀ p ∈ points, p.isFinite = true) (ht : t.isZero = true)
    (hz : ∀ (k : Fin n) p, points[k.val]? = some p → p.toReal = z k) :
    List.Forall₂ IsInteger (points.map (around · t)) (List.ofFn z) := by
  rw [List.forall₂_map_left_iff]
  refine forall₂_ofFn hlength fun k p hp => isInteger_around ?_ ht
  exact isInteger_iff.2 ⟨hfinite p (List.mem_of_getElem? hp), hz k p hp⟩

end Column

end Interval

/-! ## The box between integer ends -/

open BoxCert.Interval (corner corner_eq_or corner_mul_le le_corner_mul
  forall₂_around splitDot_add_eq_point)

/-- Whether the ends of a box are these integers. -/
structure Box.IsIntegral {n : Nat} (box : Box) (lo up : Fin n → Int) :
    Prop where
  lower : List.Forall₂ Interval.IsInteger box.lower.cells (List.ofFn lo)
  upper : List.Forall₂ Interval.IsInteger box.upper.cells (List.ofFn up)
  le : ∀ k, lo k ≤ up k

/-- The values of an affine form with integer coefficients on a box. -/
def valuesOn {n : Nat} (box : Box) (w : Fin n → Int) (c : Int) : Set ℝ :=
  {r | ∃ y : Fin n → ℝ, box.Encloses y ∧ r = ∑ k, w k * y k + c}

/-- Whether a number is the value of the form at a vertex of the box between
two corners: each component at one of its ends. -/
structure IsVertexValue {n : Nat} (x : Binary64) (w lo up : Fin n → Int)
    (c : Int) : Prop where
  isFinite : x.isFinite = true
  vertex : ∃ v : Fin n → Int, (∀ k, v k = lo k ∨ v k = up k) ∧
    x.toReal = ∑ k, (w k : ℝ) * v k + c

section Values

variable {n : Nat} {w lo up : Fin n → Int} {c : Int} {box : Box} {x : Binary64}

theorem Box.isIntegral_of_ofPoints {lower upper : List Binary64} {t : Binary64}
    (ht : t.isZero = true) (hbox : Box.ofPoints lower upper t = .ok box)
    (hdim : box.dim = n)
    (hlo : ∀ (k : Fin n) p, lower[k.val]? = some p → p.toReal = lo k)
    (hup : ∀ (k : Fin n) p, upper[k.val]? = some p → p.toReal = up k) :
    box.IsIntegral lo up := by
  obtain ⟨hlength, heq, haccepted, hfinite⟩ := Box.ofPoints_eq_ok hbox
  have hlower : List.Forall₂ Interval.IsInteger box.lower.cells
      (List.ofFn lo) := by
    rw [← haccepted.length_lower, heq] at hdim
    rw [heq]
    exact forall₂_around ((List.length_map _).symm.trans hdim)
      (fun p hp => hfinite p (List.mem_append_left _ hp)) ht hlo
  have hupper : List.Forall₂ Interval.IsInteger box.upper.cells
      (List.ofFn up) := by
    rw [← haccepted.length_upper, heq] at hdim
    rw [heq]
    exact forall₂_around ((List.length_map _).symm.trans hdim)
      (fun p hp => hfinite p (List.mem_append_right _ hp)) ht hup
  refine ⟨hlower, hupper, fun k => ?_⟩
  obtain ⟨a, ha, hlo⟩ := exists_of_forall₂_ofFn hlower k
  obtain ⟨b, hb, hup⟩ := exists_of_forall₂_ofFn hupper k
  have hle := (le_iff.1 (haccepted.inf_le_sup ha hb)).2.2
  rwa [hlo.inf.toEReal_eq, hup.sup.toEReal_eq, EReal.coe_le_coe_iff,
    Int.cast_le] at hle

theorem Box.IsIntegral.encloses_iff (hbox : box.IsIntegral lo up)
    {y : Fin n → ℝ} :
    box.Encloses y ↔ ∀ k, (lo k : ℝ) ≤ y k ∧ y k ≤ up k := by
  constructor
  · intro h k
    obtain ⟨a, ha, hlo⟩ := exists_of_forall₂_ofFn hbox.lower k
    obtain ⟨b, hb, hup⟩ := exists_of_forall₂_ofFn hbox.upper k
    rw [← EReal.coe_le_coe_iff, ← EReal.coe_le_coe_iff, ← hlo.inf.toEReal_eq,
      ← hup.sup.toEReal_eq]
    exact ⟨h.lower_le k a ha, h.le_upper k b hb⟩
  · refine fun h => ⟨fun k a ha => ?_, fun k b hb => ?_⟩
    · rw [(of_forall₂_ofFn hbox.lower ha).inf.toEReal_eq,
        EReal.coe_le_coe_iff]
      exact (h k).1
    · rw [(of_forall₂_ofFn hbox.upper hb).sup.toEReal_eq,
        EReal.coe_le_coe_iff]
      exact (h k).2

/-- A point that has one of the two ends in each component lies in the box. -/
theorem Box.IsIntegral.encloses_vertex (hbox : box.IsIntegral lo up)
    {v : Fin n → Int} (hv : ∀ k, v k = lo k ∨ v k = up k) :
    box.Encloses fun k => (v k : ℝ) := by
  refine hbox.encloses_iff.2 fun k => ?_
  have hle : (lo k : ℝ) ≤ up k := Int.cast_le.2 (hbox.le k)
  rcases hv k with h | h
  · rw [h]
    exact ⟨le_rfl, hle⟩
  · rw [h]
    exact ⟨hle, le_rfl⟩

theorem toReal_corner {first second : Fin n → Int}
    (hx : x.IsInteger (∑ k, w k * corner w first second k + c)) :
    x.toReal = ∑ k, (w k : ℝ) * corner w first second k + c := by
  rw [hx.toReal_eq]
  push_cast
  rfl

theorem Box.IsIntegral.isLeast (hbox : box.IsIntegral lo up)
    (hx : x.IsInteger (∑ k, w k * corner w lo up k + c)) :
    IsVertexValue x w lo up c ∧ IsLeast (valuesOn box w c) x.toReal := by
  have hval := toReal_corner hx
  have hvertex := corner_eq_or w lo up
  refine ⟨⟨isFinite_of_units hx, _, hvertex, hval⟩,
    ⟨_, hbox.encloses_vertex hvertex, hval⟩, ?_⟩
  rintro r ⟨y, hy, rfl⟩
  have hy := hbox.encloses_iff.1 hy
  rw [hval]
  gcongr ?_ + c
  exact Finset.sum_le_sum fun k _ => corner_mul_le (hy k).1 (hy k).2

theorem Box.IsIntegral.isGreatest (hbox : box.IsIntegral lo up)
    (hx : x.IsInteger (∑ k, w k * corner w up lo k + c)) :
    IsVertexValue x w lo up c ∧ IsGreatest (valuesOn box w c) x.toReal := by
  have hval := toReal_corner hx
  have hvertex := fun k => (corner_eq_or w up lo k).symm
  refine ⟨⟨isFinite_of_units hx, _, hvertex, hval⟩,
    ⟨_, hbox.encloses_vertex hvertex, hval⟩, ?_⟩
  rintro r ⟨y, hy, rfl⟩
  have hy := hbox.encloses_iff.1 hy
  rw [hval]
  gcongr ?_ + c
  exact Finset.sum_le_sum fun k _ => le_corner_mul (hy k).2 (hy k).1

end Values

/-! ## A layer on integers -/

namespace Layer

variable {l : Layer} {box : Box}

/-- Whether the parameters of a layer are these integers, without a
tolerance. -/
structure IsIntegral (l : Layer) (W : Fin l.outputs → Fin l.inputs → Int)
    (c : Fin l.outputs → Int) : Prop where
  tolerance : l.tolerance.isZero = true
  weight : ∀ (i : Fin l.outputs) (k : Fin l.inputs) p,
    l.weightPoints.cell? i k = some p → p.toReal = W i k
  bias : ∀ (i : Fin l.outputs) p, l.biasPoints[i.val]? = some p →
    p.toReal = c i

section Integral

variable {W : Fin l.outputs → Fin l.inputs → Int} {c : Fin l.outputs → Int}

theorem IsIntegral.row (h : l.IsIntegral W c) (i : Fin l.outputs) :
    List.Forall₂ Interval.IsInteger (l.weight.row i) (List.ofFn (W i)) := by
  rw [Layer.weight, Grid.row_map]
  refine forall₂_around (Grid.length_row i.isLt) (fun p hp => ?_) h.tolerance
    fun k p hp => h.weight i k p (by rwa [← Grid.getElem?_row])
  exact l.finite p (List.mem_append_left _ (Grid.mem_of_mem_row hp))

theorem IsIntegral.bias_isInteger (h : l.IsIntegral W c) {i : Fin l.outputs}
    {b : Interval} (hb : l.bias.cells[i.val]? = some b) :
    b.IsInteger (c i) := by
  have hmap : l.bias.cells = l.biasPoints.map (.around · l.tolerance) := rfl
  rw [hmap, List.getElem?_map, Option.map_eq_some_iff] at hb
  obtain ⟨p, hp, rfl⟩ := hb
  refine Interval.isInteger_around (isInteger_iff.2 ⟨?_, h.bias i p hp⟩)
    h.tolerance
  exact l.finite p (List.mem_append_right _ (List.mem_of_getElem? hp))

/-- The two bounds of an output are the values of its row at two corners. -/
theorem image_eq_points {lo up : Fin l.inputs → Int} (h : l.IsIntegral W c)
    (hbox : box.IsIntegral lo up) {i : Fin l.outputs}
    (hsmall : |c i| + ∑ k, |W i k| * max |lo k| |up k| ≤ 2 ^ 53) :
    ∃ low high : Binary64,
      low.IsInteger (∑ k, W i k * corner (W i) lo up k + c i) ∧
      high.IsInteger (∑ k, W i k * corner (W i) up lo k + c i) ∧
      (l.image box).lower.cell? i 0 = some (.point low) ∧
      (l.image box).upper.cell? i 0 = some (.point high) := by
  obtain ⟨b, hb⟩ := exists_bias i.isLt
  have hbias := h.bias_isInteger hb
  have hsmall' : |c i| + ∑ k, |W i k| * max |up k| |lo k| ≤ 2 ^ 53 := by
    simpa only [max_comm] using hsmall
  obtain ⟨low, hlow, hlowval⟩ := splitDot_add_eq_point (h.row i) hbox.lower
    hbox.upper hbias hsmall
  obtain ⟨high, hhigh, hhighval⟩ := splitDot_add_eq_point (h.row i) hbox.upper
    hbox.lower hbias hsmall'
  refine ⟨low, high, hlow, hhigh, ?_, ?_⟩
  · rw [← hlowval, ← getElem?_bounds hb]
    exact Grid.cell?_of_isColumn rfl i
  · rw [← hhighval, ← getElem?_bounds hb]
    exact Grid.cell?_of_isColumn rfl i

/-- Propagation is exact where arithmetic is. With tolerances of zero, integer
parameters and integer corners whose magnitudes fit `2 ^ 53` for each output,
the bounds of an output are points: the least and the greatest value of the
output over all real points of the box, each of them its value at a vertex. -/
theorem propagate_tight (h : l.IsIntegral W c) {lower upper : List Binary64}
    {t : Binary64} (ht : t.isZero = true)
    (hbox : Box.ofPoints lower upper t = .ok box)
    (hdim : box.dim = l.inputs) {lo up : Fin l.inputs → Int}
    (hlo : ∀ (k : Fin l.inputs) p, lower[k.val]? = some p → p.toReal = lo k)
    (hup : ∀ (k : Fin l.inputs) p, upper[k.val]? = some p → p.toReal = up k)
    (hsmall : ∀ i, |c i| + ∑ k, |W i k| * max |lo k| |up k| ≤ 2 ^ 53) :
    ∃ out, l.propagate box = .ok out ∧ out.dim = l.outputs ∧
      ∀ i : Fin l.outputs, ∃ low high,
        out.lower.cell? i 0 = some (.point low) ∧
        out.upper.cell? i 0 = some (.point high) ∧
        IsVertexValue low (W i) lo up (c i) ∧
        IsVertexValue high (W i) lo up (c i) ∧
        IsLeast (valuesOn box (W i) (c i)) low.toReal ∧
        IsGreatest (valuesOn box (W i) (c i)) high.toReal := by
  have hproper := Box.proper_of_ofPoints
    (isNan_of_units (isInteger_of_isZero ht)) (toEReal_of_isZero ht).ge hbox
  have hintegral := Box.isIntegral_of_ofPoints ht hbox hdim hlo hup
  refine ⟨_, propagate_eq_ok hproper hdim, dim_image _ _, fun i => ?_⟩
  obtain ⟨low, high, hlow, hhigh, hlowcell, hhighcell⟩ :=
    image_eq_points h hintegral (hsmall i)
  obtain ⟨hlowvertex, hleast⟩ := hintegral.isLeast hlow
  obtain ⟨hhighvertex, hgreatest⟩ := hintegral.isGreatest hhigh
  exact ⟨low, high, hlowcell, hhighcell, hlowvertex, hhighvertex, hleast,
    hgreatest⟩

end Integral

def mixedWeight : Fin 2 → Fin 2 → Int := ![![3, -2], ![-1, 4]]

def mixedBias : Fin 2 → Int := ![1, -8]

theorem mixed_isIntegral : mixed.IsIntegral mixedWeight mixedBias := by
  have hweight : ∀ i k : Fin 2, ∀ p ∈ mixed.weightPoints.cell? i k,
      p.units? = some (mixedWeight i k * oneUnits) := by decide +kernel
  have hbias : ∀ i : Fin 2, ∀ p ∈ mixed.biasPoints[i.val]?,
      p.units? = some (mixedBias i * oneUnits) := by decide +kernel
  exact ⟨rfl, fun i k p hp => IsInteger.toReal_eq (hweight i k p hp),
    fun i p hp => IsInteger.toReal_eq (hbias i p hp)⟩

/-- The first score is three times the one input less twice the other plus one.
On a rectangle it is least at one corner and greatest at the opposite one. -/
theorem propagate_tight_mixed :
    mixed.IsIntegral mixedWeight mixedBias ∧
    ∃ box out low high,
      Box.ofPoints [-1, 0] [ofBits 0x4000000000000000, 1] 0 = .ok box ∧
      mixed.propagate box = .ok out ∧
      out.lower.cell? 0 0 = some (.point low) ∧
      out.upper.cell? 0 0 = some (.point high) ∧
      IsLeast (valuesOn box (mixedWeight 0) 1) low.toReal ∧
      IsGreatest (valuesOn box (mixedWeight 0) 1) high.toReal := by
  have hlo : ∀ k : Fin 2, ∀ p ∈ ([-1, 0] : List Binary64)[k.val]?,
      p.units? = some ((![-1, 0] : Fin 2 → Int) k * oneUnits) := by
    decide +kernel
  have hup : ∀ k : Fin 2,
      ∀ p ∈ ([ofBits 0x4000000000000000, 1] : List Binary64)[k.val]?,
      p.units? = some ((![2, 1] : Fin 2 → Int) k * oneUnits) := by
    decide +kernel
  obtain ⟨box, hbox, hdim⟩ := exists_ok_of_toOption
    (show (Box.ofPoints [-1, 0] [ofBits 0x4000000000000000, 1] 0).toOption.map
      (fun box => decide (box.dim = 2)) = some true by decide +kernel)
  obtain ⟨out, hout, -, hbounds⟩ := propagate_tight mixed_isIntegral rfl hbox
    (of_decide_eq_true hdim) (fun k p hp => IsInteger.toReal_eq (hlo k p hp))
    (fun k p hp => IsInteger.toReal_eq (hup k p hp)) (by decide)
  obtain ⟨low, high, hlow, hhigh, -, -, hleast, hgreatest⟩ :=
    hbounds (0 : Fin 2)
  exact ⟨mixed_isIntegral, box, out, low, high, hbox, hout, hlow, hhigh, hleast,
    hgreatest⟩

end Layer

end BoxCert
