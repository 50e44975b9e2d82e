import BoxCert.Interval.Matrix
import BoxCert.Proofs.Interval.Enclosure
import BoxCert.Proofs.Number.SumSign

/-!
# Linear forms

A row of intervals against a column is a sum of products from left to right,
so what is proved of one addition is carried along the list. Which additions
are made, and with which operands, is data here: `additions` lists them, and
that none of them spills is the one condition under which a sum encloses.

A row is split by sign before it meets a box. The split form is bounded from
below by the lower ends against the positive part and the upper ends against
the negative part, and that is the shape both of an affine row and of a lead.
-/

namespace BoxCert.Interval

open IntervalMatrix (dot)
open Binary64

variable {a b acc : Interval} {items row column first second : List Interval}

/-! ## Sums -/

/-- The operands of the additions that sum a list from left to right. -/
def additions (acc : Interval) : List Interval → List (Interval × Interval)
  | [] => []
  | a :: rest => (acc, a) :: additions (acc + a) rest

/-- Whether none of the additions spills. -/
def SpillFree (pairs : List (Interval × Interval)) : Prop :=
  ∀ pair ∈ pairs, spills pair.1 pair.2 = false

instance (pairs : List (Interval × Interval)) : Decidable (SpillFree pairs) :=
  inferInstanceAs (Decidable (∀ pair ∈ pairs, spills pair.1 pair.2 = false))

theorem SpillFree.append {pairs pairs' : List (Interval × Interval)} :
    SpillFree (pairs ++ pairs') ↔ SpillFree pairs ∧ SpillFree pairs' :=
  List.forall_mem_append

/-- Additions spill only if a right-hand operand has a largest number as an
end. -/
theorem spillFree_of_ne_greatest {pairs : List (Interval × Interval)}
    (h : ∀ pair ∈ pairs, pair.2.inf.abs ≠ greatest false ∧
      pair.2.sup.abs ≠ greatest false) : SpillFree pairs := by
  intro pair hp
  obtain ⟨hinf, hsup⟩ := h pair hp
  rw [spills, spillsBelow, spillsAbove, sumSpills_eq_false hinf,
    sumSpills_eq_false hsup]
  rfl

theorem foldl_add_mem {z : EReal} {xs : List EReal} (hz : z ∈ acc)
    (hxs : List.Forall₂ (· ∈ ·) xs items)
    (h : SpillFree (additions acc items)) :
    z + xs.sum ∈ items.foldl (· + ·) acc := by
  induction hxs generalizing z acc with
  | nil => rwa [List.sum_nil, add_zero]
  | cons hx _ ih =>
      obtain ⟨hhead, htail⟩ := List.forall_mem_cons.1 h
      rw [List.sum_cons, ← add_assoc]
      exact ih (add_mem hz hx hhead) htail

theorem sum_mem {xs : List EReal} (hxs : List.Forall₂ (· ∈ ·) xs items)
    (h : SpillFree (additions 0 items)) : xs.sum ∈ sum items := by
  have := foldl_add_mem zero_mem hxs h
  rwa [zero_add] at this

theorem foldl_add_inf_le_sup {items' : List Interval} {acc' : Interval}
    (hacc : acc.inf ≤ acc'.sup)
    (h : List.Forall₂ (fun a b : Interval => a.inf ≤ b.sup) items items') :
    (items.foldl (· + ·) acc).inf ≤ (items'.foldl (· + ·) acc').sup := by
  induction h generalizing acc acc' with
  | nil => exact hacc
  | cons hab _ ih => exact ih (add_inf_le_sup hacc hab)

/-- Sums of lists keep the order of their items, spilled or not. -/
theorem sum_inf_le_sup {items' : List Interval}
    (h : List.Forall₂ (fun a b : Interval => a.inf ≤ b.sup) items items') :
    (sum items).inf ≤ (sum items').sup :=
  foldl_add_inf_le_sup (by decide) h

/-! ## Scalar products -/

/-- The operands of the additions of a scalar product. -/
def dotAdditions (row column : List Interval) : List (Interval × Interval) :=
  additions 0 (List.zipWith (· * ·) row column)

theorem forall₂_mul_mem {ws xs : List EReal}
    (hrow : List.Forall₂ (· ∈ ·) ws row)
    (hcolumn : List.Forall₂ (· ∈ ·) xs column) :
    List.Forall₂ (· ∈ ·) (List.zipWith (· * ·) ws xs)
      (List.zipWith (· * ·) row column) := by
  induction hrow generalizing xs column with
  | nil => exact .nil
  | cons hw _ ih =>
      cases hcolumn with
      | nil => exact .nil
      | cons hx hxs => exact .cons (mul_mem hw hx) (ih hxs)

theorem dot_mem {ws xs : List EReal} (hrow : List.Forall₂ (· ∈ ·) ws row)
    (hcolumn : List.Forall₂ (· ∈ ·) xs column)
    (h : SpillFree (dotAdditions row column)) :
    (List.zipWith (· * ·) ws xs).sum ∈ dot row column :=
  sum_mem (forall₂_mul_mem hrow hcolumn) h

/-! ## Rows split by sign -/

/-- The positive part of a row against one column plus its negative part
against another. -/
def splitDot (row first second : List Interval) : Interval :=
  dot (row.map positivePart) first + dot (row.map negativePart) second

def splitAdditions (row first second : List Interval) :
    List (Interval × Interval) :=
  dotAdditions (row.map positivePart) first ++
    dotAdditions (row.map negativePart) second ++
    [(dot (row.map positivePart) first, dot (row.map negativePart) second)]

theorem spillFree_splitAdditions {first second : List Interval} :
    SpillFree (splitAdditions row first second) ↔
      (SpillFree (dotAdditions (row.map positivePart) first) ∧
        SpillFree (dotAdditions (row.map negativePart) second)) ∧
      spills (dot (row.map positivePart) first)
        (dot (row.map negativePart) second) = false := by
  rw [splitAdditions, SpillFree.append, SpillFree.append]
  exact and_congr_right fun _ => List.forall_mem_singleton

theorem splitDot_mem {ws xs ys : List EReal}
    (hrow : List.Forall₂ (· ∈ ·) ws row)
    (hfirst : List.Forall₂ (· ∈ ·) xs first)
    (hsecond : List.Forall₂ (· ∈ ·) ys second)
    (h : SpillFree (splitAdditions row first second)) :
    (List.zipWith (· * ·) (ws.map (max · 0)) xs).sum +
        (List.zipWith (· * ·) (ws.map (min · 0)) ys).sum ∈
      splitDot row first second := by
  obtain ⟨⟨hpositive, hnegative⟩, hlast⟩ := spillFree_splitAdditions.1 h
  have hpos : List.Forall₂ (· ∈ ·) (ws.map (max · 0))
      (row.map positivePart) := by
    rw [List.forall₂_map_left_iff, List.forall₂_map_right_iff]
    exact hrow.imp fun _ _ hw => max_mem_positivePart hw
  have hneg : List.Forall₂ (· ∈ ·) (ws.map (min · 0))
      (row.map negativePart) := by
    rw [List.forall₂_map_left_iff, List.forall₂_map_right_iff]
    exact hrow.imp fun _ _ hw => min_mem_negativePart hw
  exact add_mem (dot_mem hpos hfirst hpositive) (dot_mem hneg hsecond hnegative)
    hlast

theorem parts_mul (w x : ℝ) :
    max (w : EReal) 0 * x + min (w : EReal) 0 * x = ((w * x : ℝ) : EReal) := by
  rcases le_total 0 w with h | h
  · have h' : (0 : EReal) ≤ w := EReal.coe_nonneg.2 h
    rw [max_eq_left h', min_eq_right h', zero_mul, add_zero, EReal.coe_mul]
  · have h' : (w : EReal) ≤ 0 := EReal.coe_nonpos.2 h
    rw [max_eq_right h', min_eq_left h', zero_mul, zero_add, EReal.coe_mul]

theorem parts_le {w x : ℝ} {l u : EReal} (hl : l ≤ x) (hu : x ≤ u) :
    max (w : EReal) 0 * l + min (w : EReal) 0 * u ≤ ((w * x : ℝ) : EReal) := by
  rw [← parts_mul]
  refine add_le_add ?_ ?_
  · exact mul_le_mul_of_nonneg_left hl (le_max_right _ _)
  · rw [mul_comm, mul_comm _ (x : EReal)]
    exact EReal.mul_le_mul_of_nonpos_right hu (min_le_right _ _)

theorem le_parts {w x : ℝ} {l u : EReal} (hl : l ≤ x) (hu : x ≤ u) :
    ((w * x : ℝ) : EReal) ≤ max (w : EReal) 0 * u + min (w : EReal) 0 * l := by
  rw [← parts_mul]
  refine add_le_add ?_ ?_
  · exact mul_le_mul_of_nonneg_left hu (le_max_right _ _)
  · rw [mul_comm, mul_comm _ l]
    exact EReal.mul_le_mul_of_nonpos_right hl (min_le_right _ _)

/-- Lower ends against the positive part and upper ends against the negative
part: the least value of a row on a box. -/
theorem split_sum_le {ws xs : List ℝ} {ls us : List EReal}
    (hl : List.Forall₂ (fun (l : EReal) (x : ℝ) => l ≤ x) ls xs)
    (hu : List.Forall₂ (fun (u : EReal) (x : ℝ) => x ≤ u) us xs) :
    (List.zipWith (· * ·) ((ws.map Real.toEReal).map (max · 0)) ls).sum +
        (List.zipWith (· * ·) ((ws.map Real.toEReal).map (min · 0)) us).sum ≤
      ((List.zipWith (· * ·) ws xs).sum : ℝ) := by
  induction ws generalizing xs ls us with
  | nil => simp
  | cons w ws ih =>
      cases hl with
      | nil => cases hu; simp
      | @cons l x ls xs hlx hls =>
          cases hu with
          | @cons u _ us _ hux hus =>
              simp only [List.map_cons, List.zipWith_cons_cons, List.sum_cons]
              rw [add_add_add_comm, EReal.coe_add]
              exact add_le_add (parts_le hlx hux) (ih hls hus)

theorem le_split_sum {ws xs : List ℝ} {ls us : List EReal}
    (hl : List.Forall₂ (fun (l : EReal) (x : ℝ) => l ≤ x) ls xs)
    (hu : List.Forall₂ (fun (u : EReal) (x : ℝ) => x ≤ u) us xs) :
    ((List.zipWith (· * ·) ws xs).sum : ℝ) ≤
      (List.zipWith (· * ·) ((ws.map Real.toEReal).map (max · 0)) us).sum +
        (List.zipWith (· * ·) ((ws.map Real.toEReal).map (min · 0)) ls).sum := by
  induction ws generalizing xs ls us with
  | nil => simp
  | cons w ws ih =>
      cases hl with
      | nil => cases hu; simp
      | @cons l x ls xs hlx hls =>
          cases hu with
          | @cons u _ us _ hux hus =>
              simp only [List.map_cons, List.zipWith_cons_cons, List.sum_cons]
              rw [add_add_add_comm, EReal.coe_add]
              exact add_le_add (le_parts hlx hux) (ih hls hus)

theorem forall₂_inf_mem (h : ∀ a ∈ items, a.inf ≤ a.sup) :
    List.Forall₂ (· ∈ ·) (items.map fun a => a.inf.toEReal) items := by
  rw [List.forall₂_map_left_iff]
  exact List.forall₂_same.2 fun a ha => inf_mem (h a ha)

theorem forall₂_sup_mem (h : ∀ a ∈ items, a.inf ≤ a.sup) :
    List.Forall₂ (· ∈ ·) (items.map fun a => a.sup.toEReal) items := by
  rw [List.forall₂_map_left_iff]
  exact List.forall₂_same.2 fun a ha => sup_mem (h a ha)

section Bounds

variable {lower upper : List Interval} {ws xs : List ℝ}
  (hlower : ∀ a ∈ lower, a.inf ≤ a.sup) (hupper : ∀ a ∈ upper, a.inf ≤ a.sup)

include hlower hupper

/-- A split row with the lower ends first is a lower bound on the box. -/
theorem exists_mem_splitDot_le
    (hrow : List.Forall₂ (· ∈ ·) (ws.map Real.toEReal) row)
    (hl : List.Forall₂ (fun (a : Interval) (x : ℝ) =>
      a.inf.toEReal ≤ x) lower xs)
    (hu : List.Forall₂ (fun (a : Interval) (x : ℝ) =>
      x ≤ a.sup.toEReal) upper xs)
    (h : SpillFree (splitAdditions row lower upper)) :
    ∃ z ∈ splitDot row lower upper,
      z ≤ ((List.zipWith (· * ·) ws xs).sum : ℝ) :=
  ⟨_, splitDot_mem hrow (forall₂_inf_mem hlower) (forall₂_sup_mem hupper) h,
    split_sum_le (List.forall₂_map_left_iff.2 hl)
      (List.forall₂_map_left_iff.2 hu)⟩

theorem exists_mem_splitDot_ge
    (hrow : List.Forall₂ (· ∈ ·) (ws.map Real.toEReal) row)
    (hl : List.Forall₂ (fun (a : Interval) (x : ℝ) =>
      a.inf.toEReal ≤ x) lower xs)
    (hu : List.Forall₂ (fun (a : Interval) (x : ℝ) =>
      x ≤ a.sup.toEReal) upper xs)
    (h : SpillFree (splitAdditions row upper lower)) :
    ∃ z ∈ splitDot row upper lower,
      ((List.zipWith (· * ·) ws xs).sum : ℝ) ≤ z :=
  ⟨_, splitDot_mem hrow (forall₂_sup_mem hupper) (forall₂_inf_mem hlower) h,
    le_split_sum (List.forall₂_map_left_iff.2 hl)
      (List.forall₂_map_left_iff.2 hu)⟩

end Bounds

/-! ## Order -/

section Order

variable {l u : Interval}

theorem positivePart_mul_le (ha : a.inf ≤ a.sup) (hl : l.inf ≤ l.sup)
    (hu : u.inf ≤ u.sup) (hlu : l.inf ≤ u.sup) :
    (a.positivePart * l).inf ≤ (a.positivePart * u).sup := by
  have hw := max_mem_positivePart (inf_mem ha)
  have hlow := mul_mem hw (inf_mem hl)
  have hhigh := mul_mem hw (sup_mem hu)
  refine le_iff.2 ⟨hlow.inf_isNan, hhigh.sup_isNan, ?_⟩
  calc (a.positivePart * l).inf.toEReal
    _ ≤ max a.inf.toEReal 0 * l.inf.toEReal := hlow.inf_le
    _ ≤ max a.inf.toEReal 0 * u.sup.toEReal :=
        mul_le_mul_of_nonneg_left (le_iff.1 hlu).2.2 (le_max_right _ _)
    _ ≤ (a.positivePart * u).sup.toEReal := hhigh.le_sup

theorem negativePart_mul_le (ha : a.inf ≤ a.sup) (hl : l.inf ≤ l.sup)
    (hu : u.inf ≤ u.sup) (hlu : l.inf ≤ u.sup) :
    (a.negativePart * u).inf ≤ (a.negativePart * l).sup := by
  have hw := min_mem_negativePart (inf_mem ha)
  have hlow := mul_mem hw (sup_mem hu)
  have hhigh := mul_mem hw (inf_mem hl)
  refine le_iff.2 ⟨hlow.inf_isNan, hhigh.sup_isNan, ?_⟩
  calc (a.negativePart * u).inf.toEReal
    _ ≤ min a.inf.toEReal 0 * u.sup.toEReal := hlow.inf_le
    _ ≤ min a.inf.toEReal 0 * l.inf.toEReal := by
        rw [mul_comm, mul_comm _ l.inf.toEReal]
        exact EReal.mul_le_mul_of_nonpos_right (le_iff.1 hlu).2.2
          (min_le_right _ _)
    _ ≤ (a.negativePart * l).sup.toEReal := hhigh.le_sup

theorem forall₂_zipWith_mul {part : Interval → Interval}
    {R S : Interval → Interval → Prop}
    (hpart : ∀ a ∈ row, ∀ b ∈ first, ∀ c ∈ second,
      (part a, b) ∈ List.zip (row.map part) first → R b c →
      S (part a * b) (part a * c))
    (h : List.Forall₂ R first second) :
    List.Forall₂ S (List.zipWith (· * ·) (row.map part) first)
      (List.zipWith (· * ·) (row.map part) second) := by
  induction h generalizing row with
  | nil => rw [List.zipWith_nil_right]; exact .nil
  | cons hbc _ ih =>
      cases row with
      | nil => exact .nil
      | cons a row =>
          refine .cons (hpart _ List.mem_cons_self _ List.mem_cons_self _
            List.mem_cons_self List.mem_cons_self hbc)
            (ih fun a ha b hb c hc hpair => ?_)
          exact hpart a (List.mem_cons_of_mem _ ha) b
            (List.mem_cons_of_mem _ hb) c (List.mem_cons_of_mem _ hc)
            (List.mem_cons_of_mem _ hpair)

/-- On a box whose ranges are not empty, the lower bound of a split row does
not exceed the upper one, spilled or not. -/
theorem splitDot_inf_le_sup {lower upper : List Interval}
    (hrow : ∀ a ∈ row, a.inf ≤ a.sup) (hlower : ∀ a ∈ lower, a.inf ≤ a.sup)
    (hupper : ∀ a ∈ upper, a.inf ≤ a.sup)
    (hranges : List.Forall₂ (fun a b => a.inf ≤ b.sup) lower upper) :
    (splitDot row lower upper).inf ≤ (splitDot row upper lower).sup := by
  -- A factor that is not negative keeps the order of the columns, one that is
  -- not positive reverses it; the second columns are swapped to make up for it.
  refine add_inf_le_sup (sum_inf_le_sup ?_) (sum_inf_le_sup ?_)
  · exact forall₂_zipWith_mul (fun a ha b hb c hc _ hbc => positivePart_mul_le
      (hrow a ha) (hlower b hb) (hupper c hc) hbc) hranges
  · exact forall₂_zipWith_mul (R := fun b c => c.inf ≤ b.sup)
      (fun a ha b hb c hc _ hbc => negativePart_mul_le (hrow a ha)
        (hlower c hc) (hupper b hb) hbc) (List.Forall₂.flip hranges)

theorem splitDot_proper (hrow : ∀ a ∈ row, a.inf ≤ a.sup)
    (hfirst : ∀ a ∈ first, a.inf ≤ a.sup)
    (hsecond : ∀ a ∈ second, a.inf ≤ a.sup) :
    (splitDot row first second).inf ≤ (splitDot row first second).sup := by
  have hsame : ∀ items : List Interval, List.Forall₂ Eq items items :=
    fun items => List.forall₂_refl items
  refine add_inf_le_sup (sum_inf_le_sup ?_) (sum_inf_le_sup ?_)
  · refine forall₂_zipWith_mul (fun a ha b hb _ _ _ hbc => ?_) (hsame first)
    subst hbc
    exact mul_inf_le_sup (positivePart_inf_le_sup (hrow a ha)) (hfirst b hb)
  · refine forall₂_zipWith_mul (fun a ha b hb _ _ _ hbc => ?_) (hsame second)
    subst hbc
    exact mul_inf_le_sup (negativePart_inf_le_sup (hrow a ha)) (hsecond b hb)

end Order

/-! ## Rows with a single entry -/

/-- Zero annihilates every interval, whatever its ends are. -/
theorem zero_mul_eq (a : Interval) : 0 * a = 0 := by
  have hdown := fun x => mulDown_of_zero (x := 0) (y := x) rfl
  have hup := fun x => mulUp_of_zero (x := 0) (y := x) rfl
  show Interval.mk _ _ = _
  rw [show (0 : Interval).inf = 0 from rfl,
    show (0 : Interval).sup = 0 from rfl]
  simp only [hdown, hup]
  rfl

theorem mul_add_zero (a b : Interval) :
    a * b + 0 = a * b ∧ 0 + a * b = a * b := by
  obtain ⟨⟨hdown, hdown'⟩, -, -⟩ := directed_zero_eq
    (x := (a * b).inf) (unsignedZero_idem _)
  obtain ⟨-, hup, hup'⟩ := directed_zero_eq
    (x := (a * b).sup) (unsignedZero_idem _)
  constructor
  · show Interval.mk _ _ = _
    rw [show (0 : Interval).inf = 0 from rfl,
      show (0 : Interval).sup = 0 from rfl, hdown, hup]
  · show Interval.mk _ _ = _
    rw [show (0 : Interval).inf = 0 from rfl,
      show (0 : Interval).sup = 0 from rfl, hdown', hup']

theorem foldl_add_zeros (hacc : acc + 0 = acc) (h : ∀ a ∈ items, a = 0) :
    items.foldl (· + ·) acc = acc := by
  induction items with
  | nil => rfl
  | cons a rest ih =>
      rw [List.foldl_cons, h a List.mem_cons_self, hacc]
      exact ih fun b hb => h b (List.mem_cons_of_mem _ hb)

theorem sum_eq_of_single {k : Nat} (hk : items[k]? = some a)
    (hzeros : ∀ j b, j ≠ k → items[j]? = some b → b = 0)
    (hadd : a + 0 = a ∧ 0 + a = a) : sum items = a := by
  induction items generalizing k with
  | nil => cases hk
  | cons b rest ih =>
      cases k with
      | zero =>
          cases hk
          show rest.foldl (· + ·) (0 + a) = a
          rw [hadd.2]
          refine foldl_add_zeros hadd.1 fun c hc => ?_
          obtain ⟨j, hj⟩ := List.getElem?_of_mem hc
          exact hzeros (j + 1) c (Nat.succ_ne_zero j) hj
      | succ k =>
          have hb : b = 0 := hzeros 0 b (Nat.succ_ne_zero k).symm rfl
          show rest.foldl (· + ·) (0 + b) = a
          rw [hb, show (0 : Interval) + 0 = 0 by decide]
          exact ih hk fun j c hj hc =>
            hzeros (j + 1) c (fun h => hj (Nat.succ_injective h)) hc

/-- A row with one entry besides zeros picks a cell of the column. -/
theorem dot_eq_of_single {k : Nat} (hrow : row[k]? = some a)
    (hcolumn : column[k]? = some b)
    (hzeros : ∀ j c, j ≠ k → row[j]? = some c → c = 0) :
    dot row column = a * b := by
  refine sum_eq_of_single (k := k) ?_ (fun j c hj hc => ?_) (mul_add_zero a b)
  · rw [List.getElem?_zipWith, hrow, hcolumn]
  · rw [List.getElem?_zipWith] at hc
    cases hr : row[j]? with
    | none => rw [hr] at hc; cases hc
    | some r =>
        rw [hr, hzeros j r hj hr] at hc
        cases hd : column[j]? with
        | none => rw [hd] at hc; cases hc
        | some d =>
            rw [hd] at hc
            cases hc
            exact zero_mul_eq d

end BoxCert.Interval
