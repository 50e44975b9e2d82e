import BoxCert.Proofs.Interval.Linear
import BoxCert.Proofs.Number.Monotone

/-!
# Interval operations keep order

Shifting a column of intervals shifts its product with a row of one sign, up
or down according to that sign. Split by sign, a row is bounded by one column
from either side, so lowering the first column and raising the second one
lowers the lower end of the row. What can go wrong is listed as data again:
the additions of the lower row that spill, and the products of the higher row
that vanish.
-/

namespace BoxCert.Interval

open IntervalMatrix (dot)
open Binary64

variable {a b c acc acc' : Interval} {t p q : Binary64}
  {row items items' column column' : List Interval}

/-- Whether both ends lie at or below those of another interval. -/
structure Precedes (a b : Interval) : Prop where
  inf : a.inf ≤ b.inf
  sup : a.sup ≤ b.sup

/-- A tolerance keeps the order of the numbers it is put around. -/
theorem around_precedes (ht : 0 ≤ t.toEReal) (htn : t.isNan = false)
    (h : p ≤ q) : (around p t).Precedes (around q t) := by
  have hsame : ∀ x : Binary64, x.isNan = false → x ≤ x := fun x hx =>
    le_iff.2 ⟨hx, hx, le_rfl⟩
  exact ⟨addDown_mono h (hsame (-t) (by rwa [isNan_neg]))
      (spills_tolerance ht p).1,
    addUp_mono h (hsame t htn) (spills_tolerance ht q).2⟩

/-! ## Products -/

/-- Whether some product of ends that are not zero is rounded to zero. -/
def vanishes (a b : Interval) : Bool :=
  a.inf.vanishes b.inf || a.inf.vanishes b.sup || a.sup.vanishes b.inf ||
    a.sup.vanishes b.sup

theorem vanishes_eq_false : vanishes a b = false ↔
    (a.inf.vanishes b.inf = false ∧ a.inf.vanishes b.sup = false) ∧
      (a.sup.vanishes b.inf = false ∧ a.sup.vanishes b.sup = false) := by
  simp only [vanishes, Bool.or_eq_false_iff, and_assoc]

section Products

variable (ha : a.inf ≤ a.sup) (hb : b.inf ≤ b.sup) (hc : c.inf ≤ c.sup)
  (hvanish : vanishes a b = false)

include ha hb hc hvanish

/-- Lowering all products of ends lowers the lower end of the product. -/
theorem mul_inf_le_mul_inf
    (h : ∀ u, u = a.inf ∨ u = a.sup →
      u.toEReal * c.inf.toEReal ≤ u.toEReal * b.inf.toEReal ∧
        u.toEReal * c.sup.toEReal ≤ u.toEReal * b.sup.toEReal) :
    (a * c).inf ≤ (a * b).inf := by
  obtain ⟨hai, has, -⟩ := le_iff.1 ha
  obtain ⟨hbi, hbs, -⟩ := le_iff.1 hb
  obtain ⟨hci, hcs, -⟩ := le_iff.1 hc
  obtain ⟨⟨hvii, hvis⟩, hvsi, hvss⟩ := vanishes_eq_false.1 hvanish
  obtain ⟨hii, his⟩ := h a.inf (.inl rfl)
  obtain ⟨hsi, hss⟩ := h a.sup (.inr rfl)
  refine le_iff.2 ⟨(mul_inf ha hc).1, (mul_inf ha hb).1, ?_⟩
  rw [(mul_inf ha hc).2, (mul_inf ha hb).2]
  have h1 := mulDown_mono hai hbi hai hci hii hvii
  have h2 := mulDown_mono hai hbs hai hcs his hvis
  have h3 := mulDown_mono has hbi has hci hsi hvsi
  have h4 := mulDown_mono has hbs has hcs hss hvss
  exact min_le_min (min_le_min (min_le_min (le_iff.1 h1).2.2 (le_iff.1 h2).2.2)
    (le_iff.1 h3).2.2) (le_iff.1 h4).2.2

theorem mul_sup_le_mul_sup
    (h : ∀ u, u = a.inf ∨ u = a.sup →
      u.toEReal * b.inf.toEReal ≤ u.toEReal * c.inf.toEReal ∧
        u.toEReal * b.sup.toEReal ≤ u.toEReal * c.sup.toEReal) :
    (a * b).sup ≤ (a * c).sup := by
  obtain ⟨hai, has, -⟩ := le_iff.1 ha
  obtain ⟨hbi, hbs, -⟩ := le_iff.1 hb
  obtain ⟨hci, hcs, -⟩ := le_iff.1 hc
  obtain ⟨⟨hvii, hvis⟩, hvsi, hvss⟩ := vanishes_eq_false.1 hvanish
  obtain ⟨hii, his⟩ := h a.inf (.inl rfl)
  obtain ⟨hsi, hss⟩ := h a.sup (.inr rfl)
  refine le_iff.2 ⟨(mul_sup ha hb).1, (mul_sup ha hc).1, ?_⟩
  rw [(mul_sup ha hb).2, (mul_sup ha hc).2]
  have h1 := mulUp_mono hai hbi hai hci hii hvii
  have h2 := mulUp_mono hai hbs hai hcs his hvis
  have h3 := mulUp_mono has hbi has hci hsi hvsi
  have h4 := mulUp_mono has hbs has hcs hss hvss
  exact max_le_max (max_le_max (max_le_max (le_iff.1 h1).2.2 (le_iff.1 h2).2.2)
    (le_iff.1 h3).2.2) (le_iff.1 h4).2.2

end Products

/-! ## Rows of one sign -/

theorem zero_le_positivePart (a : Interval) :
    0 ≤ a.positivePart.inf.toEReal := by
  unfold positivePart
  split
  · exact toEReal_zero.ge
  · split
    · next h =>
        have hle := (le_iff.1 (isNonnegative_iff.1 h)).2.2
        rwa [toEReal_zero] at hle
    · exact toEReal_zero.ge

theorem negativePart_le_zero (ha : a.inf ≤ a.sup) :
    a.negativePart.sup.toEReal ≤ 0 := by
  unfold negativePart
  split
  · exact toEReal_zero.le
  · next hstraddles =>
      split
      · exact toEReal_zero.le
      · next hnonneg => exact sup_nonpos ha hstraddles hnonneg

section Parts

variable (ha : a.inf ≤ a.sup)

include ha

theorem positivePart_end_nonneg {u : Binary64}
    (hu : u = a.positivePart.inf ∨ u = a.positivePart.sup) :
    0 ≤ u.toEReal := by
  have hpos := zero_le_positivePart a
  rcases hu with rfl | rfl
  · exact hpos
  · exact hpos.trans (le_iff.1 (positivePart_inf_le_sup ha)).2.2

theorem negativePart_end_nonpos {u : Binary64}
    (hu : u = a.negativePart.inf ∨ u = a.negativePart.sup) :
    u.toEReal ≤ 0 := by
  have hneg := negativePart_le_zero ha
  rcases hu with rfl | rfl
  · exact (le_iff.1 (negativePart_inf_le_sup ha)).2.2.trans hneg
  · exact hneg

variable (hb : b.inf ≤ b.sup) (hc : c.inf ≤ c.sup)

include hb hc

theorem positivePart_mul_inf_mono (h : c.Precedes b)
    (hvanish : vanishes a.positivePart b = false) :
    (a.positivePart * c).inf ≤ (a.positivePart * b).inf := by
  refine mul_inf_le_mul_inf (positivePart_inf_le_sup ha) hb hc hvanish
    fun u hu => ?_
  have hpos := positivePart_end_nonneg ha hu
  exact ⟨mul_le_mul_of_nonneg_left (le_iff.1 h.inf).2.2 hpos,
    mul_le_mul_of_nonneg_left (le_iff.1 h.sup).2.2 hpos⟩

theorem positivePart_mul_sup_mono (h : b.Precedes c)
    (hvanish : vanishes a.positivePart b = false) :
    (a.positivePart * b).sup ≤ (a.positivePart * c).sup := by
  refine mul_sup_le_mul_sup (positivePart_inf_le_sup ha) hb hc hvanish
    fun u hu => ?_
  have hpos := positivePart_end_nonneg ha hu
  exact ⟨mul_le_mul_of_nonneg_left (le_iff.1 h.inf).2.2 hpos,
    mul_le_mul_of_nonneg_left (le_iff.1 h.sup).2.2 hpos⟩

theorem negativePart_mul_inf_mono (h : b.Precedes c)
    (hvanish : vanishes a.negativePart b = false) :
    (a.negativePart * c).inf ≤ (a.negativePart * b).inf := by
  refine mul_inf_le_mul_inf (negativePart_inf_le_sup ha) hb hc hvanish
    fun u hu => ?_
  have hneg := negativePart_end_nonpos ha hu
  rw [mul_comm, mul_comm u.toEReal, mul_comm u.toEReal, mul_comm u.toEReal]
  exact ⟨EReal.mul_le_mul_of_nonpos_right (le_iff.1 h.inf).2.2 hneg,
    EReal.mul_le_mul_of_nonpos_right (le_iff.1 h.sup).2.2 hneg⟩

theorem negativePart_mul_sup_mono (h : c.Precedes b)
    (hvanish : vanishes a.negativePart b = false) :
    (a.negativePart * b).sup ≤ (a.negativePart * c).sup := by
  refine mul_sup_le_mul_sup (negativePart_inf_le_sup ha) hb hc hvanish
    fun u hu => ?_
  have hneg := negativePart_end_nonpos ha hu
  rw [mul_comm, mul_comm u.toEReal, mul_comm u.toEReal, mul_comm u.toEReal]
  exact ⟨EReal.mul_le_mul_of_nonpos_right (le_iff.1 h.inf).2.2 hneg,
    EReal.mul_le_mul_of_nonpos_right (le_iff.1 h.sup).2.2 hneg⟩

end Parts

/-! ## Sums -/

theorem add_inf_mono (hacc : acc'.inf ≤ acc.inf) (h : b.inf ≤ a.inf)
    (hspill : spills acc' b = false) : (acc' + b).inf ≤ (acc + a).inf := by
  rw [spills, Bool.or_eq_false_iff] at hspill
  exact addDown_mono hacc h hspill.1

theorem add_sup_mono (hacc : acc.sup ≤ acc'.sup) (h : a.sup ≤ b.sup)
    (hspill : spills acc' b = false) : (acc + a).sup ≤ (acc' + b).sup := by
  rw [spills, Bool.or_eq_false_iff] at hspill
  exact addUp_mono hacc h hspill.2

/-- What one addition that does not spill preserves, a sum preserves if none
of its additions spills. -/
theorem foldl_add_rel {R : Interval → Interval → Prop}
    (hadd : ∀ {x y a b : Interval}, R x y → R a b → spills y b = false →
      R (x + a) (y + b))
    (hacc : R acc acc') (h : List.Forall₂ R items items')
    (hspill : SpillFree (additions acc' items')) :
    R (items.foldl (· + ·) acc) (items'.foldl (· + ·) acc') := by
  induction h generalizing acc acc' with
  | nil => exact hacc
  | cons hab _ ih =>
      obtain ⟨hhead, htail⟩ := List.forall_mem_cons.1 hspill
      exact ih (hadd hacc hab hhead) htail

/-! ## Rows split by sign -/

/-- Whether none of the products vanishes. -/
def VanishFree (pairs : List (Interval × Interval)) : Prop :=
  ∀ pair ∈ pairs, vanishes pair.1 pair.2 = false

instance (pairs : List (Interval × Interval)) :
    Decidable (VanishFree pairs) :=
  inferInstanceAs (Decidable (∀ pair ∈ pairs, vanishes pair.1 pair.2 = false))

theorem VanishFree.of_mem {pairs : List (Interval × Interval)}
    (h : VanishFree pairs) (hmem : (a, b) ∈ pairs) : vanishes a b = false :=
  h (a, b) hmem

theorem VanishFree.append {pairs pairs' : List (Interval × Interval)} :
    VanishFree (pairs ++ pairs') ↔ VanishFree pairs ∧ VanishFree pairs' :=
  List.forall_mem_append

/-- The operands of the products of a row split by sign. -/
def splitProducts (row first second : List Interval) :
    List (Interval × Interval) :=
  List.zip (row.map positivePart) first ++
    List.zip (row.map negativePart) second

section Split

variable {first first' second second' : List Interval}
  (hrow : ∀ a ∈ row, a.inf ≤ a.sup)
  (hfirst : ∀ a ∈ first, a.inf ≤ a.sup)
  (hfirst' : ∀ a ∈ first', a.inf ≤ a.sup)
  (hsecond : ∀ a ∈ second, a.inf ≤ a.sup)
  (hsecond' : ∀ a ∈ second', a.inf ≤ a.sup)
  (hspill : SpillFree (splitAdditions row first' second'))
  (hvanish : VanishFree (splitProducts row first second))

include hrow hfirst hfirst' hsecond hsecond' hspill hvanish

/-- Lowering the column of the positive part and raising that of the negative
one lowers the lower end of a row. -/
theorem splitDot_inf_mono
    (hlow : List.Forall₂ (fun b c => c.Precedes b) first first')
    (hhigh : List.Forall₂ Precedes second second') :
    (splitDot row first' second').inf ≤ (splitDot row first second).inf := by
  obtain ⟨⟨hpositive, hnegative⟩, hlast⟩ := spillFree_splitAdditions.1 hspill
  rw [splitProducts, VanishFree.append] at hvanish
  refine add_inf_mono ?_ ?_ hlast
  · refine foldl_add_rel (R := fun x y => y.inf ≤ x.inf) add_inf_mono
      (by decide) (forall₂_zipWith_mul ?_ hlow) hpositive
    intro a ha b hb c hc hpair hbc
    exact positivePart_mul_inf_mono (hrow a ha) (hfirst b hb) (hfirst' c hc) hbc
      (hvanish.1.of_mem hpair)
  · refine foldl_add_rel (R := fun x y => y.inf ≤ x.inf) add_inf_mono
      (by decide) (forall₂_zipWith_mul ?_ hhigh) hnegative
    intro a ha b hb c hc hpair hbc
    exact negativePart_mul_inf_mono (hrow a ha) (hsecond b hb) (hsecond' c hc)
      hbc (hvanish.2.of_mem hpair)

theorem splitDot_sup_mono (hhigh : List.Forall₂ Precedes first first')
    (hlow : List.Forall₂ (fun b c => c.Precedes b) second second') :
    (splitDot row first second).sup ≤ (splitDot row first' second').sup := by
  obtain ⟨⟨hpositive, hnegative⟩, hlast⟩ := spillFree_splitAdditions.1 hspill
  rw [splitProducts, VanishFree.append] at hvanish
  refine add_sup_mono ?_ ?_ hlast
  · refine foldl_add_rel (R := fun x y => x.sup ≤ y.sup) add_sup_mono
      (by decide) (forall₂_zipWith_mul ?_ hhigh) hpositive
    intro a ha b hb c hc hpair hbc
    exact positivePart_mul_sup_mono (hrow a ha) (hfirst b hb) (hfirst' c hc) hbc
      (hvanish.1.of_mem hpair)
  · refine foldl_add_rel (R := fun x y => x.sup ≤ y.sup) add_sup_mono
      (by decide) (forall₂_zipWith_mul ?_ hlow) hnegative
    intro a ha b hb c hc hpair hbc
    exact negativePart_mul_sup_mono (hrow a ha) (hsecond b hb) (hsecond' c hc)
      hbc (hvanish.2.of_mem hpair)

end Split

end BoxCert.Interval
