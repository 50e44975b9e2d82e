import BoxCert.Interval.Basic
import BoxCert.Proofs.Number.DirectedProduct
import BoxCert.Proofs.Number.SumSign

/-!
# What an interval encloses

An interval stands for the extended reals between the values of its ends. The
reals are what the bounds are about; the two infinities are let in so that the
end of an interval is a member like any other, which is how a bound at the end
of one interval is carried into the next.

Products enclose products without any condition. Sums do so unless one of
their ends spills. Where they spill, order is all that is left: a directed sum
of ordered operands is ordered.
-/

namespace BoxCert.Interval

open Binary64

variable {a b c d : Interval} {x y : EReal}

/-- Whether an extended real lies between the ends. A NaN as an end bounds
nothing. -/
structure Encloses (a : Interval) (x : EReal) : Prop where
  inf_isNan : a.inf.isNan = false
  sup_isNan : a.sup.isNan = false
  inf_le : a.inf.toEReal ≤ x
  le_sup : x ≤ a.sup.toEReal

instance : Membership EReal Interval where
  mem := Encloses

theorem inf_le_sup_of_mem (hx : x ∈ a) : a.inf ≤ a.sup :=
  le_iff.2 ⟨hx.inf_isNan, hx.sup_isNan, hx.inf_le.trans hx.le_sup⟩

theorem inf_mem (h : a.inf ≤ a.sup) : a.inf.toEReal ∈ a := by
  obtain ⟨hinf, hsup, hle⟩ := le_iff.1 h
  exact ⟨hinf, hsup, le_rfl, hle⟩

theorem sup_mem (h : a.inf ≤ a.sup) : a.sup.toEReal ∈ a := by
  obtain ⟨hinf, hsup, hle⟩ := le_iff.1 h
  exact ⟨hinf, hsup, hle, le_rfl⟩

theorem zero_mem : (0 : EReal) ∈ (0 : Interval) :=
  ⟨rfl, rfl, toEReal_zero.le, toEReal_zero.ge⟩

theorem sameEnds_iff : a.sameEnds b = true ↔
    a.inf.sameValue b.inf = true ∧ a.sup.sameValue b.sup = true :=
  Bool.and_eq_true_iff

/-! ## Sums -/

/-- Whether a sum of intervals may lose members because the error of one of
its ends spills on the wrong side. -/
def spills (a b : Interval) : Bool :=
  spillsBelow a.inf b.inf || spillsAbove a.sup b.sup

theorem add_mem (hx : x ∈ a) (hy : y ∈ b) (h : spills a b = false) :
    x + y ∈ a + b := by
  rw [spills, Bool.or_eq_false_iff] at h
  exact ⟨isNan_addDown hx.inf_isNan hy.inf_isNan,
    isNan_addUp hx.sup_isNan hy.sup_isNan,
    (addDown_le hx.inf_isNan hy.inf_isNan h.1).trans
      (add_le_add hx.inf_le hy.inf_le),
    (add_le_add hx.le_sup hy.le_sup).trans
      (le_addUp hx.sup_isNan hy.sup_isNan h.2)⟩

/-- A sum of intervals spills exactly if it misses a sum of their members. -/
theorem spills_iff (ha : a.inf ≤ a.sup) (hb : b.inf ≤ b.sup) :
    spills a b = true ↔ ∃ x ∈ a, ∃ y ∈ b, x + y ∉ a + b := by
  constructor
  · intro h
    rw [spills, Bool.or_eq_true, spillsBelow_iff (isNan_of_le ha).1
      (isNan_of_le hb).1, spillsAbove_iff (isNan_of_le ha).2
      (isNan_of_le hb).2] at h
    rcases h with h | h
    · exact ⟨_, inf_mem ha, _, inf_mem hb, fun hmem => h.not_ge hmem.inf_le⟩
    · exact ⟨_, sup_mem ha, _, sup_mem hb, fun hmem => h.not_ge hmem.le_sup⟩
  · rintro ⟨x, hx, y, hy, hmem⟩
    by_contra hspill
    rw [Bool.not_eq_true] at hspill
    exact hmem (add_mem hx hy hspill)

theorem add_inf_le_sup (hac : a.inf ≤ c.sup) (hbd : b.inf ≤ d.sup) :
    (a + b).inf ≤ (c + d).sup :=
  addDown_le_addUp hac hbd

/-! ## Products -/

/-- The lower end of a product is the least of the four products of ends, each
rounded downwards. -/
theorem mul_inf (ha : a.inf ≤ a.sup) (hb : b.inf ≤ b.sup) :
    (a * b).inf.isNan = false ∧ (a * b).inf.toEReal =
      min (min (min (a.inf.mulDown b.inf).toEReal
        (a.inf.mulDown b.sup).toEReal) (a.sup.mulDown b.inf).toEReal)
        (a.sup.mulDown b.sup).toEReal := by
  obtain ⟨hai, has, -⟩ := le_iff.1 ha
  obtain ⟨hbi, hbs, -⟩ := le_iff.1 hb
  have h1 := isNan_mulDown hai hbi
  have h2 := isNan_mulDown hai hbs
  have h3 := isNan_mulDown has hbi
  have h4 := isNan_mulDown has hbs
  have h12 := isNan_min h1 h2
  have h123 := isNan_min h12 h3
  show (unsignedZero _).isNan = false ∧ (unsignedZero _).toEReal = _
  rw [isNan_unsignedZero, toEReal_unsignedZero, toEReal_min h123 h4,
    toEReal_min h12 h3, toEReal_min h1 h2]
  exact ⟨isNan_min h123 h4, rfl⟩

theorem mul_sup (ha : a.inf ≤ a.sup) (hb : b.inf ≤ b.sup) :
    (a * b).sup.isNan = false ∧ (a * b).sup.toEReal =
      max (max (max (a.inf.mulUp b.inf).toEReal
        (a.inf.mulUp b.sup).toEReal) (a.sup.mulUp b.inf).toEReal)
        (a.sup.mulUp b.sup).toEReal := by
  obtain ⟨hai, has, -⟩ := le_iff.1 ha
  obtain ⟨hbi, hbs, -⟩ := le_iff.1 hb
  have h1 := isNan_mulUp hai hbi
  have h2 := isNan_mulUp hai hbs
  have h3 := isNan_mulUp has hbi
  have h4 := isNan_mulUp has hbs
  have h12 := isNan_max h1 h2
  have h123 := isNan_max h12 h3
  show (unsignedZero _).isNan = false ∧ (unsignedZero _).toEReal = _
  rw [isNan_unsignedZero, toEReal_unsignedZero, toEReal_max h123 h4,
    toEReal_max h12 h3, toEReal_max h1 h2]
  exact ⟨isNan_max h123 h4, rfl⟩

theorem isNan_of_end {u : Binary64} (h : a.inf ≤ a.sup)
    (hu : u = a.inf ∨ u = a.sup) : u.isNan = false := by
  rcases hu with rfl | rfl
  · exact (isNan_of_le h).1
  · exact (isNan_of_le h).2

theorem mul_inf_le (ha : a.inf ≤ a.sup) (hb : b.inf ≤ b.sup)
    {u v : Binary64} (hu : u = a.inf ∨ u = a.sup)
    (hv : v = b.inf ∨ v = b.sup) :
    (a * b).inf.toEReal ≤ u.toEReal * v.toEReal := by
  refine le_trans ?_ (mulDown_le (isNan_of_end ha hu) (isNan_of_end hb hv))
  rw [(mul_inf ha hb).2]
  rcases hu with rfl | rfl <;> rcases hv with rfl | rfl <;> simp

theorem le_mul_sup (ha : a.inf ≤ a.sup) (hb : b.inf ≤ b.sup)
    {u v : Binary64} (hu : u = a.inf ∨ u = a.sup)
    (hv : v = b.inf ∨ v = b.sup) :
    u.toEReal * v.toEReal ≤ (a * b).sup.toEReal := by
  refine (le_mulUp (isNan_of_end ha hu) (isNan_of_end hb hv)).trans ?_
  rw [(mul_sup ha hb).2]
  rcases hu with rfl | rfl <;> rcases hv with rfl | rfl <;> simp

/-- Some product of ends is at most the product of members: of either factor
the end that goes with the sign of the other one. -/
theorem exists_corner_le {p q r s : EReal} (hpx : p ≤ x) (hxq : x ≤ q)
    (hry : r ≤ y) (hys : y ≤ s) :
    p * r ≤ x * y ∨ p * s ≤ x * y ∨ q * r ≤ x * y ∨ q * s ≤ x * y := by
  have hside : ∀ u : EReal, u * y ≤ x * y → u * r ≤ x * y ∨ u * s ≤ x * y := by
    intro u hu
    rcases le_total 0 u with hpos | hneg
    · exact .inl ((mul_le_mul_of_nonneg_left hry hpos).trans hu)
    · refine .inr (le_trans ?_ hu)
      rw [mul_comm u s, mul_comm u y]
      exact EReal.mul_le_mul_of_nonpos_right hys hneg
  rcases le_total 0 y with hpos | hneg
  · rcases hside p (mul_le_mul_of_nonneg_right hpx hpos) with h | h
    · exact .inl h
    · exact .inr (.inl h)
  · rcases hside q (EReal.mul_le_mul_of_nonpos_right hxq hneg) with h | h
    · exact .inr (.inr (.inl h))
    · exact .inr (.inr (.inr h))

theorem exists_le_corner {p q r s : EReal} (hpx : p ≤ x) (hxq : x ≤ q)
    (hry : r ≤ y) (hys : y ≤ s) :
    x * y ≤ p * r ∨ x * y ≤ p * s ∨ x * y ≤ q * r ∨ x * y ≤ q * s := by
  have h := exists_corner_le (EReal.neg_le_neg_iff.2 hxq)
    (EReal.neg_le_neg_iff.2 hpx) hry hys
  simp only [EReal.neg_mul, EReal.neg_le_neg_iff] at h
  tauto

theorem mul_mem (hx : x ∈ a) (hy : y ∈ b) : x * y ∈ a * b := by
  have ha := inf_le_sup_of_mem hx
  have hb := inf_le_sup_of_mem hy
  refine ⟨(mul_inf ha hb).1, (mul_sup ha hb).1, ?_, ?_⟩
  · rcases exists_corner_le hx.inf_le hx.le_sup hy.inf_le hy.le_sup with
      h | h | h | h
    · exact (mul_inf_le ha hb (.inl rfl) (.inl rfl)).trans h
    · exact (mul_inf_le ha hb (.inl rfl) (.inr rfl)).trans h
    · exact (mul_inf_le ha hb (.inr rfl) (.inl rfl)).trans h
    · exact (mul_inf_le ha hb (.inr rfl) (.inr rfl)).trans h
  · rcases exists_le_corner hx.inf_le hx.le_sup hy.inf_le hy.le_sup with
      h | h | h | h
    · exact h.trans (le_mul_sup ha hb (.inl rfl) (.inl rfl))
    · exact h.trans (le_mul_sup ha hb (.inl rfl) (.inr rfl))
    · exact h.trans (le_mul_sup ha hb (.inr rfl) (.inl rfl))
    · exact h.trans (le_mul_sup ha hb (.inr rfl) (.inr rfl))

theorem mul_inf_le_sup (ha : a.inf ≤ a.sup) (hb : b.inf ≤ b.sup) :
    (a * b).inf ≤ (a * b).sup :=
  inf_le_sup_of_mem (mul_mem (inf_mem ha) (inf_mem hb))

/-! ## Parts by sign -/

theorem straddlesZero_iff : a.straddlesZero = true ↔ 0 < a.sup ∧ a.inf < 0 := by
  simp [straddlesZero]

theorem isNonnegative_iff : a.isNonnegative = true ↔ 0 ≤ a.inf := by
  simp [isNonnegative]

/-- An interval that neither straddles zero nor lies above it lies below. -/
theorem sup_nonpos (h : a.inf ≤ a.sup) (hstraddles : ¬ a.straddlesZero = true)
    (hnonneg : ¬ a.isNonnegative = true) : a.sup.toEReal ≤ 0 := by
  obtain ⟨hinf, hsup, -⟩ := le_iff.1 h
  rw [isNonnegative_iff, le_iff, toEReal_zero] at hnonneg
  rw [straddlesZero_iff, lt_iff, lt_iff, toEReal_zero] at hstraddles
  by_contra hpos
  exact hstraddles ⟨⟨rfl, hsup, not_le.1 hpos⟩, hinf, rfl,
    not_le.1 fun hle => hnonneg ⟨rfl, hinf, hle⟩⟩

theorem max_mem_positivePart (hx : x ∈ a) : max x 0 ∈ a.positivePart := by
  have ha := inf_le_sup_of_mem hx
  unfold positivePart
  split
  · next h =>
      have hpos := (lt_iff.1 (straddlesZero_iff.1 h).1).2.2
      rw [toEReal_zero] at hpos
      exact ⟨rfl, hx.sup_isNan, toEReal_zero.le.trans (le_max_right _ _),
        max_le hx.le_sup hpos.le⟩
  · next hstraddles =>
      split
      · next h =>
          have hle := (le_iff.1 (isNonnegative_iff.1 h)).2.2
          rw [toEReal_zero] at hle
          rwa [max_eq_left (hle.trans hx.inf_le)]
      · next hnonneg =>
          rw [max_eq_right (hx.le_sup.trans (sup_nonpos ha hstraddles hnonneg))]
          exact zero_mem

theorem min_mem_negativePart (hx : x ∈ a) : min x 0 ∈ a.negativePart := by
  have ha := inf_le_sup_of_mem hx
  unfold negativePart
  split
  · next h =>
      have hneg := (lt_iff.1 (straddlesZero_iff.1 h).2).2.2
      rw [toEReal_zero] at hneg
      exact ⟨hx.inf_isNan, rfl, le_min hx.inf_le hneg.le,
        (min_le_right _ _).trans toEReal_zero.ge⟩
  · next hstraddles =>
      split
      · next h =>
          have hle := (le_iff.1 (isNonnegative_iff.1 h)).2.2
          rw [toEReal_zero] at hle
          rw [min_eq_right (hle.trans hx.inf_le)]
          exact zero_mem
      · next hnonneg =>
          rwa [min_eq_left
            (hx.le_sup.trans (sup_nonpos ha hstraddles hnonneg))]

theorem positivePart_inf_le_sup (h : a.inf ≤ a.sup) :
    a.positivePart.inf ≤ a.positivePart.sup :=
  inf_le_sup_of_mem (max_mem_positivePart (inf_mem h))

theorem negativePart_inf_le_sup (h : a.inf ≤ a.sup) :
    a.negativePart.inf ≤ a.negativePart.sup :=
  inf_le_sup_of_mem (min_mem_negativePart (inf_mem h))

/-! ## Tolerances -/

variable {p t : Binary64}

/-- No tolerance spills, because it is subtracted on the way down and added on
the way up. -/
theorem spills_tolerance (hpos : 0 ≤ t.toEReal) (p : Binary64) :
    spillsBelow p (-t) = false ∧ spillsAbove p t = false := by
  rw [spillsBelow, spillsAbove, Bool.and_eq_false_iff, Bool.and_eq_false_iff,
    decide_eq_false_iff_not, decide_eq_false_iff_not, lt_iff, lt_iff,
    toEReal_zero, toEReal_neg]
  refine ⟨.inr fun hlt => hlt.2.2.not_ge ?_, .inr fun hlt => hlt.2.2.not_ge hpos⟩
  rwa [EReal.neg_le, neg_zero]

theorem units?_around {n : Int} (hp : p.units? = some n)
    (ht : t.isZero = true) :
    (around p t).inf.units? = some n ∧ (around p t).sup.units? = some n := by
  have htneg : (-t).isZero = true := by rwa [isZero_neg]
  exact ⟨(addDown_of_isZero htneg p).1.units?_eq.trans hp,
    (addUp_of_isZero ht p).1.units?_eq.trans hp⟩

/-- A number with a tolerance reaches down by the tolerance at least. -/
theorem around_inf_le (hp : p.isNan = false) (ht : t.isNan = false)
    (hpos : 0 ≤ t.toEReal) :
    (around p t).inf.isNan = false ∧
      (around p t).inf.toEReal ≤ p.toEReal - t.toEReal := by
  have htneg : (-t).isNan = false := by rwa [isNan_neg]
  refine ⟨isNan_addDown hp htneg, ?_⟩
  rw [sub_eq_add_neg, ← toEReal_neg]
  exact addDown_le hp htneg (spills_tolerance hpos p).1

theorem le_around_sup (hp : p.isNan = false) (ht : t.isNan = false)
    (hpos : 0 ≤ t.toEReal) :
    (around p t).sup.isNan = false ∧
      p.toEReal + t.toEReal ≤ (around p t).sup.toEReal :=
  ⟨isNan_addUp hp ht, le_addUp hp ht (spills_tolerance hpos p).2⟩

theorem mem_around (hp : p.isNan = false) (ht : t.isNan = false)
    (hpos : 0 ≤ t.toEReal) : p.toEReal ∈ around p t := by
  obtain ⟨hinf, hle⟩ := around_inf_le hp ht hpos
  obtain ⟨hsup, hge⟩ := le_around_sup hp ht hpos
  refine ⟨hinf, hsup, hle.trans ?_, le_trans ?_ hge⟩
  · calc p.toEReal - t.toEReal ≤ p.toEReal - 0 := EReal.sub_le_sub le_rfl hpos
      _ = p.toEReal := sub_zero _
  · exact le_add_of_nonneg_right hpos

theorem toEReal_greatest :
    (greatest false).toEReal = ((greatest false).toReal : EReal) :=
  toEReal_of_isFinite rfl

/-- A number with a positive tolerance cannot spill: it does not reach as far
as the largest number on the side where it would matter. -/
theorem spills_around (hp : p.isFinite = true) (ht : t.isFinite = true)
    (hpos : 0 < t.toEReal) (x y : Binary64) :
    spillsBelow x (around p t).inf = false ∧
      spillsAbove y (around p t).sup = false := by
  have hpn := isNan_of_isFinite hp
  have htn := isNan_of_isFinite ht
  have hle := (around_inf_le hpn htn hpos.le).2
  have hge := (le_around_sup hpn htn hpos.le).2
  rw [toEReal_of_isFinite ht, EReal.coe_pos] at hpos
  have hgreatest := le_toEReal_greatest hp
  have hleast := le_toEReal_greatest (x := -p) (by cases p <;> exact hp)
  rw [toEReal_neg, toEReal_greatest] at hleast
  rw [toEReal_greatest] at hgreatest
  rw [toEReal_of_isFinite hp] at hle hge hgreatest hleast
  rw [toEReal_of_isFinite ht] at hle hge
  constructor
  · by_contra hspill
    rw [Bool.not_eq_false] at hspill
    rw [(eq_greatest_of_spillsBelow hspill).2, toEReal_greatest] at hle
    norm_cast at hle hgreatest
    linarith
  · by_contra hspill
    rw [Bool.not_eq_false] at hspill
    rw [(eq_greatest_of_spillsAbove hspill).2,
      show greatest true = -greatest false from rfl, toEReal_neg,
      toEReal_greatest] at hge
    norm_cast at hge hleast
    linarith

/-- Adding a number with a tolerance to ordered operands drives the ends apart
by the tolerance on either side, spilled or not. -/
theorem add_around_width (hab : a.inf ≤ b.sup) (hp : p.isFinite = true)
    (ht : t.isFinite = true) (hpos : 0 ≤ t.toEReal) :
    (a + around p t).inf.toEReal + (t.toEReal + t.toEReal) ≤
      (b + around p t).sup.toEReal := by
  have hpn := isNan_of_isFinite hp
  have htn := isNan_of_isFinite ht
  obtain ⟨ha, hb, hle⟩ := le_iff.1 hab
  obtain ⟨hinf, hlow⟩ := around_inf_le hpn htn hpos
  obtain ⟨hsup, hhigh⟩ := le_around_sup hpn htn hpos
  rcases hpos.eq_or_lt with hzero | hpos
  · -- The parameter itself may be a largest number here: order has to do.
    rw [← hzero, add_zero, add_zero]
    have hvalid := inf_le_sup_of_mem (mem_around hpn htn hpos)
    exact (le_iff.1 (add_inf_le_sup hab hvalid)).2.2
  · obtain ⟨hbelow, habove⟩ := spills_around hp ht hpos a.inf b.sup
    have hwidth : p.toEReal - t.toEReal + (t.toEReal + t.toEReal) =
        p.toEReal + t.toEReal := by
      rw [toEReal_of_isFinite hp, toEReal_of_isFinite ht]
      norm_cast
      ring
    calc (a + around p t).inf.toEReal + (t.toEReal + t.toEReal)
      _ ≤ a.inf.toEReal + (around p t).inf.toEReal + (t.toEReal + t.toEReal) :=
          add_le_add_left (addDown_le ha hinf hbelow) _
      _ ≤ a.inf.toEReal + (p.toEReal - t.toEReal) +
          (t.toEReal + t.toEReal) := by
          gcongr
      _ = a.inf.toEReal + (p.toEReal + t.toEReal) := by rw [add_assoc, hwidth]
      _ ≤ b.sup.toEReal + (around p t).sup.toEReal := add_le_add hle hhigh
      _ ≤ (b + around p t).sup.toEReal := le_addUp hb hsup habove

end BoxCert.Interval
