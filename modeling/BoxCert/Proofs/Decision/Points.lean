import BoxCert.Proofs.Decision.Verdict
import BoxCert.Proofs.Refusal

/-!
# Deciding a point

On a box that is a single point the full check knows the scores themselves, so
it should answer what comparing them answers. It compares them by their lead,
and a lead is the difference of two products with one. A product with one is
the score again unless the score is a tiny number other than zero, below the
underflow guard; then it is an interval around the score. So the check gives
the exact answer if and only if the scores that matter for it are told apart
as such intervals, and it does if none of the scores is tiny.

Where they are not told apart, the check leaves the label unresolved: a score
of one unit against a score of zero is such a case.
-/

namespace BoxCert

open Binary64 BoxCert.Interval

namespace Interval

variable {a own rival : Interval} {x y : Binary64} {n : Int}

/-! ## Leads by sign -/

theorem point_mul_ends (hx : x.isNan = false) (ha : a.inf ≤ a.sup) :
    (point x * a).inf.toEReal =
        min (mulDown x a.inf).toEReal (mulDown x a.sup).toEReal ∧
      (point x * a).sup.toEReal =
        max (mulUp x a.inf).toEReal (mulUp x a.sup).toEReal := by
  have hpoint : (point x).inf ≤ (point x).sup := le_iff.2 ⟨hx, hx, le_rfl⟩
  rw [(mul_inf hpoint ha).2, (mul_sup hpoint ha).2, min_assoc (min _ _),
    max_assoc (max _ _)]
  exact ⟨min_self _, max_self _⟩

/-- The multiple with minus one is the multiple with one turned around. -/
theorem neg_one_mul_ends (ha : a.inf ≤ a.sup) :
    (point (-1) * a).inf.toEReal = -(point 1 * a).sup.toEReal ∧
      (point (-1) * a).sup.toEReal = -(point 1 * a).inf.toEReal := by
  obtain ⟨hinf, hsup, -⟩ := le_iff.1 ha
  obtain ⟨hone_inf, hone_sup⟩ := point_mul_ends (x := 1) rfl ha
  obtain ⟨hneg_inf, hneg_sup⟩ := point_mul_ends (x := -1) rfl ha
  constructor
  · rw [hneg_inf, hone_sup, toEReal_mulUp, toEReal_mulUp,
      EReal.max_neg_neg, neg_neg]
  · rw [hneg_sup, hone_inf, toEReal_mulUp, toEReal_mulUp,
      EReal.max_neg_neg, neg_neg_eq]

section Lead

variable (hown : own.inf ≤ own.sup) (hrival : rival.inf ≤ rival.sup)

include hown hrival

theorem zero_lt_lead_iff : 0 < (lead own rival).inf ↔
    (point 1 * rival).sup.toEReal < (point 1 * own).inf.toEReal := by
  have hp := mem_point_one_mul (inf_mem hown)
  have hq := neg_mem_point_neg_one_mul (sup_mem hrival)
  show 0 < addDown _ _ ↔ _
  rw [zero_lt_addDown_iff hp.inf_isNan hq.inf_isNan,
    (neg_one_mul_ends hrival).1, ← sub_eq_add_neg, EReal.sub_pos]

/-- The scores have to be finite here: infinity minus infinity is rounded up
to infinity. -/
theorem lead_le_zero_iff (hfin : own.sup.isFinite = true)
    (hfin' : rival.inf.isFinite = true) :
    (lead own rival).sup ≤ 0 ↔
      (point 1 * own).sup.toEReal ≤ (point 1 * rival).inf.toEReal := by
  have hp := mem_point_one_mul (sup_mem hown)
  have hq := neg_mem_point_neg_one_mul (inf_mem hrival)
  have hr := mem_point_one_mul (inf_mem hrival)
  have hneg := (neg_one_mul_ends hrival).2
  show addUp _ _ ≤ 0 ↔ _
  constructor
  · intro h
    have hle := (le_iff.1 h).2.2
    rw [toEReal_zero] at hle
    have hsum := add_le_of_addUp_le hp.sup_isNan hq.sup_isNan le_rfl hle
    rwa [hneg, ← sub_eq_add_neg, EReal.sub_nonpos] at hsum
  · intro h
    have h : (point 1 * own).sup ≤ (point 1 * rival).inf :=
      le_iff.2 ⟨hp.sup_isNan, hr.inf_isNan, h⟩
    have hlow : own.sup ≤ (point 1 * own).sup :=
      le_iff.2 ⟨(isNan_of_le hown).2, hp.sup_isNan, hp.le_sup⟩
    have hhigh : (point 1 * rival).inf ≤ rival.inf :=
      le_iff.2 ⟨hr.inf_isNan, (isNan_of_le hrival).1, hr.inf_le⟩
    have hp_fin := isFinite_of_le_of_le hlow (le_of_le_of_le h hhigh) hfin hfin'
    have hr_fin := isFinite_of_le_of_le (le_of_le_of_le hlow h) hhigh hfin hfin'
    have hq_fin : (point (-1) * rival).sup.isFinite = true := by
      rw [toEReal_of_isFinite hr_fin] at hneg
      by_contra hinf
      rw [Bool.not_eq_true] at hinf
      rcases toEReal_of_not_finite hq.sup_isNan hinf with h | h
      · exact EReal.coe_ne_top _ (hneg.symm.trans h)
      · exact EReal.coe_ne_bot _ (hneg.symm.trans h)
    rw [addUp_le_zero_iff hp_fin hq_fin, hneg, ← sub_eq_add_neg,
      EReal.sub_nonpos]
    exact (le_iff.1 h).2.2

end Lead

/-! ## Scores that are known -/

theorem one_mul_around_zero (hx : x.units? = some n) :
    (point 1 * around x 0).inf.toEReal = (mulDown 1 x).toEReal ∧
      (point 1 * around x 0).sup.toEReal = (mulUp 1 x).toEReal := by
  obtain ⟨hinf, hsup⟩ := units?_around (t := 0) hx rfl
  obtain ⟨hdown, hup⟩ := mul_congr (sameValue_of_units hinf hx) 1
  obtain ⟨hdown', hup'⟩ := mul_congr (sameValue_of_units hsup hx) 1
  have hvalid := inf_le_sup_of_mem
    (mem_around (t := 0) (isNan_of_units hx) rfl toEReal_zero.ge)
  obtain ⟨hlow, hhigh⟩ := point_mul_ends (x := 1) rfl hvalid
  rw [hlow, hhigh, hdown, hdown', hup, hup']
  exact ⟨min_self _, max_self _⟩

end Interval

theorem classify_nonStrict_iff {lower upper threshold : Binary64}
    (ht : threshold.isNan = false) (hle : lower ≤ upper) :
    (classify .nonStrict lower upper threshold = .no ↔ threshold < lower) ∧
      (classify .nonStrict lower upper threshold = .yes ↔
        upper ≤ threshold) := by
  obtain ⟨hlower, hupper⟩ := isNan_of_le hle
  have hvalue : classify .nonStrict lower upper threshold =
      if threshold < lower then .no
      else if threshold < upper then .maybe else .yes := by
    rw [classify, hlower, hupper]
    rfl
  refine ⟨⟨classify_nonStrict_no, fun h => by rw [hvalue, if_pos h]⟩,
    fun h => classify_nonStrict_yes h ht, fun h => ?_⟩
  have hlow := (le_iff.1 (le_of_le_of_le hle h)).2.2
  have hhigh := (le_iff.1 h).2.2
  rw [hvalue, if_neg fun hlt => (lt_iff.1 hlt).2.2.not_ge hlow,
    if_neg fun hlt => (lt_iff.1 hlt).2.2.not_ge hhigh]

theorem aggregate_map_eq_notRobust {rivals : List Nat}
    {verdictOf : Nat → DisjunctVerdict}
    (hcompetitor : ∀ i, (verdictOf i).competitor = i) {i : Nat} :
    aggregate (rivals.map verdictOf) = .notRobust i ↔
      rivals.find? (fun j => (verdictOf j).verdict == .yes) = some i := by
  rw [aggregate_eq_notRobust_iff, List.find?_map]
  constructor
  · rintro ⟨v, hfind, rfl⟩
    obtain ⟨j, hj, rfl⟩ := Option.map_eq_some_iff.1 hfind
    rw [hcompetitor]
    exact hj
  · intro hfind
    exact ⟨verdictOf i, Option.map_eq_some_iff.2 ⟨i, hfind, rfl⟩,
      hcompetitor i⟩

/-- A search for less finds the same as a search for more if it hits there. -/
theorem find?_eq_some_iff_of_imp {α : Type} {p q : α → Bool} {items : List α}
    {a : α} (himp : ∀ b ∈ items, q b = true → p b = true)
    (h : items.find? p = some a) : items.find? q = some a ↔ q a = true := by
  refine ⟨List.find?_some, fun hq => ?_⟩
  obtain ⟨hp, before, after, rfl, hbefore⟩ := List.find?_eq_some_iff_append.1 h
  refine List.find?_eq_some_iff_append.2 ⟨hq, before, after, rfl, ?_⟩
  intro b hb
  have hpb := hbefore b hb
  cases hqb : q b with
  | false => rfl
  | true =>
      rw [himp b (List.mem_append_left _ hb) hqb] at hpb
      cases hpb

namespace Box

variable {values : List Binary64} {label i : Nat} {own rival : Binary64}

/-- Whether two scores are told apart after a product with one: the rival's is
below, or the own one is not above. -/
def ToldApart (own rival : Binary64) : Prop :=
  mulUp 1 rival < mulDown 1 own ∨ mulUp 1 own ≤ mulDown 1 rival

instance (own rival : Binary64) : Decidable (ToldApart own rival) :=
  inferInstanceAs (Decidable (_ ∨ _))

/-- Whether the score of a class is as high as the own one. -/
def reaches (values : List Binary64) (own : Binary64) (i : Nat) : Bool :=
  (values[i]?).any fun rival => Decidable.decide (own ≤ rival)

/-- What comparing the scores answers: the label loses to the first other class
whose score is as high as its own, and wins if there is none. -/
def compared (values : List Binary64) (label : Nat) (own : Binary64) :
    Outcome :=
  match (competitors values.length label).find? (reaches values own) with
  | some i => .notRobust i
  | none => .robust

theorem reaches_iff (hrival : values[i]? = some rival) :
    reaches values own i = true ↔ own ≤ rival := by
  rw [reaches, hrival]
  exact decide_eq_true_iff

/-- The box of a single point. -/
def ofPoint (values : List Binary64) : Box :=
  ⟨widened 0 values, widened 0 values⟩

section Scores

variable (hown : own.isFinite = true) (hrival : rival.isFinite = true)

include hown hrival

theorem mulUp_lt_mulDown_iff : mulUp 1 rival < mulDown 1 own ↔
    (mulUp 1 rival).toEReal < (mulDown 1 own).toEReal := by
  have hup := isNan_mulUp (x := 1) rfl (isNan_of_isFinite hrival)
  have hdown := isNan_mulDown (x := 1) rfl (isNan_of_isFinite hown)
  exact lt_iff.trans ⟨fun h => h.2.2, fun h => ⟨hup, hdown, h⟩⟩

theorem mulUp_le_mulDown_iff : mulUp 1 own ≤ mulDown 1 rival ↔
    (mulUp 1 own).toEReal ≤ (mulDown 1 rival).toEReal := by
  have hup := isNan_mulUp (x := 1) rfl (isNan_of_isFinite hown)
  have hdown := isNan_mulDown (x := 1) rfl (isNan_of_isFinite hrival)
  exact le_iff.trans ⟨fun h => h.2.2, fun h => ⟨hup, hdown, h⟩⟩

theorem le_of_mulUp_le_mulDown (h : mulUp 1 own ≤ mulDown 1 rival) :
    own ≤ rival := by
  have hown_nan := isNan_of_isFinite hown
  have hrival_nan := isNan_of_isFinite hrival
  rw [mulUp_le_mulDown_iff hown hrival] at h
  exact le_iff.2 ⟨hown_nan, hrival_nan,
    (le_mulUp_one hown_nan).trans (h.trans (mulDown_one_le hrival_nan))⟩

theorem not_le_of_mulUp_lt_mulDown (h : mulUp 1 rival < mulDown 1 own) :
    ¬ own ≤ rival := by
  intro hle
  rw [mulUp_lt_mulDown_iff hown hrival] at h
  exact (le_iff.1 hle).2.2.not_gt ((le_mulUp_one
    (isNan_of_isFinite hrival)).trans_lt
      (h.trans_le (mulDown_one_le (isNan_of_isFinite hown))))

theorem toldApart_of_large
    (hown_large : own.isZero = true ∨ ¬ own.abs < underflowGuard)
    (hrival_large : rival.isZero = true ∨ ¬ rival.abs < underflowGuard) :
    ToldApart own rival := by
  obtain ⟨hdown, hup⟩ := directed_one_of_large hown hown_large
  obtain ⟨hdown', hup'⟩ := directed_one_of_large hrival hrival_large
  rw [ToldApart, mulUp_lt_mulDown_iff hown hrival,
    mulUp_le_mulDown_iff hown hrival, hdown, hup, hdown', hup']
  exact lt_or_ge _ _

end Scores

theorem ofPoints_eq_ofPoint (hfinite : ∀ x ∈ values, x.isFinite = true) :
    ofPoints values values 0 = .ok (ofPoint values) := by
  refine (ofPoints_eq_ok_iff rfl toEReal_zero.ge).2 ⟨rfl, ?_, rfl⟩
  intro i _ low high hlow hhigh
  cases hlow.symm.trans hhigh
  have hfin := hfinite low (List.mem_of_getElem? hlow)
  have hnan := isNan_of_isFinite hfin
  exact ⟨hfin, hfin, le_iff.2 ⟨hnan, hnan, le_rfl⟩⟩

section Wide

variable (hfinite : ∀ x ∈ values, x.isFinite = true)
  (hwide : 2 ≤ values.length) (hown : values[label]? = some own)

include hfinite hwide hown

/-- The verdict on a rival compares the two scores after a product with
one. -/
theorem verdict_on_points (hrival : values[i]? = some rival)
    (hne : i ≠ label) :
    (((ofPoint values).verdictOn label 0 i).verdict = .no ↔
        mulUp 1 rival < mulDown 1 own) ∧
      (((ofPoint values).verdictOn label 0 i).verdict = .yes ↔
        mulUp 1 own ≤ mulDown 1 rival) := by
  have hbox := proper_of_ofPoints rfl toEReal_zero.ge
    (ofPoints_eq_ofPoint hfinite)
  have hcell : ∀ {k : Nat} {x : Binary64}, values[k]? = some x →
      (widened 0 values).cells[k]? = some (around x 0) := by
    intro k x hx
    show (values.map _)[k]? = _
    rw [List.getElem?_map, hx]
    rfl
  have hone : (ofPoint values).dim ≠ 1 := by
    show (values.map _).length ≠ 1
    rw [List.length_map]
    omega
  have hown_fin := hfinite own (List.mem_of_getElem? hown)
  have hrival_fin := hfinite rival (List.mem_of_getElem? hrival)
  obtain ⟨m, hm⟩ := exists_units hown_fin
  obtain ⟨n, hn⟩ := exists_units hrival_fin
  have hvalid := fun {x : Binary64} {k : Int} (hx : x.units? = some k) =>
    inf_le_sup_of_mem
      (mem_around (t := 0) (isNan_of_units hx) rfl toEReal_zero.ge)
  have hle : (lead (around own 0) (around rival 0)).inf ≤
      (lead (around own 0) (around rival 0)).sup :=
    add_inf_le_sup (mul_inf_le_sup (by decide) (hvalid hm))
      (mul_inf_le_sup (by decide) (hvalid hn))
  rw [verdict_of_wide hbox hone hne (hcell hown) (hcell hown) (hcell hrival)
    (hcell hrival), (classify_nonStrict_iff rfl hle).1,
    (classify_nonStrict_iff rfl hle).2, zero_lt_lead_iff (hvalid hm) (hvalid hn),
    lead_le_zero_iff (hvalid hm) (hvalid hn)
      (isFinite_of_units (units?_around hm rfl).2)
      (isFinite_of_units (units?_around hn rfl).1),
    (one_mul_around_zero hm).1, (one_mul_around_zero hm).2,
    (one_mul_around_zero hn).1, (one_mul_around_zero hn).2,
    mulUp_lt_mulDown_iff hown_fin hrival_fin,
    mulUp_le_mulDown_iff hown_fin hrival_fin]
  exact ⟨Iff.rfl, Iff.rfl⟩

/-- If all rivals are behind, each of them has to be told apart. -/
theorem fullOutcome_eq_robust_iff
    (hbehind : (competitors values.length label).find? (reaches values own) =
      none) :
    (ofPoint values).fullOutcome label 0 = .robust ↔
      ∀ i rival, i ≠ label → values[i]? = some rival → ToldApart own rival := by
  have hdim : (ofPoint values).dim = values.length := List.length_map _
  have hown_fin := hfinite own (List.mem_of_getElem? hown)
  rw [fullOutcome, hdim, aggregate_eq_robust, List.forall_mem_map]
  constructor
  · intro hno i rival hne hrival
    have hi := (List.getElem?_eq_some_iff.1 hrival).1
    have hverdict := hno i ((mem_competitors_of_wide (by omega)).2 ⟨hi, hne⟩)
    exact .inl ((verdict_on_points hfinite hwide hown hrival hne).1.1 hverdict)
  · intro htold i hi
    have hbehind := List.find?_eq_none.1 hbehind i hi
    obtain ⟨hlt, hne⟩ := (mem_competitors_of_wide (by omega)).1 hi
    have hrival := List.getElem?_eq_getElem hlt
    have hrival_fin := hfinite _ (List.mem_of_getElem? hrival)
    rw [reaches_iff hrival] at hbehind
    refine (verdict_on_points hfinite hwide hown hrival hne).1.2 ?_
    rcases htold i _ hne hrival with h | h
    · exact h
    · exact absurd (le_of_mulUp_le_mulDown hown_fin hrival_fin h) hbehind

/-- If some rival is not behind, the first one has to be told apart: no verdict
before it is yes. -/
theorem fullOutcome_eq_notRobust_iff
    (hfirst : (competitors values.length label).find? (reaches values own) =
      some i) (hrival : values[i]? = some rival) :
    (ofPoint values).fullOutcome label 0 = .notRobust i ↔
      ToldApart own rival := by
  have hdim : (ofPoint values).dim = values.length := List.length_map _
  have hown_fin := hfinite own (List.mem_of_getElem? hown)
  have hrival_fin := hfinite rival (List.mem_of_getElem? hrival)
  obtain ⟨-, hne⟩ :=
    (mem_competitors_of_wide (by omega)).1 (List.mem_of_find?_eq_some hfirst)
  have hle := (reaches_iff hrival).1 (List.find?_some hfirst)
  have himp : ∀ j ∈ competitors values.length label,
      (((ofPoint values).verdictOn label 0 j).verdict == .yes) = true →
        reaches values own j = true := by
    intro j hj hyes
    obtain ⟨hlt, hne⟩ := (mem_competitors_of_wide (by omega)).1 hj
    have hother := List.getElem?_eq_getElem hlt
    have hup := (verdict_on_points hfinite hwide hown hother hne).2.1
      (eq_of_beq hyes)
    exact (reaches_iff hother).2 (le_of_mulUp_le_mulDown hown_fin
      (hfinite _ (List.mem_of_getElem? hother)) hup)
  rw [fullOutcome, hdim, aggregate_map_eq_notRobust fun _ => rfl,
    find?_eq_some_iff_of_imp himp hfirst, beq_iff_eq,
    (verdict_on_points hfinite hwide hown hrival hne).2, ToldApart]
  exact (or_iff_right fun h =>
    not_le_of_mulUp_lt_mulDown hown_fin hrival_fin h hle).symm

/-- The full check answers what comparing the scores answers if and only if the
label is told apart from each rival that this answer is about. -/
theorem fullOutcome_eq_compared_iff :
    (ofPoint values).fullOutcome label 0 = compared values label own ↔
      ∀ i rival, i ≠ label → values[i]? = some rival →
        compared values label own = .robust ∨
          compared values label own = .notRobust i →
        ToldApart own rival := by
  cases hfind : (competitors values.length label).find?
      (reaches values own) with
  | none =>
      have hcompared : compared values label own = .robust := by
        rw [compared, hfind]
      rw [hcompared, fullOutcome_eq_robust_iff hfinite hwide hown hfind]
      exact ⟨fun h i rival hne hrival _ => h i rival hne hrival,
        fun h i rival hne hrival => h i rival hne hrival (.inl rfl)⟩
  | some i =>
      have hcompared : compared values label own = .notRobust i := by
        rw [compared, hfind]
      obtain ⟨hlt, hne⟩ :=
        (mem_competitors_of_wide (by omega)).1 (List.mem_of_find?_eq_some hfind)
      have hrival := List.getElem?_eq_getElem hlt
      rw [hcompared, fullOutcome_eq_notRobust_iff hfinite hwide hown hfind
        hrival]
      constructor
      · rintro h j other - hother (hj | hj)
        · cases hj
        · cases hj
          cases hrival.symm.trans hother
          exact h
      · intro h
        exact h i _ hne hrival (.inr rfl)

end Wide

/-- The full check decides every point box of two or more scores as comparing
the scores does, if and only if the products with one tell the label apart from
each rival that the answer is about. They do so for scores that are zero or not
below the underflow guard. -/
theorem checkFull_on_points (hfinite : ∀ x ∈ values, x.isFinite = true)
    (hwide : 2 ≤ values.length) (hown : values[label]? = some own) :
    ∃ box verdicts, Box.ofPoints values values 0 = .ok box ∧
      box.checkFull label 0 = .ok verdicts ∧
      (aggregate verdicts = compared values label own ↔
        ∀ i rival, i ≠ label → values[i]? = some rival →
          compared values label own = .robust ∨
            compared values label own = .notRobust i →
          ToldApart own rival) ∧
      ((∀ x ∈ values, x.isZero = true ∨ ¬ x.abs < underflowGuard) →
        aggregate verdicts = compared values label own) := by
  have hok := ofPoints_eq_ofPoint hfinite
  have hbox := proper_of_ofPoints rfl toEReal_zero.ge hok
  have hdim : (ofPoint values).dim = values.length := List.length_map _
  have hlt := (List.getElem?_eq_some_iff.1 hown).1
  have hlabel : checkLabel (ofPoint values).dim label = .ok () := by
    rw [checkLabel_eq_ok, hdim, classCount, if_neg (by omega)]
    exact ⟨by omega, hlt⟩
  have hiff := fullOutcome_eq_compared_iff hfinite hwide hown
  refine ⟨_, _, hok, checkFull_eq_ok hbox.toAccepted hlabel 0, hiff, ?_⟩
  intro hlarge
  refine hiff.2 fun i rival _ hrival _ => ?_
  have hown_mem := List.mem_of_getElem? hown
  have hrival_mem := List.mem_of_getElem? hrival
  exact toldApart_of_large (hfinite own hown_mem) (hfinite rival hrival_mem)
    (hlarge own hown_mem) (hlarge rival hrival_mem)

/-- Three scores: a tie of the first two, and one ahead of them. -/
theorem checkFull_on_points_sample :
    (∀ x ∈ [1, 1, ofBits 0x4000000000000000], x.isFinite = true) ∧
    ([1, 1, ofBits 0x4000000000000000] : List Binary64)[1]? = some 1 ∧
    ∃ box verdicts,
      Box.ofPoints [1, 1, ofBits 0x4000000000000000]
        [1, 1, ofBits 0x4000000000000000] 0 = .ok box ∧
      box.checkFull 1 0 = .ok verdicts ∧ aggregate verdicts = .notRobust 0 := by
  have hfinite : ∀ x ∈ [1, 1, ofBits 0x4000000000000000],
      x.isFinite = true := by decide
  obtain ⟨box, verdicts, hbox, hverdicts, -, houtcome⟩ :=
    @checkFull_on_points _ 1 1 hfinite (by decide) rfl
  exact ⟨hfinite, rfl, box, verdicts, hbox, hverdicts,
    (houtcome (by decide)).trans (by decide)⟩

/-- A score of one unit, and a score of zero. -/
def closeScores : List Binary64 := [ofBits 1, 0]

/-- The higher score of a point box does not always win: one unit times one is
rounded down to zero. -/
theorem unresolved_on_point :
    (∀ x ∈ closeScores, x.isFinite = true) ∧ (0 : Binary64) < ofBits 1 ∧
    compared closeScores 0 (ofBits 1) = .robust ∧
    ∃ box verdicts, Box.ofPoints closeScores closeScores 0 = .ok box ∧
      box.checkFull 0 0 = .ok verdicts ∧
      aggregate verdicts = .unresolved [1] := by
  obtain ⟨box, hbox, hrun⟩ := exists_ok_of_toOption
    (show (Box.ofPoints closeScores closeScores 0).toOption.map
      (fun box => (box.checkFull 0 0).toOption.map aggregate) =
        some (some (.unresolved [1]))
      by decide +kernel)
  obtain ⟨verdicts, hverdicts, houtcome⟩ := exists_ok_of_toOption hrun
  exact ⟨by decide, by decide, by decide, box, verdicts, hbox, hverdicts,
    houtcome⟩

end Box

end BoxCert
