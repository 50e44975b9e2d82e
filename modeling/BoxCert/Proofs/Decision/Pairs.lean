import BoxCert.Proofs.Decision.Agreement

/-!
# A disjunct looks at two classes

The lead over a competitor is computed as a sum over all scores, with zeros as
coefficients of the other classes. Zero annihilates every interval, also an
unbounded one, so nothing of the other classes is left in the sum. The verdict
on a competitor is a function of the scores of two classes: it is the same in
any box of any dimension that has these scores in any two places, and the sign
of a zero in them does not show either.

Where the ends of the two scores are out of reach of the underflow guard, the
bounds of the lead are their directed differences.
-/

namespace BoxCert

open Binary64 BoxCert.Interval

namespace Interval

variable {a b c own own' rival rival' : Interval}

/-- A product is the same for intervals of the same ends, to the last bit. -/
theorem mul_congr (h : a.sameEnds b = true) (c : Interval) : c * a = c * b := by
  obtain ⟨hinf, hsup⟩ := sameEnds_iff.1 h
  show Interval.mk _ _ = Interval.mk _ _
  rw [(Binary64.mul_congr hinf c.inf).1, (Binary64.mul_congr hsup c.inf).1,
    (Binary64.mul_congr hinf c.sup).1, (Binary64.mul_congr hsup c.sup).1,
    (Binary64.mul_congr hinf c.inf).2, (Binary64.mul_congr hsup c.inf).2,
    (Binary64.mul_congr hinf c.sup).2, (Binary64.mul_congr hsup c.sup).2]

theorem lead_congr (hown : own.sameEnds own' = true)
    (hrival : rival.sameEnds rival' = true) :
    lead own rival = lead own' rival' := by
  rw [lead, lead, mul_congr hown, mul_congr hrival]

section Ends

variable (hown : own.inf ≤ own.sup) (hrival : rival.inf ≤ rival.sup)

include hown hrival

/-- The lower end of a lead between guarded ends is their difference rounded
downwards. -/
theorem lead_inf_of_guarded (hinf : own.inf.IsGuarded)
    (hsup : rival.sup.IsGuarded) :
    (lead own rival).inf.sameValue (own.inf.addDown (-rival.sup)) = true := by
  have hownn := (isNan_of_le hown).1
  have hrivaln := (isNan_of_le hrival).2
  refine (add_congr ?_ ?_).1
  · refine sameValue_of_toEReal (mem_point_one_mul (inf_mem hown)).inf_isNan
      hownn ?_
    rw [(one_mul_ends hown).1, (hinf.directed_one hownn).1]
  · refine sameValue_of_toEReal
      (neg_mem_point_neg_one_mul (sup_mem hrival)).inf_isNan
      (by rwa [isNan_neg]) ?_
    rw [(neg_one_mul_ends hrival).1, (one_mul_ends hrival).2,
      (hsup.directed_one hrivaln).2, toEReal_neg]

theorem lead_sup_of_guarded (hsup : own.sup.IsGuarded)
    (hinf : rival.inf.IsGuarded) :
    (lead own rival).sup.sameValue (own.sup.addUp (-rival.inf)) = true := by
  have hownn := (isNan_of_le hown).2
  have hrivaln := (isNan_of_le hrival).1
  refine (add_congr ?_ ?_).2
  · refine sameValue_of_toEReal (mem_point_one_mul (sup_mem hown)).sup_isNan
      hownn ?_
    rw [(one_mul_ends hown).2, (hsup.directed_one hownn).2]
  · refine sameValue_of_toEReal
      (neg_mem_point_neg_one_mul (inf_mem hrival)).sup_isNan
      (by rwa [isNan_neg]) ?_
    rw [(neg_one_mul_ends hrival).2, (one_mul_ends hrival).1,
      (hinf.directed_one hrivaln).1, toEReal_neg]

end Ends

end Interval

/-- Verdicts that agree in everything but the index of the competitor. -/
structure DisjunctVerdict.Alike (v v' : DisjunctVerdict) : Prop where
  verdict : v.verdict = v'.verdict
  lower : v.lower.sameValue v'.lower = true
  upper : v.upper.sameValue v'.upper = true

namespace Box

variable {box box' : Box} {label label' i i' : Nat} {threshold : Binary64}

/-- Whether a component of one box has the ends of a component of another box:
the same two intervals, but for the sign of a zero. -/
structure SameScore (box : Box) (k : Nat) (box' : Box) (k' : Nat) : Prop where
  lower : ∃ l l', box.lower.cells[k]? = some l ∧
    box'.lower.cells[k']? = some l' ∧ l.sameEnds l' = true
  upper : ∃ u u', box.upper.cells[k]? = some u ∧
    box'.upper.cells[k']? = some u' ∧ u.sameEnds u' = true

/-- Whether the bounds of a verdict are the directed differences of the ends
they rest on, wherever those ends are guarded. -/
structure BoundsLead (box : Box) (label : Nat) (v : DisjunctVerdict) :
    Prop where
  lower : ∀ own rival, box.lower.cells[label]? = some own →
    box.upper.cells[v.competitor]? = some rival → own.inf.IsGuarded →
    rival.sup.IsGuarded →
    v.lower.sameValue (own.inf.addDown (-rival.sup)) = true
  upper : ∀ own rival, box.upper.cells[label]? = some own →
    box.lower.cells[v.competitor]? = some rival → own.sup.IsGuarded →
    rival.inf.IsGuarded →
    v.upper.sameValue (own.sup.addUp (-rival.inf)) = true

/-- The full check gives exactly one verdict on a competitor. -/
theorem filter_verdicts (hi : i ∈ competitors box.dim label)
    (threshold : Binary64) :
    ((competitors box.dim label).map (box.verdictOn label threshold)).filter
      (·.competitor == i) = [box.verdictOn label threshold i] := by
  have hnodup := (competitors_pairwise box.dim label).imp fun h => Nat.ne_of_lt h
  rw [List.filter_map]
  show ((competitors box.dim label).filter (· == i)).map _ = _
  rw [List.filter_beq, List.count_eq_one_of_mem hnodup hi]
  rfl

theorem boundsLead_verdictOn (hbox : box.Proper) (hone : box.dim ≠ 1)
    (hlabel : label < box.dim) (hi : i < box.dim) (hne : i ≠ label) :
    box.BoundsLead label (box.verdictOn label threshold i) := by
  obtain ⟨l, u, hl, hu⟩ := hbox.exists_ends hlabel
  obtain ⟨l', u', hl', hu'⟩ := hbox.exists_ends hi
  rw [verdictOn_of_wide hbox hone hne hl hu hl' hu']
  constructor
  · intro own rival hown hrival hguard hguard'
    cases hl.symm.trans hown
    cases hu'.symm.trans hrival
    exact lead_inf_of_guarded (hbox.lower_inf_le_sup hl)
      (hbox.upper_inf_le_sup hu') hguard hguard'
  · intro own rival hown hrival hguard hguard'
    cases hu.symm.trans hown
    cases hl'.symm.trans hrival
    exact lead_sup_of_guarded (hbox.upper_inf_le_sup hu)
      (hbox.lower_inf_le_sup hl') hguard hguard'

theorem alike_verdictOn (hbox : box.Proper) (hbox' : box'.Proper)
    (hone : box.dim ≠ 1) (hone' : box'.dim ≠ 1) (hne : i ≠ label)
    (hne' : i' ≠ label') (hown : box.SameScore label box' label')
    (hrival : box.SameScore i box' i') :
    (box.verdictOn label threshold i).Alike
      (box'.verdictOn label' threshold i') := by
  obtain ⟨⟨l, m, hl, hm, hlm⟩, u, v, hu, hv, huv⟩ := hown
  obtain ⟨⟨l', m', hl', hm', hlm'⟩, u', v', hu', hv', huv'⟩ := hrival
  obtain ⟨hlower, hupper⟩ := verdictOn_nanFree hbox label i threshold
  rw [verdictOn_of_wide hbox hone hne hl hu hl' hu'] at hlower hupper ⊢
  rw [verdictOn_of_wide hbox' hone' hne' hm hv hm' hv', ← lead_congr hlm huv',
    ← lead_congr huv hlm']
  exact ⟨rfl, sameValue_of_toEReal hlower hlower rfl,
    sameValue_of_toEReal hupper hupper rfl⟩

/-- The verdict on a competitor depends on two scores only. In any two accepted
boxes of two or more scores, if the label and the competitor have the same
ends in the one as in the other, the full check gives exactly one verdict on
the competitor in each, and these agree for every threshold, wherever the two
classes stand and whatever the other scores are. Where the ends are guarded,
the bounds of the lead are their directed differences. -/
theorem checkFull_of_two_scores
    (haccepted : ofColumns box.lower box.upper = .ok box)
    (hcells : ∀ a ∈ box.lower.cells ++ box.upper.cells, a.inf ≤ a.sup)
    (haccepted' : ofColumns box'.lower box'.upper = .ok box')
    (hcells' : ∀ a ∈ box'.lower.cells ++ box'.upper.cells, a.inf ≤ a.sup)
    (hdim : 2 ≤ box.dim) (hdim' : 2 ≤ box'.dim)
    (hne : i ≠ label) (hne' : i' ≠ label')
    (hown : box.SameScore label box' label')
    (hrival : box.SameScore i box' i') (threshold : Binary64) :
    ∃ verdicts verdicts' v v',
      box.checkFull label threshold = .ok verdicts ∧
      box'.checkFull label' threshold = .ok verdicts' ∧
      verdicts.filter (·.competitor == i) = [v] ∧
      verdicts'.filter (·.competitor == i') = [v'] ∧
      v.Alike v' ∧ box.BoundsLead label v ∧ box'.BoundsLead label' v' := by
  have hbox := proper_of_cells haccepted hcells
  have hbox' := proper_of_cells haccepted' hcells'
  have hone : box.dim ≠ 1 := by omega
  have hone' : box'.dim ≠ 1 := by omega
  obtain ⟨l, m, hl, hm, -⟩ := hown.lower
  obtain ⟨l', m', hl', hm', -⟩ := hrival.lower
  have hlabel := hbox.exists_lower_iff.1 ⟨l, hl⟩
  have hlabel' := hbox'.exists_lower_iff.1 ⟨m, hm⟩
  have hi := hbox.exists_lower_iff.1 ⟨l', hl'⟩
  have hi' := hbox'.exists_lower_iff.1 ⟨m', hm'⟩
  exact ⟨_, _, _, _,
    checkFull_eq_ok hbox.toAccepted (checkLabel_of_lt hone hlabel) threshold,
    checkFull_eq_ok hbox'.toAccepted (checkLabel_of_lt hone' hlabel') threshold,
    filter_verdicts ((mem_competitors_of_wide hone).2 ⟨hi, hne⟩) threshold,
    filter_verdicts ((mem_competitors_of_wide hone').2 ⟨hi', hne'⟩) threshold,
    alike_verdictOn hbox hbox' hone hone' hne hne' hown hrival,
    boundsLead_verdictOn hbox hone hlabel hi hne,
    boundsLead_verdictOn hbox' hone' hlabel' hi' hne'⟩

/-- A score between one and two, and one between zero and a half. -/
def pairSample : Box :=
  ⟨.column [⟨1, 1⟩, ⟨0, 0⟩],
    .column [⟨1, ofBits 0x4000000000000000⟩,
      ⟨0, ofBits 0x3FE0000000000000⟩]⟩

/-- The same two scores in the other order, among scores without bounds. -/
def crowdSample : Box :=
  ⟨.column [⟨negInfinity, 0⟩, ⟨-0, 0⟩, ⟨infinity, infinity⟩, ⟨1, 1⟩],
    .column [⟨0, infinity⟩, ⟨0, ofBits 0x3FE0000000000000⟩,
      ⟨infinity, infinity⟩, ⟨1, ofBits 0x4000000000000000⟩]⟩

theorem checkFull_of_two_scores_crowdSample :
    ofColumns pairSample.lower pairSample.upper = .ok pairSample ∧
    ofColumns crowdSample.lower crowdSample.upper = .ok crowdSample ∧
    pairSample.SameScore 0 crowdSample 3 ∧
    pairSample.SameScore 1 crowdSample 1 ∧
    ∃ verdicts verdicts' v v', pairSample.checkFull 0 0 = .ok verdicts ∧
      crowdSample.checkFull 3 0 = .ok verdicts' ∧
      verdicts.filter (·.competitor == 1) = [v] ∧
      verdicts'.filter (·.competitor == 1) = [v'] ∧ v.Alike v' ∧
      v.lower.sameValue (addDown 1 (-(ofBits 0x3FE0000000000000))) = true ∧
      v'.upper.sameValue (addUp (ofBits 0x4000000000000000) (-(-0))) = true := by
  have haccepted : ofColumns pairSample.lower pairSample.upper =
      .ok pairSample := rfl
  have haccepted' : ofColumns crowdSample.lower crowdSample.upper =
      .ok crowdSample := rfl
  have hown : pairSample.SameScore 0 crowdSample 3 :=
    ⟨⟨_, _, rfl, rfl, by decide⟩, _, _, rfl, rfl, by decide⟩
  have hrival : pairSample.SameScore 1 crowdSample 1 :=
    ⟨⟨_, _, rfl, rfl, by decide⟩, _, _, rfl, rfl, by decide⟩
  obtain ⟨verdicts, verdicts', v, v', hverdicts, hverdicts', hv, hv', halike,
      hlead, hlead'⟩ :=
    checkFull_of_two_scores haccepted (by decide) haccepted' (by decide)
      (by decide) (by decide) (by decide) (by decide) hown hrival 0
  have hmem := List.mem_filter.1 (hv ▸ List.mem_singleton_self v :
    v ∈ verdicts.filter (·.competitor == 1))
  have hmem' := List.mem_filter.1 (hv' ▸ List.mem_singleton_self v' :
    v' ∈ verdicts'.filter (·.competitor == 1))
  refine ⟨haccepted, haccepted', hown, hrival, verdicts, verdicts', v, v',
    hverdicts, hverdicts', hv, hv', halike, ?_, ?_⟩
  · exact hlead.lower ⟨1, 1⟩ ⟨0, ofBits 0x3FE0000000000000⟩ rfl
      (by rw [eq_of_beq hmem.2]; rfl) (by decide) (by decide)
  · exact hlead'.upper ⟨1, ofBits 0x4000000000000000⟩ ⟨-0, 0⟩ rfl
      (by rw [eq_of_beq hmem'.2]; rfl) (by decide) (by decide)

end Box

end BoxCert
