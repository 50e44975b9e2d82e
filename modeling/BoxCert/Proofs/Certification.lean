import BoxCert.Proofs.Checked
import BoxCert.Proofs.Decision.Verdict
import BoxCert.Proofs.Propagation

/-!
# Runs of certification

A run that succeeds has gone through every stage: the tolerance and the label
were accepted, the corners of the property make a proper input box, and the
output box is the image of that box. The scores a run is about are the exact
ones of the given parameters; the layer stands for them and for every shift of
the bias within the tolerance, which is what the thresholds play against.
-/

namespace BoxCert

open Binary64 BoxCert.Interval

/-! ## Exact scores -/

/-- The exact score of an output at a real point. -/
noncomputable def score (weight : Grid Binary64) (bias : List Binary64)
    (x : Fin weight.cols → ℝ) (i : Nat) : ℝ :=
  ∑ k : Fin weight.cols, (weight.cell? i k).elim 0 toReal * x k +
    (bias[i]?).elim 0 toReal

/-- Whether a real point lies between the corners of a property. -/
structure Property.Covers {n : Nat} (p : Property) (x : Fin n → ℝ) : Prop where
  lower_le : ∀ (k : Fin n) a, p.lower[k.val]? = some a → a.toReal ≤ x k
  le_upper : ∀ (k : Fin n) a, p.upper[k.val]? = some a → x k ≤ a.toReal

namespace Layer

variable {l : Layer}

theorem toReal_tolerance_nonneg (l : Layer) : 0 ≤ l.tolerance.toReal := by
  obtain ⟨hfin, hpos⟩ := isTolerance_iff.1 l.isTolerance_tolerance
  rwa [toEReal_of_isFinite hfin, EReal.coe_nonneg] at hpos

theorem add_mem_around (l : Layer) {p : Binary64} (hp : p.isFinite = true)
    {d : ℝ} (hd : |d| ≤ l.tolerance.toReal) :
    ((p.toReal + d : ℝ) : EReal) ∈ around p l.tolerance := by
  obtain ⟨hfin, hpos⟩ := isTolerance_iff.1 l.isTolerance_tolerance
  obtain ⟨hinf, hle⟩ := around_inf_le (isNan_of_isFinite hp)
    (isNan_of_isFinite hfin) hpos
  obtain ⟨hsup, hge⟩ := le_around_sup (isNan_of_isFinite hp)
    (isNan_of_isFinite hfin) hpos
  rw [toEReal_of_isFinite hp, toEReal_of_isFinite hfin] at hle hge
  obtain ⟨hlow, hhigh⟩ := abs_le.1 hd
  refine ⟨hinf, hsup, hle.trans ?_, le_trans ?_ hge⟩
  · exact_mod_cast (by linarith : p.toReal - l.tolerance.toReal ≤ p.toReal + d)
  · exact_mod_cast (by linarith : p.toReal + d ≤ p.toReal + l.tolerance.toReal)

/-- The layer stands for its own parameters, with the bias shifted within the
tolerance. -/
theorem admits_shifted (l : Layer) {d : Fin l.outputs → ℝ}
    (hd : ∀ i, |d i| ≤ l.tolerance.toReal) :
    l.Admits (fun i k => (l.weightPoints.cell? i k).elim 0 toReal)
      (fun i => (l.biasPoints[i.val]?).elim 0 toReal + d i) := by
  constructor
  · intro i k a ha
    rw [weight, Grid.cell?_map, Option.map_eq_some_iff] at ha
    obtain ⟨p, hp, rfl⟩ := ha
    have hfin := l.finite p (List.mem_append_left _ (Grid.mem_of_cell? hp))
    have hmem := l.add_mem_around hfin (d := 0)
      (by rw [abs_zero]; exact l.toReal_tolerance_nonneg)
    rw [hp]
    rwa [add_zero] at hmem
  · intro i a ha
    have hmap : l.bias.cells =
        l.biasPoints.map (Interval.around · l.tolerance) := rfl
    rw [hmap, List.getElem?_map, Option.map_eq_some_iff] at ha
    obtain ⟨p, hp, rfl⟩ := ha
    have hfin := l.finite p (List.mem_append_right _ (List.mem_of_getElem? hp))
    rw [hp]
    exact l.add_mem_around hfin (hd i)

end Layer

/-! ## The input box -/

theorem isFinite_of_pairFault? {i : Nat} {a b : Binary64}
    (h : Box.pairFault? i a b = none) :
    a.isFinite = true ∧ b.isFinite = true := by
  unfold Box.pairFault? at h
  split at h
  · cases h
  · next hfin => simpa using hfin

theorem Box.of_cornerFault?_eq_none {lower upper : List Binary64}
    (h : cornerFault? lower upper = none) :
    lower.length = upper.length ∧ ∀ (i : Nat) (low high : Binary64),
      lower[i]? = some low → upper[i]? = some high →
        pairFault? i low high = none := by
  unfold cornerFault? at h
  split at h
  · cases h
  · next hlength =>
      refine ⟨not_not.1 hlength, fun i low high hlow hhigh => ?_⟩
      refine List.findSome?_eq_none_iff.1 h ((low, high), i) ?_
      rw [List.mem_zipIdx_iff_getElem?, List.getElem?_zip_eq_some]
      exact ⟨hlow, hhigh⟩

theorem Box.ofPoints_eq_ok_iff_ofColumns {lower upper : List Binary64}
    {t : Binary64} {b : Box} : ofPoints lower upper t = .ok b ↔
      cornerFault? lower upper = none ∧
        ofColumns (widened t lower) (widened t upper) = .ok b := by
  unfold ofPoints
  split
  · next h => rw [h]; exact iff_of_false nofun nofun
  · next h => rw [h, eq_self_iff_true, true_and]

theorem Box.ofPoints_eq_ok {lower upper : List Binary64} {t : Binary64}
    {b : Box} (h : Box.ofPoints lower upper t = .ok b) :
    lower.length = upper.length ∧
      b = ⟨Box.widened t lower, Box.widened t upper⟩ ∧ b.Accepted ∧
      ∀ x ∈ lower ++ upper, x.isFinite = true := by
  obtain ⟨hfault, h⟩ := Box.ofPoints_eq_ok_iff_ofColumns.1 h
  obtain ⟨hlength, hpair⟩ := Box.of_cornerFault?_eq_none hfault
  obtain ⟨hb, haccepted⟩ := Box.ofColumns_eq_ok.1 h
  refine ⟨hlength, hb, haccepted, fun x hx => ?_⟩
  rcases List.mem_append.1 hx with hx | hx
  · obtain ⟨i, hi, rfl⟩ := List.getElem_of_mem hx
    exact (isFinite_of_pairFault? (hpair i _ _ (List.getElem?_eq_getElem hi)
      (List.getElem?_eq_getElem (hlength ▸ hi)))).1
  · obtain ⟨i, hi, rfl⟩ := List.getElem_of_mem hx
    exact (isFinite_of_pairFault? (hpair i _ _
      (List.getElem?_eq_getElem (hlength ▸ hi))
      (List.getElem?_eq_getElem hi))).2

/-- With a tolerance that is not negative, the box between two corners is
proper. -/
theorem Box.proper_of_ofPoints {lower upper : List Binary64} {t : Binary64}
    {b : Box} (ht : t.isNan = false) (hpos : 0 ≤ t.toEReal)
    (h : Box.ofPoints lower upper t = .ok b) : b.Proper := by
  obtain ⟨-, rfl, haccepted, hfinite⟩ := Box.ofPoints_eq_ok h
  have hmem := fun p (hp : p ∈ lower ++ upper) =>
    mem_around (isNan_of_isFinite (hfinite p hp)) ht hpos
  refine ⟨haccepted, ?_, ?_⟩
  · intro a ha
    obtain ⟨p, hp, rfl⟩ := List.mem_map.1 ha
    exact inf_le_sup_of_mem (hmem p (List.mem_append_left _ hp))
  · intro a ha
    obtain ⟨p, hp, rfl⟩ := List.mem_map.1 ha
    exact inf_le_sup_of_mem (hmem p (List.mem_append_right _ hp))

namespace Settings

variable {s : Settings} {property : Property} {input : Box}

theorem isTolerance_of_check (h : s.check = .ok ()) :
    s.effectiveTolerance.isTolerance = true := by
  unfold check at h
  split at h
  · assumption
  · cases h

/-- The input box of a property is proper and encloses every point between the
corners. -/
theorem inputBox_eq_ok (hcheck : s.check = .ok ())
    (h : s.inputBox property = .ok input) :
    input.Proper ∧ input.dim = property.dim ∧
      ∀ {n : Nat} (x : Fin n → ℝ), property.Covers x → input.Encloses x := by
  obtain ⟨hfin, hpos⟩ := isTolerance_iff.1 (isTolerance_of_check hcheck)
  have hnan := isNan_of_isFinite hfin
  have hproper := Box.proper_of_ofPoints hnan hpos h
  obtain ⟨-, rfl, -, hfinite⟩ := Box.ofPoints_eq_ok h
  have hmem := fun p (hp : p ∈ property.lower ++ property.upper) =>
    mem_around (isNan_of_isFinite (hfinite p hp)) hnan hpos
  have hlower : ∀ p ∈ property.lower, p.isFinite = true := fun p hp =>
    hfinite p (List.mem_append_left _ hp)
  have hupper : ∀ p ∈ property.upper, p.isFinite = true := fun p hp =>
    hfinite p (List.mem_append_right _ hp)
  refine ⟨hproper, List.length_map _, fun {n} x hx => ⟨?_, ?_⟩⟩
  · intro k a ha
    obtain ⟨p, hp, rfl⟩ := Option.map_eq_some_iff.1
      (List.getElem?_map.symm.trans ha)
    have hle := hx.lower_le k p hp
    refine (hmem p
      (List.mem_append_left _ (List.mem_of_getElem? hp))).inf_le.trans ?_
    rw [toEReal_of_isFinite (hlower p (List.mem_of_getElem? hp))]
    exact EReal.coe_le_coe_iff.2 hle
  · intro k a ha
    obtain ⟨p, hp, rfl⟩ := Option.map_eq_some_iff.1
      (List.getElem?_map.symm.trans ha)
    have hle := hx.le_upper k p hp
    refine le_trans ?_
      (hmem p (List.mem_append_right _ (List.mem_of_getElem? hp))).le_sup
    rw [toEReal_of_isFinite (hupper p (List.mem_of_getElem? hp))]
    exact EReal.coe_le_coe_iff.2 hle

/-! ## Stages of a run -/

variable {weight : Grid Binary64} {bias : List Binary64} {order : StorageOrder}
  {layer : Layer} {finding : Finding}

theorem buildLayer_eq_ok (h : s.buildLayer weight bias order = .ok layer) :
    layer.weightPoints = weight ∧ layer.biasPoints = bias ∧
      layer.tolerance = s.effectiveTolerance := by
  unfold buildLayer at h
  cases hcheck : s.check with
  | error fault => rw [hcheck] at h; cases h
  | ok _ =>
      rw [hcheck] at h
      change Layer.build weight bias s.effectiveTolerance order = .ok layer at h
      unfold Layer.build at h
      split at h
      · split at h
        · split at h
          · split at h
            · cases h
            · cases h
              exact ⟨rfl, rfl, rfl⟩
          · cases h
        · cases h
      · cases h

theorem dim_of_propagate {box out : Box} (h : layer.propagate box = .ok out) :
    box.dim = layer.inputs := by
  unfold Layer.propagate at h
  split at h
  · cases h
  · next hdim => exact not_not.1 hdim

/-- What a run that succeeds has gone through: its outcome is the one decided
on the image of the input box. -/
structure Stages (s : Settings) (layer : Layer) (property : Property)
    (box : Box) (decision : Decision) : Prop where
  check : s.check = .ok ()
  label : checkLabel layer.outputs property.label = .ok ()
  input : s.inputBox property = .ok box
  dim : box.dim = layer.inputs
  decide : (layer.image box).decide s.mode property.label
    s.effectiveTolerance = .ok decision

theorem propagate_eq_ok_iff {box out : Box} (hbox : box.Proper) :
    layer.propagate box = .ok out ↔
      box.dim = layer.inputs ∧ out = layer.image box := by
  constructor
  · intro h
    have hdim := dim_of_propagate h
    rw [Layer.propagate_eq_ok hbox hdim] at h
    cases h
    exact ⟨hdim, rfl⟩
  · rintro ⟨hdim, rfl⟩
    exact Layer.propagate_eq_ok hbox hdim

theorem survey_eq_ok_iff {box out : Box} {decision : Decision} :
    s.survey layer property = .ok (box, out, decision) ↔
      s.Stages layer property box decision ∧ out = layer.image box := by
  simp only [survey, bind_eq_ok]
  constructor
  · rintro ⟨_, hcheck, _, hlabel, input, hinput, output, houtput, d, hd, h⟩
    cases h
    have hbox := (inputBox_eq_ok hcheck hinput).1
    obtain ⟨hdim, rfl⟩ := (propagate_eq_ok_iff hbox).1 houtput
    exact ⟨⟨hcheck, hlabel, hinput, hdim, hd⟩, rfl⟩
  · rintro ⟨h, rfl⟩
    -- Propagation is not a stage: it succeeds where the box fits the layer.
    have hbox := (inputBox_eq_ok h.check h.input).1
    exact ⟨_, h.check, _, h.label, _, h.input, _,
      (propagate_eq_ok_iff hbox).2 ⟨h.dim, rfl⟩, _, h.decide, rfl⟩

theorem refined_outcome (d : Decision) : d.refined d.outcome = d := by
  rw [Decision.refined, if_pos rfl]

/-- What a run without a refiner reports of a decision. -/
def findingOf (s : Settings) (layer : Layer) (property : Property) (box : Box)
    (decision : Decision) : Finding where
  outcome := decision.outcome
  label := property.label
  verdicts := decision.verdicts
  outputLower := (layer.image box).lowerEnds
  outputUpper := (layer.image box).upperEnds
  decidedBy := decision.decidedBy
  tolerance := s.effectiveTolerance

/-- A run that goes through all stages reports what was decided, or what the
refiner made of it where that was left open. -/
theorem certifyWith_of_stages {m : Type → Type} [Monad m] (refiner : Refiner m)
    {box : Box} {decision : Decision}
    (h : s.Stages layer property box decision) :
    s.certifyWith refiner layer property = (do
      let final ←
        if decision.outcome.isDecided then pure decision
        else decision.refined <$> refiner ⟨layer, box, property.label,
          decision.verdicts, decision.outcome⟩
      return .ok (s.findingOf layer property box final)) := by
  unfold certifyWith
  rw [survey_eq_ok_iff.2 ⟨h, rfl⟩]
  rfl

theorem certify_of_stages {box : Box} {decision : Decision}
    (h : s.Stages layer property box decision) :
    s.certify layer property =
      .ok (s.findingOf layer property box decision) := by
  rw [certify, certifyWith_of_stages Refiner.keep h]
  split
  · rfl
  · show Except.ok (findingOf s layer property box
      (decision.refined decision.outcome)) = _
    rw [refined_outcome]

/-- A run without a refiner succeeds exactly if it goes through all stages, and
then reports what was decided. -/
theorem certify_eq_ok_iff : s.certify layer property = .ok finding ↔
    ∃ box decision, s.Stages layer property box decision ∧
      finding = s.findingOf layer property box decision := by
  constructor
  · intro h
    cases hsurvey : s.survey layer property with
    | error fault =>
        unfold certify certifyWith at h
        rw [hsurvey] at h
        cases h
    | ok result =>
        obtain ⟨box, out, decision⟩ := result
        have hstages := (survey_eq_ok_iff.1 hsurvey).1
        rw [certify_of_stages hstages] at h
        cases h
        exact ⟨box, decision, hstages, rfl⟩
  · rintro ⟨box, decision, hstages, rfl⟩
    exact certify_of_stages hstages

/-! ## What the outcome says about the output box -/

namespace Stages

variable {box : Box} {decision : Decision}

theorem proper_image (h : s.Stages layer property box decision) :
    (layer.image box).Proper :=
  Layer.image_proper (inputBox_eq_ok h.check h.input).1

theorem tolerance (h : s.Stages layer property box decision) :
    s.effectiveTolerance.isFinite = true ∧ 0 ≤ s.effectiveTolerance.toEReal :=
  isTolerance_iff.1 (isTolerance_of_check h.check)

theorem outcome_eq (h : s.Stages layer property box decision) :
    ∃ simple, (∀ i, simple ≠ .notRobust i) ∧
      (layer.outputs = 1 → simple.isDecided = false) ∧
      (layer.outputs ≠ 1 →
        (simple = .robust ↔ (layer.image box).Separates property.label)) ∧
      decision.outcome = s.mode.select simple
        ((layer.image box).fullOutcome property.label
          s.effectiveTolerance) := by
  have hlabel := h.label
  rw [← layer.dim_image box] at hlabel ⊢
  obtain ⟨simple, hlost, hsingle, hwide, hmode⟩ :=
    Box.decide_eq_ok h.proper_image hlabel s.effectiveTolerance
  obtain ⟨d, hd, houtcome⟩ := hmode s.mode
  cases hd.symm.trans h.decide
  exact ⟨simple, hlost, hsingle, hwide, houtcome⟩

/-- A lost label is lost by the full check: the simple one never says so. -/
theorem full_of_notRobust (h : s.Stages layer property box decision) {i : Nat}
    (hlost : decision.outcome = .notRobust i) :
    (layer.image box).fullOutcome property.label s.effectiveTolerance =
      .notRobust i := by
  obtain ⟨simple, hsimple, -, -, houtcome⟩ := h.outcome_eq
  rw [hlost] at houtcome
  rcases s.mode.select_eq_or simple _ with hmode | hmode
  · exact absurd (houtcome.trans hmode).symm (hsimple i)
  · exact (houtcome.trans hmode).symm

/-- With two or more scores, a robust label is separated, whichever check said
so. -/
theorem separates_of_robust (h : s.Stages layer property box decision)
    (hone : layer.outputs ≠ 1) (hrobust : decision.outcome = .robust) :
    (layer.image box).Separates property.label := by
  obtain ⟨simple, -, -, hwide, houtcome⟩ := h.outcome_eq
  have hfull : (layer.image box).fullOutcome property.label
      s.effectiveTolerance = .robust →
        (layer.image box).Separates property.label :=
    Box.separates_of_verdicts h.proper_image (by rwa [layer.dim_image])
      h.tolerance.2
  rw [hrobust] at houtcome
  rcases s.mode.select_eq_or simple _ with hmode | hmode
  · exact (hwide hone).1 (houtcome.trans hmode).symm
  · exact hfull (houtcome.trans hmode).symm

/-- With a single score, a robust label is robust by the full check: the simple
one leaves it open. -/
theorem full_of_robust_single (h : s.Stages layer property box decision)
    (hone : layer.outputs = 1) (hrobust : decision.outcome = .robust) :
    (layer.image box).fullOutcome property.label s.effectiveTolerance =
      .robust := by
  obtain ⟨simple, -, hsingle, -, houtcome⟩ := h.outcome_eq
  have hopen := hsingle hone
  rw [hrobust] at houtcome
  rcases s.mode.select_eq_or simple _ with hmode | hmode
  · rw [← houtcome.trans hmode] at hopen
    cases hopen
  · exact (houtcome.trans hmode).symm

end Stages

end Settings

namespace Layer

variable {l : Layer} {box : Box} {x : Fin l.inputs → ℝ} {d : Fin l.outputs → ℝ}

/-- Unless an addition spills, the output box encloses the exact scores at
every point of the input box, shifted by up to the tolerance. -/
theorem image_encloses_score (hbox : box.Proper) (hdim : box.dim = l.inputs)
    (hspill : SpillFree (l.additions box)) (hx : box.Encloses x)
    (hd : ∀ i, |d i| ≤ l.tolerance.toReal) :
    (l.image box).Encloses fun i =>
      score l.weightPoints l.biasPoints x i + d i := by
  have h := image_encloses hbox hdim hspill (l.admits_shifted hd) hx
  simp only [← add_assoc] at h
  exact h

end Layer

namespace Settings

/-! ## A sample run -/

def sampleSettings : Settings := { tolerance := some 1 }

/-- The property that a label wins on every input from one to two. -/
def sampleProperty (label : Nat) : Property :=
  ⟨[1], [ofBits 0x4000000000000000], label⟩

theorem sampleProperty_covers (label n : Nat) :
    (sampleProperty label).Covers fun _ : Fin n => toReal 1 := by
  refine ⟨fun k a ha => ?_, fun k a ha => ?_⟩
  · rw [List.mem_singleton.1 (List.mem_of_getElem? ha)]
  · rw [List.mem_singleton.1 (List.mem_of_getElem? ha)]
    exact toReal_le_toReal rfl rfl (by decide)

theorem sample_buildLayer : sampleSettings.buildLayer
    Layer.sample.weightPoints Layer.sample.biasPoints = .ok Layer.sample := rfl

end Settings

end BoxCert
