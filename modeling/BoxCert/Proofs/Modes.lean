import BoxCert.Proofs.Certification

/-!
# The modes agree

The simple check knows no threshold and the full one does, so on a bare box
one can call a label robust that the other calls lost. On a box that was
propagated they cannot: each output is at least twice the tolerance wide, and
the threshold is only one of them. Neither rounding nor spilling narrows it.
-/

namespace BoxCert.Settings

open Binary64 BoxCert.Interval

variable {s : Settings} {weight : Grid Binary64} {bias : List Binary64}
  {order : StorageOrder} {layer : Layer} {property : Property} {box : Box}
  {decision : Decision} {finding : Finding}

theorem not_lost_of_separates {label : Nat} {t : Binary64} (hbox : box.Proper)
    (hlabel : label < layer.outputs) (hone : layer.outputs ≠ 1)
    (hfin : t.isFinite = true) (hpos : 0 ≤ t.toEReal) (ht : layer.tolerance = t)
    (hseparates : (layer.image box).Separates label) (i : Nat) :
    (layer.image box).fullOutcome label t ≠ .notRobust i := by
  intro hlost
  have himage := Layer.image_proper (l := layer) hbox
  have hdim := layer.dim_image box
  obtain ⟨hi, hne, u, l', hu, hl', hle⟩ := Box.exists_reached_of_verdicts
    himage (by rwa [hdim]) hfin hpos (by rwa [hdim]) hlost
  obtain ⟨l, hl⟩ := himage.exists_lower_iff.2 (by rwa [hdim])
  obtain ⟨u', hu'⟩ := himage.exists_upper_iff.2 hi
  have hlt := (lt_iff.1 (hseparates l hl i u' hne hu')).2.2
  have hown := Layer.image_width hbox hl hu
  have hrival := Layer.image_width hbox hl' hu'
  rw [ht] at hown hrival
  -- The label's range ends at most the threshold above the start of the
  -- competitor's, which ends twice the threshold above its start.
  have hchain : l.inf.toEReal ≤ u'.sup.toEReal :=
    calc l.inf.toEReal
      _ ≤ l.inf.toEReal + (t.toEReal + t.toEReal) :=
          le_add_of_nonneg_right (add_nonneg hpos hpos)
      _ ≤ u.sup.toEReal := hown
      _ ≤ l'.inf.toEReal + t.toEReal := hle
      _ ≤ l'.inf.toEReal + (t.toEReal + t.toEReal) :=
          add_le_add_right (le_add_of_nonneg_right hpos) _
      _ ≤ u'.sup.toEReal := hrival
  exact hlt.not_ge hchain

/-- The outcomes of all modes, selected from those of the two checks. Whether a
property is accepted does not depend on the mode. -/
theorem exists_outcomes (h : s.Stages layer property box decision) :
    ∃ simple full : Outcome, (∀ i, simple ≠ .notRobust i) ∧
      full = (layer.image box).fullOutcome property.label
        s.effectiveTolerance ∧
      (layer.outputs = 1 → simple.isDecided = false) ∧
      (layer.outputs ≠ 1 →
        (simple = .robust ↔ (layer.image box).Separates property.label)) ∧
      ∀ mode, ∃ finding,
        ({ s with mode := mode }).certify layer property = .ok finding ∧
          finding.outcome = mode.select simple full := by
  have hlabel := h.label
  rw [← layer.dim_image box] at hlabel ⊢
  obtain ⟨simple, hlost, hsingle, hwide, hmode⟩ :=
    Box.decide_eq_ok h.proper_image hlabel s.effectiveTolerance
  refine ⟨simple, _, hlost, rfl, hsingle, hwide, fun mode => ?_⟩
  obtain ⟨d, hd, houtcome⟩ := hmode mode
  exact ⟨_, certify_of_stages ⟨h.check, h.label, h.input, h.dim, hd⟩, houtcome⟩

/-- If only one of the two checks can call a label lost, and not where the
other one calls it robust, then no two modes disagree. -/
theorem select_ne_notRobust {simple full : Outcome}
    (hsimple : ∀ i, simple ≠ .notRobust i)
    (hfull : simple = .robust → ∀ i, full ≠ .notRobust i)
    {mode mode' : DecisionMode} (hrobust : mode.select simple full = .robust)
    (i : Nat) : mode'.select simple full ≠ .notRobust i := by
  have hnot : full ≠ .notRobust i := by
    rcases mode.select_eq_or simple full with h | h
    · exact hfull (h.symm.trans hrobust) i
    · rw [← h, hrobust]
      exact Outcome.noConfusion
  rcases mode'.select_eq_or simple full with h | h
  · rw [h]
    exact hsimple i
  · rw [h]
    exact hnot

/-- The modes never contradict each other. A property that one of them accepts
is accepted by all three; none of them calls a label robust that another calls
lost; with two or more scores the full check is the stricter one and the
automatic mode is robust exactly if the simple one is; and with a single score
the automatic mode gives the outcome of the full one. -/
theorem modes_agree (hbuild : s.buildLayer weight bias order = .ok layer)
    (hcertify : s.certify layer property = .ok finding) :
    ∃ simple auto full : Finding,
      ({ s with mode := .simple }).certify layer property = .ok simple ∧
      ({ s with mode := .auto }).certify layer property = .ok auto ∧
      ({ s with mode := .full }).certify layer property = .ok full ∧
      (∀ a ∈ [simple, auto, full], ∀ b ∈ [simple, auto, full],
        a.outcome = .robust → ∀ i, b.outcome ≠ .notRobust i) ∧
      (weight.rows ≠ 1 →
        (full.outcome = .robust → simple.outcome = .robust) ∧
        (auto.outcome = .robust ↔ simple.outcome = .robust)) ∧
      (weight.rows = 1 → auto.outcome = full.outcome) := by
  obtain ⟨rfl, rfl, htolerance⟩ := buildLayer_eq_ok hbuild
  obtain ⟨box, decision, hstages, -⟩ := certify_eq_ok_iff.1 hcertify
  obtain ⟨simple, full, hsimple, hfull, hsingle, hwide, hmode⟩ :=
    exists_outcomes hstages
  obtain ⟨hfin, hpos⟩ := hstages.tolerance
  have hbox := (inputBox_eq_ok hstages.check hstages.input).1
  -- A single score is left open by the simple check, and with more of them a
  -- separated label is not lost.
  have hrobust : simple = .robust → ∀ i, full ≠ .notRobust i := by
    intro h i
    by_cases hone : layer.outputs = 1
    · have hopen := hsingle hone
      rw [h] at hopen
      cases hopen
    · have hlabel := (checkLabel_eq_ok.1 hstages.label).2
      rw [classCount, if_neg hone] at hlabel
      rw [hfull]
      exact not_lost_of_separates hbox hlabel hone hfin hpos htolerance
        ((hwide hone).1 h) i
  have hstricter : layer.outputs ≠ 1 → full = .robust → simple = .robust := by
    intro hone h
    rw [hfull] at h
    exact (hwide hone).2 (Box.separates_of_verdicts hstages.proper_image
      (by rwa [layer.dim_image]) hpos h)
  obtain ⟨fs, hfs, hos⟩ := hmode .simple
  obtain ⟨fa, hfa, hoa⟩ := hmode .auto
  obtain ⟨ff, hff, hof⟩ := hmode .full
  refine ⟨fs, fa, ff, hfs, hfa, hff, ?_, ?_, ?_⟩
  · have hselected : ∀ f ∈ [fs, fa, ff], ∃ mode : DecisionMode,
        f.outcome = mode.select simple full := by
      simp only [List.forall_mem_cons, List.not_mem_nil, false_implies,
        implies_true, and_true]
      exact ⟨⟨_, hos⟩, ⟨_, hoa⟩, ⟨_, hof⟩⟩
    intro a ha b hb h i
    obtain ⟨mode, hmode⟩ := hselected a ha
    obtain ⟨mode', hmode'⟩ := hselected b hb
    rw [hmode'] at *
    rw [hmode] at h
    exact select_ne_notRobust hsimple hrobust h i
  · intro hone
    rw [hos, hoa, hof]
    refine ⟨hstricter hone, ?_⟩
    show (if simple.isDecided then simple else full) = _ ↔ simple = _
    split
    · exact Iff.rfl
    · next hopen =>
        refine ⟨hstricter hone, fun h => ?_⟩
        rw [h] at hopen
        exact absurd rfl hopen
  · intro hone
    rw [hoa, hof]
    exact if_neg (by rw [hsingle hone]; exact Bool.false_ne_true)

theorem modes_agree_sample :
    ∃ finding,
      sampleSettings.buildLayer Layer.sample.weightPoints
        Layer.sample.biasPoints = .ok Layer.sample ∧
      sampleSettings.certify Layer.sample (sampleProperty 1) = .ok finding ∧
      ∃ simple auto full : Finding,
        ({ sampleSettings with mode := .simple }).certify Layer.sample
          (sampleProperty 1) = .ok simple ∧
        ({ sampleSettings with mode := .auto }).certify Layer.sample
          (sampleProperty 1) = .ok auto ∧
        ({ sampleSettings with mode := .full }).certify Layer.sample
          (sampleProperty 1) = .ok full ∧
        (∀ a ∈ [simple, auto, full], ∀ b ∈ [simple, auto, full],
          a.outcome = .robust → ∀ i, b.outcome ≠ .notRobust i) ∧
        (full.outcome = .robust → simple.outcome = .robust) ∧
        (auto.outcome = .robust ↔ simple.outcome = .robust) := by
  obtain ⟨finding, hcertify, -⟩ := exists_ok_of_toOption
    (show (sampleSettings.certify Layer.sample (sampleProperty 1)).toOption.map
      (·.outcome) = some (.notRobust 0) by decide +kernel)
  obtain ⟨simple, auto, full, hsimple, hauto, hfull, hnever, hwide, -⟩ :=
    modes_agree sample_buildLayer hcertify
  obtain ⟨hstricter, hiff⟩ := hwide (by decide)
  exact ⟨finding, sample_buildLayer, hcertify, simple, auto, full, hsimple,
    hauto, hfull, hnever, hstricter, hiff⟩

end BoxCert.Settings
