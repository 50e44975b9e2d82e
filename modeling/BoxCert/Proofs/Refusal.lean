import BoxCert.Proofs.Certification

/-!
# When a run is refused

A run is refused for a bad tolerance, a bad label or bad corners, in that
order, and for nothing else. Once these are in order no later step can fail,
whatever overflows on the way: propagation finds the bounds of each output in
order, and both checks answer on every class. Nor is any end that is reported
NaN, since every interval on the way keeps its ends in order.

The refiner may be any program with effects of its own. It is asked last, so a
run that is refused does not reach it, and it has no say in what is reported
besides the outcome.
-/

namespace BoxCert

open Binary64 BoxCert.Interval

theorem error_eq_error_iff {α : Type} {P : Prop} (h : P) {a b : Fault} :
    (.error a : Checked α) = .error b ↔ P ∧ b = a := by
  rw [Except.error.injEq, eq_comm, iff_true_intro h, true_and]

/-- A search through a numbered list stops at the first hit. -/
theorem findSome?_zipIdx_eq_some {α β : Type} {f : α × Nat → Option β}
    {items : List α} {b : β} : items.zipIdx.findSome? f = some b ↔
      ∃ i a, items[i]? = some a ∧ f (a, i) = some b ∧
        ∀ j < i, ∀ c, items[j]? = some c → f (c, j) = none := by
  have hcell : ∀ k : Nat, items.zipIdx[k]? = items[k]?.map (·, k) := by
    intro k
    rw [List.getElem?_zipIdx, Nat.zero_add]
  rw [List.findSome?_eq_some_iff]
  constructor
  · rintro ⟨before, ⟨a, i⟩, after, hsplit, hhit, hbefore⟩
    have ha := hcell before.length
    rw [hsplit, List.getElem?_append_right le_rfl, Nat.sub_self,
      List.getElem?_cons_zero, eq_comm, Option.map_eq_some_iff] at ha
    obtain ⟨_, ha, hpair⟩ := ha
    cases hpair
    refine ⟨_, a, ha, hhit, fun j hj c hc => hbefore _ ?_⟩
    have hmem := hcell j
    rw [hsplit, List.getElem?_append_left hj, hc] at hmem
    exact List.mem_of_getElem? hmem
  · rintro ⟨i, a, ha, hhit, hbefore⟩
    have hpair := hcell i
    rw [ha, Option.map_some, List.getElem?_eq_some_iff] at hpair
    obtain ⟨hi, hpair⟩ := hpair
    refine ⟨items.zipIdx.take i, (a, i), items.zipIdx.drop (i + 1), ?_, hhit,
      fun x hx => ?_⟩
    · have hdrop := List.drop_eq_getElem_cons hi
      rw [hpair] at hdrop
      rw [← hdrop, List.take_append_drop]
    · obtain ⟨j, hj⟩ := List.getElem?_of_mem hx
      rw [List.getElem?_take, Option.ite_none_right_eq_some, hcell,
        Option.map_eq_some_iff] at hj
      obtain ⟨hlt, c, hc, rfl⟩ := hj
      exact hbefore j hlt c hc

/-! ## The corners of a box -/

namespace Box

/-- Whether two numbers are the ends of a finite range. -/
structure IsRange (low high : Binary64) : Prop where
  low_isFinite : low.isFinite = true
  high_isFinite : high.isFinite = true
  le : low ≤ high

/-- Why two numbers are not: an end that is not finite comes first, then ends
in the wrong order. -/
inductive RangeFault (index : Nat) (low high : Binary64) : Fault → Prop where
  | nonFinite (h : ¬ (low.isFinite = true ∧ high.isFinite = true)) :
      RangeFault index low high (.invalidSpec (.nonFiniteEnds index low high))
  | reversed (hlow : low.isFinite = true) (hhigh : high.isFinite = true)
      (h : high < low) :
      RangeFault index low high (.invalidBox index low high)

variable {low high t : Binary64} {i : Nat} {fault : Fault}
  {lower upper : List Binary64}

theorem not_lt_iff (hlow : low.isFinite = true) (hhigh : high.isFinite = true) :
    ¬ high < low ↔ low ≤ high :=
  not_below_iff (isNan_of_isFinite hlow) (isNan_of_isFinite hhigh)

theorem pairFault?_cases (i : Nat) (low high : Binary64) :
    (∃ fault, pairFault? i low high = some fault ∧
      RangeFault i low high fault) ∨
    (pairFault? i low high = none ∧ IsRange low high) := by
  unfold pairFault?
  split
  · next h =>
      refine .inl ⟨_, rfl, .nonFinite ?_⟩
      rintro ⟨hlow, hhigh⟩
      rw [hlow, hhigh] at h
      cases h
  · next h =>
      obtain ⟨hlow, hhigh⟩ : low.isFinite = true ∧ high.isFinite = true := by
        simpa using h
      split
      · next hlt => exact .inl ⟨_, rfl, .reversed hlow hhigh hlt⟩
      · next hle =>
          exact .inr ⟨rfl, hlow, hhigh, (not_lt_iff hlow hhigh).1 hle⟩

theorem RangeFault.not_isRange (h : RangeFault i low high fault) :
    ¬ IsRange low high := by
  intro hrange
  cases h with
  | nonFinite h => exact h ⟨hrange.low_isFinite, hrange.high_isFinite⟩
  | reversed hlow hhigh h => exact (not_lt_iff hlow hhigh).2 hrange.le h

theorem RangeFault.unique {other : Fault} (h : RangeFault i low high fault)
    (h' : RangeFault i low high other) : fault = other := by
  cases h with
  | nonFinite h =>
      cases h' with
      | nonFinite => rfl
      | reversed hlow hhigh => exact absurd ⟨hlow, hhigh⟩ h
  | reversed hlow hhigh =>
      cases h' with
      | nonFinite h => exact absurd ⟨hlow, hhigh⟩ h
      | reversed => rfl

theorem pairFault?_eq_none : pairFault? i low high = none ↔
    IsRange low high := by
  rcases pairFault?_cases i low high with ⟨fault, h, hfault⟩ | ⟨h, hrange⟩
  · rw [h]
    exact iff_of_false nofun hfault.not_isRange
  · exact iff_of_true h hrange

theorem pairFault?_eq_some : pairFault? i low high = some fault ↔
    RangeFault i low high fault := by
  rcases pairFault?_cases i low high with ⟨other, h, hother⟩ | ⟨h, hrange⟩
  · rw [h, Option.some.injEq]
    exact ⟨fun heq => heq ▸ hother, hother.unique⟩
  · rw [h]
    exact iff_of_false nofun fun hfault => hfault.not_isRange hrange

/-- Whether two lists of ends have a finite range at each index below. -/
def RangesBelow (lower upper : List Binary64) (bound : Nat) : Prop :=
  ∀ i < bound, ∀ low high, lower[i]? = some low → upper[i]? = some high →
    IsRange low high

theorem accepted_widened (ht : t.isFinite = true) (hpos : 0 ≤ t.toEReal)
    (hlength : lower.length = upper.length)
    (hranges : RangesBelow lower upper lower.length) :
    Accepted ⟨widened t lower, widened t upper⟩ := by
  refine ⟨rfl, rfl, ?_, ?_⟩
  · show (lower.map _).length = (upper.map _).length
    rw [List.length_map, List.length_map, hlength]
  · show List.Forall₂ _ (lower.map _) (upper.map _)
    rw [List.forall₂_map_left_iff, List.forall₂_map_right_iff]
    refine List.forall₂_of_length_eq_of_get hlength fun i hi hi' => ?_
    obtain ⟨hlow, hhigh, hle⟩ := hranges i hi _ _
      (List.getElem?_eq_getElem hi) (List.getElem?_eq_getElem hi')
    have hnan := isNan_of_isFinite ht
    have hbelow := mem_around (isNan_of_isFinite hlow) hnan hpos
    have habove := mem_around (isNan_of_isFinite hhigh) hnan hpos
    exact le_iff.2 ⟨hbelow.inf_isNan, habove.sup_isNan,
      hbelow.inf_le.trans ((le_iff.1 hle).2.2.trans habove.le_sup)⟩

theorem firstFault_eq_some :
    ((List.zip lower upper).zipIdx.findSome? fun pair =>
      pairFault? pair.2 pair.1.1 pair.1.2) = some fault ↔
      ∃ i low high, lower[i]? = some low ∧ upper[i]? = some high ∧
        RangesBelow lower upper i ∧ RangeFault i low high fault := by
  rw [findSome?_zipIdx_eq_some]
  constructor
  · rintro ⟨i, ⟨low, high⟩, hpair, hfault, hbefore⟩
    obtain ⟨hlow, hhigh⟩ := List.getElem?_zip_eq_some.1 hpair
    refine ⟨i, low, high, hlow, hhigh, fun j hj a b ha hb => ?_,
      pairFault?_eq_some.1 hfault⟩
    exact pairFault?_eq_none.1
      (hbefore j hj (a, b) (List.getElem?_zip_eq_some.2 ⟨ha, hb⟩))
  · rintro ⟨i, low, high, hlow, hhigh, hbelow, hfault⟩
    refine ⟨i, (low, high), List.getElem?_zip_eq_some.2 ⟨hlow, hhigh⟩,
      pairFault?_eq_some.2 hfault, fun j hj pair hpair => ?_⟩
    obtain ⟨ha, hb⟩ := List.getElem?_zip_eq_some.1 hpair
    exact pairFault?_eq_none.2 (hbelow j hj _ _ ha hb)

/-- Corners are at fault if they differ in length, or else at the first index
where they are not the ends of a finite range. -/
theorem cornerFault?_eq_some : cornerFault? lower upper = some fault ↔
    (lower.length ≠ upper.length ∧
      fault = .shapeMismatch .boxEnds [lower.length] [upper.length]) ∨
    (lower.length = upper.length ∧ ∃ i low high, lower[i]? = some low ∧
      upper[i]? = some high ∧ RangesBelow lower upper i ∧
      RangeFault i low high fault) := by
  unfold cornerFault?
  split
  · next h =>
      rw [or_iff_left fun heq => h heq.1, Option.some.injEq, eq_comm,
        iff_true_intro h, true_and]
  · next h =>
      rw [or_iff_right fun hne => h hne.1, firstFault_eq_some,
        iff_true_intro (not_not.1 h), true_and]

/-- Corners are in order if they fit each other and are the ends of a finite
range at each index. -/
theorem cornerFault?_eq_none_iff : cornerFault? lower upper = none ↔
    lower.length = upper.length ∧ RangesBelow lower upper lower.length := by
  constructor
  · intro h
    obtain ⟨hlength, hpair⟩ := of_cornerFault?_eq_none h
    exact ⟨hlength, fun i _ low high hlow hhigh =>
      pairFault?_eq_none.1 (hpair i low high hlow hhigh)⟩
  · rintro ⟨hlength, hranges⟩
    cases h : cornerFault? lower upper with
    | none => rfl
    | some fault =>
        rcases cornerFault?_eq_some.1 h with
          ⟨hne, -⟩ | ⟨-, i, low, high, hlow, hhigh, -, hfault⟩
        · exact absurd hlength hne
        · have hi := (List.getElem?_eq_some_iff.1 hlow).1
          exact absurd (hranges i hi low high hlow hhigh) hfault.not_isRange

/-- Corners in order are accepted. -/
theorem ofPoints_eq_ok_iff (ht : t.isFinite = true) (hpos : 0 ≤ t.toEReal)
    {b : Box} : ofPoints lower upper t = .ok b ↔
      lower.length = upper.length ∧ RangesBelow lower upper lower.length ∧
        b = ⟨widened t lower, widened t upper⟩ := by
  rw [ofPoints_eq_ok_iff_ofColumns, cornerFault?_eq_none_iff, ofColumns_eq_ok,
    and_assoc]
  refine and_congr_right fun hlength => and_congr_right fun hranges => ?_
  refine and_iff_left_of_imp fun hb => ?_
  rw [hb]
  exact accepted_widened ht hpos hlength hranges

/-- Corners are refused for their own fault alone. -/
theorem ofPoints_eq_error (ht : t.isFinite = true) (hpos : 0 ≤ t.toEReal) :
    ofPoints lower upper t = .error fault ↔
      cornerFault? lower upper = some fault := by
  cases h : cornerFault? lower upper with
  | some other =>
      unfold ofPoints
      rw [h, Except.error.injEq, Option.some.injEq]
  | none =>
      obtain ⟨hlength, hranges⟩ := cornerFault?_eq_none_iff.1 h
      rw [(ofPoints_eq_ok_iff ht hpos).2 ⟨hlength, hranges, rfl⟩]
      exact iff_of_false nofun nofun

end Box

/-! ## Ends that are reported -/

namespace Finding

/-- Whether no end that a finding reports is NaN. -/
structure NanFree (f : Finding) : Prop where
  outputLower : ∀ x ∈ f.outputLower, x.isNan = false
  outputUpper : ∀ x ∈ f.outputUpper, x.isNan = false
  verdicts : ∀ v ∈ f.verdicts, v.lower.isNan = false ∧ v.upper.isNan = false

end Finding

theorem Disjunction.form_proper (outputs label competitor : Nat) :
    ∀ a ∈ form outputs label competitor, a.inf ≤ a.sup := by
  have hone : (point 1).inf ≤ (point 1).sup := by decide
  have hneg : (point (-1)).inf ≤ (point (-1)).sup := by decide
  have hzero : (0 : Interval).inf ≤ (0 : Interval).sup := by decide
  intro a ha
  unfold form at ha
  split at ha
  · rw [List.mem_singleton] at ha
    subst ha
    split
    · exact hone
    · exact hneg
  · obtain ⟨j, -, rfl⟩ := List.mem_map.1 ha
    unfold sign
    split
    · exact hone
    · split
      · exact hneg
      · exact hzero

namespace Box

variable {b : Box} {label : Nat} {threshold : Binary64} {d : Decision}

theorem verdictOn_nanFree (hbox : b.Proper) (label i : Nat)
    (threshold : Binary64) :
    (b.verdictOn label threshold i).lower.isNan = false ∧
      (b.verdictOn label threshold i).upper.isNan = false := by
  have hrow := Disjunction.form_proper b.dim label i
  have hlowest := splitDot_proper hrow hbox.lower_proper hbox.upper_proper
  have hhighest := splitDot_proper hrow hbox.upper_proper hbox.lower_proper
  exact ⟨(isNan_of_le hlowest).1, (isNan_of_le hhighest).2⟩

/-- A decision shows either no verdicts or those of the full check. -/
theorem verdicts_of_decide (hbox : b.Accepted)
    (hlabel : checkLabel b.dim label = .ok ()) {mode : DecisionMode}
    (h : b.decide mode label threshold = .ok d) : d.verdicts = [] ∨
      d.verdicts =
        (competitors b.dim label).map (b.verdictOn label threshold) := by
  rcases decide_cases h with
    ⟨simple, -, rfl, -⟩ | ⟨verdicts, hverdicts, rfl, -⟩
  · exact .inl rfl
  · rw [checkFull_eq_ok hbox hlabel threshold] at hverdicts
    cases hverdicts
    exact .inr rfl

end Box

namespace Settings

variable {s : Settings} {layer : Layer} {p : Property} {box : Box}
  {decision : Decision} {fault : Fault}

theorem Stages.nanFree (h : s.Stages layer p box decision) {d : Decision}
    (hd : d.verdicts = decision.verdicts) :
    (s.findingOf layer p box d).NanFree := by
  have himage := h.proper_image
  refine ⟨?_, ?_, ?_⟩
  · intro x hx
    obtain ⟨a, ha, rfl⟩ := List.mem_map.1 hx
    exact (isNan_of_le (himage.lower_proper a ha)).1
  · intro x hx
    obtain ⟨a, ha, rfl⟩ := List.mem_map.1 hx
    exact (isNan_of_le (himage.upper_proper a ha)).2
  · intro v hv
    have hlabel := h.label
    rw [← layer.dim_image box] at hlabel
    change v ∈ d.verdicts at hv
    rw [hd] at hv
    rcases Box.verdicts_of_decide himage.toAccepted hlabel h.decide with
      hnone | hall
    · rw [hnone] at hv
      cases hv
    · rw [hall] at hv
      obtain ⟨i, -, rfl⟩ := List.mem_map.1 hv
      exact Box.verdictOn_nanFree himage p.label i s.effectiveTolerance

/-! ## The checks in their order -/

/-- Whether the tolerance in effect is finite and not negative. -/
structure Valid (s : Settings) : Prop where
  isFinite : s.effectiveTolerance.isFinite = true
  nonneg : 0 ≤ s.effectiveTolerance

/-- The faults of a run. Each check is made only if those before it have
passed. -/
inductive Refuses (s : Settings) (layer : Layer) (p : Property) :
    Fault → Prop where
  | tolerance (h : ¬ s.Valid) :
      Refuses s layer p (.invalidSpec (.tolerance s.effectiveTolerance))
  | label (valid : s.Valid) (h : ¬ p.label < classCount layer.outputs) :
      Refuses s layer p (.invalidLabel p.label layer.outputs)
  | length (valid : s.Valid) (label : p.label < classCount layer.outputs)
      (h : p.lower.length ≠ p.upper.length) :
      Refuses s layer p
        (.shapeMismatch .boxEnds [p.lower.length] [p.upper.length])
  | range (valid : s.Valid) (label : p.label < classCount layer.outputs)
      (length : p.lower.length = p.upper.length) (i : Nat)
      (low high : Binary64) (hlow : p.lower[i]? = some low)
      (hhigh : p.upper[i]? = some high)
      (before : Box.RangesBelow p.lower p.upper i) (fault : Fault)
      (h : Box.RangeFault i low high fault) :
      Refuses s layer p fault
  | inputs (valid : s.Valid) (label : p.label < classCount layer.outputs)
      (length : p.lower.length = p.upper.length)
      (ranges : Box.RangesBelow p.lower p.upper p.dim)
      (h : p.dim ≠ layer.inputs) :
      Refuses s layer p (.shapeMismatch .propagation [layer.inputs] [p.dim])

theorem valid_iff : s.Valid ↔ s.effectiveTolerance.isTolerance = true := by
  rw [isTolerance_iff]
  constructor
  · rintro ⟨hfin, hnonneg⟩
    have hle := (le_iff.1 hnonneg).2.2
    rw [toEReal_zero] at hle
    exact ⟨hfin, hle⟩
  · rintro ⟨hfin, hle⟩
    refine ⟨hfin, le_iff.2 ⟨rfl, isNan_of_isFinite hfin, ?_⟩⟩
    rwa [toEReal_zero]

theorem check_eq_error : s.check = .error fault ↔ ¬ s.Valid ∧
    fault = .invalidSpec (.tolerance s.effectiveTolerance) := by
  rw [valid_iff, check]
  split
  · next h => exact iff_of_false nofun fun hn => hn.1 h
  · next h => exact error_eq_error_iff h

theorem checkLabel_eq_error {outputs label : Nat} (h : outputs ≠ 0) :
    checkLabel outputs label = .error fault ↔ ¬ label < classCount outputs ∧
      fault = .invalidLabel label outputs := by
  unfold checkLabel
  split
  · next hbad => exact error_eq_error_iff (by omega)
  · next hbad => exact iff_of_false nofun fun hn => by omega

theorem check_eq_ok : s.check = .ok () ↔ s.Valid := by
  rw [valid_iff, check]
  split
  · next h => exact iff_of_true rfl h
  · next h => exact iff_of_false nofun h

theorem propagate_eq_error (hbox : box.Proper) :
    layer.propagate box = .error fault ↔ box.dim ≠ layer.inputs ∧
      fault = .shapeMismatch .propagation [layer.inputs] [box.dim] := by
  by_cases hdim : box.dim = layer.inputs
  · rw [Layer.propagate_eq_ok hbox hdim]
    exact iff_of_false nofun fun h => h.1 hdim
  · have h : layer.propagate box =
        .error (.shapeMismatch .propagation [layer.inputs] [box.dim]) := by
      rw [Layer.propagate, if_pos hdim]
      rfl
    rw [h]
    exact error_eq_error_iff hdim

theorem Valid.inputBox_eq_ok_iff (h : s.Valid) : s.inputBox p = .ok box ↔
    p.lower.length = p.upper.length ∧
      Box.RangesBelow p.lower p.upper p.dim ∧
      box = ⟨Box.widened s.effectiveTolerance p.lower,
        Box.widened s.effectiveTolerance p.upper⟩ := by
  obtain ⟨hfin, hpos⟩ := isTolerance_iff.1 (valid_iff.1 h)
  exact Box.ofPoints_eq_ok_iff hfin hpos

theorem Valid.inputBox_eq_error_iff (h : s.Valid) :
    s.inputBox p = .error fault ↔
      Box.cornerFault? p.lower p.upper = some fault := by
  obtain ⟨hfin, hpos⟩ := isTolerance_iff.1 (valid_iff.1 h)
  exact Box.ofPoints_eq_error hfin hpos

/-- The checks answer on every box that propagation gives. -/
theorem decide_image_ne_error (hbox : box.Proper)
    (hlabel : checkLabel layer.outputs p.label = .ok ()) :
    (layer.image box).decide s.mode p.label s.effectiveTolerance ≠
      .error fault := by
  rw [← layer.dim_image box] at hlabel
  obtain ⟨simple, -, -, -, hmode⟩ := Box.decide_eq_ok
    (Layer.image_proper hbox) hlabel s.effectiveTolerance
  obtain ⟨d, hd, -⟩ := hmode s.mode
  rw [hd]
  nofun

theorem refuses_of_survey_eq_error (h : s.survey layer p = .error fault) :
    s.Refuses layer p fault := by
  simp only [survey, bind_eq_error] at h
  rcases h with h | ⟨_, hcheck, h | ⟨_, hlabel, h | ⟨box, hinput, h |
    ⟨out, hout, h | ⟨decision, -, h⟩⟩⟩⟩⟩
  · obtain ⟨hbad, rfl⟩ := check_eq_error.1 h
    exact .tolerance hbad
  · obtain ⟨hbad, rfl⟩ := (checkLabel_eq_error layer.nonempty.1).1 h
    exact .label (check_eq_ok.1 hcheck) hbad
  · have hvalid := check_eq_ok.1 hcheck
    have hclass := (checkLabel_eq_ok.1 hlabel).2
    rcases Box.cornerFault?_eq_some.1 (hvalid.inputBox_eq_error_iff.1 h) with
      ⟨hne, rfl⟩ | ⟨hlength, i, low, high, hlow, hhigh, hbefore, hfault⟩
    · exact .length hvalid hclass hne
    · exact .range hvalid hclass hlength i low high hlow hhigh hbefore _ hfault
  · have hvalid := check_eq_ok.1 hcheck
    obtain ⟨hproper, hdim, -⟩ := inputBox_eq_ok hcheck hinput
    obtain ⟨hbad, rfl⟩ := (propagate_eq_error hproper).1 h
    obtain ⟨hlength, hranges, -⟩ := hvalid.inputBox_eq_ok_iff.1 hinput
    rw [hdim] at hbad ⊢
    exact .inputs hvalid (checkLabel_eq_ok.1 hlabel).2 hlength hranges hbad
  · obtain ⟨hproper, -, -⟩ := inputBox_eq_ok hcheck hinput
    obtain ⟨-, rfl⟩ := (propagate_eq_ok_iff hproper).1 hout
    exact absurd h (decide_image_ne_error hproper hlabel)
  · cases h

theorem Refuses.survey_eq_error (h : s.Refuses layer p fault) :
    s.survey layer p = .error fault := by
  have hlabel : ∀ {label : Nat}, label < classCount layer.outputs →
      checkLabel layer.outputs label = .ok () :=
    fun h => checkLabel_eq_ok.2 ⟨layer.nonempty.1, h⟩
  simp only [survey, bind_eq_error]
  cases h with
  | tolerance h => exact .inl (check_eq_error.2 ⟨h, rfl⟩)
  | label valid h =>
      exact .inr ⟨(), check_eq_ok.2 valid,
        .inl ((checkLabel_eq_error layer.nonempty.1).2 ⟨h, rfl⟩)⟩
  | length valid label h =>
      have hfault := Box.cornerFault?_eq_some.2 (.inl ⟨h, rfl⟩)
      exact .inr ⟨(), check_eq_ok.2 valid, .inr ⟨(), hlabel label,
        .inl (valid.inputBox_eq_error_iff.2 hfault)⟩⟩
  | range valid label length i low high hlow hhigh before fault h =>
      have hfault := Box.cornerFault?_eq_some.2
        (.inr ⟨length, i, low, high, hlow, hhigh, before, h⟩)
      exact .inr ⟨(), check_eq_ok.2 valid, .inr ⟨(), hlabel label,
        .inl (valid.inputBox_eq_error_iff.2 hfault)⟩⟩
  | inputs valid label length ranges h =>
      have hinput := valid.inputBox_eq_ok_iff.2 ⟨length, ranges, rfl⟩
      obtain ⟨hproper, hdim, -⟩ := inputBox_eq_ok (check_eq_ok.2 valid) hinput
      have hout : layer.propagate _ = .error
          (.shapeMismatch .propagation [layer.inputs] [p.dim]) :=
        (propagate_eq_error hproper).2 ⟨by rwa [hdim], by rw [hdim]⟩
      exact .inr ⟨(), check_eq_ok.2 valid, .inr ⟨(), hlabel label,
        .inr ⟨_, hinput, .inl hout⟩⟩⟩

/-- The stages before refinement fail for the listed faults only, and do so
where one is listed. -/
theorem survey_eq_error : s.survey layer p = .error fault ↔
    s.Refuses layer p fault :=
  ⟨refuses_of_survey_eq_error, Refuses.survey_eq_error⟩

/-- A run is refused exactly for the listed faults, without asking the
refiner. In every other case it ends with a finding, whatever the refiner
does, and reports no end that is NaN. -/
theorem certifyWith_refused_or_found {m : Type → Type} [Monad m] [LawfulMonad m]
    (refiner : Refiner m) (s : Settings) (layer : Layer) (p : Property) :
    (∀ fault, s.Refuses layer p fault →
      s.certifyWith refiner layer p = pure (.error fault)) ∧
    ((∀ fault, ¬ s.Refuses layer p fault) →
      ∃ run : m {f : Finding // f.NanFree},
        s.certifyWith refiner layer p = (fun f => .ok f.val) <$> run) := by
  constructor
  · intro fault h
    unfold certifyWith
    rw [survey_eq_error.2 h]
  · intro h
    cases hsurvey : s.survey layer p with
    | error fault => exact absurd (survey_eq_error.1 hsurvey) (h fault)
    | ok result =>
        obtain ⟨box, out, decision⟩ := result
        have hstages := (survey_eq_ok_iff.1 hsurvey).1
        rw [certifyWith_of_stages refiner hstages]
        split
        · refine ⟨pure ⟨_, hstages.nanFree (d := decision) rfl⟩, ?_⟩
          rw [pure_bind, map_pure]
        · refine ⟨(fun answer => ⟨_, hstages.nanFree
            (d := decision.refined answer) rfl⟩) <$> refiner ⟨layer, box,
              p.label, decision.verdicts, decision.outcome⟩, ?_⟩
          rw [bind_pure_comp, Functor.map_map, Functor.map_map]

/-- A refiner that counts how often it is asked. -/
def counting : Refiner (StateM Nat) :=
  fun request count => (request.outcome, count + 1)

theorem certifyWith_refused_or_found_counting :
    sampleSettings.certifyWith counting Layer.sample
        ⟨[ofBits 0x4000000000000000], [1], 0⟩ =
      pure (.error (.invalidBox 0 (ofBits 0x4000000000000000) 1)) ∧
    ∃ run : StateM Nat {f : Finding // f.NanFree},
      sampleSettings.certifyWith counting Layer.sample (sampleProperty 0) =
        (fun f => .ok f.val) <$> run := by
  constructor
  · refine (certifyWith_refused_or_found counting sampleSettings Layer.sample
      ⟨[ofBits 0x4000000000000000], [1], 0⟩).1 _ ?_
    exact .range ⟨rfl, by decide⟩ (by decide) rfl 0 _ _ rfl rfl
      (fun i hi => absurd hi (Nat.not_lt_zero i)) _
      (.reversed (by decide) (by decide) (by decide))
  · refine (certifyWith_refused_or_found counting sampleSettings Layer.sample
      (sampleProperty 0)).2 fun fault h => ?_
    obtain ⟨result, hok, -⟩ := exists_ok_of_toOption
      (show (sampleSettings.survey Layer.sample (sampleProperty 0)).toOption.map
        (fun _ => ()) = some () by decide +kernel)
    cases hok.symm.trans (survey_eq_error.2 h)

end Settings

end BoxCert
