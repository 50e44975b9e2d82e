import BoxCert.Proofs.Certification

/-!
# What the refiner is asked

A refiner is asked where a run without one ends unresolved, and nowhere else:
not in a run that is refused, nor in one that is settled. It is asked once, in
full knowledge of what that run found, and of the finding it can change the
outcome and who decided it.

To say what a refiner is asked it is made to keep a record. The record is
apart from whatever effects the refiner has of its own, so the statement holds
for refiners that fail, count or remember.
-/

namespace BoxCert

open Binary64

/-- A refiner that also keeps a record of what it is asked. -/
def Refiner.recorded {m : Type → Type} [Monad m] (refiner : Refiner m) :
    Refiner (StateT (List Request) m) :=
  fun request => do
    modify (· ++ [request])
    refiner request

theorem Refiner.run_recorded {m : Type → Type} [Monad m] [LawfulMonad m]
    (refiner : Refiner m) (request : Request) (past : List Request) :
    (refiner.recorded request).run past = do
      let answer ← refiner request
      return (answer, past ++ [request]) := by
  show pure ((), past ++ [request]) >>= _ = _
  rw [pure_bind]
  rfl

namespace Settings

variable {m : Type → Type} [Monad m] {s : Settings} {layer : Layer}
  {p : Property} {fault : Fault} {base : Finding}

/-- What a run asks its refiner on an input box, if it finds so much without
one. -/
def requestOf (layer : Layer) (p : Property) (box : Box) (base : Finding) :
    Request where
  layer := layer
  input := box
  label := p.label
  verdicts := base.verdicts
  outcome := base.outcome

/-! ## The three ways of a run -/

/-- A run that is refused without a refiner is refused with any. -/
theorem certifyWith_of_refused (refiner : Refiner m)
    (h : s.certify layer p = .error fault) :
    s.certifyWith refiner layer p = pure (.error fault) := by
  cases hsurvey : s.survey layer p with
  | error other =>
      unfold certify certifyWith at h
      unfold certifyWith
      rw [hsurvey] at h ⊢
      cases h
      rfl
  | ok result =>
      obtain ⟨box, out, decision⟩ := result
      rw [certify_of_stages (survey_eq_ok_iff.1 hsurvey).1] at h
      cases h

variable [LawfulMonad m]

/-- A run that is settled without a refiner finds the same with any. -/
theorem certifyWith_of_settled (refiner : Refiner m)
    (h : s.certify layer p = .ok base)
    (hsettled : base.outcome.isDecided = true) :
    s.certifyWith refiner layer p = pure (.ok base) := by
  obtain ⟨box, decision, hstages, rfl⟩ := certify_eq_ok_iff.1 h
  rw [certifyWith_of_stages refiner hstages]
  split
  · rw [pure_bind]
  · next hopen => exact absurd hsettled hopen

/-- A run that is left open without a refiner asks it once, and finds the same
but for the answer. -/
theorem certifyWith_of_open (h : s.certify layer p = .ok base)
    (hopen : base.outcome.isDecided = false) :
    ∃ box, s.inputBox p = .ok box ∧
      ∀ {m : Type → Type} [Monad m] [LawfulMonad m] (refiner : Refiner m),
        s.certifyWith refiner layer p = do
          let answer ← refiner (requestOf layer p box base)
          return .ok { base with
            outcome := answer
            decidedBy :=
              if answer = base.outcome then base.decidedBy
              else .refinement } := by
  obtain ⟨box, decision, hstages, rfl⟩ := certify_eq_ok_iff.1 h
  refine ⟨box, hstages.input, fun refiner => ?_⟩
  rw [certifyWith_of_stages refiner hstages]
  split
  · next hsettled =>
      rw [show decision.outcome.isDecided = false from hopen] at hsettled
      cases hsettled
  · rw [bind_map_left]
    rfl

theorem decidedBy_ne_refinement (h : s.certify layer p = .ok base) :
    base.decidedBy ≠ .refinement := by
  obtain ⟨box, decision, hstages, rfl⟩ := certify_eq_ok_iff.1 h
  rcases Box.decide_cases hstages.decide with
    ⟨simple, -, rfl, -⟩ | ⟨verdicts, -, rfl, -⟩
  · exact nofun
  · exact nofun

/-! ## The record of a run -/

omit [LawfulMonad m] in
theorem run_recorded_of_refused (refiner : Refiner m)
    (h : s.certify layer p = .error fault) :
    (s.certifyWith refiner.recorded layer p).run [] =
      pure (.error fault, []) := by
  rw [certifyWith_of_refused refiner.recorded h, StateT.run_pure]

theorem run_recorded_of_settled (refiner : Refiner m)
    (h : s.certify layer p = .ok base)
    (hsettled : base.outcome.isDecided = true) :
    (s.certifyWith refiner.recorded layer p).run [] = pure (.ok base, []) := by
  rw [certifyWith_of_settled refiner.recorded h hsettled, StateT.run_pure]

theorem run_recorded_of_open (refiner : Refiner m)
    (h : s.certify layer p = .ok base)
    (hopen : base.outcome.isDecided = false) :
    ∃ box, s.inputBox p = .ok box ∧
      (s.certifyWith refiner.recorded layer p).run [] = do
        let answer ← refiner (requestOf layer p box base)
        return (.ok { base with
          outcome := answer
          decidedBy :=
            if answer = base.outcome then base.decidedBy
            else .refinement }, [requestOf layer p box base]) := by
  obtain ⟨box, hbox, hrun⟩ := certifyWith_of_open h hopen
  refine ⟨box, hbox, ?_⟩
  rw [hrun refiner.recorded, StateT.run_bind, Refiner.run_recorded, bind_assoc]
  simp only [pure_bind]
  rfl

/-- Keeping the record does not change the run. -/
theorem fst_run_recorded (refiner : Refiner m) (s : Settings) (layer : Layer)
    (p : Property) :
    Prod.fst <$> (s.certifyWith refiner.recorded layer p).run [] =
      s.certifyWith refiner layer p := by
  cases h : s.certify layer p with
  | error fault =>
      rw [run_recorded_of_refused refiner h, certifyWith_of_refused refiner h,
        map_pure]
  | ok base =>
      cases hopen : base.outcome.isDecided with
      | true =>
          rw [run_recorded_of_settled refiner h hopen,
            certifyWith_of_settled refiner h hopen, map_pure]
      | false =>
          obtain ⟨box, hbox, hrun⟩ := run_recorded_of_open refiner h hopen
          obtain ⟨box', hbox', hrun'⟩ := certifyWith_of_open h hopen
          cases hbox.symm.trans hbox'
          rw [hrun, hrun' refiner, map_bind]
          simp only [map_pure]

/-- A refiner is asked at most once, and exactly in the runs that are left open
without one. It is given the widened input box, the label, the verdicts that
are reported and the open outcome. A run that does not ask it ends as without
it; one that does differs in the outcome, which is the answer, and in who
decided it, which is the refiner exactly if the answer is a new one. -/
theorem certifyWith_recorded (refiner : Refiner m) (s : Settings)
    (layer : Layer) (p : Property) :
    Prod.fst <$> (s.certifyWith refiner.recorded layer p).run [] =
        s.certifyWith refiner layer p ∧
    (∀ fault, s.certify layer p = .error fault →
      (s.certifyWith refiner.recorded layer p).run [] =
        pure (.error fault, [])) ∧
    ∀ base, s.certify layer p = .ok base →
      base.decidedBy ≠ .refinement ∧
      (base.outcome.isDecided = true →
        (s.certifyWith refiner.recorded layer p).run [] =
          pure (.ok base, [])) ∧
      (base.outcome.isDecided = false →
        ∃ box, s.inputBox p = .ok box ∧
          (s.certifyWith refiner.recorded layer p).run [] = do
            let answer ← refiner (requestOf layer p box base)
            return (.ok { base with
              outcome := answer
              decidedBy :=
                if answer = base.outcome then base.decidedBy
                else .refinement }, [requestOf layer p box base])) := by
  refine ⟨fst_run_recorded refiner s layer p,
    fun fault h => run_recorded_of_refused refiner h, fun base h => ?_⟩
  exact ⟨decidedBy_ne_refinement h, run_recorded_of_settled refiner h,
    run_recorded_of_open refiner h⟩

/-- A refiner that calls every label robust, and counts how often it does. -/
def confident : Refiner (StateM Nat) := fun _ count => (.robust, count + 1)

/-- The property that a label wins at minus two, where the sample layer leaves
it open. -/
def openProperty : Property :=
  ⟨[ofBits 0xC000000000000000], [ofBits 0xC000000000000000], 1⟩

theorem certifyWith_recorded_confident :
    ∃ base box, sampleSettings.certify Layer.sample openProperty = .ok base ∧
      base.outcome = .unresolved [0] ∧
      sampleSettings.inputBox openProperty = .ok box ∧
      ((sampleSettings.certifyWith confident.recorded Layer.sample
          openProperty).run []).run 7 =
        ((.ok { base with outcome := .robust, decidedBy := .refinement },
          [requestOf Layer.sample openProperty box base]), 8) := by
  obtain ⟨base, hbase, houtcome⟩ := exists_ok_of_toOption
    (show (sampleSettings.certify Layer.sample openProperty).toOption.map
      (·.outcome) = some (.unresolved [0]) by decide +kernel)
  have hopen : base.outcome.isDecided = false := by rw [houtcome]; rfl
  obtain ⟨box, hbox, hrun⟩ := ((certifyWith_recorded confident sampleSettings
    Layer.sample openProperty).2.2 base hbase).2.2 hopen
  refine ⟨base, box, hbase, houtcome, hbox, ?_⟩
  rw [hrun, houtcome]
  rfl

end Settings

end BoxCert
