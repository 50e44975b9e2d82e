import BoxCert.Proofs.Property.Alike

/-!
# Runs of clauses

Which part of a file a clause belongs to depends on the clauses before it, so
what a clause adds to the statements of a file cannot be told from it alone.
Two runs of clauses are *interchangeable* if they add the same, up to order, in
either part and lead into the output part together. That is kept when runs are
put together, so one run can be exchanged for the other anywhere in a file, and
the file is read alike.
-/

namespace BoxCert

namespace Form

/-! ## The parts of a file -/

/-- The clauses before the first asserted disjunction. -/
def inputPart (forms : List Form) : List Form :=
  forms.takeWhile (!·.assertsDisjunction)

/-- The clauses from the first asserted disjunction on. -/
def outputPart (forms : List Form) : List Form :=
  forms.dropWhile (!·.assertsDisjunction)

/-- The bounds that a clause states in the input part. -/
def inputBounds (form : Form) : List WrittenBound :=
  form.asserted?.elim [] bounds

/-- The classes that a clause states in the output part. -/
def outputClasses (form : Form) : List Nat :=
  form.asserted?.elim [] dominated

def stateBounds (forms : List Form) : List WrittenBound :=
  (inputPart forms).flatMap inputBounds

def stateClasses (forms : List Form) : List Nat :=
  (inputPart forms).filterMap directlyDominated? ++
    (outputPart forms).flatMap outputClasses

/-- Whether a run of clauses holds an asserted disjunction. -/
def reachesOutput (forms : List Form) : Bool :=
  forms.any assertsDisjunction

variable {forms forms' rest rest' : List Form}

theorem reachesOutput_append (forms rest : List Form) :
    reachesOutput (forms ++ rest) =
      (reachesOutput forms || reachesOutput rest) :=
  List.any_append

theorem reachesOutput_singleton (form : Form) :
    reachesOutput [form] = form.assertsDisjunction :=
  Bool.or_false _

theorem stateBounds_singleton (form : Form) :
    stateBounds [form] =
      if form.assertsDisjunction then [] else form.inputBounds := by
  cases h : form.assertsDisjunction <;> simp [stateBounds, inputPart, h]

theorem stateClasses_singleton (form : Form) :
    stateClasses [form] = if form.assertsDisjunction then form.outputClasses
      else form.directlyDominated?.toList := by
  cases h : form.assertsDisjunction with
  | true => simp [stateClasses, inputPart, outputPart, h]
  | false =>
      cases hclass : form.directlyDominated? <;>
        simp [stateClasses, inputPart, outputPart, h, hclass]

theorem parts_of_not_reachesOutput (h : reachesOutput forms = false)
    (rest : List Form) : inputPart (forms ++ rest) = forms ++ inputPart rest ∧
      outputPart (forms ++ rest) = outputPart rest := by
  have hall : ∀ form ∈ forms, (!form.assertsDisjunction) = true := by
    simpa [reachesOutput] using h
  exact ⟨List.takeWhile_append_of_pos hall, List.dropWhile_append_of_pos hall⟩

theorem parts_of_reachesOutput (h : reachesOutput forms = true)
    (rest : List Form) : inputPart (forms ++ rest) = inputPart forms ∧
      outputPart (forms ++ rest) = outputPart forms ++ rest := by
  induction forms with
  | nil => cases h
  | cons form forms ih =>
      cases hform : form.assertsDisjunction with
      | true => simp [inputPart, outputPart, hform]
      | false =>
          rw [reachesOutput, List.any_cons, hform, Bool.false_or] at h
          simpa [inputPart, outputPart, hform] using ih h

/-- A run that does not lead into the output part lies in the input part. -/
theorem parts_eq_self (h : reachesOutput forms = false) :
    inputPart forms = forms ∧ outputPart forms = [] := by
  simpa [inputPart, outputPart] using parts_of_not_reachesOutput h []

theorem stateBounds_eq_flatMap (h : reachesOutput forms = false) :
    stateBounds forms = forms.flatMap inputBounds := by
  rw [stateBounds, (parts_eq_self h).1]

theorem stateClasses_eq_filterMap (h : reachesOutput forms = false) :
    stateClasses forms = forms.filterMap directlyDominated? := by
  rw [stateClasses, (parts_eq_self h).1, (parts_eq_self h).2,
    List.flatMap_nil, List.append_nil]

theorem stateBounds_append (forms rest : List Form) :
    stateBounds (forms ++ rest) = stateBounds forms ++
      if reachesOutput forms then [] else stateBounds rest := by
  cases h : reachesOutput forms with
  | true =>
      rw [stateBounds, (parts_of_reachesOutput h rest).1, if_pos rfl,
        List.append_nil]
      rfl
  | false =>
      rw [stateBounds_eq_flatMap h, stateBounds,
        (parts_of_not_reachesOutput h rest).1, List.flatMap_append]
      rfl

theorem stateClasses_append (forms rest : List Form) :
    stateClasses (forms ++ rest) = stateClasses forms ++
      if reachesOutput forms then rest.flatMap outputClasses
      else stateClasses rest := by
  cases h : reachesOutput forms with
  | true =>
      obtain ⟨hinput, houtput⟩ := parts_of_reachesOutput h rest
      rw [stateClasses, stateClasses, hinput, houtput, List.flatMap_append,
        if_pos rfl, List.append_assoc]
  | false =>
      obtain ⟨hinput, houtput⟩ := parts_of_not_reachesOutput h rest
      rw [stateClasses_eq_filterMap h, stateClasses, hinput, houtput,
        List.filterMap_append, List.append_assoc]
      rfl

/-! ## Exchanging runs -/

/-- Whether two runs of clauses state the same up to order, wherever in a file
they stand. -/
structure Interchangeable (forms forms' : List Form) : Prop where
  reaches : reachesOutput forms = reachesOutput forms'
  declared : (forms.filterMap declared?).Perm (forms'.filterMap declared?)
  bounds : ((stateBounds forms).map WrittenBound.meaning?).Perm
    ((stateBounds forms').map WrittenBound.meaning?)
  classes : (stateClasses forms).Perm (stateClasses forms')
  outputClasses : (forms.flatMap outputClasses).Perm
    (forms'.flatMap outputClasses)

namespace Interchangeable

protected theorem refl (forms : List Form) : Interchangeable forms forms :=
  ⟨rfl, .refl _, .refl _, .refl _, .refl _⟩

protected theorem trans {forms'' : List Form} (h : Interchangeable forms forms')
    (h' : Interchangeable forms' forms'') : Interchangeable forms forms'' :=
  ⟨h.reaches.trans h'.reaches, h.declared.trans h'.declared,
    h.bounds.trans h'.bounds, h.classes.trans h'.classes,
    h.outputClasses.trans h'.outputClasses⟩

/-- Past an asserted disjunction, only the declarations and the classes of the
output part count. -/
theorem append_of_reaches (h : Interchangeable forms forms')
    (hreaches : reachesOutput forms = true)
    (hdeclared : (rest.filterMap declared?).Perm (rest'.filterMap declared?))
    (hclasses : (rest.flatMap Form.outputClasses).Perm
      (rest'.flatMap Form.outputClasses)) :
    Interchangeable (forms ++ rest) (forms' ++ rest') := by
  have hreaches' := h.reaches.symm.trans hreaches
  refine ⟨?_, ?_, ?_, ?_, ?_⟩
  · rw [reachesOutput_append, reachesOutput_append, hreaches, hreaches',
      Bool.true_or, Bool.true_or]
  · rw [List.filterMap_append, List.filterMap_append]
    exact h.declared.append hdeclared
  · rw [stateBounds_append, stateBounds_append, if_pos hreaches,
      if_pos hreaches', List.append_nil, List.append_nil]
    exact h.bounds
  · rw [stateClasses_append, stateClasses_append, if_pos hreaches,
      if_pos hreaches']
    exact h.classes.append hclasses
  · rw [List.flatMap_append, List.flatMap_append]
    exact h.outputClasses.append hclasses

theorem append (h : Interchangeable forms forms')
    (h' : Interchangeable rest rest') :
    Interchangeable (forms ++ rest) (forms' ++ rest') := by
  cases hreaches : reachesOutput forms with
  | true => exact h.append_of_reaches hreaches h'.declared h'.outputClasses
  | false =>
      have hreaches' := h.reaches.symm.trans hreaches
      refine ⟨?_, ?_, ?_, ?_, ?_⟩
      · rw [reachesOutput_append, reachesOutput_append, h.reaches, h'.reaches]
      · rw [List.filterMap_append, List.filterMap_append]
        exact h.declared.append h'.declared
      · rw [stateBounds_append, stateBounds_append, hreaches, hreaches',
          List.map_append, List.map_append]
        exact h.bounds.append h'.bounds
      · rw [stateClasses_append, stateClasses_append, hreaches, hreaches']
        exact h.classes.append h'.classes
      · rw [List.flatMap_append, List.flatMap_append]
        exact h.outputClasses.append h'.outputClasses

/-- A clause can be exchanged for another one that states the same in either
part. -/
theorem clause {form form' : Form}
    (hdisjunction : form.assertsDisjunction = form'.assertsDisjunction)
    (hdeclared : form.declared? = form'.declared?)
    (hbounds : form.inputBounds.map WrittenBound.meaning? =
      form'.inputBounds.map WrittenBound.meaning?)
    (hclass : form.directlyDominated? = form'.directlyDominated?)
    (hclasses : form.outputClasses = form'.outputClasses) :
    Interchangeable [form] [form'] := by
  refine ⟨?_, ?_, ?_, ?_, ?_⟩
  · rw [reachesOutput_singleton, reachesOutput_singleton, hdisjunction]
  · rw [List.filterMap_cons, List.filterMap_cons, hdeclared]
  · rw [stateBounds_singleton, stateBounds_singleton, hdisjunction]
    cases form'.assertsDisjunction
    · exact .of_eq hbounds
    · exact .refl _
  · rw [stateClasses_singleton, stateClasses_singleton, hdisjunction, hclass,
      hclasses]
  · rw [List.flatMap_singleton, List.flatMap_singleton, hclasses]

theorem around (before after : List Form) (h : Interchangeable forms forms') :
    Interchangeable (before ++ forms ++ after) (before ++ forms' ++ after) :=
  ((Interchangeable.refl before).append h).append (.refl after)

/-- Input clauses may stand in any order. -/
theorem of_perm (h : forms.Perm forms')
    (hreaches : reachesOutput forms = false) :
    Interchangeable forms forms' := by
  have hsame : reachesOutput forms = reachesOutput forms' := h.any_eq
  have hreaches' := hsame.symm.trans hreaches
  refine ⟨hsame, h.filterMap _, ?_, ?_, h.flatMap_right _⟩
  · rw [stateBounds_eq_flatMap hreaches, stateBounds_eq_flatMap hreaches']
    exact (h.flatMap_right _).map _
  · rw [stateClasses_eq_filterMap hreaches, stateClasses_eq_filterMap hreaches']
    exact h.filterMap _

theorem alike (h : Interchangeable forms forms') :
    (Statements.ofForms forms).Alike (Statements.ofForms forms') where
  bounds := h.bounds
  declaredInputs := Statements.foldl_max_perm (f := id) h.declared 0
  labels := h.classes

end Interchangeable

end Form

end BoxCert
