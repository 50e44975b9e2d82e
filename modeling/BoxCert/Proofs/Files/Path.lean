import Mathlib.Data.List.TakeWhile
import BoxCert.Files.Path

/-!
# Names at the end of a path

Everything that a path says about a file is read off its last name, by cutting
texts at their last separator. This file says what the cuts do to a text that
has something added at its end: an ending without a slash goes to the last name
of a path, and an extension that is added is the one that is found.
-/

namespace BoxCert

/-! ## Cutting texts -/

section Text

variable {separator : Char} {text ending before after : List Char}

theorem segments_ne_nil (separator : Char) (text : List Char) :
    segments separator text ≠ [] := by
  cases text with
  | nil => simp [segments]
  | cons c rest =>
      rw [segments]
      split
      · simp
      · split <;> simp

theorem segments_of_not_mem (h : separator ∉ text) :
    segments separator text = [text] := by
  induction text with
  | nil => rfl
  | cons c rest ih =>
      rw [List.mem_cons, not_or] at h
      rw [segments, if_neg (Ne.symm h.1), ih h.2]

/-- An ending without a separator is added to the last stretch of a text. -/
theorem segments_append (h : separator ∉ ending)
    {stretches : List (List Char)} {last : List Char}
    (hs : segments separator text = stretches ++ [last]) :
    segments separator (text ++ ending) = stretches ++ [last ++ ending] := by
  induction text generalizing stretches last with
  | nil =>
      obtain ⟨rfl, rfl⟩ : stretches = [] ∧ last = [] := by
        cases stretches <;> simp_all [segments]
      exact segments_of_not_mem h
  | cons c rest ih =>
      -- The last stretch of the text is that of its tail, perhaps with its
      -- head in front.
      obtain ⟨others, final, hrest⟩ : ∃ others final,
          segments separator rest = others ++ [final] :=
        ⟨_, _, (List.dropLast_concat_getLast (segments_ne_nil _ _)).symm⟩
      have hmore := ih hrest
      rw [segments, hrest] at hs
      rw [List.cons_append, segments, hmore]
      by_cases hc : c = separator
      · rw [if_pos hc] at hs ⊢
        rw [← List.cons_append] at hs ⊢
        obtain ⟨rfl, hlast⟩ := List.append_inj' hs rfl
        cases hlast
        rfl
      · rw [if_neg hc] at hs ⊢
        cases others with
        | nil =>
            obtain ⟨rfl, rfl⟩ : stretches = [] ∧ last = c :: final := by
              cases stretches <;> simp_all
            rfl
        | cons first others =>
            change (c :: first) :: (others ++ [final]) = _ at hs
            show (c :: first) :: (others ++ [final ++ ending]) = _
            rw [← List.cons_append] at hs ⊢
            obtain ⟨rfl, hlast⟩ := List.append_inj' hs rfl
            cases hlast
            rfl

theorem splitLast?_append (h : separator ∉ after) :
    splitLast? separator (before ++ separator :: after) =
      some (before, after) := by
  have hpass : ∀ c ∈ after.reverse, (c != separator) = true := by
    intro c hc
    rw [bne_iff_ne]
    rintro rfl
    exact h (List.mem_reverse.1 hc)
  simp [splitLast?, List.dropWhile_append_of_pos hpass,
    List.takeWhile_append_of_pos hpass]

/-- A text is cut at its last separator. -/
theorem of_splitLast?_eq_some
    (h : splitLast? separator text = some (before, after)) :
    text = before ++ separator :: after ∧ separator ∉ after := by
  unfold splitLast? at h
  dsimp only at h
  split at h
  · cases h
  · next c rest hdrop =>
      cases h
      have hhead := List.head_dropWhile_not (· != separator)
        (l := text.reverse) (by rw [hdrop]; simp)
      simp only [hdrop, List.head_cons, bne_eq_false_iff_eq] at hhead
      subst hhead
      constructor
      · rw [← List.reverse_inj, List.reverse_append, List.reverse_cons,
          List.reverse_reverse, List.reverse_reverse, List.append_assoc,
          List.singleton_append, ← hdrop, List.takeWhile_append_dropWhile]
      · intro hmem
        have := List.mem_takeWhile_imp (List.mem_reverse.1 hmem)
        simp at this

theorem splitLast?_eq_none :
    splitLast? separator text = none ↔ separator ∉ text := by
  unfold splitLast?
  dsimp only
  constructor
  · intro h
    split at h
    · next hdrop =>
        intro hmem
        have := List.dropWhile_eq_nil_iff.1 hdrop separator
          (List.mem_reverse.2 hmem)
        simp at this
    · cases h
  · intro h
    rw [List.dropWhile_eq_nil_iff.2]
    intro c hc
    rw [bne_iff_ne]
    rintro rfl
    exact h (List.mem_reverse.1 hc)

/-! ## Endings -/

theorem withoutEnding?_append :
    withoutEnding? ending (text ++ ending) = some text := by
  rw [withoutEnding?, if_pos (List.suffix_append text ending)]
  simp

theorem withoutEndings_append (h : ending ≠ []) :
    withoutEndings ending (text ++ ending) = withoutEndings ending text := by
  have hlt : text.length < (text ++ ending).length := by
    simp [List.length_pos_iff.2 h]
  rw [withoutEndings, withoutEnding?_append]
  exact if_pos hlt

theorem withoutEndings_of_not_suffix (h : ¬ ending <:+ text) :
    withoutEndings ending text = text := by
  rw [withoutEndings, withoutEnding?, if_neg h]

theorem length_withoutEndings_le (ending text : List Char) :
    (withoutEndings ending text).length ≤ text.length := by
  fun_induction withoutEndings ending text with
  | case1 text hnone => exact le_rfl
  | case2 text shorter hshorter hlt ih => exact ih.trans hlt.le
  | case3 text shorter hshorter hlt => exact le_rfl

end Text

namespace Path

variable {p : Path} {name stem extension : List Char}
  {before : List (List Char)}

/-! ## The last name -/

/-- Whether a path ends with a name. One that ends with a slash, or with a
slash and a dot, asks for a directory. -/
def EndsInName (p : Path) : Prop :=
  p.names.getLast? ≠ some [] ∧ p.names.getLast? ≠ some here

/-- Whether a name can be that of a file. -/
def IsFileName (name : List Char) : Prop :=
  name ≠ [] ∧ name ≠ here ∧ name ≠ upwards

theorem fileName?_of_names (hnames : p.names = before ++ [name])
    (h : IsFileName name) : p.fileName? = some name := by
  obtain ⟨hne, hhere, hup⟩ := h
  simp [fileName?, hnames, hne, hhere, hup]

/-- The file name of a path that ends with a name is that name. -/
theorem names_of_fileName? (hend : p.EndsInName)
    (hname : p.fileName? = some name) :
    ∃ before, p.names = before ++ [name] ∧ IsFileName name := by
  obtain ⟨before, last, hnames⟩ : ∃ before last, p.names = before ++ [last] :=
    ⟨_, _, (List.dropLast_concat_getLast (segments_ne_nil _ _)).symm⟩
  obtain ⟨hne, hhere⟩ : last ≠ [] ∧ last ≠ here := by
    simpa [EndsInName, hnames] using hend
  obtain ⟨rfl, hup⟩ : last = name ∧ name ≠ upwards := by
    simpa [fileName?, hnames, hne, hhere, Option.filter_eq_some_iff] using hname
  exact ⟨before, hnames, hne, hhere, hup⟩

/-! ## Extensions -/

theorem splitExtension_append (hstem : stem ≠ []) (h : '.' ∉ extension) :
    splitExtension (stem ++ '.' :: extension) = (stem, some extension) := by
  rw [splitExtension, splitLast?_append h]
  cases stem with
  | nil => exact absurd rfl hstem
  | cons c rest => rfl

theorem splitExtension_eq_some_iff :
    splitExtension name = (stem, some extension) ↔
      stem ≠ [] ∧ '.' ∉ extension ∧ name = stem ++ '.' :: extension := by
  constructor
  · intro h
    unfold splitExtension at h
    split at h
    · next hsplit =>
        cases h
        obtain ⟨hname, hdot⟩ := of_splitLast?_eq_some hsplit
        exact ⟨List.cons_ne_nil _ _, hdot, hname⟩
    · cases h
  · rintro ⟨hstem, hdot, rfl⟩
    exact splitExtension_append hstem hdot

theorem of_splitExtension_eq_some
    (h : (splitExtension name).2 = some extension) :
    name = (splitExtension name).1 ++ '.' :: extension ∧ '.' ∉ extension := by
  obtain ⟨-, hdot, hname⟩ := splitExtension_eq_some_iff.1 (Prod.ext rfl h)
  exact ⟨hname, hdot⟩

end Path

end BoxCert
