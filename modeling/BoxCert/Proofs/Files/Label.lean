import BoxCert.Proofs.Command.Endings
import BoxCert.Proofs.Files.Path
import BoxCert.Proofs.Property.Comparisons

/-!
# Labels in file names

A property file may be named after its label, which then stands between the
last underscore and the ending of property files. Which of two labels is meant
decides what is certified, so it matters that a name gives a label in this form
only: a label in the name silently wins over the one in the text.

Every name in this form gives its label, but so do names that lack a part of
it. Where there is no underscore the whole name is tried, where the ending is
missing it is done without, and the digits may follow a plus sign. A name with
an underscore, the ending and no plus sign behind an underscore gives a label
in the documented form only.
-/

namespace BoxCert

/-! ## Indices and the end of a text -/

theorem Numeral.index?_eq_some {text : List Char} {i : Nat} :
    index? text = some i ↔ ∃ sign digits, (sign = [] ∨ sign = ['+']) ∧
      text = sign ++ digits ∧ IsIndex digits i := by
  have hread : ∀ digits : List Char,
      (if digits.isEmpty || !digits.all Char.isDigit then none
        else if natOfDigits digits ≤ indexBound then some (natOfDigits digits)
        else none) = some i ↔ IsIndex digits i := by
    intro digits
    constructor
    · intro h
      split at h
      · cases h
      · next hguard =>
          simp only [Bool.or_eq_true, not_or, List.isEmpty_iff,
            Bool.not_eq_true', Bool.not_eq_false, List.all_eq_true] at hguard
          split at h
          · next hle => cases h; exact ⟨hguard.1, hguard.2, rfl, hle⟩
          · cases h
    · rintro ⟨hne, hdigits, rfl, hle⟩
      rw [if_neg, if_pos hle]
      simpa [hne] using hdigits
  unfold index? count?
  dsimp only
  split
  · next rest =>
      rw [hread]
      refine ⟨fun h => ⟨['+'], rest, .inr rfl, rfl, h⟩, ?_⟩
      rintro ⟨sign, digits, rfl | rfl, htext, hindex⟩
      · subst htext
        exact absurd (hindex.isDigit '+' List.mem_cons_self) (by decide)
      · cases htext
        exact hindex
  · next hplus =>
      rw [hread]
      refine ⟨fun h => ⟨[], text, .inl rfl, rfl, h⟩, ?_⟩
      rintro ⟨sign, digits, rfl | rfl, rfl, hindex⟩
      · exact hindex
      · exact absurd rfl (hplus digits)

/-- What follows the last separator of a text, or else the whole text. -/
def afterLast (separator : Char) (text : List Char) : List Char :=
  (splitLast? separator text).elim text (·.2)

theorem afterLast_eq_iff {separator : Char} {text rest : List Char} :
    afterLast separator text = rest ↔ separator ∉ rest ∧ ∃ front,
      (front = [] ∨ ∃ before, front = before ++ [separator]) ∧
        text = front ++ rest := by
  constructor
  · rintro rfl
    unfold afterLast
    cases h : splitLast? separator text with
    | none => exact ⟨splitLast?_eq_none.1 h, [], .inl rfl, rfl⟩
    | some pair =>
        obtain ⟨htext, hrest⟩ := of_splitLast?_eq_some h
        refine ⟨hrest, pair.1 ++ [separator], .inr ⟨_, rfl⟩, ?_⟩
        rw [htext, List.append_assoc]
        rfl
  · rintro ⟨hrest, front, rfl | ⟨before, rfl⟩, rfl⟩
    · rw [afterLast, splitLast?_eq_none.2 hrest]
      rfl
    · rw [afterLast, List.append_assoc, List.singleton_append,
        splitLast?_append hrest]
      rfl

namespace Path

variable {p : Path} {file name digits : List Char} {label : Nat}

/-! ## The name of the content -/

/-- Whether a name is that of the content of a file: what stands before the
extension of a compressed file, or else the name of the file. -/
inductive ContentName (file : List Char) : List Char → Prop where
  | packed {name : List Char} (hname : name ≠ [])
      (h : file = name ++ ".gz".toList) : ContentName file name
  | plain (h : ∀ stem, stem ≠ [] → file ≠ stem ++ ".gz".toList) :
      ContentName file file

theorem packed_iff {stem : List Char} :
    splitExtension name = (stem, some "gz".toList) ↔
      stem ≠ [] ∧ name = stem ++ ".gz".toList := by
  rw [splitExtension_eq_some_iff]
  exact and_congr_right fun _ => and_iff_right (by decide)

theorem contentName?_eq_some : p.contentName? = some name ↔
    ∃ file, p.fileName? = some file ∧ ContentName file name := by
  cases hfile : p.fileName? with
  | none => simp [contentName?, isCompressed, extension?, hfile]
  | some file =>
      have hcontent : p.contentName? =
          some (if (splitExtension file).2 = some "gz".toList
            then (splitExtension file).1 else file) := by
        rw [contentName?, isCompressed, extension?, stem?, hfile]
        simp only [Option.bind_some, Option.map_some, beq_iff_eq]
        split <;> rfl
      rw [hcontent, Option.some.injEq]
      simp only [Option.some.injEq, exists_eq_left']
      split
      · next h =>
          obtain ⟨hstem, hpacked⟩ := packed_iff.1 (Prod.ext rfl h)
          constructor
          · rintro rfl
            exact .packed hstem hpacked
          · rintro (⟨hname, h⟩ | hplain)
            · exact congrArg Prod.fst (packed_iff.2 ⟨hname, h⟩)
            · exact absurd hpacked (hplain _ hstem)
      · next h =>
          have hplain : ∀ stem, stem ≠ [] → file ≠ stem ++ ".gz".toList :=
            fun stem hstem hfile =>
              h (congrArg Prod.snd (packed_iff.2 ⟨hstem, hfile⟩))
          constructor
          · rintro rfl
            exact .plain hplain
          · rintro (⟨hname, h⟩ | _)
            · exact absurd h (hplain _ hname)
            · rfl

/-! ## The label in a name -/

/-- Whether a name has the documented form for a label: the label stands
between an underscore and the ending of property files. -/
def NamesLabel (name : List Char) (label : Nat) : Prop :=
  ∃ anything digits, name = anything ++ '_' :: digits ++ ".vnnlib".toList ∧
    Numeral.IsIndex digits label

/-- Whether a name ends in a label as far as reading goes: behind an underscore
or nothing, perhaps with a plus sign, and before the ending of property files or
nothing. -/
inductive EndsInLabel (name : List Char) (label : Nat) : Prop where
  | intro {front sign digits ending : List Char}
      (hname : name = front ++ (sign ++ digits) ++ ending)
      (hfront : front = [] ∨ ∃ anything, front = anything ++ ['_'])
      (hsign : sign = [] ∨ sign = ['+'])
      (hending : ending = [] ∨ ending = ".vnnlib".toList)
      (hindex : Numeral.IsIndex digits label) : EndsInLabel name label

/-- The name of a property file without the ending of property files. -/
def propertyStem (name : List Char) : List Char :=
  (withoutEnding? ".vnnlib".toList name).getD name

theorem propertyStem_append (stem : List Char) :
    propertyStem (stem ++ ".vnnlib".toList) = stem := by
  rw [propertyStem, withoutEnding?_append]
  rfl

theorem propertyStem_of_not_suffix (h : ¬ ".vnnlib".toList <:+ name) :
    propertyStem name = name := by
  rw [propertyStem, withoutEnding?, if_neg h]
  rfl

theorem exists_propertyStem (name : List Char) : ∃ ending,
    (ending = [] ∨ ending = ".vnnlib".toList) ∧
      name = propertyStem name ++ ending := by
  by_cases h : ".vnnlib".toList <:+ name
  · obtain ⟨stem, rfl⟩ := h
    exact ⟨_, .inr rfl, by rw [propertyStem_append]⟩
  · exact ⟨[], .inl rfl, by
      rw [propertyStem_of_not_suffix h, List.append_nil]⟩

/-- A text that ends in digits does not end as property files do. -/
theorem not_suffix_of_isIndex (h : Numeral.IsIndex digits label)
    (front : List Char) : ¬ ".vnnlib".toList <:+ front ++ digits := by
  rintro ⟨stem, heq⟩
  have hlast := congrArg List.getLast? heq
  rw [List.getLast?_append_of_ne_nil _ h.nonempty,
    List.getLast?_append_of_ne_nil _ (by decide)] at hlast
  have hmem : 'b' ∈ digits := List.mem_of_getLast? hlast.symm
  exact absurd (h.isDigit 'b' hmem) (by decide)

theorem underscore_not_mem {sign : List Char} (hsign : sign = [] ∨ sign = ['+'])
    (hindex : Numeral.IsIndex digits label) : '_' ∉ sign ++ digits := by
  rw [List.mem_append, not_or]
  refine ⟨?_, fun h => absurd (hindex.isDigit _ h) (by decide)⟩
  rcases hsign with rfl | rfl <;> decide

theorem index?_stem_eq_some :
    Numeral.index? (afterLast '_' (propertyStem name)) = some label ↔
      EndsInLabel name label := by
  constructor
  · intro h
    obtain ⟨sign, digits, hsign, htail, hindex⟩ := Numeral.index?_eq_some.1 h
    obtain ⟨-, front, hfront, hstem⟩ := afterLast_eq_iff.1 htail
    obtain ⟨ending, hending, hname⟩ := exists_propertyStem name
    rw [hstem] at hname
    exact .intro hname hfront hsign hending hindex
  · rintro @⟨front, sign, digits, ending, hname, hfront, hsign, hending,
      hindex⟩
    have hstem : propertyStem name = front ++ (sign ++ digits) := by
      rcases hending with rfl | rfl
      · rw [List.append_nil] at hname
        rw [hname]
        refine propertyStem_of_not_suffix ?_
        rw [← List.append_assoc]
        exact not_suffix_of_isIndex hindex _
      · rw [hname, propertyStem_append]
    have htail := afterLast_eq_iff.2
      ⟨underscore_not_mem hsign hindex, front, hfront, hstem⟩
    exact Numeral.index?_eq_some.2 ⟨sign, digits, hsign, htail, hindex⟩

theorem label?_eq_some : p.label? = some label ↔
    ∃ name, p.contentName? = some name ∧ EndsInLabel name label := by
  simp only [← index?_stem_eq_some]
  exact Option.bind_eq_some_iff

theorem NamesLabel.endsInLabel (h : NamesLabel name label) :
    EndsInLabel name label := by
  obtain ⟨anything, digits, rfl, hindex⟩ := h
  exact .intro (by simp) (.inr ⟨anything, rfl⟩) (.inl rfl) (.inr rfl) hindex

/-- Where the parts of the documented form are in place and no plus sign
follows an underscore, a label is in that form. -/
theorem EndsInLabel.namesLabel (h : EndsInLabel name label)
    (hscore : '_' ∈ name) (hending : ".vnnlib".toList <:+ name)
    (hplus : ¬ "_+".toList <:+: name) : NamesLabel name label := by
  obtain @⟨front, sign, digits, _, rfl, hfront, hsign, rfl | rfl, hindex⟩ := h
  · rw [List.append_nil, ← List.append_assoc] at hending
    exact absurd hending (not_suffix_of_isIndex hindex _)
  rcases hfront with rfl | ⟨anything, rfl⟩
  · rw [List.nil_append, List.mem_append] at hscore
    exact absurd hscore (not_or.2 ⟨underscore_not_mem hsign hindex, by decide⟩)
  rcases hsign with rfl | rfl
  · exact ⟨anything, digits, by simp, hindex⟩
  · refine absurd ⟨anything, digits ++ ".vnnlib".toList, ?_⟩ hplus
    simp

/-! ## The label of a property -/

variable {view : FileView} {property : Property}

theorem label_of_loadProperty (h : p.label? = some label)
    (hload : view.loadProperty p none = .ok property) :
    property.label = label := by
  rw [FileView.loadProperty_eq_ok, h] at hload
  obtain ⟨text, -, ⟨-, -, hlabel⟩⟩ := hload
  cases hlabel with
  | given h => cases h
  | named _ h => exact (Option.some.inj h).symm
  | stated _ h _ => cases h

/-- Without a label in the name, a property has the one that its text
states. -/
theorem loadProperty_of_label?_eq_none (h : p.label? = none) :
    view.loadProperty p none = .ok property ↔ ∃ text forms,
      view.contentText p = .ok text ∧ Form.read text.toList = .ok forms ∧
        (Statements.ofForms forms).corners =
          .ok (property.lower, property.upper) ∧
        (Statements.ofForms forms).label = .ok property.label := by
  rw [FileView.loadProperty_eq_ok, h]
  constructor
  · rintro ⟨text, htext, ⟨hforms, hcorners, hlabel⟩⟩
    cases hlabel with
    | given h => cases h
    | named _ h => cases h
    | stated _ _ h => exact ⟨text, _, htext, hforms, hcorners, h⟩
  · rintro ⟨text, forms, htext, hforms, hcorners, hlabel⟩
    exact ⟨text, htext, .intro hforms hcorners (.stated rfl rfl hlabel)⟩

/-- A path gives a label if and only if the name of the content ends in it. A
name in the documented form gives its label, and one that has the parts of that
form gives no other. A label in the name is that of the property; where there
is none, the text states it. -/
theorem label?_told_by_name (p : Path) :
    (∀ label, p.label? = some label ↔ ∃ file name,
      p.fileName? = some file ∧ ContentName file name ∧
        EndsInLabel name label) ∧
    (∀ file name, p.fileName? = some file → ContentName file name →
      (∀ label, NamesLabel name label → p.label? = some label) ∧
      ('_' ∈ name → ".vnnlib".toList <:+ name → ¬ "_+".toList <:+: name →
        ∀ label, p.label? = some label ↔ NamesLabel name label)) ∧
    (∀ label, p.label? = some label → ∀ (view : FileView) property,
      view.loadProperty p none = .ok property → property.label = label) ∧
    (p.label? = none → ∀ (view : FileView) property,
      view.loadProperty p none = .ok property ↔ ∃ text forms,
        view.contentText p = .ok text ∧ Form.read text.toList = .ok forms ∧
          (Statements.ofForms forms).corners =
            .ok (property.lower, property.upper) ∧
          (Statements.ofForms forms).label = .ok property.label) := by
  refine ⟨fun label => ?_, fun file name hfile hname => ?_,
    fun label h view property => label_of_loadProperty h,
    fun h view property => loadProperty_of_label?_eq_none h⟩
  · simp only [label?_eq_some, contentName?_eq_some]
    constructor
    · rintro ⟨name, ⟨file, hfile, hname⟩, h⟩
      exact ⟨file, name, hfile, hname, h⟩
    · rintro ⟨file, name, hfile, hname, h⟩
      exact ⟨name, ⟨file, hfile, hname⟩, h⟩
  · have hcontent := contentName?_eq_some.2 ⟨file, hfile, hname⟩
    have hlabel : ∀ label, p.label? = some label ↔ EndsInLabel name label := by
      intro label
      rw [label?_eq_some, hcontent]
      simp
    refine ⟨fun label h => (hlabel label).2 h.endsInLabel,
      fun hscore hending hplus label => (hlabel label).trans
        ⟨fun h => h.namesLabel hscore hending hplus, NamesLabel.endsInLabel⟩⟩

/-- Two files that state the label zero, one of them under a number for a
name. -/
def statedFiles : FileStore :=
  let text := ("(assert (>= X_0 0))(assert (<= X_0 1))" ++
    "(assert (or (>= Y_1 Y_0)))").toUTF8.toList
  .ofFiles [("property.vnnlib", text), ("7.vnnlib", text)]

theorem label?_told_by_name_samples :
    label? ⟨"/a/b/eps_0.1_3.vnnlib.gz"⟩ = some 3 ∧
    label? ⟨"property.vnnlib"⟩ = none ∧
    ∃ property text forms,
      statedFiles.view.loadProperty ⟨"property.vnnlib"⟩ none = .ok property ∧
        property.label = 0 ∧
        statedFiles.view.contentText ⟨"property.vnnlib"⟩ = .ok text ∧
        Form.read text.toList = .ok forms ∧
        (Statements.ofForms forms).label = .ok 0 := by
  have hfile : fileName? ⟨"/a/b/eps_0.1_3.vnnlib.gz"⟩ =
      some "eps_0.1_3.vnnlib.gz".toList := by decide +kernel
  have hname : ContentName "eps_0.1_3.vnnlib.gz".toList
      "eps_0.1_3.vnnlib".toList := .packed (by decide) rfl
  have hindex : Numeral.IsIndex ['3'] 3 :=
    ⟨List.cons_ne_nil _ _, List.forall_mem_singleton.2 rfl, rfl, by decide⟩
  have hlabel : NamesLabel "eps_0.1_3.vnnlib".toList 3 :=
    ⟨"eps_0.1".toList, ['3'], rfl, hindex⟩
  have hnone : label? ⟨"property.vnnlib"⟩ = none := by decide +kernel
  have hload : (statedFiles.view.loadProperty ⟨"property.vnnlib"⟩
      none).toOption.map (·.label) = some 0 := by decide +kernel
  obtain ⟨property, hproperty, hzero⟩ := exists_ok_of_toOption hload
  obtain ⟨-, hnamed, -, -⟩ := label?_told_by_name ⟨"/a/b/eps_0.1_3.vnnlib.gz"⟩
  obtain ⟨-, -, -, hstated⟩ := label?_told_by_name ⟨"property.vnnlib"⟩
  obtain ⟨text, forms, htext, hforms, -, hstated⟩ :=
    (hstated hnone _ property).1 hproperty
  rw [hzero] at hstated
  exact ⟨(hnamed _ _ hfile hname).1 3 hlabel, hnone, property, text, forms,
    hproperty, hzero, htext, hforms, hstated⟩

/-- A number alone is not in the documented form, but it is taken for a label
and wins over the one that the text states. -/
theorem label?_of_bare_number :
    fileName? ⟨"7.vnnlib"⟩ = some "7.vnnlib".toList ∧
    (∀ name, ContentName "7.vnnlib".toList name →
      ∀ label, ¬ NamesLabel name label) ∧
    label? ⟨"7.vnnlib"⟩ = some 7 ∧
    (statedFiles.view.loadProperty ⟨"7.vnnlib"⟩ none).toOption.map
      (·.label) = some 7 := by
  refine ⟨by decide +kernel, fun name hname label hlabel => ?_,
    by decide +kernel, by decide +kernel⟩
  have hscore : '_' ∈ name := by
    obtain ⟨anything, digits, rfl, -⟩ := hlabel
    simp
  have hmem : '_' ∈ "7.vnnlib".toList := by
    cases hname with
    | packed _ h => rw [h]; exact List.mem_append_left _ hscore
    | plain _ => exact hscore
  exact absurd hmem (by decide)

end Path

end BoxCert
