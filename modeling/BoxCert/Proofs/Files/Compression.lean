import BoxCert.Model.Loading
import BoxCert.Proofs.Checked
import BoxCert.Proofs.Files.Path

/-!
# Compressed files load alike

A compressed file has the name of its content with an extension added, and it
should load as its content does. What is read off a name is read off the name
of the content, which is the same for both: the format, the label, and the name
of a model that is given by rows.

The name of a model graph is an exception. It is the file name without its last
extension and then without the extension of graphs, as often as that stands
there in lower case. An extension in other letters tells the format as well,
but only the file that is not compressed loses it; so the two load as the same
model exactly if the extension is in lower case, and otherwise as models that
differ in their names.
-/

namespace BoxCert

/-! ## File systems -/

/-- Whether a file system leads to files only along paths that end with a
name. A slash behind a name asks for a directory, so every file store does
so. -/
def FileView.Regular (view : FileView) : Prop :=
  ∀ p bytes, view p = .ok (.file bytes) → p.EndsInName

namespace FileStore

variable {s : FileStore} {place next : FilePlace} {name : List Char}

theorem next?_eq_ok (h : s.next? place name = .ok next) :
    s.entry? place = some .directory ∧ place.next? name = some next := by
  unfold FileStore.next? at h
  split at h
  · cases h
  · cases h
  · next hentry =>
      split at h
      · cases h
      · split at h
        · cases h
        · next hnext =>
            cases h
            exact ⟨hentry, hnext⟩

/-- A name that stays in place is followed only in a directory. -/
theorem entry?_of_next?_self (hname : name = [] ∨ name = Path.here)
    (h : s.next? place name = .ok next) : s.entry? next = some .directory := by
  obtain ⟨hentry, hnext⟩ := next?_eq_ok h
  unfold FilePlace.next? at hnext
  rw [if_pos hname] at hnext
  cases hnext
  exact hentry

theorem view_eq_ok {p : Path} {entry : FileEntry} (h : s.view p = .ok entry) :
    ∃ start place, p.names.foldlM s.next? start = .ok place ∧
      s.entry? place = some entry := by
  unfold view at h
  by_cases hzero : p.text.toList.contains '\x00'
  · rw [if_pos hzero] at h
    cases h
  by_cases hempty : p.text.isEmpty
  · rw [if_neg hzero, if_pos hempty] at h
    cases h
  by_cases hlong : pathLimit < byteCount p.text.toList
  · rw [if_neg hzero, if_neg hempty, if_pos hlong] at h
    cases h
  rw [if_neg hzero, if_neg hempty, if_neg hlong] at h
  obtain ⟨place, hwalk, h⟩ := bind_eq_ok.1 h
  split at h
  · cases h
  · next hentry =>
      cases h
      exact ⟨_, place, hwalk, hentry⟩

theorem view_regular (s : FileStore) : s.view.Regular := by
  intro p bytes h
  obtain ⟨start, place, hwalk, hentry⟩ := view_eq_ok h
  have hlast : ∀ last, p.names.getLast? = some last →
      ¬ (last = [] ∨ last = Path.here) := by
    intro last hlast hself
    obtain ⟨before, hnames⟩ := List.getLast?_eq_some_iff.1 hlast
    rw [hnames, List.foldlM_append] at hwalk
    obtain ⟨way, -, hwalk⟩ := bind_eq_ok.1 hwalk
    obtain ⟨next, hnext, hwalk⟩ := bind_eq_ok.1 hwalk
    cases hwalk
    cases hentry.symm.trans (entry?_of_next?_self hself hnext)
  exact ⟨fun h => hlast _ h (.inl rfl), fun h => hlast _ h (.inr rfl)⟩

end FileStore

namespace Path

variable {p : Path} {name stem extension : List Char}

/-! ## Names of compressed files -/

/-- The path of the compressed form of a file. -/
def compressed (p : Path) : Path := ⟨p.text ++ ".gz"⟩

theorem fileName?_compressed (hend : p.EndsInName)
    (hname : p.fileName? = some name) :
    p.compressed.fileName? = some (name ++ ".gz".toList) := by
  obtain ⟨before, hnames, hne, -, -⟩ := names_of_fileName? hend hname
  have hmore : p.compressed.names = before ++ [name ++ ".gz".toList] := by
    rw [names, compressed, String.toList_append]
    exact segments_append (by decide) hnames
  refine fileName?_of_names hmore ⟨?_, ?_, ?_⟩
  · simp
  · intro h
    simpa using congrArg List.length h
  · intro h
    simpa using congrArg List.length h

/-- Whether a path leads to a file of the given name that is not compressed. -/
structure IsPlain (p : Path) (name : List Char) : Prop where
  endsInName : p.EndsInName
  fileName?_eq : p.fileName? = some name
  extension?_ne : p.extension? ≠ some "gz".toList

namespace IsPlain

variable (h : p.IsPlain name)

include h

theorem isCompressed_eq_false : p.isCompressed = false := by
  simpa [isCompressed] using h.extension?_ne

theorem contentName?_eq : p.contentName? = some name := by
  rw [contentName?, h.isCompressed_eq_false, h.fileName?_eq]
  rfl

/-- The extension that is added is the one that is found. -/
theorem splitExtension_eq : splitExtension (name ++ ".gz".toList) =
    (name, some "gz".toList) := by
  obtain ⟨-, -, hne, -, -⟩ := names_of_fileName? h.endsInName h.fileName?_eq
  exact splitExtension_append hne (by decide)

theorem stem?_compressed : p.compressed.stem? = some name := by
  rw [stem?, fileName?_compressed h.endsInName h.fileName?_eq,
    Option.map_some, h.splitExtension_eq]

theorem isCompressed_compressed : p.compressed.isCompressed = true := by
  rw [isCompressed, extension?,
    fileName?_compressed h.endsInName h.fileName?_eq, Option.bind_some,
    h.splitExtension_eq]
  rfl

theorem contentName?_compressed :
    p.compressed.contentName? = p.contentName? := by
  rw [h.contentName?_eq, contentName?, h.isCompressed_compressed,
    h.stem?_compressed]
  rfl

theorem label?_compressed : p.compressed.label? = p.label? := by
  rw [label?, label?, h.contentName?_compressed]

theorem rowsName_compressed : p.compressed.rowsName = p.rowsName := by
  rw [rowsName, rowsName, h.contentName?_compressed]

theorem contentExtension?_compressed :
    p.compressed.contentExtension? = p.contentExtension? := by
  rw [contentExtension?, contentExtension?, h.contentName?_compressed]

/-- Both paths have the same format, or none of them has one. -/
theorem modelFormat_compressed :
    p.compressed.modelFormat.toOption = p.modelFormat.toOption := by
  rw [modelFormat, modelFormat, h.contentExtension?_compressed]
  split
  · rfl
  · split <;> rfl

/-! ## Names of model graphs -/

theorem graphName_compressed : p.compressed.graphName =
    String.ofList (withoutEndings ".onnx".toList name) := by
  rw [graphName, h.stem?_compressed]
  rfl

theorem exists_stem (hextension : p.extension? = some extension) :
    ∃ stem, name = stem ++ '.' :: extension ∧ '.' ∉ extension ∧
      p.graphName = String.ofList (withoutEndings ".onnx".toList stem) := by
  rw [extension?, h.fileName?_eq, Option.bind_some] at hextension
  obtain ⟨hname, hdot⟩ := of_splitExtension_eq_some hextension
  refine ⟨_, hname, hdot, ?_⟩
  rw [graphName, stem?, h.fileName?_eq]
  rfl

theorem exists_extension_of_graph (hformat : p.modelFormat = .ok .graph) :
    ∃ extension, p.extension? = some extension := by
  cases hextension : p.extension? with
  | some extension => exact ⟨extension, rfl⟩
  | none =>
      have hnone : p.contentExtension? = none := by
        rw [contentExtension?, h.contentName?_eq, ← h.fileName?_eq,
          ← extension?, hextension]
        rfl
      rw [modelFormat, hnone] at hformat
      cases hformat

theorem graphName_compressed_of_lower
    (hlower : p.extension? = some "onnx".toList) :
    p.compressed.graphName = p.graphName := by
  obtain ⟨stem, rfl, -, hgraph⟩ := h.exists_stem hlower
  rw [h.graphName_compressed, hgraph]
  exact congrArg String.ofList (withoutEndings_append (by decide))

/-- An extension that is not spelled as that of graphs stays in the name of the
compressed file, and only there. -/
theorem graphName_compressed_of_ne
    (hextension : p.extension? = some extension)
    (hne : extension ≠ "onnx".toList) :
    p.compressed.graphName = String.ofList name ∧
      p.graphName ≠ String.ofList name := by
  obtain ⟨stem, rfl, hdot, hgraph⟩ := h.exists_stem hextension
  constructor
  · rw [h.graphName_compressed, withoutEndings_of_not_suffix]
    rintro ⟨other, hother⟩
    -- A name has only one extension.
    have hsplit : splitLast? '.' (stem ++ '.' :: extension) =
        some (stem, extension) := splitLast?_append hdot
    have hsplit' : splitLast? '.' (other ++ ".onnx".toList) =
        some (other, "onnx".toList) := splitLast?_append (by decide)
    rw [hother] at hsplit'
    cases hsplit'.symm.trans hsplit
    exact hne rfl
  · rw [hgraph]
    intro heq
    have hle := length_withoutEndings_le ".onnx".toList stem
    rw [String.ofList_injective heq, List.length_append, List.length_cons] at hle
    omega

end IsPlain

end Path

namespace Model

variable {bytes : List UInt8} {name : String} {model : Model}

theorem name_of_ofGraphBytes (h : ofGraphBytes bytes name = .ok model) :
    model.name = name := by
  unfold ofGraphBytes at h
  split at h
  · cases h
  · cases h
  · obtain ⟨⟨weight, bias⟩, -, h⟩ := bind_eq_ok.1 h
    cases h
    rfl

/-- The name does not decide whether a graph is loaded, nor as what layer. -/
theorem ofGraphBytes_name (bytes : List UInt8) (name other : String) :
    (ofGraphBytes bytes other).toOption =
      (ofGraphBytes bytes name).toOption.map fun model =>
        { model with name := other } := by
  unfold ofGraphBytes
  split
  · rfl
  · rfl
  · next g hg =>
      rw [Onnx.Graph.toModel, Onnx.Graph.toModel]
      cases g.layer <;> rfl

end Model

namespace FileView

variable {view : FileView} {p : Path} {name : List Char}
  {bytes packed : List UInt8}

/-! ## Loading both -/

/-- Whether a file and its compressed form have the same content. -/
structure Packs (view : FileView) (p : Path) (bytes packed : List UInt8) :
    Prop where
  plain : view p = .ok (.file bytes)
  compressed : view p.compressed = .ok (.file packed)
  unpack? : Gzip.unpack? packed = some bytes

theorem loadModel_of_graph (hformat : p.modelFormat = .ok .graph)
    (hcontent : view.content p = .ok bytes) :
    view.loadModel p = Model.ofGraphBytes bytes p.graphName := by
  simp only [loadModel, hformat, hcontent]
  rfl

section Pair

variable (hp : p.IsPlain name) (hpack : view.Packs p bytes packed)

include hp hpack

theorem content_eq : view.content p = .ok bytes := by
  rw [content, hpack.plain, hp.isCompressed_eq_false]
  rfl

theorem content_compressed : view.content p.compressed = .ok bytes := by
  rw [content, hpack.compressed, hp.isCompressed_compressed]
  simp only [if_true, hpack.unpack?]

theorem contentText_compressed :
    view.contentText p.compressed = view.contentText p := by
  rw [contentText, contentText, content_eq hp hpack,
    content_compressed hp hpack]

theorem loadProperty_compressed (label : Option Nat) :
    view.loadProperty p.compressed label = view.loadProperty p label := by
  rw [loadProperty, loadProperty, contentText_compressed hp hpack,
    hp.label?_compressed]

/-- Where a graph has a name of its own, the two load as the same model but for
that, or neither does. -/
theorem loadModel_compressed_of_graph (hgraph : p.modelFormat = .ok .graph) :
    (view.loadModel p.compressed).toOption =
      (view.loadModel p).toOption.map fun model =>
        { model with name := p.compressed.graphName } := by
  have hformat := toOption_eq_some.1
    (hp.modelFormat_compressed.trans (congrArg Except.toOption hgraph))
  rw [loadModel_of_graph hgraph (content_eq hp hpack),
    loadModel_of_graph hformat (content_compressed hp hpack)]
  exact Model.ofGraphBytes_name bytes p.graphName p.compressed.graphName

/-- The two load as the same model, or neither does, unless they are graphs
with different names. -/
theorem loadModel_compressed
    (hname : p.modelFormat = .ok .graph →
      p.compressed.graphName = p.graphName) :
    (view.loadModel p.compressed).toOption =
      (view.loadModel p).toOption := by
  have hsame := hp.modelFormat_compressed
  cases hformat : p.modelFormat with
  | error fault =>
      rw [hformat] at hsame
      cases hformat' : p.compressed.modelFormat with
      | error fault' =>
          rw [loadModel, loadModel, hformat, hformat']
          rfl
      | ok format =>
          rw [hformat'] at hsame
          cases hsame
  | ok format =>
      rw [hformat] at hsame
      have hformat' := toOption_eq_some.1 hsame
      cases format with
      | graph =>
          rw [loadModel_of_graph hformat (content_eq hp hpack),
            loadModel_of_graph hformat' (content_compressed hp hpack),
            hname hformat]
      | rows =>
          rw [loadModel, loadModel, hformat, hformat',
            contentText_compressed hp hpack, hp.rowsName_compressed]
          rfl

end Pair

/-- A file and its compressed form have the same format, give the same label
and read as the same property. They load as the same model as well, or neither
loads, unless they are model graphs whose extension is not in lower case. Such
graphs load as models that differ in their names and in nothing else. -/
theorem load_compressed (hview : view.Regular) (hname : p.fileName? = some name)
    (hplain : p.extension? ≠ some "gz".toList)
    (hfile : view p = .ok (.file bytes))
    (hpacked : view p.compressed = .ok (.file packed))
    (hunpack : Gzip.unpack? packed = some bytes) :
    p.compressed.modelFormat.toOption = p.modelFormat.toOption ∧
    p.compressed.label? = p.label? ∧
    (∀ label,
      view.loadProperty p.compressed label = view.loadProperty p label) ∧
    ((p.modelFormat = .ok .graph → p.extension? = some "onnx".toList) →
      (view.loadModel p.compressed).toOption =
        (view.loadModel p).toOption) ∧
    (p.modelFormat = .ok .graph → p.extension? ≠ some "onnx".toList →
      (view.loadModel p.compressed).toOption =
        ((view.loadModel p).toOption.map fun model =>
          { model with name := String.ofList name }) ∧
      ∀ model, view.loadModel p = .ok model →
        model.name ≠ String.ofList name) := by
  have hp : p.IsPlain name := ⟨hview p bytes hfile, hname, hplain⟩
  have hpack : view.Packs p bytes packed := ⟨hfile, hpacked, hunpack⟩
  refine ⟨hp.modelFormat_compressed, hp.label?_compressed,
    loadProperty_compressed hp hpack, fun hlower => ?_, fun hgraph hne => ?_⟩
  · exact loadModel_compressed hp hpack fun hgraph =>
      hp.graphName_compressed_of_lower (hlower hgraph)
  · obtain ⟨extension, hextension⟩ := hp.exists_extension_of_graph hgraph
    obtain ⟨hkept, hdropped⟩ := hp.graphName_compressed_of_ne hextension
      fun heq => hne (heq ▸ hextension)
    refine ⟨hkept ▸ loadModel_compressed_of_graph hp hpack hgraph,
      fun model hmodel => ?_⟩
    rw [loadModel_of_graph hgraph (content_eq hp hpack)] at hmodel
    rw [Model.name_of_ofGraphBytes hmodel]
    exact hdropped

/-- A file whose graph is the product of its one input by two. -/
def doublingBytes : List UInt8 :=
  [0x3a, 0x23, 0x0a, 0x0c, 0x0a, 0x01, 0x78, 0x0a, 0x01, 0x77, 0x22, 0x04,
   0x47, 0x65, 0x6d, 0x6d, 0x2a, 0x13, 0x08, 0x01, 0x08, 0x01, 0x10, 0x0b,
   0x52, 0x08, 0x00, 0x00, 0x00, 0x00, 0x00, 0x00, 0x00, 0x40, 0x42, 0x01,
   0x77]

/-- The same file, compressed. -/
def packedDoublingBytes : List UInt8 :=
  [0x1f, 0x8b, 0x08, 0x00, 0x00, 0x00, 0x00, 0x00, 0x00, 0xff, 0x01, 0x25,
   0x00, 0xda, 0xff, 0x3a, 0x23, 0x0a, 0x0c, 0x0a, 0x01, 0x78, 0x0a, 0x01,
   0x77, 0x22, 0x04, 0x47, 0x65, 0x6d, 0x6d, 0x2a, 0x13, 0x08, 0x01, 0x08,
   0x01, 0x10, 0x0b, 0x52, 0x08, 0x00, 0x00, 0x00, 0x00, 0x00, 0x00, 0x00,
   0x40, 0x42, 0x01, 0x77, 0xc1, 0x41, 0x83, 0xd2, 0x25, 0x00, 0x00, 0x00]

/-- The path of a file with the extension. -/
def doublingPath (extension : String) : Path := ⟨"net." ++ extension⟩

/-- That file and its compressed form. -/
def doublingStore (extension : String) : FileStore :=
  .ofFiles [((doublingPath extension).text, doublingBytes),
    ((doublingPath extension).compressed.text, packedDoublingBytes)]

theorem unpack?_packedDoublingBytes :
    Gzip.unpack? packedDoublingBytes = some doublingBytes := by
  decide +kernel

theorem loadModel_doubling :
    ((doublingStore "ONNX").view.loadModel (doublingPath "ONNX")).toOption.map
      (·.name) = some "net" := by
  decide +kernel

theorem load_compressed_doubling :
    (∃ model,
      (doublingStore "onnx").view.loadModel (doublingPath "onnx") =
        .ok model ∧
      (doublingStore "onnx").view.loadModel (doublingPath "onnx").compressed =
        .ok model) ∧
    ∃ model,
      (doublingStore "ONNX").view.loadModel (doublingPath "ONNX") =
        .ok model ∧
      model.name ≠ "net.ONNX" ∧
      (doublingStore "ONNX").view.loadModel (doublingPath "ONNX").compressed =
        .ok { model with name := "net.ONNX" } := by
  constructor
  · obtain ⟨model, hmodel, -⟩ := exists_ok_of_toOption
      (show ((doublingStore "onnx").view.loadModel
        (doublingPath "onnx")).toOption.map (·.name) = some "net" by
          decide +kernel)
    have hname : (doublingPath "onnx").fileName? = some "net.onnx".toList := by
      decide +kernel
    have hlower : (doublingPath "onnx").extension? = some "onnx".toList := by
      decide +kernel
    obtain ⟨-, -, -, hsame, -⟩ := load_compressed
      (FileStore.view_regular (doublingStore "onnx")) hname
      (by decide +kernel) (by decide +kernel) (by decide +kernel)
      unpack?_packedDoublingBytes
    have hboth := (hsame fun _ => hlower).trans
      (congrArg Except.toOption hmodel)
    exact ⟨model, hmodel, toOption_eq_some.1 hboth⟩
  · obtain ⟨model, hmodel, -⟩ := exists_ok_of_toOption loadModel_doubling
    have hname : (doublingPath "ONNX").fileName? = some "net.ONNX".toList := by
      decide +kernel
    have hgraph : (doublingPath "ONNX").modelFormat.toOption =
        some .graph := by
      decide +kernel
    obtain ⟨-, -, -, -, hother⟩ := load_compressed
      (FileStore.view_regular (doublingStore "ONNX")) hname
      (by decide +kernel) (by decide +kernel) (by decide +kernel)
      unpack?_packedDoublingBytes
    obtain ⟨hboth, hnames⟩ := hother (toOption_eq_some.1 hgraph)
      (by decide +kernel)
    rw [String.ofList_toList] at hboth hnames
    have hmore := hboth.trans (congrArg
      (fun loaded => (Except.toOption loaded).map fun model =>
        { model with name := "net.ONNX" }) hmodel)
    exact ⟨model, hmodel, hnames model hmodel, toOption_eq_some.1 hmore⟩

/-- The name of a model can change when its file is compressed. -/
theorem name_changed_by_compression :
    ∃ view p bytes packed model model',
      FileView.Regular view ∧ view p = .ok (.file bytes) ∧
      p.extension? ≠ some "gz".toList ∧
      view p.compressed = .ok (.file packed) ∧
      Gzip.unpack? packed = some bytes ∧
      view.loadModel p = .ok model ∧
      view.loadModel p.compressed = .ok model' ∧
      model.name = "net" ∧ model'.name = "net.ONNX" := by
  obtain ⟨model, hmodel, hname⟩ := exists_ok_of_toOption loadModel_doubling
  obtain ⟨model', hmodel', hname'⟩ := exists_ok_of_toOption
    (show ((doublingStore "ONNX").view.loadModel
      (doublingPath "ONNX").compressed).toOption.map (·.name) =
        some "net.ONNX" by decide +kernel)
  exact ⟨(doublingStore "ONNX").view, doublingPath "ONNX", doublingBytes,
    packedDoublingBytes, model, model', FileStore.view_regular _,
    by decide +kernel, by decide +kernel, by decide +kernel,
    unpack?_packedDoublingBytes, hmodel, hmodel', hname, hname'⟩

end FileView

end BoxCert
