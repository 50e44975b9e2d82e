import BoxCert.Proofs.Number.Interchange
import BoxCert.Proofs.Number.Words
import BoxCert.Proofs.Onnx.Forms

/-!
# The elements of a tensor

The same elements can be stored as a list of floats or as raw bytes. Which of
the two is meant is not written down: raw bytes count where there are any, and
then the lists do not. This file shows that the choice is only one of storage.
Either way a tensor is read as what its elements stand for, one by one and in
their order, and raw bytes that are no table of elements are refused, so no
bytes are left over.

Both kinds of elements are read alike, but for their codes, widths and formats.
Everything is said of a kind, and the kinds are told apart only where the words
meet the two readers of tables and the two readers of numbers.
-/

namespace BoxCert.Onnx

open Binary64

/-- The kinds of elements that are read. -/
inductive ElementKind where
  | single
  | double

namespace ElementKind

def code : ElementKind → Int
  | single => Tensor.singleCode
  | double => Tensor.doubleCode

/-- How many bytes an element takes. -/
def width : ElementKind → Nat
  | single => 4
  | double => 8

def format : ElementKind → Interchange
  | single => .single
  | double => .double

/-- The bits of an element. -/
def Word : ElementKind → Type
  | single => UInt32
  | double => UInt64

def toNat : (k : ElementKind) → k.Word → Nat
  | single => UInt32.toNat
  | double => UInt64.toNat

def ofNat : (k : ElementKind) → Nat → k.Word
  | single => UInt32.ofNat
  | double => UInt64.ofNat

/-- The number that an element is read as. -/
def number : (k : ElementKind) → k.Word → Binary64
  | single => ofBits32
  | double => ofBits

/-- The elements that a tensor has in its list of the kind. -/
def listed (t : Tensor) : (k : ElementKind) → List k.Word
  | single => t.singles
  | double => t.doubles

def words? : (k : ElementKind) → List UInt8 → Option (List k.Word)
  | single => words32?
  | double => words64?

variable (k : ElementKind)

/-- The raw bytes of elements, one element after the other and the least byte of
each first. -/
def bytes (words : List k.Word) : List UInt8 := tableOf k.width k.toNat words

/-- Whether a number is what an element stands for. -/
def Denotes (w : k.Word) (x : Binary64) : Prop :=
  k.format.Denotes (k.toNat w) x

theorem readsTable : ReadsTable k.width k.toNat k.ofNat k.words? := by
  cases k with
  | single => exact readsTable_words32
  | double => exact readsTable_words64

theorem denotes_number (w : k.Word) : k.Denotes w (k.number w) := by
  cases k with
  | single => exact Interchange.denotes_ofBits32 w
  | double => exact Interchange.denotes_ofBits w

variable {k}

theorem denotes_iff {w : k.Word} {x : Binary64} :
    k.Denotes w x ↔ k.number w = x := by
  refine ⟨(k.denotes_number w).unique, ?_⟩
  rintro rfl
  exact k.denotes_number w

/-- What a list of elements stands for, number by number. -/
theorem forall₂_denotes_iff {words : List k.Word} {xs : List Binary64} :
    List.Forall₂ k.Denotes words xs ↔ words.map k.number = xs := by
  have hsame : k.Denotes = fun w x => k.number w = x := by
    funext w x
    exact propext denotes_iff
  rw [hsame, ← List.forall₂_map_left_iff, List.forall₂_eq_eq_eq]

end ElementKind

namespace Tensor

variable {k : ElementKind} {words : List k.Word} {t : Tensor}

/-- Whether a tensor holds elements as raw bytes, one after the other. Its lists
may hold anything. -/
structure Packs (t : Tensor) (k : ElementKind) (words : List k.Word) :
    Prop where
  elementType : t.elementType = k.code
  raw : t.raw = k.bytes words

/-- Whether a tensor holds elements in the list of their kind, and no raw
bytes. -/
structure Lists (t : Tensor) (k : ElementKind) (words : List k.Word) :
    Prop where
  elementType : t.elementType = k.code
  raw : t.raw = []
  listed : k.listed t = words

/-- What a tensor of a kind is read as. -/
theorem values_of_kind (h : t.elementType = k.code) :
    t.values =
      if t.raw.isEmpty then .ok ((k.listed t).map k.number)
      else
        (k.words? t.raw).elim
          (.error (.modelLoad (.rawLength t.name t.raw.length k.width)))
          fun words => .ok (words.map k.number) := by
  cases k with
  | single =>
      have hsingle : t.elementType = singleCode := h
      rw [values, if_pos hsingle]
      show _ = if t.raw.isEmpty then _ else (words32? t.raw).elim _ _
      cases words32? t.raw <;> rfl
  | double =>
      have hdouble : t.elementType = doubleCode := h
      have hother : t.elementType ≠ singleCode := by
        rw [hdouble]
        decide
      rw [values, if_neg hother, if_pos hdouble]
      show _ = if t.raw.isEmpty then _ else (words64? t.raw).elim _ _
      cases words64? t.raw <;> rfl

theorem values_of_lists (h : t.Lists k words) :
    t.values = .ok (words.map k.number) := by
  rw [values_of_kind h.elementType, h.raw, h.listed]
  rfl

theorem values_of_packs (h : t.Packs k words) (hwords : words ≠ []) :
    t.values = .ok (words.map k.number) := by
  have hempty : (k.bytes words).isEmpty = false :=
    List.isEmpty_eq_false_iff.2 (mt k.readsTable.tableOf_eq_nil_iff.1 hwords)
  have hread : k.words? (k.bytes words) = some words :=
    k.readsTable.read_tableOf words
  rw [values_of_kind h.elementType, h.raw, hempty, hread]
  rfl

/-- Raw bytes are read if they are those of some elements, and as these. -/
theorem values_eq_ok_iff (h : t.elementType = k.code) (hraw : t.raw ≠ [])
    {xs : List Binary64} :
    t.values = .ok xs ↔ ∃ words, t.Packs k words ∧ words.map k.number = xs := by
  have hempty : t.raw.isEmpty = false := List.isEmpty_eq_false_iff.2 hraw
  constructor
  · intro hvalues
    rw [values_of_kind h, hempty] at hvalues
    cases hwords : k.words? t.raw with
    | none =>
        rw [hwords] at hvalues
        cases hvalues
    | some words =>
        rw [hwords] at hvalues
        cases hvalues
        exact ⟨words, ⟨h, k.readsTable.read_eq_some_iff.1 hwords⟩, rfl⟩
  · rintro ⟨words, hpacks, rfl⟩
    refine values_of_packs hpacks ?_
    rintro rfl
    exact hraw hpacks.raw

theorem values_of_rawLength (h : t.elementType = k.code)
    (hlength : t.raw.length % k.width ≠ 0) :
    t.values =
      .error (.modelLoad (.rawLength t.name t.raw.length k.width)) := by
  have hempty : t.raw.isEmpty = false := by
    refine List.isEmpty_eq_false_iff.2 fun hraw => hlength ?_
    rw [hraw, List.length_nil, Nat.zero_mod]
  rw [values_of_kind h, hempty, k.readsTable.read_eq_none_iff.2 hlength]
  rfl

/-- A matrix that is read has the elements of its tensor. -/
theorem exists_values_of_matrix {b : Grid Binary64} (h : t.matrix = .ok b) :
    ∃ cells, t.values = .ok cells := by
  obtain ⟨dims, -, h⟩ := bind_eq_ok.1 h
  split at h
  · obtain ⟨cells, hcells, -⟩ := bind_eq_ok.1 h
    exact ⟨cells, hcells⟩
  · cases h

/-- Elements are read as what they stand for, in their order, whether they are
packed into raw bytes or listed. Raw bytes count where there are any, whatever
the lists hold, and are read as the elements they are the bytes of; if they end
within an element, the tensor is refused and is neither a weight nor a bias. -/
theorem values_of_encodings (k : ElementKind) :
    (∀ (words : List k.Word) (packed listed : Tensor), words ≠ [] →
      packed.Packs k words → listed.Lists k words →
      ∃ xs, packed.values = .ok xs ∧ listed.values = .ok xs ∧
        List.Forall₂ k.Denotes words xs) ∧
    (∀ t : Tensor, t.elementType = k.code → t.raw ≠ [] → ∀ xs,
      t.values = .ok xs ↔
        ∃ words, t.Packs k words ∧ List.Forall₂ k.Denotes words xs) ∧
    (∀ t : Tensor, t.elementType = k.code → t.raw.length % k.width ≠ 0 →
      t.values =
        .error (.modelLoad (.rawLength t.name t.raw.length k.width)) ∧
      (∀ b, t.matrix ≠ .ok b) ∧ ∀ n v, t.vector n ≠ .ok v) := by
  refine ⟨fun words packed listed hwords hpacks hlists => ?_,
    fun t h hraw xs => ?_, fun t h hlength => ?_⟩
  · exact ⟨words.map k.number, values_of_packs hpacks hwords,
      values_of_lists hlists, ElementKind.forall₂_denotes_iff.2 rfl⟩
  · simp only [ElementKind.forall₂_denotes_iff]
    exact values_eq_ok_iff h hraw
  · have hvalues := values_of_rawLength h hlength
    refine ⟨hvalues, fun b hb => ?_, fun n v hv => ?_⟩
    · obtain ⟨cells, hcells⟩ := exists_values_of_matrix hb
      cases hvalues.symm.trans hcells
    · cases hvalues.symm.trans (of_vector_eq_ok hv).1

/-- One and a half, minus zero, the least positive one, minus infinity and a NaN
among the 32-bit floats. -/
def sampleWords : List ElementKind.single.Word :=
  ([0x3FC00000, 0x80000000, 0x00000001, 0xFF800000, 0x7FC00001] : List UInt32)

/-- The sample as raw bytes, beside a list that does not count. -/
def packedSample : Tensor where
  name := "w"
  dims := [1, 5]
  elementType := singleCode
  singles := [0x40000000]
  doubles := []
  raw := [0x00, 0x00, 0xC0, 0x3F, 0x00, 0x00, 0x00, 0x80, 0x01, 0x00, 0x00,
    0x00, 0x00, 0x00, 0x80, 0xFF, 0x01, 0x00, 0xC0, 0x7F]

def listedSample : Tensor :=
  { packedSample with singles := sampleWords, raw := [] }

/-- The packed sample without its last byte. -/
def cutSample : Tensor :=
  { packedSample with raw := packedSample.raw.dropLast }

theorem packedSample_packs : packedSample.Packs .single sampleWords where
  elementType := rfl
  raw := by decide +kernel

theorem listedSample_lists : listedSample.Lists .single sampleWords where
  elementType := rfl
  raw := rfl
  listed := rfl

theorem values_of_encodings_sample :
    sampleWords ≠ [] ∧ packedSample.Packs .single sampleWords ∧
    listedSample.Lists .single sampleWords ∧
    (∃ xs, packedSample.values = .ok xs ∧ listedSample.values = .ok xs ∧
      List.Forall₂ ElementKind.single.Denotes sampleWords xs) ∧
    packedSample.raw ≠ [] ∧
    packedSample.values ≠ .ok (packedSample.singles.map ofBits32) ∧
    cutSample.raw.length % 4 ≠ 0 ∧
    cutSample.values = .error (.modelLoad (.rawLength "w" 19 4)) ∧
    ∀ b, cutSample.matrix ≠ .ok b := by
  have hwords : sampleWords ≠ [] := by decide
  have hraw : packedSample.raw ≠ [] := by decide
  have hlength : cutSample.raw.length % 4 ≠ 0 := by decide
  obtain ⟨hagree, hread, hrefused⟩ := values_of_encodings .single
  obtain ⟨hvalues, hmatrix, -⟩ := hrefused cutSample rfl hlength
  refine ⟨hwords, packedSample_packs, listedSample_lists,
    hagree _ _ _ hwords packedSample_packs listedSample_lists, hraw,
    fun hlist => ?_, hlength, hvalues, hmatrix⟩
  -- The list has one element, and one element has four bytes, not twenty.
  obtain ⟨words, hpacks, hdenotes⟩ := (hread _ rfl hraw _).1 hlist
  have hbytes := congrArg List.length hpacks.raw
  rw [ElementKind.bytes, length_tableOf, hdenotes.length_eq] at hbytes
  exact absurd hbytes (by decide)

end Tensor

end BoxCert.Onnx
