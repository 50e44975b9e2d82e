import Mathlib.Data.Nat.Basic
import BoxCert.Number.Words

/-!
# Tables of words

The table of some words is their bytes, one word after the other. Reading
inverts this: a byte string is read as the words that it is the table of, and
is refused if it is no table, which is so exactly if it ends within a word.

Words of four and of eight bytes have a reader each. `ReadsTable` says what the
argument needs of either: what it makes of the bytes of one word at the front,
and that it refuses what is too short for a word. The rest is by induction on
the length, one word at a time.
-/

namespace BoxCert

/-! ## The bytes of a word -/

/-- The lowest digits of a number to base 256, least first. -/
def lowBytes : Nat → Nat → List UInt8
  | 0, _ => []
  | width + 1, n => UInt8.ofNat n :: lowBytes width (n / 256)

@[simp] theorem length_lowBytes (width n : Nat) :
    (lowBytes width n).length = width := by
  induction width generalizing n with
  | zero => rfl
  | succ width ih => rw [lowBytes, List.length_cons, ih]

theorem littleEndian_lowBytes {width n : Nat} (h : n < 256 ^ width) :
    littleEndian (lowBytes width n) = n := by
  induction width generalizing n with
  | zero => exact (Nat.lt_one_iff.1 h).symm
  | succ width ih =>
      rw [Nat.pow_succ, Nat.mul_comm] at h
      rw [lowBytes, littleEndian, ih (Nat.div_lt_of_lt_mul h)]
      exact Nat.mod_add_div n 256

theorem littleEndian_lt (bytes : List UInt8) :
    littleEndian bytes < 256 ^ bytes.length := by
  induction bytes with
  | nil => exact Nat.one_pos
  | cons b rest ih =>
      have hb : b.toNat < 256 := b.toNat_lt
      rw [littleEndian, List.length_cons, Nat.pow_succ]
      omega

theorem lowBytes_littleEndian (bytes : List UInt8) :
    lowBytes bytes.length (littleEndian bytes) = bytes := by
  induction bytes with
  | nil => rfl
  | cons b rest ih =>
      have hb : b.toNat < 256 := b.toNat_lt
      have hhead : UInt8.ofNat (b.toNat + 256 * littleEndian rest) = b := by
        refine UInt8.toNat_inj.1 ?_
        rw [UInt8.toNat_ofNat']
        omega
      have htail : (b.toNat + 256 * littleEndian rest) / 256 =
          littleEndian rest := by omega
      rw [List.length_cons, littleEndian, lowBytes, hhead, htail, ih]

theorem exists_lowBytes {width : Nat} {bytes : List UInt8}
    (h : bytes.length = width) :
    ∃ n < 256 ^ width, lowBytes width n = bytes := by
  subst h
  exact ⟨littleEndian bytes, littleEndian_lt bytes,
    lowBytes_littleEndian bytes⟩

/-! ## Tables -/

/-- Whether a reader takes words of `width` bytes off the front of a byte string
until none is left, and refuses what is left if it is shorter than a word. -/
structure ReadsTable {α : Type} (width : Nat) (toNat : α → Nat)
    (ofNat : Nat → α) (read : List UInt8 → Option (List α)) : Prop where
  width_pos : 0 < width
  toNat_lt : ∀ w, toNat w < 256 ^ width
  ofNat_toNat : ∀ w, ofNat (toNat w) = w
  toNat_ofNat : ∀ n < 256 ^ width, toNat (ofNat n) = n
  read_nil : read [] = some []
  read_front : ∀ front rest : List UInt8, front.length = width →
    read (front ++ rest) = (read rest).map (ofNat (littleEndian front) :: ·)
  read_short : ∀ rest : List UInt8, rest ≠ [] → rest.length < width →
    read rest = none

theorem readsTable_words32 :
    ReadsTable 4 UInt32.toNat UInt32.ofNat words32? where
  width_pos := by decide
  toNat_lt w := w.toNat_lt
  ofNat_toNat _ := UInt32.ofNat_toNat
  toNat_ofNat _ h := UInt32.toNat_ofNat_of_lt' h
  read_nil := rfl
  read_front front _ h :=
    match front, h with
    | [_, _, _, _], _ => rfl
  read_short rest hne hshort := by
    unfold words32?
    split
    · exact absurd rfl hne
    · simp only [List.length_cons] at hshort
      omega
    · rfl

theorem readsTable_words64 :
    ReadsTable 8 UInt64.toNat UInt64.ofNat words64? where
  width_pos := by decide
  toNat_lt w := w.toNat_lt
  ofNat_toNat _ := UInt64.ofNat_toNat
  toNat_ofNat _ h := UInt64.toNat_ofNat_of_lt' h
  read_nil := rfl
  read_front front _ h :=
    match front, h with
    | [_, _, _, _, _, _, _, _], _ => rfl
  read_short rest hne hshort := by
    unfold words64?
    split
    · exact absurd rfl hne
    · simp only [List.length_cons] at hshort
      omega
    · rfl

/-- The table of some words. -/
def tableOf {α : Type} (width : Nat) (toNat : α → Nat) (words : List α) :
    List UInt8 :=
  words.flatMap fun w => lowBytes width (toNat w)

theorem length_tableOf {α : Type} (width : Nat) (toNat : α → Nat)
    (words : List α) :
    (tableOf width toNat words).length = width * words.length := by
  induction words with
  | nil => rfl
  | cons w words ih =>
      rw [tableOf, List.flatMap_cons, List.length_append, length_lowBytes,
        ← tableOf, ih, List.length_cons, Nat.mul_succ, Nat.add_comm]

namespace ReadsTable

variable {α : Type} {width : Nat} {toNat : α → Nat} {ofNat : Nat → α}
  {read : List UInt8 → Option (List α)}
  (h : ReadsTable width toNat ofNat read)

include h

/-- One word at the front is read before the rest. -/
theorem read_word (w : α) (rest : List UInt8) :
    read (lowBytes width (toNat w) ++ rest) = (read rest).map (w :: ·) := by
  rw [h.read_front _ _ (length_lowBytes width _),
    littleEndian_lowBytes (h.toNat_lt w), h.ofNat_toNat]

/-- A byte string that is long enough starts with a word. -/
theorem exists_append {table : List UInt8} (hlength : width ≤ table.length) :
    ∃ w rest, table = lowBytes width (toNat w) ++ rest := by
  obtain ⟨n, hn, hfront⟩ := exists_lowBytes (List.length_take_of_le hlength)
  refine ⟨ofNat n, table.drop width, ?_⟩
  rw [h.toNat_ofNat n hn, hfront, List.take_append_drop]

theorem read_tableOf (words : List α) :
    read (tableOf width toNat words) = some words := by
  induction words with
  | nil => exact h.read_nil
  | cons w words ih =>
      rw [tableOf, List.flatMap_cons, h.read_word, ← tableOf, ih,
        Option.map_some]

/-- A byte string is a table, or it ends within a word and is refused. -/
theorem table_or_refused (table : List UInt8) :
    (table.length % width = 0 ∧ ∃ words, table = tableOf width toNat words) ∨
      (table.length % width ≠ 0 ∧ read table = none) := by
  have hpos := h.width_pos
  -- On the length, since a word is taken off the front and not one byte.
  induction hn : table.length using Nat.strong_induction_on
    generalizing table with
  | _ n ih =>
      subst hn
      by_cases hlong : width ≤ table.length
      · obtain ⟨w, rest, rfl⟩ := h.exists_append hlong
        have hlength : (lowBytes width (toNat w) ++ rest).length =
            width + rest.length := by
          rw [List.length_append, length_lowBytes]
        rw [hlength, Nat.add_mod_left, h.read_word]
        rcases ih rest.length (by omega) rest rfl with
          ⟨hmod, words, hwords⟩ | ⟨hmod, hnone⟩
        · refine .inl ⟨hmod, w :: words, ?_⟩
          rw [hwords]
          rfl
        · exact .inr ⟨hmod, by rw [hnone, Option.map_none]⟩
      · rw [not_le] at hlong
        rw [Nat.mod_eq_of_lt hlong]
        by_cases hnil : table = []
        · subst hnil
          exact .inl ⟨rfl, [], rfl⟩
        · exact .inr ⟨mt List.length_eq_zero_iff.1 hnil,
            h.read_short table hnil hlong⟩

/-- A byte string is read as the words that it is the table of. -/
theorem read_eq_some_iff {table : List UInt8} {words : List α} :
    read table = some words ↔ table = tableOf width toNat words := by
  constructor
  · intro hread
    rcases h.table_or_refused table with ⟨-, words', rfl⟩ | ⟨-, hnone⟩
    · rw [h.read_tableOf, Option.some.injEq] at hread
      rw [hread]
    · rw [hnone] at hread
      cases hread
  · rintro rfl
    exact h.read_tableOf words

theorem tableOf_eq_nil_iff {words : List α} :
    tableOf width toNat words = [] ↔ words = [] := by
  rw [eq_comm, ← h.read_eq_some_iff, h.read_nil, Option.some.injEq, eq_comm]

/-- A byte string is refused if and only if it ends within a word. -/
theorem read_eq_none_iff {table : List UInt8} :
    read table = none ↔ table.length % width ≠ 0 := by
  rcases h.table_or_refused table with ⟨hmod, words, rfl⟩ | ⟨hmod, hnone⟩
  · rw [h.read_tableOf]
    exact iff_of_false nofun (not_not.2 hmod)
  · exact iff_of_true hnone hmod

end ReadsTable

end BoxCert
