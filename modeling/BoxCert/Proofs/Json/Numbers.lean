import BoxCert.Proofs.Json.Spelling
import BoxCert.Proofs.Number.Decimals

/-!
# Numbers as they are written

Natural numbers are written in a way that reads back exactly. Floats are
written in a way that can at least be read, from any decimal that writes zero
as one digit: no number begins with a zero before other digits.
-/

namespace BoxCert.Json

open Decimal

/-! ## Digits -/

theorem toDigits_head {n : Nat} (h : 0 < n) :
    (Nat.toDigits 10 n).head? ≠ some '0' := by
  induction n using Nat.strong_induction_on with
  | _ n ih =>
      rw [Nat.toDigits_eq_if (by decide)]
      split
      · intro hhead
        have := Nat.digitChar_eq_zero.1 (Option.some.inj hhead)
        omega
      · next hge =>
          rw [List.head?_append_of_ne_nil _ Nat.toDigits_ne_nil]
          exact ih (n / 10) (by omega) (by omega)

theorem isDigit_toDigits {n : Nat} : ∀ c ∈ Nat.toDigits 10 n,
    c.isDigit = true := fun _ hc =>
  Nat.isDigit_of_mem_toDigits (by decide) (by decide) hc

theorem isDigit_zeros {n : Nat} : ∀ c ∈ List.replicate n '0',
    c.isDigit = true := by
  intro c hc
  rw [List.eq_of_mem_replicate hc]
  decide

theorem natOfDigits_toDigits (n : Nat) :
    Numeral.natOfDigits (Nat.toDigits 10 n) = n :=
  Nat.ofDigitChars_ten_toDigits

namespace Number

/-! ## Natural numbers -/

theorem wellSpelled_ofNat (n : Nat) : (ofNat n).WellSpelled where
  whole_ne_nil := Nat.toDigits_ne_nil
  whole_digits := isDigit_toDigits
  length_of_zero h := by
    rcases Nat.eq_zero_or_pos n with rfl | hpos
    · rfl
    · exact absurd h (toDigits_head hpos)
  fraction_digits := nofun
  exponent_digits := nofun

theorem toNat?_ofNat {n bound : Nat} (h : n ≤ bound) :
    toNat? bound (ofNat n) = some n := by
  have hn := natOfDigits_toDigits n
  unfold toNat? ofNat
  dsimp only
  rw [hn, if_neg (by decide), if_pos h]

/-! ## How floats are spelled -/

variable {s : Bool} {d : Decimal}

theorem digitText_ne_nil (d : Decimal) : d.digitText ≠ [] :=
  Nat.toDigits_ne_nil

theorem isDigit_digitText (d : Decimal) : ∀ c ∈ d.digitText,
    c.isDigit = true := isDigit_toDigits

/-- Whether zero, if that is the decimal, is written as one digit. -/
def SingleZero (d : Decimal) : Prop := d.digits = 0 → d.exponent = 0

theorem SingleZero.of_head (h : SingleZero d)
    (hhead : d.digitText.head? = some '0') :
    d.digits = 0 ∧ d.exponent = 0 := by
  rcases Nat.eq_zero_or_pos d.digits with hzero | hpos
  · exact ⟨hzero, h hzero⟩
  · exact absurd hhead (toDigits_head hpos)

/-- Whether digits can stand before and after the point of a number. -/
structure Placed (d : Decimal) (whole fraction : List Char) : Prop where
  whole_ne_nil : whole ≠ []
  whole_digits : ∀ c ∈ whole, c.isDigit = true
  length_of_zero : whole.head? = some '0' → whole.length = 1
  fraction_digits : ∀ c ∈ fraction, c.isDigit = true
  length_le : (whole.length : Int) ≤ max 1 (d.leading + 1)

theorem placed_positional (h : SingleZero d) :
    Placed d d.positional.1 d.positional.2 := by
  have hne := digitText_ne_nil d
  have hdigits := isDigit_digitText d
  have hpos := List.length_pos_iff.2 hne
  unfold positional
  dsimp only
  split
  · next hexponent =>
      refine ⟨List.append_ne_nil_of_left_ne_nil hne _, ?_, ?_, nofun, ?_⟩
      · intro c hc
        rcases List.mem_append.1 hc with hc | hc
        · exact hdigits c hc
        · exact isDigit_zeros c hc
      · rw [List.head?_append_of_ne_nil _ hne]
        intro hhead
        obtain ⟨hzero, he⟩ := h.of_head hhead
        rw [digitText, hzero, he]
        rfl
      · rw [List.length_append, List.length_replicate, leading]
        omega
  · next hexponent =>
      split
      · next hplaces =>
          refine ⟨?_, ?_, ?_, ?_, ?_⟩
          · rw [← List.length_pos_iff, List.length_take]
            omega
          · exact fun c hc => hdigits c (List.mem_of_mem_take hc)
          · rw [List.head?_take, if_neg (by omega)]
            intro hhead
            have := (h.of_head hhead).2
            omega
          · exact fun c hc => hdigits c (List.mem_of_mem_drop hc)
          · rw [List.length_take, leading]
            omega
      · refine ⟨List.cons_ne_nil _ _, ?_, fun _ => rfl, ?_, ?_⟩
        · intro c hc
          rw [List.mem_singleton.1 hc]
          decide
        · intro c hc
          rcases List.mem_append.1 hc with hc | hc
          · exact isDigit_zeros c hc
          · exact hdigits c hc
        · rw [List.length_singleton]
          omega

theorem wellSpelled_ofDecimal (h : SingleZero d) :
    (ofDecimal s d).WellSpelled := by
  unfold ofDecimal
  split
  · obtain ⟨hne, hwhole, hzero, hfraction, -⟩ := placed_positional h
    refine ⟨hne, hwhole, hzero, fun c hc => ?_, nofun⟩
    dsimp only at hc
    split at hc
    · rw [List.mem_singleton.1 hc]
      decide
    · exact hfraction c hc
  · have hdigits := isDigit_digitText d
    refine ⟨?_, ?_, ?_, ?_, ?_⟩
    · rw [← List.length_pos_iff, List.length_take]
      have := List.length_pos_iff.2 (digitText_ne_nil d)
      omega
    · exact fun c hc => hdigits c (List.mem_of_mem_take hc)
    · intro _
      rw [List.length_take]
      have := List.length_pos_iff.2 (digitText_ne_nil d)
      omega
    · exact fun c hc => hdigits c (List.mem_of_mem_drop hc)
    · rintro e ⟨⟩
      exact ⟨Nat.toDigits_ne_nil, isDigit_toDigits⟩

theorem singleZero_shortestOf (tie : TieRule) (rank : Nat) :
    SingleZero (Binary64.shortestOf tie rank) := by
  unfold Binary64.shortestOf
  split
  · exact fun _ => rfl
  · next hrank =>
      have hfits : (Decimal.shortest tie rank).Fits rank :=
        fits_shortest (Nat.pos_of_ne_zero hrank)
      have hpos := value_pos_iff.1 hfits.pos
      exact fun hzero => absurd hzero hpos.ne'

end Number

end BoxCert.Json
