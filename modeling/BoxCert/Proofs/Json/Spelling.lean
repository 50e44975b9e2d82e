import BoxCert.Json.Token
import BoxCert.Json.Writing

/-!
# Spelling numbers and strings

A number that is written is read as the same number, and so is a string, with
all that may follow them in a text. For a number that depends on how it is
spelled: there are digits where digits have to be, and no zero in front of
them. For a string it does not depend on anything, as each character has one
way to be written and no two ways begin alike.
-/

namespace BoxCert.Json

/-! ## Runs of characters -/

/-- Whether a text does not go on with a character of some kind. -/
def StopsBefore (p : Char → Bool) (text : List Char) : Prop :=
  ∀ c ∈ text.head?, p c = false

theorem takeWhile_append_stop {p : Char → Bool} {run rest : List Char}
    (hrun : ∀ c ∈ run, p c = true) (hrest : StopsBefore p rest) :
    (run ++ rest).takeWhile p = run ∧ (run ++ rest).dropWhile p = rest := by
  rw [List.takeWhile_append_of_pos hrun, List.dropWhile_append_of_pos hrun]
  cases rest with
  | nil => exact ⟨List.append_nil run, rfl⟩
  | cons c rest =>
      have hc : ¬ p c = true := Bool.not_eq_true _ ▸ hrest c rfl
      rw [List.takeWhile_cons_of_neg hc, List.dropWhile_cons_of_neg hc]
      exact ⟨List.append_nil run, rfl⟩

/-! ## Numbers -/

namespace Number

/-- Whether a number is spelled as numbers have to be. -/
structure WellSpelled (n : Number) : Prop where
  whole_ne_nil : n.whole ≠ []
  whole_digits : ∀ c ∈ n.whole, c.isDigit = true
  length_of_zero : n.whole.head? = some '0' → n.whole.length = 1
  fraction_digits : ∀ c ∈ n.fraction, c.isDigit = true
  exponent_digits : ∀ e ∈ n.exponent,
    e.digits ≠ [] ∧ ∀ c ∈ e.digits, c.isDigit = true

variable {n : Number}

theorem readExponent?_exponentText {e : Exponent} (hne : e.digits ≠ [])
    (hdigits : ∀ c ∈ e.digits, c.isDigit = true) :
    readExponent? (exponentText e) = some (some e) := by
  obtain ⟨negative, digits⟩ := e
  have hall : digits.all Char.isDigit = true := List.all_eq_true.2 hdigits
  have hempty : digits.isEmpty = false := by
    rw [List.isEmpty_eq_false_iff]
    exact hne
  cases negative <;>
    simp [readExponent?, exponentText, Numeral.splitSign, hall, hempty]

theorem WellSpelled.readExponent? (h : n.WellSpelled) :
    Number.readExponent? (n.exponent.elim [] exponentText) =
      some n.exponent := by
  cases he : n.exponent with
  | none => rfl
  | some e =>
      obtain ⟨hne, hdigits⟩ := h.exponent_digits e he
      exact readExponent?_exponentText hne hdigits

theorem stopsBefore_exponent (e : Option Exponent) :
    StopsBefore Char.isDigit (e.elim [] exponentText) := by
  cases e with
  | none => nofun
  | some e =>
      rintro _ ⟨⟩
      decide

/-- The text of a number behind its sign. -/
def unsignedText (n : Number) : List Char :=
  n.whole ++ ((if n.fraction.isEmpty then [] else '.' :: n.fraction) ++
    n.exponent.elim [] exponentText)

theorem WellSpelled.exists_cons (h : n.WellSpelled) :
    ∃ c rest, n.unsignedText = c :: rest ∧ c.isDigit = true := by
  cases hwhole : n.whole with
  | nil => exact absurd hwhole h.whole_ne_nil
  | cons c rest =>
      refine ⟨c, _, by rw [unsignedText, hwhole, List.cons_append], ?_⟩
      exact h.whole_digits c (by rw [hwhole]; exact List.mem_cons_self)

theorem text_eq (n : Number) :
    n.text = (if n.negative then ['-'] else []) ++ n.unsignedText := by
  simp only [text, unsignedText, List.append_assoc]

theorem WellSpelled.splitText (h : n.WellSpelled) :
    (match n.text with
      | '-' :: rest => (true, rest)
      | _ => (false, n.text)) = (n.negative, n.unsignedText) := by
  rw [text_eq]
  cases hsign : n.negative with
  | true => rfl
  | false =>
      simp only [Bool.false_eq_true, if_false, List.nil_append]
      obtain ⟨c, rest, hcons, hc⟩ := h.exists_cons
      rw [hcons]
      split
      · next heq =>
          cases heq
          cases hc
      · rfl

/-- A number starts with its sign or a digit. -/
theorem WellSpelled.text_head (h : n.WellSpelled) :
    ∃ c rest, n.text = c :: rest ∧ (c = '-' ∨ c.isDigit = true) := by
  obtain ⟨c, rest, hcons, hc⟩ := h.exists_cons
  rw [text_eq, hcons]
  cases n.negative with
  | true => exact ⟨'-', c :: rest, rfl, .inl rfl⟩
  | false => exact ⟨c, rest, rfl, .inr hc⟩

theorem read?_text (h : n.WellSpelled) : read? n.text = some n := by
  have hempty : n.whole.isEmpty = false :=
    List.isEmpty_eq_false_iff.2 h.whole_ne_nil
  have hzero : (n.whole.head? == some '0' && n.whole.length != 1) = false := by
    rw [Bool.and_eq_false_imp]
    intro hhead
    simp [h.length_of_zero (eq_of_beq hhead)]
  have hexponent := stopsBefore_exponent n.exponent
  unfold read?
  split
  next negative body hsplit =>
  cases hsplit.symm.trans h.splitText
  dsimp only
  unfold unsignedText
  cases hfraction : n.fraction.isEmpty with
  | true =>
      obtain ⟨hwhole, hrest⟩ :=
        takeWhile_append_stop h.whole_digits hexponent
      rw [if_pos rfl, List.nil_append, hwhole, hrest, hempty, hzero,
        Bool.or_false, if_neg Bool.false_ne_true]
      split
      · next more hpoint =>
          -- An exponent starts with its letter.
          cases he : n.exponent with
          | none => rw [he] at hpoint; cases hpoint
          | some e => rw [he] at hpoint; cases hpoint
      · rw [h.readExponent?, ← List.isEmpty_iff.1 hfraction]
        rfl
  | false =>
      have hstop : StopsBefore Char.isDigit
          ('.' :: (n.fraction ++ n.exponent.elim [] exponentText)) := by
        rintro _ ⟨⟩
        decide
      obtain ⟨hwhole, hrest⟩ := takeWhile_append_stop h.whole_digits hstop
      obtain ⟨hfirst, hlast⟩ :=
        takeWhile_append_stop h.fraction_digits hexponent
      rw [if_neg Bool.false_ne_true, List.cons_append, hwhole, hrest, hempty,
        hzero, Bool.or_false, if_neg Bool.false_ne_true]
      split
      · next more hpoint =>
          cases hpoint
          rw [hfirst, hlast, hfraction, if_neg Bool.false_ne_true,
            h.readExponent?]
          rfl
      · next hpoint => exact absurd rfl (hpoint _)

end Number

/-! ## Strings -/

namespace Token

theorem stringCodes?_letter {letter : Char} {code : Nat}
    (h : letterCode? letter = some code) (rest : List Char) :
    stringCodes? ('\\' :: letter :: rest) =
      (stringCodes? rest).map fun read => (code :: read.1, read.2) := by
  rw [stringCodes?, h]
  · cases stringCodes? rest <;> rfl
  · rintro _ _ _ _ _ rfl
    cases h

theorem hexCode?_control : ∀ n < 32, hexCode? '0' '0'
    (if n < 16 then '0' else '1') (Nat.digitChar (n % 16)) = some n := by
  decide

theorem stringCodes?_control {code : Nat} (h : code < 32) (rest : List Char) :
    stringCodes? (['\\', 'u', '0', '0', if code < 16 then '0' else '1'] ++
        Nat.toDigits 16 (code % 16) ++ rest) =
      (stringCodes? rest).map fun read => (code :: read.1, read.2) := by
  rw [Nat.toDigits_of_lt_base (Nat.mod_lt code (by decide))]
  show stringCodes? ('\\' :: 'u' :: '0' :: '0' :: _ :: _ :: rest) = _
  rw [stringCodes?, hexCode?_control code h]
  cases stringCodes? rest <;> rfl

theorem stringCodes?_plain {c : Char} (hquote : c ≠ '"') (hslash : c ≠ '\\')
    (hcontrol : ¬ c.toNat < 32) (rest : List Char) : stringCodes? (c :: rest) =
      (stringCodes? rest).map fun read => (c.toNat :: read.1, read.2) := by
  rw [stringCodes?]
  · rw [if_neg (by simp [hcontrol, hslash])]
    cases stringCodes? rest <;> rfl
  · exact hquote
  · exact fun _ _ _ _ _ hc => absurd hc hslash
  · exact fun _ _ hc => absurd hc hslash

/-- A character is read as it was written, whatever follows it. -/
theorem stringCodes?_charText (c : Char) (rest : List Char) :
    stringCodes? (charText c ++ rest) =
      (stringCodes? rest).map fun read => (c.toNat :: read.1, read.2) := by
  unfold charText
  split
  · exact stringCodes?_letter rfl rest
  · exact stringCodes?_letter rfl rest
  · exact stringCodes?_letter rfl rest
  · exact stringCodes?_letter rfl rest
  · exact stringCodes?_letter rfl rest
  · exact stringCodes?_letter rfl rest
  · exact stringCodes?_letter rfl rest
  · next hquote hslash _ _ _ _ _ =>
      split
      · next hcontrol => exact stringCodes?_control hcontrol rest
      · next hplain => exact stringCodes?_plain hquote hslash hplain rest

theorem stringCodes?_flatMap (cs rest : List Char) :
    stringCodes? (cs.flatMap charText ++ '"' :: rest) =
      some (cs.map Char.toNat, rest) := by
  induction cs with
  | nil => rw [List.flatMap_nil, List.nil_append, stringCodes?]; rfl
  | cons c cs ih =>
      rw [List.flatMap_cons, List.append_assoc, stringCodes?_charText, ih]
      rfl

theorem charsOfCodes?_toNat (cs : List Char) :
    charsOfCodes? (cs.map Char.toNat) = some cs := by
  induction cs with
  | nil => rfl
  | cons c cs ih =>
      have hvalid : c.toNat.isValidChar := c.valid
      cases cs with
      | nil =>
          rw [List.map_cons, List.map_nil, charsOfCodes?, if_pos hvalid,
            Char.ofNat_toNat]
      | cons d cs =>
          rw [List.map_cons, List.map_cons, charsOfCodes?, if_pos hvalid,
            ← List.map_cons, ih, Char.ofNat_toNat]
          rfl

end Token

end BoxCert.Json
