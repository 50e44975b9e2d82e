import BoxCert.Proofs.Property.Nesting

/-!
# Texts and their tokens

A text renders a list of tokens if it writes them out one after the other, with
gaps between them. A gap is made of blanks and comments; it may be empty,
except between two words, which would run together. Every text renders the
tokens that scanning finds in it, and no others.

Nesting is the inverse of flattening, so the two together say what reading
forms does: the forms of a text are those whose tokens it renders. It loses and
invents nothing but gaps.
-/

namespace BoxCert

namespace Token

/-! ## Renderings -/

def isWord : Token → Bool
  | .word _ => true
  | _ => false

def text : Token → List Char
  | opening => ['(']
  | closing => [')']
  | .word text => text

/-- Whether a character goes on with a word: it is no parenthesis, starts no
comment and is not blank. -/
def continues (c : Char) : Prop :=
  c ≠ '(' ∧ c ≠ ')' ∧ c ≠ ';' ∧ Text.isBlank c = false

/-- Whether a list of characters can stand in a text as one word. -/
structure IsPlain (word : List Char) : Prop where
  ne_nil : word ≠ []
  continues : ∀ c ∈ word, continues c

/-- Blanks and comments in any number and order. A comment may hold anything up
to the end of its line. -/
inductive IsGap : List Char → Prop where
  | nil : IsGap []
  | blank {c : Char} {rest : List Char} (hc : Text.isBlank c = true)
      (hrest : IsGap rest) : IsGap (c :: rest)
  | comment {content rest : List Char} (hcontent : '\n' ∉ content)
      (hrest : IsGap rest) : IsGap (';' :: (content ++ '\n' :: rest))

/-- What may follow the last token: a gap, and a comment that the text ends
in. -/
inductive IsLastGap (gap : List Char) : Prop where
  | gap (h : IsGap gap)
  | comment {before content : List Char} (hbefore : IsGap before)
      (hcontent : '\n' ∉ content) (heq : gap = before ++ ';' :: content)

/-- Whether a text writes out tokens with gaps around them, where the flag says
that it stands right after a word. -/
inductive RendersFrom : Bool → List Token → List Char → Prop where
  | done {afterWord : Bool} {gap : List Char} (hgap : IsLastGap gap) :
      RendersFrom afterWord [] gap
  | token {afterWord : Bool} {gap rest : List Char} {token : Token}
      {tokens : List Token} (hgap : IsGap gap)
      (hapart : afterWord = true → token.isWord = true → gap ≠ [])
      (hrest : RendersFrom token.isWord tokens rest) :
      RendersFrom afterWord (token :: tokens) (gap ++ (token.text ++ rest))

/-- Whether a text writes out tokens, apart from each other where two words
meet. -/
def Renders (tokens : List Token) (text : List Char) : Prop :=
  RendersFrom false tokens text

variable {gap rest word gathered : List Char} {tokens : List Token}

/-! ## Scanning a rendering -/

theorem ne_of_isBlank {c : Char} (h : Text.isBlank c = true) :
    c ≠ '(' ∧ c ≠ ')' ∧ c ≠ ';' := by
  refine ⟨?_, ?_, ?_⟩
  all_goals
    rintro rfl
    exact absurd h (by decide)

theorem ofWord_reverse (h : word ≠ []) : ofWord word.reverse = [.word word] := by
  obtain ⟨c, more, hreverse⟩ :=
    List.exists_cons_of_ne_nil (mt List.reverse_eq_nil_iff.1 h)
  rw [hreverse]
  show [Token.word (c :: more).reverse] = _
  rw [← hreverse, List.reverse_reverse]

theorem scanFrom_blank {c : Char} (h : Text.isBlank c = true) :
    scanFrom false gathered (c :: rest) =
      ofWord gathered ++ scanFrom false [] rest := by
  obtain ⟨hopening, hclosing, hcomment⟩ := ne_of_isBlank h
  rw [scanFrom, if_neg hopening, if_neg hclosing, if_neg hcomment, if_pos h]

theorem scanFrom_comment : scanFrom false gathered (';' :: rest) =
    ofWord gathered ++ scanFrom true [] rest := by
  rw [scanFrom, if_neg (by decide), if_neg (by decide), if_pos rfl]

theorem scanFrom_line {content : List Char} (h : '\n' ∉ content) :
    scanFrom true [] (content ++ '\n' :: rest) = scanFrom false [] rest := by
  induction content with
  | nil => rfl
  | cons c more ih =>
      obtain ⟨hc, hrest⟩ := not_or.1 (mt List.mem_cons.2 h)
      rw [List.cons_append, scanFrom, bne_iff_ne.2 (Ne.symm hc)]
      exact ih hrest

theorem scanFrom_lastLine {content : List Char} (h : '\n' ∉ content) :
    scanFrom true [] content = [] := by
  induction content with
  | nil => rfl
  | cons c more ih =>
      obtain ⟨hc, hrest⟩ := not_or.1 (mt List.mem_cons.2 h)
      rw [scanFrom, bne_iff_ne.2 (Ne.symm hc)]
      exact ih hrest

theorem scan_gap (h : IsGap gap) :
    scanFrom false [] (gap ++ rest) = scanFrom false [] rest := by
  induction h with
  | nil => rfl
  | blank hc _ ih => rw [List.cons_append, scanFrom_blank hc, ih]; rfl
  | comment hcontent _ ih =>
      rw [List.cons_append, scanFrom_comment, List.append_assoc,
        List.cons_append, scanFrom_line hcontent, ih]
      rfl

/-- A gap ends the word under way. -/
theorem scanFrom_gap (h : IsGap gap) (hne : gap ≠ []) :
    scanFrom false gathered (gap ++ rest) =
      ofWord gathered ++ scanFrom false [] rest := by
  cases h with
  | nil => exact absurd rfl hne
  | blank hc hrest =>
      rw [List.cons_append, scanFrom_blank hc, scan_gap hrest]
  | comment hcontent hrest =>
      rw [List.cons_append, scanFrom_comment, List.append_assoc,
        List.cons_append, scanFrom_line hcontent, scan_gap hrest]

theorem scanFrom_lastGap (h : IsLastGap gap) :
    scanFrom false gathered gap = ofWord gathered := by
  cases h with
  | gap h =>
      by_cases hne : gap = []
      · rw [hne, scanFrom_nil]
      · have hgap : scanFrom false gathered (gap ++ []) = _ :=
          scanFrom_gap h hne
        rwa [List.append_nil, scanFrom_nil, ofWord, List.append_nil] at hgap
  | comment hbefore hcontent heq =>
      have hlast : ∀ gathered, scanFrom false gathered (';' :: _) =
          ofWord gathered := fun gathered => by
        rw [scanFrom_comment, scanFrom_lastLine hcontent, List.append_nil]
      rename_i before content
      by_cases hne : before = []
      · rw [heq, hne, List.nil_append, hlast]
      · rw [heq, scanFrom_gap hbefore hne, hlast, ofWord, List.append_nil]

theorem scanFrom_word (h : ∀ c ∈ word, continues c) :
    scanFrom false gathered (word ++ rest) =
      scanFrom false (word.reverse ++ gathered) rest := by
  induction word generalizing gathered with
  | nil => rfl
  | cons c more ih =>
      obtain ⟨hc, hrest⟩ := List.forall_mem_cons.1 h
      obtain ⟨hopening, hclosing, hcomment, hblank⟩ := hc
      rw [List.cons_append, scanFrom, if_neg hopening, if_neg hclosing,
        if_neg hcomment, if_neg (by rw [hblank]; exact Bool.false_ne_true),
        ih hrest, List.reverse_cons, List.append_assoc]
      rfl

/-- A parenthesis ends the word under way, like a gap. -/
theorem scanFrom_parenthesis {token : Token} (h : token.isWord = false) :
    scanFrom false gathered (token.text ++ rest) =
      ofWord gathered ++ token :: scanFrom false [] rest := by
  cases token with
  | opening =>
      show scanFrom false gathered ('(' :: rest) = _
      rw [scanFrom, if_pos rfl]
  | closing =>
      show scanFrom false gathered (')' :: rest) = _
      rw [scanFrom, if_neg (by decide), if_pos rfl]
  | word _ => cases h

/-- The word under way is the one that the rest stands after, so without one
nothing has been gathered. -/
theorem scanFrom_of_renders {afterWord : Bool}
    (h : RendersFrom afterWord tokens rest)
    (hplain : ∀ w, .word w ∈ tokens → IsPlain w)
    (hgathered : afterWord = false → gathered = []) :
    scanFrom false gathered rest = ofWord gathered ++ tokens := by
  induction h generalizing gathered with
  | done hgap => rw [scanFrom_lastGap hgap, List.append_nil]
  | @token afterWord gap rest token tokens hgap hapart hrest ih =>
      have hplain' := fun w hw => hplain w (List.mem_cons_of_mem _ hw)
      -- Up to the token, an empty gap leaves the word under way unfinished.
      have hskip : gap = [] ∨ scanFrom false gathered (gap ++ (token.text ++ rest))
          = ofWord gathered ++ scanFrom false [] (token.text ++ rest) := by
        by_cases hne : gap = []
        · exact .inl hne
        · exact .inr (scanFrom_gap hgap hne)
      cases hword : token.isWord with
      | false =>
          rw [hword] at ih
          have hrest' : scanFrom false [] rest = tokens :=
            ih hplain' fun _ => rfl
          rcases hskip with rfl | hskip
          · rw [List.nil_append, scanFrom_parenthesis hword, hrest']
          · rw [hskip, scanFrom_parenthesis hword, hrest']
            rfl
      | true =>
          cases token with
          | opening => cases hword
          | closing => cases hword
          | word w =>
              obtain ⟨hne, hcontinues⟩ := hplain w List.mem_cons_self
              have hstart : scanFrom false gathered (gap ++ (w ++ rest)) =
                  ofWord gathered ++ scanFrom false [] (w ++ rest) := by
                rcases hskip with rfl | hskip
                · cases afterWord with
                  | true => exact absurd rfl (hapart rfl rfl)
                  | false => rw [hgathered rfl]; rfl
                · exact hskip
              show scanFrom false gathered (gap ++ (w ++ rest)) = _
              rw [hstart, scanFrom_word hcontinues, List.append_nil,
                ih hplain' (fun h => by cases h), ofWord_reverse hne]
              rfl

/-! ## The rendering of a scanned text -/

section

variable {afterWord : Bool}

theorem IsGap.append (h : IsGap gap) (hrest : IsGap rest) :
    IsGap (gap ++ rest) := by
  induction h with
  | nil => exact hrest
  | blank hc _ ih => exact .blank hc ih
  | comment hcontent _ ih =>
      rw [List.cons_append, List.append_assoc, List.cons_append]
      exact .comment hcontent ih

theorem IsLastGap.after_gap (h : IsLastGap rest) (hgap : IsGap gap) :
    IsLastGap (gap ++ rest) := by
  cases h with
  | gap h => exact .gap (hgap.append h)
  | comment hbefore hcontent heq =>
      refine .comment (hgap.append hbefore) hcontent ?_
      rw [heq, List.append_assoc]

/-- A gap in front of a rendering keeps it apart from what stands before. -/
theorem RendersFrom.after_gap {flag : Bool} (h : RendersFrom flag tokens rest)
    (hgap : IsGap gap) (hne : gap ≠ []) :
    RendersFrom afterWord tokens (gap ++ rest) := by
  cases h with
  | done hlast => exact .done (hlast.after_gap hgap)
  | token hgap' _ hrest =>
      rw [← List.append_assoc]
      refine .token (hgap.append hgap') (fun _ _ hnil => ?_) hrest
      exact hne (List.append_eq_nil_iff.1 hnil).1

theorem RendersFrom.after_parenthesis {token : Token}
    (h : RendersFrom false tokens rest) (htoken : token.isWord = false) :
    RendersFrom afterWord (token :: tokens) (token.text ++ rest) := by
  refine .token .nil (fun _ hword => ?_) (by rwa [htoken])
  rw [htoken] at hword
  cases hword

/-- The word under way, given back to the text, is its first token. -/
theorem renders_ofWord (gathered : List Char)
    (h : ∀ afterWord, RendersFrom afterWord tokens rest) :
    Renders (ofWord gathered ++ tokens) (gathered.reverse ++ rest) := by
  cases gathered with
  | nil => exact h false
  | cons c more => exact .token .nil (fun hfalse => by cases hfalse) (h true)

/-- A text renders what scanning finds in it. Inside a comment the part of the
line that has been read stands before it. -/
theorem renders_scanFrom (text : List Char) :
    (∀ gathered, Renders (scanFrom false gathered text)
      (gathered.reverse ++ text)) ∧
    ∀ afterWord content, '\n' ∉ content →
      RendersFrom afterWord (scanFrom true [] text) (';' :: (content ++ text)) := by
  induction text with
  | nil =>
      refine ⟨fun gathered => ?_, fun afterWord content hcontent => ?_⟩
      · have : Renders (ofWord gathered ++ []) (gathered.reverse ++ []) :=
          renders_ofWord gathered fun _ => .done (.gap .nil)
        rwa [List.append_nil] at this
      · exact .done (.comment .nil hcontent (by rw [List.append_nil]; rfl))
  | cons c rest ih =>
      obtain ⟨ihcode, ihcomment⟩ := ih
      refine ⟨fun gathered => ?_, fun afterWord content hcontent => ?_⟩
      · rw [scanFrom]
        split
        · next hc =>
            subst hc
            exact renders_ofWord gathered fun _ =>
              (ihcode []).after_parenthesis rfl
        · split
          · next hc =>
              subst hc
              exact renders_ofWord gathered fun _ =>
                (ihcode []).after_parenthesis rfl
          · split
            · next hc =>
                subst hc
                exact renders_ofWord gathered fun afterWord =>
                  ihcomment afterWord [] List.not_mem_nil
            · split
              · next hblank =>
                  exact renders_ofWord gathered fun _ => (ihcode []).after_gap
                    (.blank hblank .nil) (List.cons_ne_nil c [])
              · have := ihcode (c :: gathered)
                rwa [List.reverse_cons, List.append_assoc] at this
      · by_cases hc : c = '\n'
        · subst hc
          have : RendersFrom afterWord _ (_ ++ rest) :=
            (ihcode []).after_gap (.comment hcontent .nil)
              (List.cons_ne_nil _ _)
          rwa [List.cons_append, List.append_assoc] at this
        · rw [scanFrom, bne_iff_ne.2 hc]
          have := ihcomment afterWord (content ++ [c])
            (by simp [hcontent, Ne.symm hc])
          rwa [List.append_assoc] at this

end

theorem isPlain_of_mem_ofWord (h : ∀ c ∈ gathered, continues c)
    (hword : .word word ∈ ofWord gathered) : IsPlain word := by
  cases gathered with
  | nil => cases hword
  | cons c more =>
      obtain rfl : word = (c :: more).reverse := by simpa [ofWord] using hword
      refine ⟨by simp, fun c hc => h c (List.mem_reverse.1 hc)⟩

/-- Scanning finds plain words only. -/
theorem isPlain_of_mem_scanFrom {comment : Bool} {text : List Char}
    (h : ∀ c ∈ gathered, continues c)
    (hword : .word word ∈ scanFrom comment gathered text) : IsPlain word := by
  induction text generalizing comment gathered with
  | nil =>
      rw [scanFrom_nil] at hword
      exact isPlain_of_mem_ofWord h hword
  | cons c rest ih =>
      have hafter : ∀ comment, .word word ∈ ofWord gathered ++
          scanFrom comment [] rest → IsPlain word := by
        intro comment hmem
        rcases List.mem_append.1 hmem with hmem | hmem
        · exact isPlain_of_mem_ofWord h hmem
        · exact ih (by simp) hmem
      cases comment with
      | true => exact ih h (by rwa [scanFrom] at hword)
      | false =>
          rw [scanFrom] at hword
          split at hword
          · exact hafter false (by simpa using hword)
          · split at hword
            · exact hafter false (by simpa using hword)
            · split at hword
              · exact hafter true hword
              · split at hword
                · exact hafter false hword
                · next hopening hclosing hcomment hblank =>
                    refine ih (List.forall_mem_cons.2 ⟨?_, h⟩) hword
                    exact ⟨hopening, hclosing, hcomment,
                      Bool.eq_false_iff.2 hblank⟩

/-- A text has the tokens that it renders. -/
theorem scan_eq_iff {text : List Char} : scan text = tokens ↔
    (∀ w, .word w ∈ tokens → IsPlain w) ∧ Renders tokens text := by
  constructor
  · rintro rfl
    exact ⟨fun w hw => isPlain_of_mem_scanFrom (by simp) hw,
      (renders_scanFrom text).1 []⟩
  · rintro ⟨hplain, hrenders⟩
    exact scanFrom_of_renders hrenders hplain fun _ => rfl

end Token

namespace Form

/-- Reading forms loses and invents nothing. A text has forms if and only if no
prefix of its tokens closes more parentheses than it opens and all of them
close as many as they open. The forms are then those that flatten to the tokens
of the text; in other words those of plain words whose tokens the text
renders, whatever blanks and comments stand between these. -/
theorem read_iff_renders (text : List Char) :
    ((∃ forms, read text = .ok forms) ↔
      (∀ before, before <+: Token.scan text →
        before.count .closing ≤ before.count .opening) ∧
      (Token.scan text).count .opening = (Token.scan text).count .closing) ∧
    ∀ forms,
      (read text = .ok forms ↔ flattenAll forms = Token.scan text) ∧
      (read text = .ok forms ↔
        (∀ word, .word word ∈ flattenAll forms → Token.IsPlain word) ∧
          Token.Renders (flattenAll forms) text) := by
  refine ⟨exists_nest_iff.trans Token.balanced_iff_count,
    fun forms => ⟨nest_eq_ok_iff, nest_eq_ok_iff.trans ?_⟩⟩
  rw [eq_comm]
  exact Token.scan_eq_iff

end Form

end BoxCert
