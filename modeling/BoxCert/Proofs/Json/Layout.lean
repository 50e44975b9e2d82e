import BoxCert.Json.Reading
import BoxCert.Proofs.Json.Spelling

/-!
# What is written reads back

Both layouts of a value have the same tokens, the ones of the value in their
order, and differ in the gaps between them. Nesting the tokens again gives the
value. So whatever is written is read as it was, in either layout, if only its
numbers are well spelled and its strings are texts.

Scanning and nesting are taken apart here as they are in the reader: one pass
along the text that never looks at the structure, and one along the tokens
that never looks at the text.
-/

namespace BoxCert.Json

/-! ## Values and their tokens -/

mutual

/-- Whether all numbers of a value are well spelled and all strings texts. -/
def Spelled : Json → Prop
  | number n => n.WellSpelled
  | string s => s.isSome = true
  | array items => AreSpelled items
  | object members => MembersAreSpelled members
  | null | bool _ => True

def AreSpelled : List Json → Prop
  | [] => True
  | item :: rest => Spelled item ∧ AreSpelled rest

def MembersAreSpelled : List (Option String × Json) → Prop
  | [] => True
  | (name, value) :: rest =>
      name.isSome = true ∧ Spelled value ∧ MembersAreSpelled rest

end

mutual

/-- The tokens of a value. -/
def tokens : Json → List Token
  | null => [.null]
  | bool b => [.bool b]
  | number n => [.number n]
  | string s => [.string s]
  | array items => .openArray :: (itemTokens items ++ [.closeArray])
  | object members => .openObject :: (memberTokens members ++ [.closeObject])

def itemTokens : List Json → List Token
  | [] => []
  | [item] => tokens item
  | item :: rest => tokens item ++ .comma :: itemTokens rest

def memberTokens : List (Option String × Json) → List Token
  | [] => []
  | [(name, value)] => .string name :: .colon :: tokens value
  | (name, value) :: rest =>
      .string name :: .colon :: (tokens value ++ .comma :: memberTokens rest)

end

/-! ## Nesting -/

/-- Whether a value may come next. -/
inductive Expected.AllowsValue : Expected → Prop where
  | value : AllowsValue value
  | firstItem : AllowsValue firstItem

variable {frames outer : List Frame} {e : Expected} {rest : List Token}

theorem nestFrom?_scalar {token : Token} {v : Json} (he : e.AllowsValue)
    (h : token.value? = some v) : nestFrom? frames e (token :: rest) =
      nestFrom? frames (.afterValue v) rest := by
  cases he with
  | value | firstItem =>
      cases token with
      | null | bool | number | string =>
          cases h
          rcases frames with _ | ⟨_ | _ | _, _⟩ <;> rfl
      | _ => cases h

theorem nestFrom?_openArray (he : e.AllowsValue) :
    nestFrom? frames e (.openArray :: rest) =
      nestFrom? (.items [] :: frames) .firstItem rest := by
  cases he with
  | value | firstItem => rcases frames with _ | ⟨_ | _ | _, _⟩ <;> rfl

theorem nestFrom?_openObject (he : e.AllowsValue) :
    nestFrom? frames e (.openObject :: rest) =
      nestFrom? (.members [] :: frames) .firstName rest := by
  cases he with
  | value | firstItem => rcases frames with _ | ⟨_ | _ | _, _⟩ <;> rfl

mutual

/-- The tokens of a value nest into it. -/
theorem nestFrom?_tokens {frames : List Frame} {e : Expected}
    {rest : List Token} (he : e.AllowsValue) (j : Json) :
    nestFrom? frames e (j.tokens ++ rest) =
      nestFrom? frames (.afterValue j) rest := by
  match j with
  | null | bool _ | number _ | string _ => exact nestFrom?_scalar he rfl
  | array [] => exact nestFrom?_openArray he
  | array (item :: items) =>
      rw [tokens, List.cons_append, nestFrom?_openArray he, List.append_assoc]
      exact nestFrom?_itemTokens [] .firstItem item items
  | object [] => exact nestFrom?_openObject he
  | object ((name, value) :: members) =>
      rw [tokens, List.cons_append, nestFrom?_openObject he, List.append_assoc]
      exact nestFrom?_memberTokens [] (.inl rfl) name value members
termination_by sizeOf j

/-- Items nest into the array that is open around them. -/
theorem nestFrom?_itemTokens {outer : List Frame} {e : Expected}
    {rest : List Token} (done : List Json) (he : e.AllowsValue) (item : Json)
    (items : List Json) :
    nestFrom? (.items done :: outer) e
        (itemTokens (item :: items) ++ ([.closeArray] ++ rest)) =
      nestFrom? outer (.afterValue (.array (done.reverse ++ item :: items)))
        rest := by
  match items with
  | [] =>
      rw [itemTokens, nestFrom?_tokens he item]
      show nestFrom? outer (.afterValue (.array (item :: done).reverse)) rest = _
      rw [List.reverse_cons]
  | second :: items =>
      rw [itemTokens, List.append_assoc, nestFrom?_tokens he item]
      · show nestFrom? (.items (item :: done) :: outer) .value
          (itemTokens (second :: items) ++ _) = _
        rw [nestFrom?_itemTokens (item :: done) .value second items,
          List.reverse_cons, List.append_assoc]
        rfl
      · nofun
termination_by sizeOf (item :: items)

/-- Members nest into the object that is open around them. -/
theorem nestFrom?_memberTokens {outer : List Frame} {e : Expected}
    {rest : List Token} (done : List (Option String × Json))
    (he : e = .firstName ∨ e = .name) (name : Option String) (value : Json)
    (members : List (Option String × Json)) :
    nestFrom? (.members done :: outer) e
        (memberTokens ((name, value) :: members) ++ ([.closeObject] ++ rest)) =
      nestFrom? outer
        (.afterValue (.object (done.reverse ++ (name, value) :: members)))
        rest := by
  have hname : ∀ more, nestFrom? (.members done :: outer) e
      (.string name :: .colon :: more) =
        nestFrom? (.pending done name :: outer) .value more := by
    rcases he with rfl | rfl <;> exact fun _ => rfl
  match members with
  | [] =>
      rw [memberTokens, List.cons_append, List.cons_append, hname,
        nestFrom?_tokens .value value]
      show nestFrom? outer (.afterValue (.object
        ((name, value) :: done).reverse)) rest = _
      rw [List.reverse_cons]
  | (secondName, second) :: members =>
      rw [memberTokens, List.cons_append, List.cons_append, hname,
        List.append_assoc, nestFrom?_tokens .value value]
      · show nestFrom? (.members ((name, value) :: done) :: outer) .name
          (memberTokens ((secondName, second) :: members) ++ _) = _
        rw [nestFrom?_memberTokens ((name, value) :: done) (.inr rfl) secondName
          second members, List.reverse_cons, List.append_assoc]
        rfl
      · nofun
termination_by sizeOf ((name, value) :: members)

end

/-! ## Scanning -/

namespace Token

/-- Whether a text scans to some tokens and what follows it. -/
def Scans (text : List Char) (tokens : List Token) (rest : List Char) : Prop :=
  scan? (text ++ rest) = (scan? rest).map (tokens ++ ·)

variable {text text' : List Char} {ts ts' : List Token} {rest : List Char}

theorem Scans.append (h : Scans text ts (text' ++ rest))
    (h' : Scans text' ts' rest) : Scans (text ++ text') (ts ++ ts') rest := by
  unfold Scans at *
  rw [List.append_assoc, h, h', Option.map_map]
  congr 1
  funext more
  exact (List.append_assoc ts ts' more).symm

theorem scans_nil : Scans [] [] rest :=
  (Option.map_id_apply (x := scan? rest)).symm

theorem scans_gap {c : Char} (h : isGap c = true) : Scans [c] [] rest := by
  unfold Scans
  rw [List.singleton_append, scan?, if_pos h]
  exact scans_nil

theorem scans_mark {c : Char} {token : Token} (h : ofMark? c = some token) :
    Scans [c] [token] rest := by
  have hc : isGap c = false ∧ c ≠ '"' ∧ isRun c = false := by
    unfold ofMark? at h
    split at h <;> first | decide | cases h
  obtain ⟨hgap, hquote, hrun⟩ := hc
  unfold Scans
  rw [List.singleton_append, scan?, hgap, hrun, if_neg Bool.false_ne_true,
    if_neg hquote, if_neg Bool.false_ne_true, h]
  rfl

theorem Scans.before_gap {gap : List Char} (h : Scans text ts (gap ++ rest))
    (hgap : Scans gap [] rest) : Scans (text ++ gap) ts rest := by
  have hboth := h.append hgap
  rwa [List.append_nil] at hboth

theorem Scans.enclosed {first last : Char} {opening closing : Token}
    (hfirst : ofMark? first = some opening) (h : Scans text ts (last :: rest))
    (hlast : ofMark? last = some closing) :
    Scans (first :: text ++ [last]) (opening :: (ts ++ [closing])) rest :=
  ((scans_mark hfirst).append h).append (scans_mark hlast)

theorem scans_stringText (s : String) :
    Scans (stringText s) [.string (some s)] rest := by
  unfold Scans stringText
  rw [List.cons_append, List.cons_append, List.append_assoc,
    List.singleton_append, scan?, if_neg (by decide), if_pos rfl]
  split
  · next h =>
      rw [stringCodes?_flatMap] at h
      cases h
  · next codes left h =>
      rw [stringCodes?_flatMap] at h
      cases h
      rw [charsOfCodes?_toNat, Option.map_some, String.ofList_toList]
      rfl

theorem scans_run {run : List Char} {token : Token} (hne : run ≠ [])
    (hrun : ∀ c ∈ run, isRun c = true) (h : ofRun? run = some token)
    (hrest : StopsBefore isRun rest) : Scans run [token] rest := by
  cases run with
  | nil => exact absurd rfl hne
  | cons c run =>
      have hc := hrun c List.mem_cons_self
      have hgap : isGap c = false := by
        rw [← Bool.not_eq_true]
        intro hgap
        simp only [isGap, Bool.or_eq_true, beq_iff_eq] at hgap
        rcases hgap with ((rfl | rfl) | rfl) | rfl <;> cases hc
      have hquote : c ≠ '"' := by
        rintro rfl
        cases hc
      obtain ⟨htake, hdrop⟩ := takeWhile_append_stop
        (fun d hd => hrun d (List.mem_cons_of_mem c hd)) hrest
      unfold Scans
      rw [List.cons_append, scan?, hgap, if_neg Bool.false_ne_true,
        if_neg hquote, if_pos hc, htake, hdrop, h]
      rfl

theorem scans_gaps {gaps : List Char} (h : ∀ c ∈ gaps, isGap c = true) :
    Scans gaps [] rest := by
  induction gaps with
  | nil => exact scans_nil
  | cons c gaps ih =>
      exact (scans_gap (h c List.mem_cons_self)).append
        (ih fun d hd => h d (List.mem_cons_of_mem c hd))

theorem isRun_of_isDigit {c : Char} (h : c.isDigit = true) :
    isRun c = true := by
  simp [isRun, Char.isAlphanum, h]

theorem isRun_text {n : Number} (h : n.WellSpelled) :
    ∀ c ∈ n.text, isRun c = true := by
  intro c hc
  simp only [Number.text, List.mem_append] at hc
  rcases hc with ((hc | hc) | hc) | hc
  · split at hc
    · rw [List.mem_singleton.1 hc]
      decide
    · cases hc
  · exact isRun_of_isDigit (h.whole_digits c hc)
  · split at hc
    · cases hc
    · rcases List.mem_cons.1 hc with rfl | hc
      · decide
      · exact isRun_of_isDigit (h.fraction_digits c hc)
  · cases he : n.exponent with
    | none => rw [he] at hc; cases hc
    | some e =>
        rw [he] at hc
        rcases List.mem_cons.1 hc with rfl | hc
        · decide
        · rcases List.mem_cons.1 hc with rfl | hc
          · split <;> decide
          · exact isRun_of_isDigit ((h.exponent_digits e he).2 c hc)

/-- No number starts like one of the literals. -/
theorem ofRun?_text {n : Number} (h : n.WellSpelled) :
    ofRun? n.text = some (number n) := by
  obtain ⟨c, more, htext, hc⟩ := h.text_head
  have hword : ∀ word : String, String.ofList n.text = word →
      word.toList.head? = some c := by
    rintro _ rfl
    rw [String.toList_ofList, htext]
    rfl
  unfold ofRun?
  split
  · next heq =>
      cases hword _ heq
      rcases hc with hc | hc <;> cases hc
  · next heq =>
      cases hword _ heq
      rcases hc with hc | hc <;> cases hc
  · next heq =>
      cases hword _ heq
      rcases hc with hc | hc <;> cases hc
  · rw [Number.read?_text h]
    rfl

end Token

open Token

variable {rest : List Char}

theorem stopsBefore_cons {c : Char} (h : isRun c = false) :
    StopsBefore isRun (c :: rest) := by
  rintro _ ⟨⟩
  exact h

theorem scans_number {n : Number} (h : n.WellSpelled)
    (hrest : StopsBefore isRun rest) : Scans n.text [.number n] rest := by
  obtain ⟨c, more, htext, -⟩ := h.text_head
  refine scans_run ?_ (isRun_text h) (ofRun?_text h) hrest
  rw [htext]
  exact List.cons_ne_nil c more

theorem scans_scalarText {j : Json} (h : j.Spelled)
    (hscalar : ∀ items, j ≠ array items)
    (hscalar' : ∀ members, j ≠ object members)
    (hrest : StopsBefore isRun rest) : Scans j.scalarText j.tokens rest := by
  cases j with
  | null => exact scans_run (by decide) (List.all_eq_true.1 rfl) rfl hrest
  | bool b =>
      cases b with
      | false => exact scans_run (by decide) (List.all_eq_true.1 rfl) rfl hrest
      | true => exact scans_run (by decide) (List.all_eq_true.1 rfl) rfl hrest
  | number n => exact scans_number h hrest
  | string s =>
      obtain ⟨s, rfl⟩ := Option.isSome_iff_exists.1 h
      exact scans_stringText s
  | array items => exact absurd rfl (hscalar items)
  | object members => exact absurd rfl (hscalar' members)

mutual

theorem scans_compact {rest : List Char} {j : Json} (h : j.Spelled)
    (hrest : StopsBefore isRun rest) : Scans j.compact j.tokens rest := by
  match j with
  | null | bool _ | number _ | string _ =>
      exact scans_scalarText h nofun nofun hrest
  | array items =>
      exact .enclosed rfl (scans_compactItems h (stopsBefore_cons rfl)) rfl
  | object members =>
      exact .enclosed rfl (scans_compactMembers h (stopsBefore_cons rfl)) rfl
termination_by sizeOf j

theorem scans_compactItems {rest : List Char} {items : List Json}
    (h : AreSpelled items) (hrest : StopsBefore isRun rest) :
    Scans (compactItems items) (itemTokens items) rest := by
  match items with
  | [] => exact scans_nil
  | [item] => exact scans_compact h.1 hrest
  | item :: second :: items =>
      exact (scans_compact h.1 (stopsBefore_cons rfl)).append
        ((scans_mark rfl).append (scans_compactItems h.2 hrest))
termination_by sizeOf items

theorem scans_compactMembers {rest : List Char}
    {members : List (Option String × Json)} (h : MembersAreSpelled members)
    (hrest : StopsBefore isRun rest) :
    Scans (compactMembers members) (memberTokens members) rest := by
  match members with
  | [] => exact scans_nil
  | [(some name, value)] =>
      exact (scans_stringText name).append
        ((scans_mark rfl).append (scans_compact h.2.1 hrest))
  | (some name, value) :: second :: members =>
      have hmember : Scans (stringText name ++ ':' :: compact value)
          (.string (some name) :: .colon :: tokens value)
          (',' :: compactMembers (second :: members) ++ rest) :=
        (scans_stringText name).append
          ((scans_mark rfl).append
            (scans_compact h.2.1 (stopsBefore_cons rfl)))
      exact hmember.append
        ((scans_mark rfl).append (scans_compactMembers h.2.2 hrest))
  | (none, _) :: _ => cases h.1
termination_by sizeOf members

end

theorem scans_lineStart (depth : Nat) : Scans (lineStart depth) [] rest := by
  refine scans_gaps fun c hc => ?_
  rcases List.mem_cons.1 hc with rfl | hc
  · decide
  · rw [List.eq_of_mem_replicate hc]
    decide

theorem stopsBefore_lineStart (depth : Nat) :
    StopsBefore isRun (lineStart depth ++ rest) := stopsBefore_cons rfl

mutual

theorem scans_indented {rest : List Char} (depth : Nat) {j : Json}
    (h : j.Spelled) (hrest : StopsBefore isRun rest) :
    Scans (indented depth j) j.tokens rest := by
  match j with
  | null | bool _ | number _ | string _ =>
      exact scans_scalarText h nofun nofun hrest
  | array [] => exact .enclosed rfl scans_nil rfl
  | array (item :: items) =>
      exact .enclosed rfl ((scans_indentedItems (depth + 1) h
        (stopsBefore_lineStart depth)).before_gap (scans_lineStart depth)) rfl
  | object [] => exact .enclosed rfl scans_nil rfl
  | object (member :: members) =>
      exact .enclosed rfl ((scans_indentedMembers (depth + 1) h
        (stopsBefore_lineStart depth)).before_gap (scans_lineStart depth)) rfl
termination_by sizeOf j

theorem scans_indentedItems {rest : List Char} (depth : Nat)
    {items : List Json} (h : AreSpelled items)
    (hrest : StopsBefore isRun rest) :
    Scans (indentedItems depth items) (itemTokens items) rest := by
  match items with
  | [] => exact scans_nil
  | [item] =>
      exact (scans_lineStart depth).append (scans_indented depth h.1 hrest)
  | item :: second :: items =>
      have hitem : Scans (lineStart depth ++ indented depth item) item.tokens
          (',' :: indentedItems depth (second :: items) ++ rest) :=
        (scans_lineStart depth).append
          (scans_indented depth h.1 (stopsBefore_cons rfl))
      exact hitem.append
        ((scans_mark rfl).append (scans_indentedItems depth h.2 hrest))
termination_by sizeOf items

theorem scans_indentedMembers {rest : List Char} (depth : Nat)
    {members : List (Option String × Json)} (h : MembersAreSpelled members)
    (hrest : StopsBefore isRun rest) :
    Scans (indentedMembers depth members) (memberTokens members) rest := by
  match members with
  | [] => exact scans_nil
  | [(some name, value)] =>
      exact ((scans_lineStart depth).append (scans_stringText name)).append
        ((scans_mark rfl).append
          ((scans_gap rfl).append (scans_indented depth h.2.1 hrest)))
  | (some name, value) :: second :: members =>
      have hmember : Scans
          (lineStart depth ++ stringText name ++ ':' :: ' ' ::
            indented depth value)
          (.string (some name) :: .colon :: tokens value)
          (',' :: indentedMembers depth (second :: members) ++ rest) :=
        ((scans_lineStart depth).append (scans_stringText name)).append
          ((scans_mark rfl).append ((scans_gap rfl).append
            (scans_indented depth h.2.1 (stopsBefore_cons rfl))))
      exact hmember.append
        ((scans_mark rfl).append (scans_indentedMembers depth h.2.2 hrest))
  | (none, _) :: _ => cases h.1
termination_by sizeOf members

end

/-! ## Reading -/

theorem read?_of_scans {text : List Char} {j : Json}
    (h : Scans text j.tokens []) : read? text = some j := by
  unfold Scans at h
  rw [List.append_nil, scan?, Option.map_some] at h
  rw [read?, h]
  exact nestFrom?_tokens .value j

theorem read?_compact {j : Json} (h : j.Spelled) :
    read? j.compact = some j :=
  read?_of_scans (scans_compact h nofun)

theorem read?_indented (depth : Nat) {j : Json} (h : j.Spelled) :
    read? (j.indented depth) = some j :=
  read?_of_scans (scans_indented depth h nofun)

/-- Whether a text is a value in one of the layouts. -/
def WrittenAs (j : Json) (text : List Char) : Prop :=
  text = j.compact ∨ ∃ depth, text = j.indented depth

/-- What is written in either layout is read as it was. -/
theorem WrittenAs.read? {j : Json} {text : List Char} (h : j.WrittenAs text)
    (hspelled : j.Spelled) : read? text = some j := by
  rcases h with rfl | ⟨depth, rfl⟩
  · exact read?_compact hspelled
  · exact read?_indented depth hspelled

end BoxCert.Json
