import BoxCert.Proofs.Number.Value

/-!
# Places, and numbers that agree

Numbers are ordered by their place, a signed rank, and negation turns the
places around. Both zeros have one place, and no other two numbers do. So two
numbers *agree* if they have one place or are both NaNs: they are the same
number, or zeros of either sign, and nothing but the sign of a zero tells them
apart.
-/

namespace BoxCert.Binary64

variable {x y z x' y' : Binary64} {i j n : Int}

/-! ## Places -/

theorem le_iff_place (hx : x.place? = some i) (hy : y.place? = some j) :
    x ≤ y ↔ i ≤ j := by
  show x.atMost y = true ↔ _
  rw [atMost, hx, hy, decide_eq_true_eq]

theorem lt_iff_place (hx : x.place? = some i) (hy : y.place? = some j) :
    x < y ↔ i < j := by
  show x.below y = true ↔ _
  rw [below, hx, hy, decide_eq_true_eq]

theorem isNan_iff_place : x.isNan = true ↔ x.place? = none := by
  cases x with
  | nan => exact iff_of_true rfl rfl
  | _ => exact iff_of_false nofun nofun

theorem exists_place_of_isNan (hx : x.isNan = false) :
    ∃ i, x.place? = some i := by
  obtain ⟨s, rank, h, -⟩ := exists_place hx
  exact ⟨_, h⟩

theorem infinity_or_units (hx : x.isNan = false) :
    x = infinity ∨ x = negInfinity ∨ ∃ n, x.units? = some n := by
  cases x with
  | nan => cases hx
  | infinite s =>
      cases s with
      | false => exact .inl rfl
      | true => exact .inr (.inl rfl)
  | finite s r => exact .inr (.inr ⟨_, rfl⟩)

theorem finite_or_infinite (x y : Binary64) :
    (∃ m n, x.units? = some m ∧ y.units? = some n) ∨
      x.isFinite = false ∨ y.isFinite = false := by
  cases hx : x.isFinite with
  | false => exact .inr (.inl rfl)
  | true =>
      cases hy : y.isFinite with
      | false => exact .inr (.inr rfl)
      | true =>
          obtain ⟨m, hm⟩ := exists_units hx
          obtain ⟨n, hn⟩ := exists_units hy
          exact .inl ⟨m, n, hm, hn⟩

/-! ## Negation -/

@[simp] theorem neg_neg_eq (x : Binary64) : - -x = x := by
  cases x with
  | nan => rfl
  | infinite s => exact congrArg infinite (Bool.not_not s)
  | finite s r => exact congrArg (finite · r) (Bool.not_not s)

@[simp] theorem isFinite_neg (x : Binary64) : (-x).isFinite = x.isFinite := by
  cases x <;> rfl

@[simp] theorem isZero_neg (x : Binary64) : (-x).isZero = x.isZero := by
  cases x <;> rfl

@[simp] theorem abs_neg_eq (x : Binary64) : (-x).abs = x.abs := by
  cases x <;> rfl

theorem place?_neg (hx : x.place? = some i) : (-x).place? = some (-i) := by
  cases x with
  | nan => cases hx
  | infinite s =>
      cases hx
      exact congrArg some (signed_not s magnitudeCount)
  | finite s r =>
      cases hx
      exact congrArg some (signed_not s r)

theorem neg_atMost_neg_iff : -x ≤ -y ↔ y ≤ x := by
  rw [le_iff, le_iff, isNan_neg, isNan_neg, toEReal_neg, toEReal_neg,
    EReal.neg_le_neg_iff]
  tauto

theorem neg_below_neg_iff : -x < -y ↔ y < x := by
  rw [lt_iff, lt_iff, isNan_neg, isNan_neg, toEReal_neg, toEReal_neg,
    EReal.neg_lt_neg_iff]
  tauto

theorem neg_below_zero_iff : -x < 0 ↔ 0 < x := by
  rw [lt_iff, lt_iff, isNan_neg, toEReal_neg, toEReal_zero, EReal.neg_lt_zero]
  tauto

theorem zero_below_neg_iff : 0 < -x ↔ x < 0 := by
  rw [← neg_below_zero_iff, neg_neg_eq]

/-! ## Agreement -/

/-- Whether two numbers are the same one: both are NaNs, or they are equal as
numbers, which zeros of either sign are. -/
def Agrees (x y : Binary64) : Prop :=
  x.isNan = true ∧ y.isNan = true ∨ x.sameValue y = true

theorem agrees_iff_place : x.Agrees y ↔ x.place? = y.place? := by
  rw [Agrees, isNan_iff_place, isNan_iff_place, sameValue]
  cases x.place? with
  | none => cases y.place? <;> simp
  | some i => cases y.place? <;> simp

theorem agrees_of_eq (h : x = y) : x.Agrees y := agrees_iff_place.2 (by rw [h])

theorem Agrees.symm (h : x.Agrees y) : y.Agrees x :=
  agrees_iff_place.2 (agrees_iff_place.1 h).symm

theorem Agrees.trans (h : x.Agrees y) (h' : y.Agrees z) : x.Agrees z :=
  agrees_iff_place.2 ((agrees_iff_place.1 h).trans (agrees_iff_place.1 h'))

theorem place?_of_isZero (hx : x.isZero = true) : x.place? = some 0 := by
  cases x with
  | finite s r =>
      obtain rfl : r = ⟨0, by decide⟩ := Fin.ext (by simpa [isZero] using hx)
      cases s <;> rfl
  | _ => cases hx

theorem agrees_of_isZero (hx : x.isZero = true) (hy : y.isZero = true) :
    x.Agrees y := by
  rw [agrees_iff_place, place?_of_isZero hx, place?_of_isZero hy]

theorem signed_inj {s t : Bool} {a b : Nat} (h : signed s a = signed t b) :
    a = b ∧ (s = t ∨ a = 0) := by
  cases s <;> cases t <;> simp [signed] at h ⊢ <;> omega

/-- Numbers that agree differ at most in the sign of a zero. -/
theorem Agrees.eq_or_isZero (h : x.Agrees y) :
    x = y ∨ x.isZero = true ∧ y.isZero = true := by
  rw [agrees_iff_place] at h
  cases x with
  | nan =>
      cases y with
      | nan => exact .inl rfl
      | _ => cases h
  | infinite s =>
      cases y with
      | nan => cases h
      | infinite t =>
          obtain ⟨-, hst⟩ := signed_inj (Option.some.inj h)
          exact .inl (congrArg infinite (hst.resolve_right (by decide)))
      | finite t b =>
          exact absurd (signed_inj (Option.some.inj h)).1 b.isLt.ne'
  | finite s a =>
      cases y with
      | nan => cases h
      | infinite t => exact absurd (signed_inj (Option.some.inj h)).1 a.isLt.ne
      | finite t b =>
          obtain ⟨hab, hst⟩ := signed_inj (Option.some.inj h)
          obtain rfl := Fin.ext hab
          rcases hst with rfl | hzero
          · exact .inl rfl
          · exact .inr ⟨by simp [isZero, hzero], by simp [isZero, hzero]⟩

/-! ## What agreement keeps -/

theorem Agrees.isNan_eq (h : x.Agrees y) : x.isNan = y.isNan := by
  rw [Bool.eq_iff_iff, isNan_iff_place, isNan_iff_place, agrees_iff_place.1 h]

theorem Agrees.toEReal_eq (h : x.Agrees y) : x.toEReal = y.toEReal := by
  rcases h.eq_or_isZero with rfl | ⟨hx, hy⟩
  · rfl
  · rw [toEReal_of_isZero hx, toEReal_of_isZero hy]

theorem Agrees.units?_eq (h : x.Agrees y) : x.units? = y.units? := by
  rcases h.eq_or_isZero with rfl | ⟨hx, hy⟩
  · rfl
  · rw [units?_of_isZero hx, units?_of_isZero hy]

theorem Agrees.isFinite_eq (h : x.Agrees y) : x.isFinite = y.isFinite := by
  rcases h.eq_or_isZero with rfl | ⟨hx, hy⟩
  · rfl
  · rw [isFinite_of_units (units?_of_isZero hx),
      isFinite_of_units (units?_of_isZero hy)]

/-- What is not finite is no zero. -/
theorem Agrees.eq_of_not_finite (h : x.Agrees y) (hy : y.isFinite = false) :
    x = y := by
  refine h.eq_or_isZero.resolve_right fun hzero => ?_
  rw [isFinite_of_units (units?_of_isZero hzero.2)] at hy
  cases hy

theorem Agrees.neg (h : x.Agrees y) : (-x).Agrees (-y) := by
  rcases h.eq_or_isZero with rfl | ⟨hx, hy⟩
  · exact agrees_of_eq rfl
  · exact agrees_of_isZero ((isZero_neg x).trans hx) ((isZero_neg y).trans hy)

theorem Agrees.neg_left (h : x.Agrees (-y)) : (-x).Agrees y := by
  simpa using h.neg

theorem Agrees.le_iff (hx : x.Agrees x') (hy : y.Agrees y') :
    x ≤ y ↔ x' ≤ y' := by
  show x.atMost y = true ↔ x'.atMost y' = true
  rw [atMost, atMost, agrees_iff_place.1 hx, agrees_iff_place.1 hy]

theorem Agrees.lt_iff (hx : x.Agrees x') (hy : y.Agrees y') :
    x < y ↔ x' < y' := by
  show x.below y = true ↔ x'.below y' = true
  rw [below, below, agrees_iff_place.1 hx, agrees_iff_place.1 hy]

/-- Above a zero of either sign lies the least positive number. -/
theorem Agrees.nextUp (h : x.Agrees y) : x.nextUp = y.nextUp := by
  have hzero : ∀ {z : Binary64}, z.isZero = true → z.nextUp = ofRank false 1 := by
    intro z hz
    cases z with
    | finite s r =>
        have hr : r.val = 0 := by simpa [isZero] using hz
        cases s with
        | false => rw [Binary64.nextUp, hr]
        | true => rw [Binary64.nextUp, if_pos hr]
    | _ => cases hz
  rcases h.eq_or_isZero with rfl | ⟨hx, hy⟩
  · rfl
  · rw [hzero hx, hzero hy]

theorem unsignedZero_agrees (x : Binary64) : x.unsignedZero.Agrees x := by
  unfold unsignedZero
  split
  · next h => exact agrees_of_isZero rfl h
  · exact agrees_of_eq rfl

/-! ## Numbers of one value -/

theorem sameValue_iff : x.sameValue y = true ↔
    x.isNan = false ∧ y.isNan = false ∧ x.toEReal = y.toEReal := by
  have hplace : x.sameValue y = true ↔ x ≤ y ∧ y ≤ x := by
    show _ ↔ x.atMost y = true ∧ y.atMost x = true
    unfold sameValue atMost
    cases x.place? with
    | none => simp
    | some i =>
        cases y.place? with
        | none => simp
        | some j =>
            simp only [decide_eq_true_eq]
            omega
  rw [hplace, Binary64.le_iff, Binary64.le_iff]
  constructor
  · rintro ⟨⟨hx, hy, hxy⟩, -, -, hyx⟩
    exact ⟨hx, hy, le_antisymm hxy hyx⟩
  · rintro ⟨hx, hy, h⟩
    exact ⟨⟨hx, hy, h.le⟩, hy, hx, h.ge⟩

theorem sameValue_of_toEReal (hx : x.isNan = false) (hy : y.isNan = false)
    (h : x.toEReal = y.toEReal) : x.sameValue y = true :=
  sameValue_iff.2 ⟨hx, hy, h⟩

theorem sameValue_of_units (hx : x.units? = some n) (hy : y.units? = some n) :
    x.sameValue y = true :=
  sameValue_of_toEReal (isNan_of_units hx) (isNan_of_units hy)
    (by rw [toEReal_of_units hx, toEReal_of_units hy])

theorem Agrees.sameValue (h : x.Agrees y) (hy : y.isNan = false) :
    x.sameValue y = true :=
  h.resolve_left fun hnan => by simp [hnan.2] at hy

theorem agrees_of_units (hx : x.units? = some n) (hy : y.units? = some n) :
    x.Agrees y :=
  .inr (sameValue_of_units hx hy)

/-- Numbers of one value differ at most in the sign of a zero. -/
theorem eq_or_isZero_of_sameValue (h : x.sameValue y = true) :
    x = y ∨ x.isZero = true ∧ y.isZero = true :=
  Agrees.eq_or_isZero (.inr h)

theorem unsignedZero_congr (hx : x.isNan = false) (hy : y.isNan = false)
    (h : x.toEReal = y.toEReal) : x.unsignedZero = y.unsignedZero := by
  rcases eq_or_isZero_of_sameValue (sameValue_of_toEReal hx hy h) with
    rfl | ⟨hx, hy⟩
  · rfl
  · rw [unsignedZero, unsignedZero, if_pos hx, if_pos hy]

/-- A number is told by its units, unless it is a zero. -/
theorem eq_of_units (hx : x.units? = some n) (hy : y.units? = some n)
    (hn : n ≠ 0) : x = y :=
  (eq_or_isZero_of_sameValue (sameValue_of_units hx hy)).resolve_right
    fun hzero => hn ((isZero_iff hx).1 hzero.1)

end BoxCert.Binary64
