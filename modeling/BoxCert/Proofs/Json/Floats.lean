import BoxCert.Json.Shape
import BoxCert.Proofs.Json.Numbers
import BoxCert.Proofs.Number.DirectedSum

/-!
# Floats that read back

The reader of floats rounds more than once, so the last digit of what was
written may change. But a finite float always reads back as some float, and
that has to be shown, as a decimal near the end of the range might be rounded
over it.

It never is. The decimal of a magnitude lies below the midpoint to the next
one; the digits that are read and the power of ten are each rounded once, which
moves their product by less than two steps. So there is room above all
magnitudes but the three largest, and these three are looked up.
-/

namespace BoxCert

open Binary64

/-! ## Rounding upwards at most a little -/

theorem magnitudeUnits_nearestRank_le (num : Nat) :
    2 ^ 53 * magnitudeUnits (nearestRank num 1) ≤ (2 ^ 53 + 1) * num := by
  have hbits := (div_two_pow_log2 num).2
  have herr := divNearestEven_error num (Nat.two_pow_pos (num.log2 - 52))
  rw [magnitudeUnits_nearestRank, Nat.div_one, Nat.one_mul]
  generalize num.log2 - 52 = shift at *
  have hpos := Nat.two_pow_pos shift
  generalize hq : divNearestEven num (2 ^ shift) = q at *
  rcases hbits with rfl | hlow
  · rw [Nat.pow_zero, Nat.mul_one] at *
    omega
  · rw [Nat.le_div_iff_mul_le hpos] at hlow
    rw [← Nat.cast_mul] at herr
    generalize q * 2 ^ shift = p at *
    omega

/-- Two factors, in units and each rounded up by at most `a / b`, stay below a
limit that leaves room for both in their product. -/
theorem factors_le {a b m n x y one limit : Nat} (hab : b ≤ a) (hb : 0 < b)
    (hm : 0 < m) (hn : 0 < n) (hx : b * x ≤ a * (m * one))
    (hy : b * y ≤ a * (n * one))
    (h : a ^ 2 * (m * n * one) ≤ b ^ 2 * limit) :
    x ≤ limit ∧ y ≤ limit ∧ x * y ≤ limit * one := by
  have hb2 : 0 < b ^ 2 := by positivity
  refine ⟨?_, ?_, ?_⟩
  · refine Nat.le_of_mul_le_mul_left (le_trans ?_ h) hb2
    calc b ^ 2 * x = b * (b * x) := by ring
      _ ≤ a * (a * (m * one)) := Nat.mul_le_mul hab hx
      _ ≤ a * (a * (m * one)) * n := Nat.le_mul_of_pos_right _ hn
      _ = a ^ 2 * (m * n * one) := by ring
  · refine Nat.le_of_mul_le_mul_left (le_trans ?_ h) hb2
    calc b ^ 2 * y = b * (b * y) := by ring
      _ ≤ a * (a * (n * one)) := Nat.mul_le_mul hab hy
      _ ≤ a * (a * (n * one)) * m := Nat.le_mul_of_pos_right _ hm
      _ = a ^ 2 * (m * n * one) := by ring
  · refine Nat.le_of_mul_le_mul_left ?_ hb2
    calc b ^ 2 * (x * y) = b * x * (b * y) := by ring
      _ ≤ a * (m * one) * (a * (n * one)) := Nat.mul_le_mul hx hy
      _ = a ^ 2 * (m * n * one) * one := by ring
      _ ≤ b ^ 2 * limit * one := Nat.mul_le_mul_right one h
      _ = b ^ 2 * (limit * one) := by ring

theorem units?_ofRatio {num den : Nat}
    (h : magnitudeUnits (nearestRank num den) ≤ greatestUnits) :
    (ofRatio false num den).units? =
      some (magnitudeUnits (nearestRank num den) : Int) := by
  have hclamps := clamps_ofRatio false num den
  rw [roundUnits_signed] at hclamps
  refine hclamps.units_eq ?_
  rw [signed_natAbs]
  exact Nat.lt_of_le_of_lt h greatestUnits_lt

theorem isFinite_mul {x y : Binary64} {m n : Nat}
    (hx : x.units? = some (m : Int)) (hy : y.units? = some (n : Int))
    (h : m * n ≤ greatestUnits * oneUnits) : (x * y).isFinite = true := by
  have hrepresentable : Representable greatestUnits :=
    representable_magnitudeUnits (magnitudeCount - 1)
  have hprod : (m * n : Int) ≤ greatestUnits * (oneUnits : Nat) := by
    rw [← Nat.cast_mul, ← Nat.cast_mul]
    exact Int.ofNat_le.2 h
  have hle : roundUnits (m * n) oneUnits ≤ greatestUnits :=
    (nearest_roundUnits _ oneUnits_pos).le_of_le hrepresentable oneUnits_pos
      hprod
  have hpos : (0 : Int) * (oneUnits : Nat) ≤ m * n := by
    rw [Int.zero_mul]
    exact Int.mul_nonneg (Int.natCast_nonneg m) (Int.natCast_nonneg n)
  have hnonneg : 0 ≤ roundUnits (m * n) oneUnits :=
    (nearest_roundUnits _ oneUnits_pos).ge_of_ge .zero oneUnits_pos hpos
  have hlt := greatestUnits_lt
  exact isFinite_of_units ((clamps_mul hx hy).units_eq (by omega))

/-- Whether a number times a power of ten lies so far within the range that
rounding both of them upwards does not leave it. -/
def HasRoom (m k : Nat) : Prop :=
  (2 ^ 53 + 1) ^ 2 * (m * 10 ^ k * oneUnits) ≤ (2 ^ 53) ^ 2 * greatestUnits

theorem isFinite_ofNat_mul_pow {n k : Nat} (h : HasRoom (max 1 n) k) :
    (Binary64.ofNat n * Binary64.ofDecimal 1 false k).isFinite = true := by
  have hcount := magnitudeUnits_nearestRank_le (n * oneUnits)
  have hpower := magnitudeUnits_nearestRank_le (1 * 10 ^ k * oneUnits)
  rw [Nat.one_mul] at hpower
  have hle : n * oneUnits ≤ max 1 n * oneUnits :=
    Nat.mul_le_mul_right _ (Nat.le_max_right 1 n)
  obtain ⟨hx, hy, hxy⟩ := factors_le (by decide) (by decide) (by omega)
    (by positivity) (hcount.trans (Nat.mul_le_mul_left _ hle)) hpower h
  have hone : Binary64.ofDecimal 1 false k =
      ofRatio false (10 ^ k * oneUnits) 1 := by
    unfold Binary64.ofDecimal
    rw [if_neg Bool.false_ne_true, Nat.one_mul]
  rw [hone]
  exact isFinite_mul (units?_ofRatio hx) (units?_ofRatio hy) hxy

namespace Json.Number

/-! ## Digits that are taken in -/

theorem ofDigitChars_absorb {n : Nat} (hn : n < 2 ^ 64) (cs : List Char) :
    (absorb n cs).1 < 2 ^ 64 ∧ (absorb n cs).2.length ≤ cs.length ∧
      Nat.ofDigitChars 10 (absorb n cs).2 (absorb n cs).1 =
        Nat.ofDigitChars 10 cs n := by
  induction cs generalizing n with
  | nil => exact ⟨hn, le_refl _, rfl⟩
  | cons c cs ih =>
      unfold absorb
      dsimp only
      split
      · next hnext =>
          obtain ⟨hlt, hlength, heq⟩ := ih hnext
          exact ⟨hlt, Nat.le_succ_of_le hlength, heq⟩
      · exact ⟨hn, le_refl _, rfl⟩

theorem mul_pow_le_ofDigitChars (n : Nat) (cs : List Char) :
    n * 10 ^ cs.length ≤ Nat.ofDigitChars 10 cs n := by
  rw [Nat.ofDigitChars_eq_ofDigitChars_zero, Nat.mul_comm]
  exact Nat.le_add_right _ _

theorem absorb_of_lt {n : Nat} {cs : List Char}
    (h : Nat.ofDigitChars 10 cs n < 2 ^ 64) :
    absorb n cs = (Nat.ofDigitChars 10 cs n, []) := by
  induction cs generalizing n with
  | nil => rfl
  | cons c cs ih =>
      have hle := mul_pow_le_ofDigitChars
        (10 * n + (c.toNat - '0'.toNat)) cs
      have hpow : 0 < 10 ^ cs.length := by positivity
      rw [Nat.ofDigitChars_cons] at h ⊢
      unfold absorb
      dsimp only
      rw [if_pos, ih h]
      calc 10 * n + (c.toNat - '0'.toNat)
          ≤ (10 * n + (c.toNat - '0'.toNat)) * 10 ^ cs.length :=
            Nat.le_mul_of_pos_right _ hpow
        _ ≤ _ := hle
        _ < 2 ^ 64 := h

theorem ofDigitChars_lt {cs : List Char} (h : ∀ c ∈ cs, c.isDigit = true)
    (n : Nat) : Nat.ofDigitChars 10 cs n < (n + 1) * 10 ^ cs.length := by
  induction cs generalizing n with
  | nil => rw [Nat.ofDigitChars_nil, List.length_nil]; omega
  | cons c cs ih =>
      have hc : c.toNat - '0'.toNat ≤ 9 := by
        have hdigit := h c List.mem_cons_self
        rw [Char.isDigit, Bool.and_eq_true, decide_eq_true_iff,
          decide_eq_true_iff] at hdigit
        have hle : c.toNat ≤ '9'.toNat := hdigit.2
        exact Nat.sub_le_sub_right hle '0'.toNat
      rw [Nat.ofDigitChars_cons]
      calc Nat.ofDigitChars 10 cs (10 * n + (c.toNat - '0'.toNat))
          < (10 * n + (c.toNat - '0'.toNat) + 1) * 10 ^ cs.length :=
            ih (fun d hd => h d (List.mem_cons_of_mem c hd)) _
        _ ≤ (n + 1) * 10 * 10 ^ cs.length := by
            refine Nat.mul_le_mul_right _ ?_
            omega
        _ = (n + 1) * 10 ^ (c :: cs).length := by
            rw [List.length_cons, Nat.pow_succ]
            ring

/-! ## Scaling -/

theorem isSome_scale?_of_neg (f : Binary64) {e : Int} (h : e < 0) :
    (scale? f e).isSome = true := by
  fun_induction scale? f e with
  | case1 => omega
  | case2 => omega
  | case3 => rfl
  | case4 => rfl
  | case5 => omega
  | case6 f e _ _ _ ih => exact ih (by omega)

theorem isSome_scale? {n : Nat} {e : Int} (hsmall : e ≤ 308)
    (h : ∀ k : Nat, e = k → HasRoom (max 1 n) k) :
    (scale? (Binary64.ofNat n) e).isSome = true := by
  rcases Int.lt_or_le e 0 with hneg | hnonneg
  · exact isSome_scale?_of_neg _ hneg
  · obtain ⟨k, rfl⟩ := Int.eq_ofNat_of_zero_le hnonneg
    have hfinite := isFinite_ofNat_mul_pow (h k rfl)
    rw [scale?, if_pos (by omega)]
    dsimp only
    rw [if_pos hnonneg, Int.natAbs_natCast, if_pos hfinite]
    rfl

end Json.Number

namespace Decimal

variable {d : Decimal} {rank : Nat}

theorem ten_zpow_leading_le (h : 0 < d.digits) :
    (10 : ℚ) ^ d.leading ≤ d.value := by
  have hlength : 10 ^ (d.digitText.length - 1) ≤ d.digits := by
    by_contra hlt
    have hpos := List.length_pos_iff.2 (Json.Number.digitText_ne_nil d)
    rcases Nat.eq_zero_or_pos (d.digitText.length - 1) with hone | hmany
    · rw [hone, Nat.pow_zero] at hlt
      omega
    · have := (Nat.length_toDigits_le_iff (by decide) hmany).2
        (Nat.lt_of_not_le hlt)
      rw [digitText] at hpos this
      omega
  have hleading : d.leading = (d.digitText.length - 1 : Nat) + d.exponent := by
    have hpos := List.length_pos_iff.2 (Json.Number.digitText_ne_nil d)
    rw [leading]
    omega
  rw [hleading, zpow_add₀ (by norm_num), zpow_natCast, value]
  refine mul_le_mul_of_nonneg_right ?_ (zpow_pos (by norm_num) _).le
  exact_mod_cast hlength

theorem natCast_mul_le {v : ℚ} {m k one limit : Nat}
    (hle : (m * 10 ^ k : ℚ) ≤ v) (hv : 2 * v * one ≤ limit) :
    2 * (m * 10 ^ k) * one ≤ limit := by
  have hcast : ((2 * (m * 10 ^ k) * one : Nat) : ℚ) ≤ limit := by
    push_cast
    refine le_trans (mul_le_mul_of_nonneg_right ?_ (Nat.cast_nonneg one)) hv
    exact mul_le_mul_of_nonneg_left hle (by norm_num)
  exact_mod_cast hcast

theorem Fits.natCast_mul_le (h : d.Fits rank) {m k : Nat}
    (hle : (m * 10 ^ k : ℚ) ≤ d.value) : 2 * (m * 10 ^ k) * oneUnits ≤
      magnitudeUnits rank + magnitudeUnits (rank + 1) :=
  Decimal.natCast_mul_le hle (by rw [Nat.cast_add]; exact h.le)

theorem Fits.value_lt (h : d.Fits rank) (hrank : rank < magnitudeCount)
    {k : Nat} (hk : overflowUnits < 10 ^ k * oneUnits) : d.value < 10 ^ k := by
  by_contra hle
  have hmul := h.natCast_mul_le (m := 1) (k := k)
    (by rw [Nat.cast_one, one_mul]; exact not_lt.1 hle)
  have hlow : magnitudeUnits rank ≤ overflowUnits :=
    magnitudeUnits_strictMono.monotone hrank.le
  have hhigh : magnitudeUnits (rank + 1) ≤ overflowUnits :=
    magnitudeUnits_strictMono.monotone hrank
  rw [Nat.one_mul, Nat.mul_assoc] at hmul
  generalize 10 ^ k * oneUnits = limit at *
  omega

theorem overflowUnits_lt : overflowUnits < 10 ^ 309 * oneUnits := by
  decide +kernel

theorem Fits.leading_le (h : d.Fits rank) (hrank : rank < magnitudeCount) :
    d.leading ≤ 308 := by
  have hlt := (ten_zpow_leading_le (value_pos_iff.1 h.pos)).trans_lt
    (h.value_lt hrank overflowUnits_lt)
  have := (zpow_lt_zpow_iff_right₀ (by norm_num : (1 : ℚ) < 10)).1
    (show (10 : ℚ) ^ d.leading < 10 ^ (309 : Int) by rwa [zpow_ofNat])
  omega

/-- Leading digits alone are worth less, and so is the place of the first. -/
theorem max_mul_pow_le_value (h : 0 < d.digits) {m k rest : Nat}
    (hle : m * 10 ^ rest ≤ d.digits) (hk : (k : Int) = d.exponent + rest)
    (hleading : (k : Int) ≤ d.leading) :
    ((max 1 m : Nat) * 10 ^ k : ℚ) ≤ d.value := by
  rcases Nat.eq_zero_or_pos m with rfl | hm
  · refine le_trans ?_ (ten_zpow_leading_le h)
    rw [Nat.max_eq_left (Nat.zero_le 1), Nat.cast_one, one_mul,
      ← zpow_natCast]
    exact zpow_le_zpow_right₀ (by norm_num) hleading
  · have hcast : (m * 10 ^ rest : ℚ) ≤ d.digits := by exact_mod_cast hle
    rw [Nat.max_eq_right hm, ← zpow_natCast, hk, zpow_add₀ (by norm_num),
      zpow_natCast, mul_comm ((10 : ℚ) ^ d.exponent), ← mul_assoc, value]
    exact mul_le_mul_of_nonneg_right hcast (zpow_pos (by norm_num) _).le

/-- There is room above all but the three largest magnitudes. -/
theorem Fits.hasRoom (h : d.Fits rank) (hrank : rank + 4 ≤ magnitudeCount)
    {m k : Nat} (hle : (m * 10 ^ k : ℚ) ≤ d.value) : HasRoom m k := by
  have hmul := h.natCast_mul_le hle
  have hlow : magnitudeUnits rank ≤ (2 ^ 53 - 4) * topStep := by
    rw [← magnitudeUnits_count_sub (by decide)]
    exact magnitudeUnits_strictMono.monotone (by omega)
  have hhigh : magnitudeUnits (rank + 1) ≤ (2 ^ 53 - 3) * topStep := by
    rw [← magnitudeUnits_count_sub (by decide)]
    exact magnitudeUnits_strictMono.monotone (by omega)
  rw [HasRoom, greatestUnits_eq]
  rw [Nat.mul_assoc] at hmul
  generalize m * 10 ^ k * oneUnits = units at *
  generalize topStep = step at *
  omega

end Decimal

namespace Json.Number

variable {d : Decimal} {rank : Nat} {s : Bool}

theorem hasRoom_of_lt {n : Nat} (h : n < 2 ^ 64) : HasRoom (max 1 n) 0 := by
  have hstep : 2 ^ 64 * oneUnits ≤ topStep := by decide +kernel
  have hunits : max 1 n * oneUnits ≤ 2 ^ 64 * oneUnits :=
    Nat.mul_le_mul_right _ (by omega)
  rw [HasRoom, greatestUnits_eq, Nat.pow_zero, Nat.mul_one]
  have hle := hunits.trans hstep
  generalize max 1 n * oneUnits = units at *
  generalize topStep = step at *
  omega

/-- Digits with a point among them, 64 bits of them in front of it. -/
theorem isSome_magnitude?_of_plain {n : Number} (h : n.exponent = none)
    (hwhole : Nat.ofDigitChars 10 n.whole 0 < 2 ^ 64) :
    n.magnitude?.isSome = true := by
  obtain ⟨hlt, -, -⟩ := ofDigitChars_absorb hwhole n.fraction
  unfold magnitude?
  rw [absorb_of_lt hwhole, h]
  dsimp only
  refine isSome_scale? (by simp only [List.length_nil]; omega)
    fun k hk => ?_
  obtain rfl : k = 0 := by
    simp only [List.length_nil] at hk
    omega
  exact hasRoom_of_lt hlt

/-- The digits of a decimal are taken in up to 64 bits, and what is left over
only lowers the value. -/
theorem absorb_digitText (d : Decimal) : ∃ lead m unread,
    absorb 0 (d.digitText.take 1) = (lead, []) ∧
      absorb lead (d.digitText.drop 1) = (m, unread) ∧
      unread.length ≤ (d.digitText.drop 1).length ∧
      m * 10 ^ unread.length ≤ d.digits := by
  have hlead : Nat.ofDigitChars 10 (d.digitText.take 1) 0 < 2 ^ 64 := by
    have hdigits : ∀ c ∈ d.digitText.take 1, c.isDigit = true :=
      fun c hc => isDigit_digitText d c (List.mem_of_mem_take hc)
    have hlt := ofDigitChars_lt hdigits 0
    have hpow : 10 ^ (d.digitText.take 1).length ≤ 10 ^ 1 :=
      Nat.pow_le_pow_right (by decide) (List.length_take_le _ _)
    omega
  obtain ⟨-, hlength, heq⟩ := ofDigitChars_absorb hlead (d.digitText.drop 1)
  refine ⟨_, _, _, absorb_of_lt hlead, rfl, hlength, ?_⟩
  refine (mul_pow_le_ofDigitChars _ _).trans_eq ?_
  rw [heq, ← Nat.ofDigitChars_append, List.take_append_drop]
  exact natOfDigits_toDigits d.digits

theorem signed_natAbs_self (n : Int) : signed (n < 0) n.natAbs = n := by
  by_cases h : n < 0
  · simp only [signed, h, decide_true, if_true]
    omega
  · simp only [signed, h, decide_false, Bool.false_eq_true, if_false]
    omega

theorem isSome_magnitude?_ofDecimal (h : d.Fits rank)
    (hrank : rank + 4 ≤ magnitudeCount) :
    (ofDecimal s d).magnitude?.isSome = true := by
  have hdigits := Decimal.value_pos_iff.1 h.pos
  unfold ofDecimal
  split
  · next hleading =>
      rw [Bool.and_eq_true, decide_eq_true_iff, decide_eq_true_iff] at hleading
      obtain ⟨-, hwhole, -, -, hlength⟩ := placed_positional (d := d)
        fun hzero => absurd hzero hdigits.ne'
      refine isSome_magnitude?_of_plain rfl ?_
      have hlt := ofDigitChars_lt hwhole 0
      have hpow : 10 ^ d.positional.1.length ≤ 10 ^ 16 :=
        Nat.pow_le_pow_right (by decide) (by omega)
      dsimp only
      omega
  · obtain ⟨lead, m, unread, hlead, hrest, hlength, hle⟩ := absorb_digitText d
    have hleading := h.leading_le (by omega)
    have hpos := List.length_pos_iff.2 (digitText_ne_nil d)
    unfold magnitude?
    dsimp only
    rw [hlead, hrest, natOfDigits_toDigits, signed_natAbs_self]
    dsimp only
    rw [List.length_drop] at hlength ⊢
    rw [List.length_nil]
    split
    · refine isSome_scale? (by omega) fun k hk => h.hasRoom hrank ?_
      refine Decimal.max_mul_pow_le_value hdigits hle ?_ ?_
      · rw [← hk, Decimal.leading]
        omega
      · omega
    · next hlarge =>
        rw [if_pos]
        · rfl
        · rw [Bool.or_eq_true]
          exact .inr (decide_eq_true (by omega))

/-- The largest three magnitudes, where the estimate leaves no room. -/
theorem isSome_magnitude?_greatest (s : Bool) : ∀ i < 3,
    (ofDecimal s (shortestOf .toEven
      (magnitudeCount - 1 - i))).magnitude?.isSome = true := by
  cases s <;> decide +kernel

theorem isSome_magnitude?_shortestOf (s : Bool) (h : rank < magnitudeCount) :
    (ofDecimal s (shortestOf .toEven rank)).magnitude?.isSome = true := by
  rcases Nat.eq_zero_or_pos rank with rfl | hpos
  · cases s <;> decide +kernel
  rcases Nat.lt_or_ge magnitudeCount (rank + 4) with htop | hbelow
  · have := isSome_magnitude?_greatest s (magnitudeCount - 1 - rank)
      (by omega)
    rwa [show magnitudeCount - 1 - (magnitudeCount - 1 - rank) = rank by omega]
      at this
  · rw [shortestOf, if_neg (by omega)]
    exact isSome_magnitude?_ofDecimal (Decimal.fits_shortest hpos) hbelow

theorem isSome_toFloat?_of_plain {n : Number} (h : n.exponent = none)
    (hwhole : Nat.ofDigitChars 10 n.whole 0 < 2 ^ 64) :
    n.toFloat?.isSome = true := by
  rw [toFloat?, Option.isSome_map]
  exact isSome_magnitude?_of_plain h hwhole

end Json.Number

namespace Json

theorem isSome_toFloat?_nat {n : Nat} (h : n < 2 ^ 64) :
    (Number.ofNat n).toFloat?.isSome = true :=
  Number.isSome_toFloat?_of_plain rfl ((natOfDigits_toDigits n).trans_lt h)

/-- A float that is finite is written as a number, and some float is read. -/
theorem float_of_isFinite {x : Binary64} (h : x.isFinite = true) :
    ∃ n, float x = .number n ∧ n.WellSpelled ∧ n.toFloat?.isSome = true := by
  cases x with
  | nan | infinite => cases h
  | finite s rank =>
      refine ⟨_, rfl, Number.wellSpelled_ofDecimal
        (Number.singleZero_shortestOf .toEven rank), ?_⟩
      rw [Number.toFloat?, Option.isSome_map]
      exact Number.isSome_magnitude?_shortestOf s rank.isLt

theorem float_of_not_isFinite {x : Binary64} (h : x.isFinite = false) :
    float x = .null := by
  cases x with
  | nan | infinite => rfl
  | finite => cases h

/-- A float reads back exactly if it is finite, though perhaps not as itself.
Any other is written as a null, which is no float. -/
theorem isSome_toFloat?_float (x : Binary64) :
    (toFloat? (float x)).isSome = x.isFinite := by
  cases h : x.isFinite with
  | true =>
      obtain ⟨n, hn, -, hsome⟩ := float_of_isFinite h
      rw [hn]
      exact hsome
  | false =>
      rw [float_of_not_isFinite h]
      rfl

end Json

end BoxCert
