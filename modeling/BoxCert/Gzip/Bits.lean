/-!
# Bit streams

Compressed data is read bit by bit, from the lowest bit of each byte up. A
reader takes what it needs from the front of the stream and leaves the rest.
Readers are combined as actions; a reader *shrinks* the stream if it never
leaves more than it found, and combinations of such readers shrink it too.
-/

namespace BoxCert.Gzip

def bitsOfByte (b : UInt8) : List Bool :=
  (List.range 8).map b.toNat.testBit

def bitsOfBytes (bytes : List UInt8) : List Bool := bytes.flatMap bitsOfByte

/-- Reads something from the front of a bit stream. -/
abbrev BitReader (α : Type) := StateT (List Bool) Option α

namespace BitReader

/-- A reader leaves no more than it found. -/
def Shrinks {α : Type} (r : BitReader α) : Prop :=
  ∀ (bits rest : List Bool) (a : α),
    r bits = some (a, rest) → rest.length ≤ bits.length

theorem pure_apply {α : Type} (a : α) (bits : List Bool) :
    (pure a : BitReader α) bits = some (a, bits) := rfl

theorem failure_apply {α : Type} (bits : List Bool) :
    (failure : BitReader α) bits = none := rfl

theorem bind_apply {α β : Type} (r : BitReader α) (f : α → BitReader β)
    (bits : List Bool) :
    (r >>= f) bits = (r bits).bind fun read => f read.1 read.2 := rfl

theorem bind_eq_some {α β : Type} {r : BitReader α} {f : α → BitReader β}
    {bits rest : List Bool} {b : β} (h : (r >>= f) bits = some (b, rest)) :
    ∃ a mid, r bits = some (a, mid) ∧ f a mid = some (b, rest) := by
  rw [bind_apply, Option.bind_eq_some_iff] at h
  obtain ⟨⟨a, mid⟩, hr, hf⟩ := h
  exact ⟨a, mid, hr, hf⟩

theorem shrinks_pure {α : Type} (a : α) : Shrinks (pure a) := by
  intro bits rest b h
  rw [pure_apply] at h
  cases h
  exact Nat.le_refl _

theorem shrinks_failure {α : Type} : Shrinks (failure : BitReader α) := by
  intro bits rest b h
  rw [failure_apply] at h
  cases h

theorem Shrinks.bind {α β : Type} {r : BitReader α} {f : α → BitReader β}
    (hr : r.Shrinks) (hf : ∀ a, (f a).Shrinks) : (r >>= f).Shrinks := by
  intro bits rest b h
  obtain ⟨a, mid, ha, hb⟩ := bind_eq_some h
  exact Nat.le_trans (hf a _ _ _ hb) (hr _ _ _ ha)

/-- Reads nothing, and goes on only if there is a value. -/
def ofOption {α : Type} (a? : Option α) : BitReader α :=
  fun bits => a?.map fun a => (a, bits)

theorem shrinks_ofOption {α : Type} (a? : Option α) :
    Shrinks (ofOption a?) := by
  intro bits rest b h
  obtain ⟨a, _, ha⟩ := Option.map_eq_some_iff.1 h
  simp only [Prod.mk.injEq] at ha
  exact Nat.le_of_eq (congrArg List.length ha.2.symm)

def bit : BitReader Bool := fun
  | [] => none
  | b :: rest => some (b, rest)

theorem length_lt_of_bit {bits rest : List Bool} {b : Bool}
    (h : bit bits = some (b, rest)) : rest.length < bits.length := by
  cases bits with
  | nil => simp [bit] at h
  | cons c tail =>
      simp only [bit, Option.some.injEq, Prod.mk.injEq] at h
      rw [← h.2, List.length_cons]
      exact Nat.lt_succ_self _

theorem shrinks_bit : Shrinks bit :=
  fun _ _ _ h => Nat.le_of_lt (length_lt_of_bit h)

/-- Reads a number of `n` bits, lowest first. -/
def number : Nat → BitReader Nat
  | 0 => pure 0
  | n + 1 => do
      let low ← bit
      let high ← number n
      return low.toNat + 2 * high

theorem shrinks_number (n : Nat) : Shrinks (number n) := by
  induction n with
  | zero => exact shrinks_pure 0
  | succ n ih =>
      exact Shrinks.bind shrinks_bit fun _ =>
        Shrinks.bind ih fun _ => shrinks_pure _

def numbers (n : Nat) : Nat → BitReader (List Nat)
  | 0 => pure []
  | count + 1 => do
      let first ← number n
      let others ← numbers n count
      return first :: others

theorem shrinks_numbers (n count : Nat) : Shrinks (numbers n count) := by
  induction count with
  | zero => exact shrinks_pure []
  | succ count ih =>
      exact Shrinks.bind (shrinks_number n) fun _ =>
        Shrinks.bind ih fun _ => shrinks_pure _

/-- Moves on to the next byte. The stream ends with a whole byte. -/
def align : BitReader Unit := fun bits => some ((), bits.drop (bits.length % 8))

theorem shrinks_align : Shrinks align := by
  intro bits rest a h
  simp only [align, Option.some.injEq, Prod.mk.injEq] at h
  rw [← h.2, List.length_drop]
  exact Nat.sub_le _ _

end BitReader

end BoxCert.Gzip
