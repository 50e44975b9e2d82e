import BoxCert.Number.Words

/-!
# Fields of a binary message

A message in the protocol buffer format is a run of fields, without a length
or an end mark of its own. A field starts with a key, which packs a tag and a
wire type into one number; the wire type tells how far the payload reaches,
so a field can be passed over by a reader that has never heard of its tag.

Numbers are written to base 128, in at most ten bytes, and have 64 bits. A
group is a payload that is itself a run of fields, up to a key that closes
it. Groups are passed over, never kept, and may be nested only so deep.

Every reader here gives back what it read with the bytes that follow, and the
lemma beside it says that those are fewer.
-/

namespace BoxCert.Protobuf

/-- How the payload of a field is written. -/
inductive WireType where
  | varint
  | fixed64
  | delimited
  | groupStart
  | groupEnd
  | fixed32
deriving DecidableEq, Repr

def WireType.ofCode? : Nat → Option WireType
  | 0 => some varint
  | 1 => some fixed64
  | 2 => some delimited
  | 3 => some groupStart
  | 4 => some groupEnd
  | 5 => some fixed32
  | _ => none

/-- What starts a field. -/
structure Key where
  /-- The tag, which is at least one. -/
  tag : Nat
  wire : WireType
deriving DecidableEq, Repr

/-- What a field holds. -/
inductive Payload where
  | varint (value : Nat)
  | fixed64 (bits : UInt64)
  | delimited (bytes : List UInt8)
  | fixed32 (bits : UInt32)
  | group
deriving DecidableEq, Repr

structure Field where
  tag : Nat
  payload : Payload
deriving DecidableEq, Repr

/-! ### Numbers and stretches of bytes -/

/-- Reads a number to base 128 of at most `room` bytes, least digit first.
All bytes but the last have their top bit set, and the last byte for which
there is room holds a single bit. -/
def varintWithin? : Nat → List UInt8 → Option (Nat × List UInt8)
  | 0, _ => none
  | _, [] => none
  | room + 1, b :: rest =>
      if b.toNat < 128 then
        if room = 0 ∧ 2 ≤ b.toNat then none else some (b.toNat, rest)
      else
        match varintWithin? room rest with
        | none => none
        | some (n, rest) => some (b.toNat - 128 + 128 * n, rest)

/-- Reads a number of up to 64 bits. -/
def varint? (bytes : List UInt8) : Option (Nat × List UInt8) :=
  varintWithin? 10 bytes

theorem length_lt_of_varintWithin? {room n : Nat} {bytes rest : List UInt8}
    (h : varintWithin? room bytes = some (n, rest)) :
    rest.length < bytes.length := by
  fun_induction varintWithin? room bytes generalizing n rest with
  | case1 | case2 | case3 => simp at h
  | case4 =>
      simp only [Option.some.injEq, Prod.mk.injEq] at h
      rw [← h.2, List.length_cons]
      exact Nat.lt_succ_self _
  | case5 => simp at h
  | case6 room b tail _ k tail' hk ih =>
      simp only [Option.some.injEq, Prod.mk.injEq] at h
      have := ih hk
      rw [List.length_cons, ← h.2]
      omega

theorem length_lt_of_varint? {n : Nat} {bytes rest : List UInt8}
    (h : varint? bytes = some (n, rest)) : rest.length < bytes.length :=
  length_lt_of_varintWithin? h

/-- Splits off the first `n` bytes, if there are as many. -/
def stretch? (n : Nat) (bytes : List UInt8) :
    Option (List UInt8 × List UInt8) :=
  if n ≤ bytes.length then some (bytes.take n, bytes.drop n) else none

theorem length_le_of_stretch? {n : Nat} {bytes front rest : List UInt8}
    (h : stretch? n bytes = some (front, rest)) :
    rest.length ≤ bytes.length := by
  unfold stretch? at h
  split at h
  · simp only [Option.some.injEq, Prod.mk.injEq] at h
    rw [← h.2, List.length_drop]
    omega
  · simp at h

/-! ### Keys and payloads -/

def key? (bytes : List UInt8) : Option (Key × List UInt8) :=
  match varint? bytes with
  | none => none
  | some (n, rest) =>
      if n < 2 ^ 32 ∧ 1 ≤ n / 8 then
        (WireType.ofCode? (n % 8)).map fun wire => (⟨n / 8, wire⟩, rest)
      else none

theorem length_lt_of_key? {key : Key} {bytes rest : List UInt8}
    (h : key? bytes = some (key, rest)) : rest.length < bytes.length := by
  unfold key? at h
  split at h
  · simp at h
  · rename_i hn
    split at h
    · obtain ⟨wire, _, hw⟩ := Option.map_eq_some_iff.1 h
      simp only [Prod.mk.injEq] at hw
      exact hw.2 ▸ length_lt_of_varint? hn
    · simp at h

/-- Reads a payload that is no group. -/
def plain? (wire : WireType) (bytes : List UInt8) :
    Option (Payload × List UInt8) :=
  match wire with
  | .varint => (varint? bytes).map fun (n, rest) => (.varint n, rest)
  | .fixed64 =>
      (stretch? 8 bytes).map fun (word, rest) =>
        (.fixed64 (UInt64.ofNat (littleEndian word)), rest)
  | .delimited =>
      match varint? bytes with
      | none => none
      | some (n, rest) =>
          (stretch? n rest).map fun (front, rest) => (.delimited front, rest)
  | .fixed32 =>
      (stretch? 4 bytes).map fun (word, rest) =>
        (.fixed32 (UInt32.ofNat (littleEndian word)), rest)
  | .groupStart | .groupEnd => none

theorem length_le_of_plain? {wire : WireType} {payload : Payload}
    {bytes rest : List UInt8} (h : plain? wire bytes = some (payload, rest)) :
    rest.length ≤ bytes.length := by
  unfold plain? at h
  split at h
  · obtain ⟨⟨n, r⟩, hn, hr⟩ := Option.map_eq_some_iff.1 h
    simp only [Prod.mk.injEq] at hr
    exact hr.2 ▸ Nat.le_of_lt (length_lt_of_varint? hn)
  · obtain ⟨⟨w, r⟩, hw, hr⟩ := Option.map_eq_some_iff.1 h
    simp only [Prod.mk.injEq] at hr
    exact hr.2 ▸ length_le_of_stretch? hw
  · split at h
    · simp at h
    · rename_i hn
      obtain ⟨⟨w, r⟩, hw, hr⟩ := Option.map_eq_some_iff.1 h
      simp only [Prod.mk.injEq] at hr
      have := length_lt_of_varint? hn
      have := length_le_of_stretch? hw
      rw [← hr.2]
      omega
  · obtain ⟨⟨w, r⟩, hw, hr⟩ := Option.map_eq_some_iff.1 h
    simp only [Prod.mk.injEq] at hr
    exact hr.2 ▸ length_le_of_stretch? hw
  all_goals simp at h

/-- Passes over the rest of the groups that are open, the innermost first.
The fields of a group may be read as long as fewer than `budget` groups are
open around them. -/
def closeGroups? (budget : Nat) (opened : List Nat) (bytes : List UInt8) :
    Option (List UInt8) :=
  match opened with
  | [] => some bytes
  | tag :: outer =>
      match hKey : key? bytes with
      | none => none
      | some (key, rest) =>
          have := length_lt_of_key? hKey
          match key.wire with
          | .groupEnd =>
              if key.tag = tag then closeGroups? budget outer rest else none
          | .groupStart =>
              if opened.length < budget then
                closeGroups? budget (key.tag :: opened) rest
              else none
          | wire =>
              match hPlain : plain? wire rest with
              | none => none
              | some (_, rest) =>
                  have := length_le_of_plain? hPlain
                  if opened.length < budget then
                    closeGroups? budget opened rest
                  else none
-- Every key takes a byte at least, whatever becomes of the groups.
termination_by bytes.length

theorem length_le_of_closeGroups? {budget : Nat} {opened : List Nat}
    {bytes rest : List UInt8}
    (h : closeGroups? budget opened bytes = some rest) :
    rest.length ≤ bytes.length := by
  fun_induction closeGroups? budget opened bytes generalizing rest with
  | case1 => simp_all
  | case2 | case4 | case7 => simp at h
  | case3 | case5 | case6 | case8 | case9 => grind

/-! ### Fields -/

def field? (budget : Nat) (bytes : List UInt8) : Option (Field × List UInt8) :=
  match key? bytes with
  | none => none
  | some (key, rest) =>
      if key.wire = .groupStart then
        (closeGroups? budget [key.tag] rest).map fun rest =>
          (⟨key.tag, .group⟩, rest)
      else
        (plain? key.wire rest).map fun (payload, rest) =>
          (⟨key.tag, payload⟩, rest)

theorem length_lt_of_field? {budget : Nat} {field : Field}
    {bytes rest : List UInt8} (h : field? budget bytes = some (field, rest)) :
    rest.length < bytes.length := by
  unfold field? at h
  split at h
  · simp at h
  · rename_i hKey
    have := length_lt_of_key? hKey
    split at h
    · obtain ⟨r, hr, he⟩ := Option.map_eq_some_iff.1 h
      simp only [Prod.mk.injEq] at he
      have := length_le_of_closeGroups? hr
      rw [← he.2]
      omega
    · obtain ⟨⟨p, r⟩, hr, he⟩ := Option.map_eq_some_iff.1 h
      simp only [Prod.mk.injEq] at he
      have := length_le_of_plain? hr
      rw [← he.2]
      omega

def fields? (budget : Nat) (bytes : List UInt8) : Option (List Field) :=
  if bytes = [] then some []
  else
    match h : field? budget bytes with
    | none => none
    | some (field, rest) =>
        have := length_lt_of_field? h
        (fields? budget rest).map (field :: ·)
termination_by bytes.length

end BoxCert.Protobuf
