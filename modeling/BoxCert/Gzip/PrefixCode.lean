import BoxCert.Gzip.Bits
import BoxCert.Number.Power

/-!
# Prefix codes

A prefix code gives each of its symbols a string of bits, no string being the
start of another, so it is a binary tree with symbols at its leaves. Such a
tree is written down by the lengths of the strings alone: shorter strings
stand to the left of longer ones, and strings of one length in the order of
their symbols.

The lengths have to use up the tree exactly. Where a code may stay nearly
unused it may also have no symbol, or a single one whose string is one bit,
and then leaves gaps.
-/

namespace BoxCert.Gzip

/-- A prefix code as a tree. -/
inductive CodeTree where
  /-- A string that no symbol has. -/
  | gap
  | leaf (symbol : Nat)
  /-- The strings that go on with a zero, and those that go on with a one. -/
  | fork (zero one : CodeTree)
deriving DecidableEq, Repr

namespace CodeTree

/-- The longest string of a symbol. -/
abbrev depthLimit : Nat := 15

/-- The part of the tree below some string of length `depthLimit - room`, and
the symbols that are left for the parts to its right. The symbols stand in the
order of their strings, each with the length of its string. -/
def grow : (room : Nat) → List (Nat × Nat) → CodeTree × List (Nat × Nat)
  | _, [] => (gap, [])
  | 0, (symbol, _) :: rest => (leaf symbol, rest)
  | room + 1, (symbol, length) :: rest =>
      if length + (room + 1) ≤ depthLimit then (leaf symbol, rest)
      else
        let (zero, rest) := grow room ((symbol, length) :: rest)
        let (one, rest) := grow room rest
        (fork zero one, rest)

def symbolsOfLength (lengths : List Nat) (length : Nat) : List (Nat × Nat) :=
  lengths.zipIdx.filterMap fun (l, symbol) =>
    if l = length then some (symbol, length) else none

/-- The symbols that have a string, in the order of their strings. -/
def symbolsInOrder (lengths : List Nat) : List (Nat × Nat) :=
  (List.range depthLimit).flatMap fun l => symbolsOfLength lengths (l + 1)

/-- How many strings of the greatest length start with a symbol's string. -/
def share (length : Nat) : Nat :=
  if length = 0 then 0 else 2 ^ (depthLimit - length)

/-- Whether there is no symbol, or only one and its string is a single bit.
Symbols stand with the lengths of their strings. -/
def isNearlyUnused : List (Nat × Nat) → Bool
  | [] => true
  | [(_, length)] => length == 1
  | _ => false

/-- The code in which symbol `s` has a string of length `lengths[s]`, or none
where the length is zero. Where `sparse` holds it may be nearly unused. -/
def ofLengths? (sparse : Bool) (lengths : List Nat) : Option CodeTree :=
  let symbols := symbolsInOrder lengths
  if lengths.foldl (fun taken l => taken + share l) 0 = 2 ^ depthLimit ∨
      (sparse = true ∧ isNearlyUnused symbols = true) then
    some (grow depthLimit symbols).1
  else none

/-- Reads a string below a point of the tree. -/
def descend : CodeTree → BitReader Nat
  | gap => failure
  | leaf symbol => pure symbol
  | fork zero one => do if ← BitReader.bit then one.descend else zero.descend

theorem shrinks_descend (t : CodeTree) : t.descend.Shrinks := by
  induction t with
  | gap => exact BitReader.shrinks_failure
  | leaf s => exact BitReader.shrinks_pure s
  | fork zero one ihZero ihOne =>
      refine BitReader.Shrinks.bind BitReader.shrinks_bit fun b => ?_
      cases b with
      | false => exact ihZero
      | true => exact ihOne

/-- Reads the string of a symbol, which is not empty. -/
def symbol (t : CodeTree) : BitReader Nat := do
  let b ← BitReader.bit
  match t with
  | fork zero one => if b then one.descend else zero.descend
  | _ => failure

theorem length_lt_of_symbol {t : CodeTree} {s : Nat} {bits rest : List Bool}
    (h : t.symbol bits = some (s, rest)) : rest.length < bits.length := by
  obtain ⟨b, mid, hb, h⟩ := BitReader.bind_eq_some h
  refine Nat.lt_of_le_of_lt ?_ (BitReader.length_lt_of_bit hb)
  cases t with
  | gap | leaf => exact BitReader.shrinks_failure _ _ _ h
  | fork zero one =>
      cases b with
      | false => exact shrinks_descend zero _ _ _ h
      | true => exact shrinks_descend one _ _ _ h

theorem shrinks_symbol (t : CodeTree) : t.symbol.Shrinks :=
  fun _ _ _ h => Nat.le_of_lt (length_lt_of_symbol h)

end CodeTree

end BoxCert.Gzip
