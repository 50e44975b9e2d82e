import BoxCert.Gzip.PrefixCode
import BoxCert.Number.Words

/-!
# Inflating

A deflated stream is a run of blocks, the last of which is marked. A block
holds its bytes as they are, or as tokens written in a pair of prefix codes,
which are either fixed or stand at the start of the block. A token is a byte,
or an order to copy a stretch of what has come out so far, which may run into
the bytes that it copies itself.

A copy may start before the first byte; what lies there counts as zero.
-/

namespace BoxCert.Gzip

open BitReader (number numbers align ofOption)

/-- What a compressed block is made of. -/
inductive Token where
  | literal (byte : UInt8)
  /-- A stretch of `length` bytes that starts `distance` bytes back. -/
  | copy (length distance : Nat)
  | finish
deriving DecidableEq, Repr

/-- The codes of a block. -/
structure Codes where
  literals : CodeTree
  distances : CodeTree
deriving DecidableEq, Repr

/-! ### Tokens -/

/-- The symbol that ends a block. -/
abbrev finishSymbol : Nat := 256

/-- Reads the rest of a length whose symbol is `finishSymbol + 1 + code`. Eight
codes stand for one length each. From then on there are four codes of each
width, until the last one, which is the greatest length alone. -/
def copyLength (code : Nat) : BitReader Nat :=
  if code < 8 then pure (code + 3)
  else if code < 28 then do
    let width := code / 4 - 1
    return (4 + code % 4) * 2 ^ width + 3 + (← number width)
  else if code = 28 then pure 258
  else failure

/-- Reads the rest of a distance. Four codes stand for one distance each, and
from then on there are two of each width. -/
def copyDistance (code : Nat) : BitReader Nat :=
  if code < 4 then pure (code + 1)
  else if code < 30 then do
    let width := code / 2 - 1
    return (2 + code % 2) * 2 ^ width + 1 + (← number width)
  else failure

def tokenOfSymbol (codes : Codes) (symbol : Nat) : BitReader Token :=
  if symbol < finishSymbol then pure (.literal (UInt8.ofNat symbol))
  else if symbol = finishSymbol then pure .finish
  else do
    let length ← copyLength (symbol - (finishSymbol + 1))
    let distance ← copyDistance (← codes.distances.symbol)
    return .copy length distance

def token (codes : Codes) : BitReader Token := do
  tokenOfSymbol codes (← codes.literals.symbol)

section Shrinks

open BitReader (Shrinks shrinks_pure shrinks_failure shrinks_number)

theorem shrinks_copyLength (code : Nat) : (copyLength code).Shrinks := by
  unfold copyLength
  split
  · exact shrinks_pure _
  · split
    · exact Shrinks.bind (shrinks_number _) fun _ => shrinks_pure _
    · split
      · exact shrinks_pure _
      · exact shrinks_failure

theorem shrinks_copyDistance (code : Nat) : (copyDistance code).Shrinks := by
  unfold copyDistance
  split
  · exact shrinks_pure _
  · split
    · exact Shrinks.bind (shrinks_number _) fun _ => shrinks_pure _
    · exact shrinks_failure

theorem shrinks_tokenOfSymbol (codes : Codes) (symbol : Nat) :
    (tokenOfSymbol codes symbol).Shrinks := by
  unfold tokenOfSymbol
  split
  · exact shrinks_pure _
  · split
    · exact shrinks_pure _
    · exact Shrinks.bind (shrinks_copyLength _) fun _ =>
        Shrinks.bind (CodeTree.shrinks_symbol _) fun _ =>
          Shrinks.bind (shrinks_copyDistance _) fun _ => shrinks_pure _

theorem length_lt_of_token {codes : Codes} {t : Token}
    {bits rest : List Bool} (h : token codes bits = some (t, rest)) :
    rest.length < bits.length := by
  obtain ⟨symbol, mid, hs, ht⟩ := BitReader.bind_eq_some h
  exact Nat.lt_of_le_of_lt (shrinks_tokenOfSymbol codes symbol _ _ _ ht)
    (CodeTree.length_lt_of_symbol hs)

end Shrinks

/-! ### Expanding tokens -/

def byteBack (out : Array UInt8) (distance : Nat) : UInt8 :=
  if distance ≤ out.size then out.getD (out.size - distance) 0 else 0

/-- Appends a copy, byte by byte. -/
def copied (out : Array UInt8) (distance : Nat) : Nat → Array UInt8
  | 0 => out
  | length + 1 => copied (out.push (byteBack out distance)) distance length

/-- Appends what the tokens of a block stand for. -/
def expand (codes : Codes) (out : Array UInt8) (bits : List Bool) :
    Option (Array UInt8 × List Bool) :=
  match h : token codes bits with
  | none => none
  | some (t, rest) =>
      have := length_lt_of_token h
      match t with
      | .literal b => expand codes (out.push b) rest
      | .copy length distance => expand codes (copied out distance length) rest
      | .finish => some (out, rest)
termination_by bits.length

theorem shrinks_expand (codes : Codes) (out : Array UInt8) :
    BitReader.Shrinks (expand codes out) := by
  intro bits rest result h
  fun_induction expand codes out bits with
  | case1 => simp at h
  | case2 out bits mid b _ _ shorter ih =>
      exact Nat.le_trans (ih h) (Nat.le_of_lt shorter)
  | case3 out bits mid l d _ _ shorter ih =>
      exact Nat.le_trans (ih h) (Nat.le_of_lt shorter)
  | case4 out bits mid =>
      simp only [Option.some.injEq, Prod.mk.injEq] at h
      rw [← h.2]
      omega

/-! ### Codes -/

def fixedCodes? : Option Codes := do
  let literals ← CodeTree.ofLengths? true <|
    List.replicate 144 8 ++ List.replicate 112 9 ++ List.replicate 24 7 ++
      List.replicate 8 8
  let distances ← CodeTree.ofLengths? true (List.replicate 32 5)
  return ⟨literals, distances⟩

/-- The order in which the lengths of the code of lengths are written. -/
def lengthOrder : List Nat :=
  [16, 17, 18, 0, 8, 7, 9, 6, 10, 5, 11, 4, 12, 3, 13, 2, 14, 1, 15]

/-- The lengths by symbol, where the first of them are given in the order in
which they are written. -/
def lengthsBySymbol (written : List Nat) : List Nat :=
  (List.range lengthOrder.length).map fun symbol =>
    written.getD (lengthOrder.idxOf symbol) 0

/-- Reads the rest of a run of equal lengths: how many more than one there
are, and the length. A run may repeat the length before it. -/
def lengthRun (symbol : Nat) (before : Option Nat) : BitReader (Nat × Nat) :=
  if symbol < 16 then pure (0, symbol)
  else if symbol = 16 then do
    match before with
    | none => failure
    | some length => return (2 + (← number 2), length)
  else if symbol = 17 then do return (2 + (← number 3), 0)
  else do return (10 + (← number 7), 0)

/-- Reads the lengths of a code until none are missing. The lengths known so
far are given from the last one backwards. -/
def codeLengths (code : CodeTree) (missing : Nat) (known : List Nat) :
    BitReader (List Nat) :=
  match missing with
  | 0 => pure known.reverse
  | missing + 1 => do
      let (more, length) ← lengthRun (← code.symbol) known.head?
      if more ≤ missing then
        codeLengths code (missing - more)
          (List.replicate (more + 1) length ++ known)
      else failure
termination_by missing
decreasing_by exact Nat.lt_succ_of_le (Nat.sub_le _ _)

/-- The code in which the lengths of a block's codes are written. There are
limits on how many symbols those have. -/
def codeOfLengths? (literals distances : Nat) (written : List Nat) :
    Option CodeTree :=
  if 286 < literals ∨ 30 < distances then none
  else CodeTree.ofLengths? false (lengthsBySymbol written)

/-- The codes with the given lengths, of which the first `literals` belong to
the code of bytes. -/
def codesOfLengths? (literals : Nat) (lengths : List Nat) : Option Codes := do
  return ⟨← CodeTree.ofLengths? true (lengths.take literals),
    ← CodeTree.ofLengths? true (lengths.drop literals)⟩

def writtenCodes : BitReader Codes := do
  let literals := 257 + (← number 5)
  let distances := 1 + (← number 5)
  let written ← numbers 3 (4 + (← number 4))
  let code ← ofOption (codeOfLengths? literals distances written)
  let lengths ← codeLengths code (literals + distances) []
  ofOption (codesOfLengths? literals lengths)

/-! ### Blocks -/

/-- The length that is written twice, the second time with all bits
flipped. -/
def plainLength? (length flipped : Nat) : Option Nat :=
  if length + flipped = 2 ^ 16 - 1 then some length else none

/-- Appends the bytes of a block that is not compressed. -/
def plainBlock (out : Array UInt8) : BitReader (Array UInt8) := do
  align
  let length ← number 16
  let length ← ofOption (plainLength? length (← number 16))
  let bytes ← numbers 8 length
  return out ++ bytes.map UInt8.ofNat

def blockOfKind (kind : Nat) (out : Array UInt8) : BitReader (Array UInt8) :=
  match kind with
  | 0 => plainBlock out
  | 1 => do expand (← ofOption fixedCodes?) out
  | 2 => do expand (← writtenCodes) out
  | _ => failure

/-- Appends the bytes of a block, and tells whether it is the last one. -/
def block (out : Array UInt8) : BitReader (Bool × Array UInt8) := do
  let final ← BitReader.bit
  let kind ← number 2
  let out ← blockOfKind kind out
  return (final, out)

section Shrinks

open BitReader (Shrinks shrinks_pure shrinks_failure shrinks_number
  shrinks_numbers shrinks_align shrinks_ofOption)

theorem shrinks_lengthRun (symbol : Nat) (before : Option Nat) :
    (lengthRun symbol before).Shrinks := by
  unfold lengthRun
  split
  · exact shrinks_pure _
  · split
    · split
      · exact shrinks_failure
      · exact Shrinks.bind (shrinks_number _) fun _ => shrinks_pure _
    · split <;> exact Shrinks.bind (shrinks_number _) fun _ => shrinks_pure _

theorem shrinks_codeLengths (code : CodeTree) (missing : Nat)
    (known : List Nat) : (codeLengths code missing known).Shrinks := by
  induction missing using Nat.strongRecOn generalizing known with
  | ind missing ih =>
      unfold codeLengths
      split
      · exact shrinks_pure _
      · refine Shrinks.bind (CodeTree.shrinks_symbol _) fun symbol => ?_
        refine Shrinks.bind (shrinks_lengthRun _ _) fun (more, length) => ?_
        dsimp only
        split
        · exact ih _ (by omega) _
        · exact shrinks_failure

theorem shrinks_writtenCodes : writtenCodes.Shrinks := by
  refine Shrinks.bind (shrinks_number 5) fun _ => ?_
  refine Shrinks.bind (shrinks_number 5) fun _ => ?_
  refine Shrinks.bind (shrinks_number 4) fun _ => ?_
  refine Shrinks.bind (shrinks_numbers _ _) fun _ => ?_
  refine Shrinks.bind (shrinks_ofOption _) fun _ => ?_
  exact Shrinks.bind (shrinks_codeLengths _ _ _) fun _ => shrinks_ofOption _

theorem shrinks_plainBlock (out : Array UInt8) : (plainBlock out).Shrinks := by
  refine Shrinks.bind shrinks_align fun _ => ?_
  refine Shrinks.bind (shrinks_number 16) fun _ => ?_
  refine Shrinks.bind (shrinks_number 16) fun _ => ?_
  refine Shrinks.bind (shrinks_ofOption _) fun _ => ?_
  exact Shrinks.bind (shrinks_numbers _ _) fun _ => shrinks_pure _

theorem shrinks_blockOfKind (kind : Nat) (out : Array UInt8) :
    (blockOfKind kind out).Shrinks := by
  unfold blockOfKind
  split
  · exact shrinks_plainBlock out
  · exact Shrinks.bind (shrinks_ofOption _) fun _ => shrinks_expand _ _
  · exact Shrinks.bind shrinks_writtenCodes fun _ => shrinks_expand _ _
  · exact shrinks_failure

theorem length_lt_of_block {out : Array UInt8} {result : Bool × Array UInt8}
    {bits rest : List Bool} (h : block out bits = some (result, rest)) :
    rest.length < bits.length := by
  obtain ⟨final, mid, hFinal, h⟩ := BitReader.bind_eq_some h
  have hRest : (number 2 >>= fun kind => blockOfKind kind out >>=
      fun out => pure (final, out)).Shrinks :=
    Shrinks.bind (shrinks_number 2) fun kind =>
      Shrinks.bind (shrinks_blockOfKind kind out) fun _ => shrinks_pure _
  exact Nat.lt_of_le_of_lt (hRest _ _ _ h) (BitReader.length_lt_of_bit hFinal)

end Shrinks

/-- Appends the bytes of all blocks up to the last one. -/
def inflateOnto (out : Array UInt8) (bits : List Bool) :
    Option (Array UInt8 × List Bool) :=
  match h : block out bits with
  | none => none
  | some ((final, out), rest) =>
      have := length_lt_of_block h
      if final then some (out, rest) else inflateOnto out rest
termination_by bits.length

def inflate : BitReader (Array UInt8) := inflateOnto #[]

end BoxCert.Gzip
