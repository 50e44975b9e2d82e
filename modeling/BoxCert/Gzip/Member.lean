import BoxCert.Gzip.Checksum
import BoxCert.Gzip.Inflate

/-!
# Compressed files

A gzip file starts with a header of ten bytes, which tells by flags what else
the header holds. The deflated stream follows, then the checksum of what it
inflates to, and the length of that. Anything behind is ignored.
-/

namespace BoxCert.Gzip

/-- What a header may hold, by the flag that tells of it. -/
inductive HeaderPart where
  | checksum
  | extra
  | name
  | comment
deriving DecidableEq, Repr

def HeaderPart.flag : HeaderPart → Nat
  | checksum => 1
  | extra => 2
  | name => 3
  | comment => 4

/-- Flags from this value on have no meaning yet. -/
abbrev reservedFlags : Nat := 32

/-- The longest text in a header. -/
abbrev headerTextLimit : Nat := 65535

/-- Passes over a text of at most `room` bytes and the zero that ends it. -/
def skipText? (room : Nat) : List UInt8 → Option (List UInt8)
  | [] => none
  | b :: rest =>
      if b = 0 then some rest
      else
        match room with
        | 0 => none
        | room + 1 => skipText? room rest

/-- Passes over a stretch of bytes whose length stands in front of it. -/
def skipExtra? : List UInt8 → Option (List UInt8)
  | a :: b :: rest =>
      let length := littleEndian [a, b]
      if length ≤ rest.length then some (rest.drop length) else none
  | _ => none

/-- Passes over the checksum of a header, which has to fit. -/
def skipChecksum? (header : List UInt8) : List UInt8 → Option (List UInt8)
  | a :: b :: rest =>
      if littleEndian [a, b] = (checksum header).toNat % 2 ^ 16 then some rest
      else none
  | _ => none

def skipPart? (file : List UInt8) (part : HeaderPart) (rest : List UInt8) :
    Option (List UInt8) :=
  match part with
  | .extra => skipExtra? rest
  | .name | .comment => skipText? headerTextLimit rest
  | .checksum => skipChecksum? (file.take (file.length - rest.length)) rest

def afterHeader? (file : List UInt8) : Option (List UInt8) :=
  match file with
  | 0x1F :: 0x8B :: 8 :: flags :: _ :: _ :: _ :: _ :: _ :: _ :: rest =>
      if reservedFlags ≤ flags.toNat then none
      else
        let parts := [HeaderPart.extra, .name, .comment, .checksum]
        (parts.filter (flags.toNat.testBit ·.flag)).foldlM
          (fun rest part => skipPart? file part rest) rest
  | _ => none

/-- Reads a deflated stream and what guards it. -/
def guarded : BitReader (List UInt8) := do
  let out ← inflate
  BitReader.align
  let sum ← BitReader.number 32
  let length ← BitReader.number 32
  let bytes := out.toList
  BitReader.ofOption <|
    if sum = (checksum bytes).toNat ∧ length = bytes.length % 2 ^ 32 then
      some bytes
    else none

/-- The bytes that a file was compressed from. -/
def unpack? (file : List UInt8) : Option (List UInt8) := do
  let rest ← afterHeader? file
  let (bytes, _) ← guarded (bitsOfBytes rest)
  return bytes

end BoxCert.Gzip
