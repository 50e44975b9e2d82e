/-!
# Checksums

The cyclic checksum of 32 bits that guards compressed data: the remainder of
the message as a polynomial over two elements, its bits and those of the
remainder both taken in reverse, and the remainder flipped before and after.
-/

namespace BoxCert.Gzip

/-- The divisor, highest power first, without the highest. -/
abbrev divisor : UInt32 := 0xEDB88320

def dividedOnce (remainder : UInt32) : UInt32 :=
  if remainder.toNat.testBit 0 then (remainder >>> 1) ^^^ divisor
  else remainder >>> 1

/-- Takes one byte of the message in. -/
def checksumStep (remainder : UInt32) (byte : UInt8) : UInt32 :=
  Nat.repeat dividedOnce 8 (remainder ^^^ byte.toUInt32)

def checksum (bytes : List UInt8) : UInt32 :=
  ~~~ bytes.foldl checksumStep 0xFFFFFFFF

example : checksum "123456789".toUTF8.toList = 0xCBF43926 := by decide +kernel

end BoxCert.Gzip
