import BoxCert.Number.Nearest

/-!
# Words in byte strings

Binary files write a word of several bytes with its least byte first, and a
table of words without anything between them. Reading a table refuses a byte
string that ends within a word.
-/

namespace BoxCert

/-- The number whose digits to base 256 are the given bytes, least first. -/
def littleEndian : List UInt8 → Nat
  | [] => 0
  | b :: rest => b.toNat + 256 * littleEndian rest

/-- The 32-bit words of a byte string. -/
def words32? : List UInt8 → Option (List UInt32)
  | [] => some []
  | a :: b :: c :: d :: rest =>
      (words32? rest).map (UInt32.ofNat (littleEndian [a, b, c, d]) :: ·)
  | _ => none

def words64? : List UInt8 → Option (List UInt64)
  | [] => some []
  | a :: b :: c :: d :: e :: f :: g :: h :: rest =>
      (words64? rest).map
        (UInt64.ofNat (littleEndian [a, b, c, d, e, f, g, h]) :: ·)
  | _ => none

end BoxCert
