/-! # CRC-32

The 32-bit cyclic redundancy check of the reflected polynomial 0xEDB88320, bit by bit. A byte enters
the low end of the register and is shifted out; every step is linear over exclusive or.
-/
namespace Concordance.Checksum

/-- Shifts one bit out of the register. -/
def shiftBit (r : UInt32) : UInt32 :=
  if r &&& 1 = 1 then (r >>> 1) ^^^ 0xEDB88320 else r >>> 1

def shiftBits : Nat → UInt32 → UInt32
  | 0, r => r
  | n + 1, r => shiftBits n (shiftBit r)

def feedByte (r : UInt32) (b : UInt8) : UInt32 := shiftBits 8 (r ^^^ b.toUInt32)

/-- The register starts with all bits set, and the check is its complement. -/
def crc32 (bytes : List UInt8) : UInt32 := bytes.foldl feedByte 0xFFFFFFFF ^^^ 0xFFFFFFFF

end Concordance.Checksum
