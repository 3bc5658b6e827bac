/-!
Numbers in bytes, the lowest byte first, and the checksum of bytes that archives carry.
-/
namespace SheetTemplate.Archive

def number? (b : ByteArray) (offset : Nat) : Nat → Option Nat
  | 0 => some 0
  | width + 1 =>
    match b[offset]?, number? b (offset + 1) width with
    | some low, some high => some (low.toNat + 256 * high)
    | _, _ => none

def littleEndian (n : Nat) : Nat → List UInt8
  | 0 => []
  | width + 1 => UInt8.ofNat n :: littleEndian (n / 256) width

def crcBits (crc : UInt32) : Nat → UInt32
  | 0 => crc
  | n + 1 => crcBits (if crc % 2 = 1 then (crc >>> 1) ^^^ 0xEDB88320 else crc >>> 1) n

/-- The checksum CRC-32 of bytes. -/
def checksum (b : ByteArray) : UInt32 :=
  (b.foldl (fun crc byte => crcBits (crc ^^^ byte.toUInt32) 8) 0xFFFFFFFF) ^^^ 0xFFFFFFFF

end SheetTemplate.Archive
