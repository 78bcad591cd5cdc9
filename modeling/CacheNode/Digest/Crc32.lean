/-! The CRC-32 checksum of the IEEE polynomial, bit by bit. -/

namespace CacheNode.Crc32

/-- The polynomial with its bits in reverse. -/
def polynomial : UInt32 := 0xedb88320

def shiftBit (c : UInt32) : UInt32 :=
  if c &&& 1 = 1 then (c >>> 1) ^^^ polynomial else c >>> 1

def update (c : UInt32) (b : UInt8) : UInt32 :=
  Nat.repeat shiftBit 8 (c ^^^ b.toUInt32)

def checksum (bytes : List UInt8) : UInt32 := bytes.foldl update 0xffffffff ^^^ 0xffffffff

end CacheNode.Crc32
