import CacheNode.Digest.Crc32
import CacheNode.HashRing.Basic

/-! Functions that place bytes on a ring. -/

namespace CacheNode

namespace HashRing

inductive Digest where
  | crc32
  | decimal
  | const (point : UInt32)
  | len
  | sum
  | mul
  /-- Chosen points for chosen texts, and one point for all else. -/
  | table (points : List (String × UInt32)) (otherwise : UInt32)
  deriving Repr, Inhabited

namespace Digest

def isDigit (b : UInt8) : Bool := 48 ≤ b && b ≤ 57

def apply : Digest → List UInt8 → UInt32
  | .crc32, bytes => Crc32.checksum bytes
  | .decimal, bytes =>
      (bytes.filter isDigit).foldl (fun h b => 10 * h + (b - 48).toUInt32) 0
  | .const point, _ => point
  | .len, bytes => bytes.length.toUInt32
  | .sum, bytes => bytes.foldl (fun h b => h + b.toUInt32) 0
  | .mul, bytes => bytes.foldl (fun h b => 31 * h + b.toUInt32) 0
  | .table points otherwise, bytes =>
      ((points.find? fun entry => Text.utf8 entry.1 == bytes).map (·.2)).getD otherwise

def total (d : Digest) : RingHash := fun bytes => .ok (d.apply bytes)

def failingOn (d : Digest) (bad text : String) : RingHash := fun bytes =>
  if bytes = Text.utf8 bad then .error (.raised text) else d.total bytes

end Digest

end HashRing

end CacheNode
