/-! Digests of byte strings to 64 bits; some let keys collide in a part of the word. -/

namespace CacheNode

inductive Digest where
  | seeded
  | fnv
  | zero
  | hi
  | lo
  | max
  deriving DecidableEq, Repr, Inhabited

namespace Digest

def fnv1a (bytes : List UInt8) : UInt64 :=
  bytes.foldl (fun h b => (h ^^^ b.toUInt64) * 0x100000001b3) 0xcbf29ce484222325

/-- The number whose four bytes, the lowest first, begin the list; missing bytes are zero. -/
def firstWord (bytes : List UInt8) : UInt64 :=
  (bytes.take 4).foldr (fun b h => h * 256 + b.toUInt64) 0

def apply : Digest → List UInt8 → UInt64
  | .seeded, bytes | .fnv, bytes => fnv1a bytes
  | .zero, _ => 0
  | .hi, bytes => firstWord bytes <<< 32
  | .lo, bytes => firstWord bytes
  | .max, _ => 0xffffffffffffffff

def stateBytes : Digest → Nat
  | .seeded => 32
  | _ => 1

end Digest

end CacheNode
