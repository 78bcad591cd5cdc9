/-! Hashes of keys, for choosing among places that hold keys. -/

namespace CacheNode

structure Hasher (K : Type u) where
  hash : K → UInt64
  /-- The bytes that its state takes. -/
  stateBytes : Nat

end CacheNode
