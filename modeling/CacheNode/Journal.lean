/-! Journal records: what the components report about themselves while they work. -/

namespace CacheNode

inductive Level where
  | trace
  | debug
  deriving DecidableEq, Repr

inductive Field where
  | count (n : Nat)
  | text (s : String)
  | flag (b : Bool)
  deriving DecidableEq, Repr

structure Notice where
  level : Level
  message : String
  fields : List (String × Field)
  deriving DecidableEq, Repr

end CacheNode
