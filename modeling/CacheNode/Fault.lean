import CacheNode.Text.Quoted

/-! The ways in which an operation can be cut short, and the text of each. -/

namespace CacheNode

inductive Fault where
  | missingEntry
  | capacityOverflow
  /-- A function supplied by the caller failed with this text. -/
  | raised (text : String)
  | abandoned (key : String)
  deriving DecidableEq, Repr, Inhabited

def Fault.message : Fault → String
  | .missingEntry => "an entry must exist for an index"
  | .capacityOverflow => "capacity overflow"
  | .raised text => text
  | .abandoned key => "in-flight call for key " ++ Text.quote key ++ " panicked"

end CacheNode
