import CacheNode.Text.Bytes
import CacheNode.Text.Layout

/-! Keys and values as they are written: numbers and texts. -/

namespace CacheNode

inductive Atom where
  | int (i : Int)
  | text (s : String)
  deriving DecidableEq, Hashable, Repr, Inhabited

namespace Atom

instance : Text.ToLayout Atom where
  toLayout
    | .int i => Text.toLayout i
    | .text s => Text.toLayout s

def lowered : Atom → Atom
  | .int i => .int i
  | .text s => .text s.toLower

/-- The eight bytes of a number in two's complement, the lowest first. -/
def intBytes (i : Int) : List UInt8 :=
  let word := UInt64.ofInt i
  ([0, 8, 16, 24, 32, 40, 48, 56] : List UInt64).map fun shift => (word >>> shift).toUInt8

def bytes : Atom → List UInt8
  | .int i => intBytes i
  | .text s => Text.utf8 s

end Atom

end CacheNode
