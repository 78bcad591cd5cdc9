import CacheNode.Atom
import CacheNode.Digest.Word
import CacheNode.Hasher

/-! Keys that may be written in several ways; their canonical form decides. -/

namespace CacheNode

structure Key (foldCase : Bool) where
  written : Atom
  deriving Repr, Inhabited

namespace Key

variable {foldCase : Bool}

def canonical (k : Key foldCase) : Atom := if foldCase then k.written.lowered else k.written

instance : BEq (Key foldCase) := ⟨fun a b => a.canonical == b.canonical⟩

instance : Hashable (Key foldCase) := ⟨fun k => hash k.canonical⟩

instance : Text.ToLayout (Key foldCase) := ⟨fun k => Text.toLayout k.written⟩

theorem beq_iff {a b : Key foldCase} : (a == b) = true ↔ a.canonical = b.canonical :=
  beq_iff_eq (a := a.canonical)

instance : EquivBEq (Key foldCase) where
  rfl := beq_iff.2 rfl
  symm h := beq_iff.2 (beq_iff.1 h).symm
  trans h₁ h₂ := beq_iff.2 ((beq_iff.1 h₁).trans (beq_iff.1 h₂))

instance : LawfulHashable (Key foldCase) where
  hash_eq _ _ h := congrArg (hash : Atom → UInt64) (beq_iff.1 h)

def hasher (d : Digest) : Hasher (Key foldCase) where
  hash k := d.apply k.canonical.bytes
  stateBytes := d.stateBytes

end Key

end CacheNode
