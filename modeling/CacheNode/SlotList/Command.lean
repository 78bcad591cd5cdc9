import CacheNode.SlotList.Basic

/-! The operations on a slot list as commands. -/

namespace CacheNode

namespace SlotList

variable {α : Type u}

inductive Command (α : Type u) where
  | push (a : α)
  | get (i : Nat)
  | set (i : Nat) (a : α)
  | front (i : Nat)
  | remove (i : Nat)
  | pop
  | back
  | len
  | isEmpty
  | items
  | clear
  deriving Repr

inductive Reply (α : Type u) where
  | index (i : Nat)
  | index? (i : Option Nat)
  | value? (a : Option α)
  | count (n : Nat)
  | flag (b : Bool)
  | items (as : List α)
  | done
  deriving DecidableEq, Repr

/-- Carries out one command; `set` answers the value that was there before. -/
def step (s : SlotList α) : Command α → SlotList α × Reply α
  | .push a => let (s, i) := s.pushFront a; (s, .index i)
  | .get i => (s, .value? (s.get? i))
  | .set i a => (s.set i a, .value? (s.get? i))
  | .front i => (s.moveToFront i, .done)
  | .remove i => let (s, a) := s.remove i; (s, .value? a)
  | .pop => let (s, a) := s.popBack; (s, .value? a)
  | .back => (s, .index? s.back?)
  | .len => (s, .count s.len)
  | .isEmpty => (s, .flag s.isEmpty)
  | .items => (s, .items s.toList)
  | .clear => (s.clear, .done)

def run (s : SlotList α) : List (Command α) → SlotList α × List (Reply α)
  | [] => (s, [])
  | c :: cs =>
      let (s, r) := s.step c
      let (s, rs) := s.run cs
      (s, r :: rs)

end SlotList

end CacheNode
