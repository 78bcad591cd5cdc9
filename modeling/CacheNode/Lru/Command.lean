import CacheNode.Lru.Basic

/-! The operations on a store as commands; a run goes on after one that is cut short. -/

namespace CacheNode

namespace Lru

variable {K : Type u} {V : Type v}

inductive Command (K : Type u) (V : Type v) where
  | put (key : K) (value : V)
  | get (key : K)
  | peek (key : K)
  | contains (key : K)
  | remove (key : K)
  | removeOldest
  | len
  | isEmpty
  | iter
  | clear
  | extend (pairs : List (K × V))
  deriving Repr

inductive Reply (K : Type u) (V : Type v) where
  | value? (value : Option V)
  | oldest (entry : Option (K × V))
  | flag (b : Bool)
  | count (n : Nat)
  | entries (entries : List (K × V))
  | done
  deriving DecidableEq, Repr

def Reply.isHit : Reply K V → Bool
  | .value? (some _) => true
  | _ => false

variable [BEq K] [Hashable K]

def step (c : Lru K V) : Command K V → Outcome (Lru K V) (Note K V) (Reply K V)
  | .put key value => (c.put key value).map .value?
  | .get key => let (c, value) := c.get key; .ok c (.value? value)
  | .peek key => .ok c (.value? (c.peek key))
  | .contains key => .ok c (.flag (c.contains key))
  | .remove key => (c.remove key).map .value?
  | .removeOldest => c.removeOldest.map .oldest
  | .len => .ok c (.count c.len)
  | .isEmpty => .ok c (.flag c.isEmpty)
  | .iter => .ok c (.entries c.toList)
  | .clear => c.clear.map fun _ => .done
  | .extend pairs => (c.extend pairs).map fun _ => .done

def run (c : Lru K V) :
    List (Command K V) → Lru K V × List (List (Note K V) × Except Fault (Reply K V))
  | [] => (c, [])
  | command :: commands =>
      let o := c.step command
      let (c, rest) := run o.state commands
      (c, (o.notes, o.answer) :: rest)

def countHits (c : Lru K V) (commands : List (Command K V)) :
    Outcome (Lru K V) (Note K V) Nat :=
  (Outcome.inTurn step c commands).map fun replies => replies.countP Reply.isHit

end Lru

end CacheNode
