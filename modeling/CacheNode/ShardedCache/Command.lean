import CacheNode.ShardedCache.Basic

/-! The operations on a sharded cache as commands. -/

namespace CacheNode

namespace ShardedCache

variable {K : Type u} {V : Type v}

inductive Command (K : Type u) (V : Type v) where
  | insert (key : K) (value : V)
  | get (key : K)
  | remove (key : K)
  | len
  | isEmpty
  | clear
  | shards
  | stats (millis : Nat)
  deriving Repr

inductive Reply (V : Type v) where
  | value? (value : Option V)
  | flag (b : Bool)
  | count (n : Nat)
  | stats (stats : Stats)
  | done
  deriving DecidableEq, Repr

def Reply.isHit : Reply V → Bool
  | .value? (some _) => true
  | _ => false

variable [BEq K] [Hashable K] {n : Nat}

def step (c : ShardedCache K V n) :
    Command K V → Outcome (ShardedCache K V n) (Lru.Note K V) (Reply V)
  | .insert key value => (c.insert key value).map .value?
  | .get key => (c.get key).map .value?
  | .remove key => (c.remove key).map .value?
  | .len => .ok c (.count c.len)
  | .isEmpty => .ok c (.flag c.isEmpty)
  | .clear => c.clear.map fun _ => .done
  | .shards => .ok c (.count n)
  | .stats millis => let (c, stats) := c.stats millis; .ok c (.stats stats)

def run (c : ShardedCache K V n) : List (Command K V) →
    ShardedCache K V n × List (List (Lru.Note K V) × Except Fault (Reply V))
  | [] => (c, [])
  | command :: commands =>
      let o := c.step command
      let (c, rest) := run o.state commands
      (c, (o.notes, o.answer) :: rest)

def countHits (c : ShardedCache K V n) (commands : List (Command K V)) :
    Outcome (ShardedCache K V n) (Lru.Note K V) Nat :=
  (Outcome.inTurn step c commands).map fun replies => replies.countP Reply.isHit

end ShardedCache

end CacheNode
