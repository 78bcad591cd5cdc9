import CacheNode.Hasher
import CacheNode.Room
import CacheNode.ShardedCache.Shard
import CacheNode.ShardedCache.Sharding

/-! A cache divided into shards, each with a recency order of its own. -/

namespace CacheNode

structure ShardedCache (K : Type u) (V : Type v) [BEq K] [Hashable K] (n : Nat) where
  shards : Vector (Shard K V) n
  hasher : Hasher K
  pos : 0 < n

namespace ShardedCache

variable {K : Type u} {V : Type v} [BEq K] [Hashable K] {n : Nat}

/-- The bytes that one shard takes: twenty words, and the words of its own copy of the hasher. -/
def shardBytes (h : Hasher K) : Nat := 8 * (20 + (h.stateBytes + 7) / 8)

def ofSharding (s : Sharding) (hasher : Hasher K) (listener : Option (Listener K V)) :
    Except Fault (ShardedCache K V s.shards) :=
  if TableFits s.shards (shardBytes hasher) then
    .ok { shards := Vector.replicate _ (.empty s.perShard listener), hasher, pos := s.shards_pos }
  else .error .capacityOverflow

/-- The shard responsible for a key, chosen by the upper half of its hash. -/
def route (c : ShardedCache K V n) (key : K) : Fin n :=
  ⟨(c.hasher.hash key >>> 32).toNat % n, Nat.mod_lt _ c.pos⟩

/-- Acts on one shard and leaves the others as they are. The shard is out of the table meanwhile,
so that it can be changed in place. -/
def onShard {α : Type w} (c : ShardedCache K V n) (i : Fin n)
    (act : Shard K V → Outcome (Shard K V) (Lru.Note K V) α) :
    Outcome (ShardedCache K V n) (Lru.Note K V) α :=
  let { shards, hasher, pos } := c
  let s := shards[i]
  let others := shards.set i .vacant
  (act s).mapState fun s => { shards := others.set i s, hasher, pos }

theorem onShard_eq {α : Type w} (c : ShardedCache K V n) (i : Fin n)
    (act : Shard K V → Outcome (Shard K V) (Lru.Note K V) α) :
    c.onShard i act = (act c.shards[i]).mapState fun s => { c with shards := c.shards.set i s } := by
  simp [onShard]

def insert (c : ShardedCache K V n) (key : K) (value : V) :
    Outcome (ShardedCache K V n) (Lru.Note K V) (Option V) :=
  c.onShard (c.route key) (·.insert key value)

def get (c : ShardedCache K V n) (key : K) :
    Outcome (ShardedCache K V n) (Lru.Note K V) (Option V) :=
  c.onShard (c.route key) fun s => let (s, value) := s.get key; .ok s value

def remove (c : ShardedCache K V n) (key : K) :
    Outcome (ShardedCache K V n) (Lru.Note K V) (Option V) :=
  c.onShard (c.route key) (·.remove key)

def len (c : ShardedCache K V n) : Nat := (c.shards.toList.map Shard.len).foldl (· + ·) 0

def isEmpty (c : ShardedCache K V n) : Bool := c.shards.toList.all fun s => s.len == 0

def clear (c : ShardedCache K V n) : Outcome (ShardedCache K V n) (Lru.Note K V) Unit :=
  (Outcome.inTurn (fun c i => c.onShard i Shard.clear) c (List.finRange n)).map fun _ => ()

def stats (c : ShardedCache K V n) (millis : Nat) : ShardedCache K V n × Stats :=
  ({ c with shards := c.shards.map Shard.resetCounters },
    .ofCounters (Counters.total (c.shards.toList.map (·.counters))) millis)

end ShardedCache

end CacheNode
