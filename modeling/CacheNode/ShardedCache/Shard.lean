import CacheNode.Lru.Basic
import CacheNode.Stats

/-! One shard of a cache: a store and the counters of what happened in it. -/

namespace CacheNode

structure Shard (K : Type u) (V : Type v) [BEq K] [Hashable K] where
  entries : Lru K V
  counters : Counters := {}

namespace Shard

variable {K : Type u} {V : Type v} [BEq K] [Hashable K]

def empty (limit : Nat) (onEvict : Option (Listener K V)) : Shard K V :=
  { entries := .empty limit onEvict }

/-- Stands where a shard has been taken out. -/
def vacant : Shard K V := { entries := { limit := 0 } }

def len (s : Shard K V) : Nat := s.entries.len

def evictsFor (s : Shard K V) (key : K) : Bool :=
  s.entries.limit != 0 && s.entries.limit ≤ s.entries.len && !s.entries.contains key

/-- Stores a value; an eviction is counted once the listener has accepted it. -/
def insert (s : Shard K V) (key : K) (value : V) :
    Outcome (Shard K V) (Lru.Note K V) (Option V) :=
  let evicts := s.evictsFor key
  match s.entries.put key value with
  | ⟨entries, notes, .error f⟩ => ⟨{ s with entries }, notes, .error f⟩
  | ⟨entries, notes, .ok old⟩ =>
      let counters := if evicts then s.counters.recordEviction else s.counters
      ⟨{ entries, counters }, notes, .ok old⟩

def get (s : Shard K V) (key : K) : Shard K V × Option V :=
  match s.entries.get key with
  | (entries, some value) => ({ entries, counters := s.counters.recordHit }, some value)
  | (entries, none) => ({ entries, counters := s.counters.recordMiss }, none)

def remove (s : Shard K V) (key : K) : Outcome (Shard K V) (Lru.Note K V) (Option V) :=
  (s.entries.remove key).mapState fun entries => { s with entries }

def clear (s : Shard K V) : Outcome (Shard K V) (Lru.Note K V) Unit :=
  s.entries.clear.mapState fun entries => { s with entries }

def resetCounters (s : Shard K V) : Shard K V := { s with counters := {} }

end Shard

end CacheNode
