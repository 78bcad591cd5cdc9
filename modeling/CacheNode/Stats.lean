import CacheNode.Text.Layout

/-! Counters of what happened in a cache, and snapshots of them. -/

namespace CacheNode

structure Counters where
  hits : Nat := 0
  misses : Nat := 0
  evictions : Nat := 0
  deriving DecidableEq, Repr, Inhabited

namespace Counters

def recordHit (c : Counters) : Counters := { c with hits := c.hits + 1 }

def recordMiss (c : Counters) : Counters := { c with misses := c.misses + 1 }

def recordEviction (c : Counters) : Counters := { c with evictions := c.evictions + 1 }

instance : Add Counters :=
  ⟨fun a b => ⟨a.hits + b.hits, a.misses + b.misses, a.evictions + b.evictions⟩⟩

@[simp] theorem hits_add (a b : Counters) : (a + b).hits = a.hits + b.hits := rfl

@[simp] theorem misses_add (a b : Counters) : (a + b).misses = a.misses + b.misses := rfl

@[simp] theorem evictions_add (a b : Counters) :
    (a + b).evictions = a.evictions + b.evictions := rfl

def total (cs : List Counters) : Counters := cs.foldl (· + ·) {}

end Counters

structure Stats where
  misses : Nat := 0
  hits : Nat := 0
  evictions : Nat := 0
  millis : Nat := 0
  deriving DecidableEq, Repr, Inhabited

namespace Stats

def ofCounters (c : Counters) (millis : Nat) : Stats :=
  { misses := c.misses, hits := c.hits, evictions := c.evictions, millis }

/-- By misses first, then hits, evictions and time. -/
instance : Ord Stats where
  compare a b :=
    (compare a.misses b.misses).then <| (compare a.hits b.hits).then <|
      (compare a.evictions b.evictions).then <| compare a.millis b.millis

def sort (items : List Stats) : List Stats := items.mergeSort fun a b => (compare a b).isLE

instance : Text.ToLayout Stats where
  toLayout s := .record "Stats"
    [("miss_count", Text.toLayout s.misses), ("hit_count", Text.toLayout s.hits),
      ("eviction_count", Text.toLayout s.evictions), ("millis_elapsed", Text.toLayout s.millis)]
    false

end Stats

end CacheNode
