import CacheNode.Config
import CacheNode.Journal

/-! How the capacity of a cache is divided among its shards. -/

namespace CacheNode

structure Sharding where
  /-- The entries asked for in total; zero means no limit. -/
  capacity : Nat
  shards : Nat
  shards_pos : 0 < shards

namespace Sharding

instance (s : Sharding) : @NeZero Nat Zero.ofOfNat0 s.shards :=
  ⟨Nat.pos_iff_ne_zero.1 s.shards_pos⟩

def perShard (s : Sharding) : Nat := (s.capacity + s.shards - 1) / s.shards

/-- Four shards for each processor, but no more of them than entries unless there is no limit. -/
def defaultShards (processors capacity : Nat) : Nat :=
  if capacity = 0 then processors * 4 else min (processors * 4) capacity

theorem defaultShards_pos {processors : Nat} (h : 0 < processors) (capacity : Nat) :
    0 < defaultShards processors capacity := by
  unfold defaultShards
  split <;> omega

def standard (processors capacity : Nat) (h : 0 < processors) : Sharding :=
  ⟨capacity, defaultShards processors capacity, defaultShards_pos h capacity⟩

def notice (s : Sharding) : Notice :=
  ⟨.debug, "created cache", [("capacity", .count s.capacity), ("shards", .count s.shards),
    ("capacity_per_shard", .count s.perShard)]⟩

end Sharding

def CacheConfig.sharding (c : CacheConfig) (processors : Nat) (h : 0 < processors) :
    Except ConfigError Sharding :=
  match c.shards with
  | none => .ok (.standard processors c.capacity h)
  | some 0 => .error .zeroShards
  | some (n + 1) => .ok ⟨c.capacity, n + 1, n.succ_pos⟩

theorem CacheConfig.sharding_eq_error_iff (c : CacheConfig) {processors : Nat}
    (h : 0 < processors) (e : ConfigError) :
    c.sharding processors h = .error e ↔ c.validate = .error e := by
  unfold sharding validate
  split <;> simp [*]

end CacheNode
