import CacheNode.Text.Layout

/-! Settings of the components, and the settings that are refused. -/

namespace CacheNode

inductive ConfigError where
  | zeroReplicas
  | zeroShards
  deriving DecidableEq, Repr, Inhabited

def ConfigError.message : ConfigError → String
  | .zeroReplicas => "replica count must be greater than zero"
  | .zeroShards => "shard count must be greater than zero"

structure LruConfig where
  /-- The most entries held; zero means no limit. -/
  maxEntries : Nat := 0
  deriving DecidableEq, Repr, Inhabited

structure RingConfig where
  replicas : Nat
  deriving DecidableEq, Repr, Inhabited

structure CacheConfig where
  /-- The entries held by all shards together; zero means no limit. -/
  capacity : Nat := 0
  shards : Option Nat := none
  deriving DecidableEq, Repr, Inhabited

def RingConfig.validate (c : RingConfig) : Except ConfigError Unit :=
  if c.replicas = 0 then .error .zeroReplicas else .ok ()

def CacheConfig.validate (c : CacheConfig) : Except ConfigError Unit :=
  if c.shards = some 0 then .error .zeroShards else .ok ()

instance : Text.ToLayout LruConfig where
  toLayout c := .record "LruConfig" [("max_entries", Text.toLayout c.maxEntries)] false

instance : Text.ToLayout RingConfig where
  toLayout c := .record "RingConfig" [("replicas", Text.toLayout c.replicas)] false

instance : Text.ToLayout CacheConfig where
  toLayout c := .record "CacheConfig"
    [("capacity", Text.toLayout c.capacity), ("shards", Text.toLayout c.shards)] false

end CacheNode
