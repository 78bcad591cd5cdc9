import CacheNode.Coalescer.Script
import CacheNode.HashRing.Digest
import CacheNode.Key
import CacheNode.Lru.Command
import CacheNode.ShardedCache.Command
import CacheNode.SlotList.Command
import CacheNode.Proofs.SlotList.Operations
import CacheNode.Proofs.Lru.Refinement
import CacheNode.Proofs.Lru.TouchOrder
import CacheNode.Proofs.ShardedCache.Statistics
import CacheNode.Proofs.Coalescer.Agreement
import CacheNode.Proofs.Coalescer.Registry
import CacheNode.Proofs.Coalescer.Freshness
import CacheNode.Proofs.HashRing.Lookup
import CacheNode.Proofs.HashRing.Growth
import CacheNode.Proofs.Lru.Inclusion
import CacheNode.Proofs.Lru.Accounting
import CacheNode.Proofs.HashRing.SameNodes
import CacheNode.Proofs.HashRing.Labels
import CacheNode.Proofs.HashRing.Ownership
import CacheNode.Proofs.HashRing.SharedLabels
import CacheNode.Proofs.ShardedCache.Capacity
import CacheNode.Proofs.ShardedCache.Independence
import CacheNode.Proofs.ShardedCache.LastWrites
import CacheNode.Proofs.Coalescer.Duplicates
import CacheNode.Proofs.Coalescer.Waiting
import CacheNode.Proofs.Coalescer.Interference
import CacheNode.Proofs.ShardedCache.MoreCapacity
import CacheNode.Proofs.Lru.Consistency
import CacheNode.Proofs.SlotList.Handles
import CacheNode.Proofs.Lru.Failures
import CacheNode.Proofs.ShardedCache.Failures
import CacheNode.Proofs.SlotList.Checked
import CacheNode.Proofs.Lru.SlotUse
import CacheNode.Proofs.Lru.Replay
