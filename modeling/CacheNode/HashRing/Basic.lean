import CacheNode.Config
import CacheNode.Journal
import CacheNode.Outcome
import CacheNode.Room
import CacheNode.Text.Bytes
import CacheNode.Text.Layout
import Std.Data.HashMap

/-!
A ring of hash values on which every node owns a number of points. A key belongs to the owner of
the first point at or after its hash, going around; a shared point to the node that placed it last.
-/

namespace CacheNode

abbrev RingHash := List UInt8 → Except Fault UInt32

structure HashRing where
  hash : RingHash
  replicas : Nat
  /-- All points placed, in ascending order whenever an addition has ended well. -/
  points : Array UInt32 := #[]
  owners : Std.HashMap UInt32 String := {}

namespace HashRing

inductive Note where
  | hashed (bytes : List UInt8)
  | added (nodes points : Nat)
  deriving DecidableEq, Repr

def Note.notice? : Note → Option Notice
  | .hashed _ => none
  | .added nodes points =>
      some ⟨.debug, "added nodes to hash ring",
        [("added", .count nodes), ("points", .count points)]⟩

def Note.hashed? : Note → Option (List UInt8)
  | .hashed bytes => some bytes
  | .added _ _ => none

def empty (replicas : Nat) (hash : RingHash) : HashRing := { hash, replicas }

def ofConfig (config : RingConfig) (hash : RingHash) : Except ConfigError HashRing :=
  config.validate.map fun _ => empty config.replicas hash

def isEmpty (r : HashRing) : Bool := r.points.isEmpty

def len (r : HashRing) : Nat := r.points.size

/-- The bytes hashed for one point of a node: the number of the point and the node. -/
def label (node : String) (replica : Nat) : List UInt8 :=
  Text.utf8 (toString replica ++ node)

def sites (replicas : Nat) (nodes : List String) : List (String × Nat) :=
  nodes.flatMap fun node => (List.range replicas).map fun replica => (node, replica)

def claim (r : HashRing) (point : UInt32) (node : String) : HashRing :=
  { r with points := r.points.push point, owners := r.owners.insert point node }

def place (r : HashRing) (site : String × Nat) : Outcome HashRing Note Unit :=
  let bytes := label site.1 site.2
  match r.hash bytes with
  | .error f => ⟨r, [.hashed bytes], .error f⟩
  | .ok point => ⟨r.claim point site.1, [.hashed bytes], .ok ()⟩

def settle (r : HashRing) : HashRing :=
  { r with points := (r.points.toList.mergeSort fun p q => p ≤ q).toArray }

def pointBytes : Nat := 4

/-- Places all points of the nodes, in order; those of one node have to fit into one table. If the
hash fails at one of them, those before it stay on the ring, which is put in order by the next
addition that ends well. -/
def add (r : HashRing) (nodes : List String) : Outcome HashRing Note Unit :=
  if nodes ≠ [] ∧ ¬ TableFits r.replicas pointBytes then .fault r .capacityOverflow
  else
    (Outcome.inTurn place r (sites r.replicas nodes)).andThen fun r _ =>
      ⟨r.settle, [.added nodes.length r.settle.len], .ok ()⟩

/-- The first index from `lo` on whose point is not below `h`, or `hi` if there is none before it;
the points between are ascending. -/
def lowerBound (points : Array UInt32) (h : UInt32) (lo hi : Nat) (bound : hi ≤ points.size) :
    Nat :=
  if order : lo < hi then
    let mid := (lo + hi) / 2
    if points[mid] < h then lowerBound points h (mid + 1) hi bound
    else lowerBound points h lo mid (by omega)
  else lo
termination_by hi - lo

def successor (points : Array UInt32) (h : UInt32) : Nat :=
  let i := lowerBound points h 0 points.size (Nat.le_refl _)
  if i = points.size then 0 else i

def ownerAt (r : HashRing) (h : UInt32) : Option String :=
  r.points[successor r.points h]?.bind fun point => r.owners[point]?

/-- The node that owns a key; an empty ring answers none without hashing the key. -/
def get (r : HashRing) (key : List UInt8) : Outcome HashRing Note (Option String) :=
  if r.isEmpty then .ok r none else ⟨r, [.hashed key], (r.hash key).map r.ownerAt⟩

def getAll (r : HashRing) (keys : List (List UInt8)) :
    Outcome HashRing Note (List (Option String)) :=
  Outcome.inTurn get r keys

def countNames (names : List String) : List (String × Nat) :=
  ((names.mergeSort fun a b => a ≤ b).splitBy (· == ·)).filterMap fun same =>
    same.head?.map fun name => (name, same.length)

def shares (r : HashRing) (keys : List (List UInt8)) :
    Outcome HashRing Note (List (String × Nat)) :=
  (r.getAll keys).map fun owners => countNames (owners.filterMap id)

instance : Text.ToLayout HashRing where
  toLayout r := .record "HashRing"
    [("replicas", Text.toLayout r.replicas), ("points", Text.toLayout r.len)] true

end HashRing

end CacheNode
