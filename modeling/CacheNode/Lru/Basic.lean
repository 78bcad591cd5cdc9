import CacheNode.Config
import CacheNode.Journal
import CacheNode.Outcome
import CacheNode.SlotList.Basic
import CacheNode.Text.Layout
import Std.Data.HashMap

/-!
A key/value store that drops the least recently used entry when it holds too many. The entries stand
in a slot list, the most recently used one first, and an index leads from a key to its slot.
-/

namespace CacheNode

abbrev Listener (K : Type u) (V : Type v) := K → V → Except Fault Unit

def Listener.failingOn {K : Type u} {V : Type v} [BEq K] (bad : K) (text : String) :
    Listener K V :=
  fun key _ => if key == bad then .error (.raised text) else .ok ()

structure Lru (K : Type u) (V : Type v) [BEq K] [Hashable K] where
  /-- The most entries held between operations; zero means no limit. -/
  limit : Nat
  index : Std.HashMap K Nat := {}
  entries : SlotList (K × V) := {}
  onEvict : Option (Listener K V) := none

namespace Lru

variable {K : Type u} {V : Type v}

inductive Note (K : Type u) (V : Type v) where
  /-- An entry has left, and so many are still held. -/
  | left (remaining : Nat)
  | told (key : K) (value : V)
  | cleared (removed : Nat)
  deriving DecidableEq, Repr

def Note.notice? : Note K V → Option Notice
  | .left remaining => some ⟨.trace, "entry left lru cache", [("remaining", .count remaining)]⟩
  | .told _ _ => none
  | .cleared removed => some ⟨.trace, "cleared lru cache", [("removed", .count removed)]⟩

def Note.told? : Note K V → Option (K × V)
  | .told key value => some (key, value)
  | _ => none

variable [BEq K] [Hashable K]

def empty (limit : Nat) (onEvict : Option (Listener K V)) : Lru K V := { limit, onEvict }

def ofConfig (config : LruConfig) (onEvict : Option (Listener K V)) : Lru K V :=
  empty config.maxEntries onEvict

def len (c : Lru K V) : Nat := c.entries.len

def isEmpty (c : Lru K V) : Bool := c.entries.isEmpty

def toList (c : Lru K V) : List (K × V) := c.entries.toList

def contains (c : Lru K V) (key : K) : Bool := c.index.contains key

def peek (c : Lru K V) (key : K) : Option V :=
  c.index[key]?.bind fun i => (c.entries.get? i).map (·.2)

def get (c : Lru K V) (key : K) : Lru K V × Option V :=
  match c.index[key]? with
  | none => (c, none)
  | some i =>
      let entries := c.entries.moveToFront i
      ({ c with entries }, (entries.get? i).map (·.2))

def depart (c : Lru K V) (entry : K × V) : Outcome (Lru K V) (Note K V) (K × V) :=
  match c.onEvict with
  | none => ⟨c, [.left c.len], .ok entry⟩
  | some tell =>
      ⟨c, [.left c.len, .told entry.1 entry.2], (tell entry.1 entry.2).map fun _ => entry⟩

def removeOldest (c : Lru K V) : Outcome (Lru K V) (Note K V) (Option (K × V)) :=
  match c.entries.popBack with
  | (entries, none) => .ok { c with entries } none
  | (entries, some entry) =>
      (depart { c with entries, index := c.index.erase entry.1 } entry).map some

def remove (c : Lru K V) (key : K) : Outcome (Lru K V) (Note K V) (Option V) :=
  match c.index[key]? with
  | none => .ok c none
  | some i =>
      let index := c.index.erase key
      match c.entries.remove i with
      | (entries, none) => .fault { c with entries, index } .missingEntry
      | (entries, some entry) =>
          (depart { c with entries, index } entry).map fun entry => some entry.2

/-- Stores a value under a key, which becomes the most recently used one. A key that is present
stays as it was first written, and its old value is answered; otherwise the entry is added first
and the least recently used one is dropped if there are now too many. -/
def put (c : Lru K V) (key : K) (value : V) : Outcome (Lru K V) (Note K V) (Option V) :=
  match c.index[key]? with
  | some i =>
      let entries := c.entries.moveToFront i
      match entries.get? i with
      | none => .fault { c with entries } .missingEntry
      | some (written, old) =>
          .ok { c with entries := entries.set i (written, value) } (some old)
  | none =>
      let (entries, i) := c.entries.pushFront (key, value)
      let c := { c with entries, index := c.index.insert key i }
      if c.limit ≠ 0 ∧ c.limit < c.len then c.removeOldest.map fun _ => none
      else .ok c none

def tellAll (tell : Listener K V) : List (K × V) → List (Note K V) × Except Fault Unit
  | [] => ([], .ok ())
  | (key, value) :: rest =>
      match tell key value with
      | .error f => ([.told key value], .error f)
      | .ok () => let (notes, answer) := tellAll tell rest; (.told key value :: notes, answer)

def announce (c : Lru K V) : List (Note K V) × Except Fault Unit :=
  match c.onEvict with
  | none => ([], .ok ())
  | some tell => tellAll tell c.toList

/-- Tells the listener of every entry and then drops them all; if it fails, none is dropped. -/
def clear (c : Lru K V) : Outcome (Lru K V) (Note K V) Unit :=
  match c.announce with
  | (notes, .error f) => ⟨c, notes, .error f⟩
  | (notes, .ok ()) =>
      ⟨{ c with entries := c.entries.clear, index := {} }, notes ++ [.cleared c.len], .ok ()⟩

def extend (c : Lru K V) (pairs : List (K × V)) : Outcome (Lru K V) (Note K V) Unit :=
  (Outcome.inTurn (fun c (pair : K × V) => c.put pair.1 pair.2) c pairs).map fun _ => ()

def ofPairs (pairs : List (K × V)) : Lru K V := (extend (empty 0 none) pairs).state

def layout [Text.ToLayout K] [Text.ToLayout V] (c : Lru K V) : Text.Layout :=
  .record "LruCache"
    [("max_entries", Text.toLayout c.limit),
      ("entries", .table (c.toList.map fun entry => ((Text.toLayout entry.1).inline, Text.toLayout entry.2))),
      ("on_evict", Text.toLayout c.onEvict.isSome)]
    false

instance [Text.ToLayout K] [Text.ToLayout V] : Text.ToLayout (Lru K V) := ⟨layout⟩

end Lru

end CacheNode
