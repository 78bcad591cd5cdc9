import CacheNode.Fault
import CacheNode.Room

/-!
A doubly linked list whose items live in an array of slots and link to each other by index. An index
handed out by `pushFront` names its item until the item is removed, wherever it moves in the list.
-/

namespace CacheNode

structure Slot (α : Type u) where
  value : Option α
  prev : Option Nat := none
  next : Option Nat := none
  deriving Repr

structure SlotList (α : Type u) where
  head : Option Nat := none
  tail : Option Nat := none
  len : Nat := 0
  slots : Array (Slot α) := #[]
  /-- The vacant slots, the last vacated one first. -/
  free : List Nat := []
  deriving Repr

namespace SlotList

variable {α : Type u}

def slotBytes : Nat := 40

/-- An empty list meant for so many items; their slots have to fit into one table. The list grows
with its items, also past that number. -/
def withCapacity (capacity : Nat) : Except Fault (SlotList α) :=
  if TableFits capacity slotBytes then .ok {} else .error .capacityOverflow

instance : Inhabited (SlotList α) := ⟨{}⟩

def isEmpty (s : SlotList α) : Bool := s.len == 0

def back? (s : SlotList α) : Option Nat := s.tail

def get? (s : SlotList α) (i : Nat) : Option α := s.slots[i]?.bind (·.value)

def set (s : SlotList α) (i : Nat) (a : α) : SlotList α :=
  { s with slots := s.slots.modify i fun slot => { slot with value := slot.value.map fun _ => a } }

/-- Makes a slot that is in no list the first one. -/
def linkFront (s : SlotList α) (i : Nat) : SlotList α :=
  let slots := s.slots.modify i fun slot => { slot with prev := none, next := s.head }
  match s.head with
  | none => { s with slots, head := some i, tail := some i }
  | some h =>
      { s with slots := slots.modify h fun slot => { slot with prev := some i }, head := some i }

def unlink (s : SlotList α) (i : Nat) : SlotList α :=
  match s.slots[i]? with
  | none => s
  | some slot =>
      let s := match slot.prev with
        | none => { s with head := slot.next }
        | some p => { s with slots := s.slots.modify p fun q => { q with next := slot.next } }
      let s := match slot.next with
        | none => { s with tail := slot.prev }
        | some n => { s with slots := s.slots.modify n fun q => { q with prev := slot.prev } }
      { s with slots := s.slots.modify i fun q => { q with prev := none, next := none } }

def pushFront (s : SlotList α) (a : α) : SlotList α × Nat :=
  match s.free with
  | i :: free =>
      let s := { s with slots := s.slots.setIfInBounds i { value := some a }, free }
      ({ s.linkFront i with len := s.len + 1 }, i)
  | [] =>
      let i := s.slots.size
      let s := { s with slots := s.slots.push { value := some a } }
      ({ s.linkFront i with len := s.len + 1 }, i)

def moveToFront (s : SlotList α) (i : Nat) : SlotList α :=
  if (s.get? i).isNone || s.head == some i then s else (s.unlink i).linkFront i

def remove (s : SlotList α) (i : Nat) : SlotList α × Option α :=
  match s.get? i with
  | none => (s, none)
  | some a =>
      let s := { s with slots := s.slots.modify i fun slot => { slot with value := none } }
      let s := s.unlink i
      ({ s with free := i :: s.free, len := s.len - 1 }, some a)

def popBack (s : SlotList α) : SlotList α × Option α :=
  match s.back? with
  | none => (s, none)
  | some i => s.remove i

def clear (s : SlotList α) : SlotList α :=
  { s with head := none, tail := none, len := 0, slots := #[], free := [] }

def itemsFrom (s : SlotList α) : Nat → Option Nat → List α
  | 0, _ => []
  | _ + 1, none => []
  | fuel + 1, some i =>
      match s.slots[i]? with
      | some { value := some a, next, .. } => a :: s.itemsFrom fuel next
      | _ => []

def toList (s : SlotList α) : List α := s.itemsFrom s.slots.size s.head

end SlotList

end CacheNode
