import CacheNode.Proofs.SlotList.Operations
import Mathlib.Data.List.Induction

/-!
# The shape of a slot list

`WellFormed s places` says of the links and the slots alone what `Holds` says through a list of
items.
-/

namespace CacheNode.SlotList

variable {α : Type u} {s : SlotList α} {items before after : List (Nat × α)} {i : Nat} {a : α}

def Leads (s : SlotList α) (link : Slot α → Option Nat) : Option Nat → List Nat → Prop
  | cursor, [] => cursor = none
  | cursor, i :: rest =>
      cursor = some i ∧ ∃ slot, s.slots[i]? = some slot ∧ s.Leads link (link slot) rest

def occupied (s : SlotList α) : List Nat :=
  (List.range s.slots.size).filter fun i => (s.get? i).isSome

def vacant (s : SlotList α) : List Nat :=
  (List.range s.slots.size).filter fun i => !(s.get? i).isSome

structure WellFormed (s : SlotList α) (places : List Nat) : Prop where
  forward : s.Leads Slot.next s.head places
  backward : s.Leads Slot.prev s.tail places.reverse
  first : s.head = places.head?
  last : s.tail = places.getLast?
  occupied : places.Perm s.occupied
  vacant : s.free.Perm s.vacant
  len : s.len = s.occupied.length

theorem content?_eq_some_none_iff (s : SlotList α) (i : Nat) :
    s.content? i = some none ↔ i < s.slots.size ∧ s.get? i = none := by
  unfold content? get?
  by_cases inside : i < s.slots.size
  · simp [inside]
  · simp [inside]

theorem lt_size_of_get? (there : s.get? i = some a) : i < s.slots.size := by
  apply Nat.lt_of_not_le
  intro beyond
  simp [get?, Array.getElem?_eq_none beyond] at there

theorem mem_occupied : i ∈ s.occupied ↔ ∃ a, s.get? i = some a := by
  simp only [occupied, List.mem_filter, List.mem_range, Option.isSome_iff_exists]
  constructor
  · intro mem
    exact mem.2
  · intro present
    obtain ⟨a, there⟩ := present
    exact ⟨lt_size_of_get? there, a, there⟩

theorem mem_vacant : i ∈ s.vacant ↔ s.content? i = some none := by
  simp [vacant, content?_eq_some_none_iff]

theorem nodup_occupied (s : SlotList α) : s.occupied.Nodup := List.nodup_range.filter _

theorem nodup_vacant (s : SlotList α) : s.vacant.Nodup := List.nodup_range.filter _

theorem length_occupied_add_vacant (s : SlotList α) :
    s.occupied.length + s.vacant.length = s.slots.size := by
  have parts := List.length_eq_length_filter_add (l := List.range s.slots.size)
    fun i => (s.get? i).isSome
  rw [List.length_range] at parts
  exact parts.symm

theorem Placed.leads_next (h : Placed s.slots (before ++ after)) :
    s.Leads Slot.next (after.head?.map (·.1)) (after.map (·.1)) := by
  induction after generalizing before with
  | nil => rfl
  | cons item after ih =>
      obtain ⟨i, a⟩ := item
      have rest : Placed s.slots ((before ++ [(i, a)]) ++ after) := by simpa using h
      exact ⟨rfl, _, h before i a after rfl, ih rest⟩

theorem Placed.leads_prev (h : Placed s.slots (before ++ after)) :
    s.Leads Slot.prev (before.getLast?.map (·.1)) (before.map (·.1)).reverse := by
  induction before using List.reverseRecOn generalizing after with
  | nil => rfl
  | append_singleton before item ih =>
      obtain ⟨i, a⟩ := item
      have rest : Placed s.slots (before ++ (i, a) :: after) := by simpa using h
      simp only [List.getLast?_concat, List.map_append, List.map_cons, List.map_nil,
        List.reverse_concat, Option.map_some]
      exact ⟨rfl, _, rest before i a after rfl, ih rest⟩

theorem Holds.wellFormed (h : s.Holds items) : s.WellFormed (items.map (·.1)) := by
  have occupied : (items.map (·.1)).Perm s.occupied := by
    apply (List.perm_ext_iff_of_nodup h.distinct s.nodup_occupied).2
    intro i
    simp [mem_occupied, h.get?_eq_some_iff]
  have vacant : s.free.Perm s.vacant := by
    apply (List.perm_ext_iff_of_nodup h.freeDistinct s.nodup_vacant).2
    intro i
    rw [mem_vacant, h.free]
  have fromHead : Placed s.slots ([] ++ items) := h.placed
  have fromTail : Placed s.slots (items ++ []) := by
    rw [List.append_nil]
    exact h.placed
  refine ⟨?_, ?_, ?_, ?_, occupied, vacant, ?_⟩
  · rw [h.head]
    exact fromHead.leads_next
  · rw [h.tail]
    exact fromTail.leads_prev
  · rw [h.head, List.head?_map]
  · rw [h.tail, List.getLast?_map]
  · rw [h.len, ← occupied.length_eq, List.length_map]

theorem Holds.size_eq (h : s.Holds items) : s.slots.size = s.len + s.free.length := by
  rw [h.wellFormed.len, h.wellFormed.vacant.length_eq, length_occupied_add_vacant]

end CacheNode.SlotList
