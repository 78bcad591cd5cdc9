import CacheNode.SlotList.Basic

/-!
# What linking and unlinking do to each slot

Every write of `linkFront` and `unlink` is described slot by slot, so that later proofs do not open
the two functions again.
-/

namespace CacheNode.SlotList

variable {α : Type u}

def content? (s : SlotList α) (i : Nat) : Option (Option α) := s.slots[i]?.map (·.value)

theorem get?_eq_some_iff_content (s : SlotList α) (i : Nat) (a : α) :
    s.get? i = some a ↔ s.content? i = some (some a) := by
  unfold get? content?
  cases s.slots[i]? <;> simp

theorem getElem?_linkFront (s : SlotList α) {i : Nat} (apart : s.head ≠ some i) (j : Nat) :
    (s.linkFront i).slots[j]? = s.slots[j]?.map fun slot =>
      if j = i then { slot with prev := none, next := s.head }
      else if s.head = some j then { slot with prev := some i }
      else slot := by
  unfold linkFront
  cases first : s.head with
  | none =>
      by_cases here : i = j
      · simp [Array.getElem?_modify, here]
      · simp [Array.getElem?_modify, here, Ne.symm here]
  | some h =>
      have other : h ≠ i := fun same => apart (by rw [first, same])
      by_cases here : i = j
      · subst here
        simp [Array.getElem?_modify, other]
      · by_cases front : h = j
        · subst front
          simp [Array.getElem?_modify, here, other]
        · simp [Array.getElem?_modify, here, front, Ne.symm here]

theorem head_linkFront (s : SlotList α) (i : Nat) : (s.linkFront i).head = some i := by
  unfold linkFront
  cases s.head <;> rfl

theorem tail_linkFront (s : SlotList α) (i : Nat) :
    (s.linkFront i).tail = if s.head = none then some i else s.tail := by
  unfold linkFront
  cases s.head <;> rfl

@[simp] theorem free_linkFront (s : SlotList α) (i : Nat) : (s.linkFront i).free = s.free := by
  unfold linkFront
  cases s.head <;> rfl

@[simp] theorem len_linkFront (s : SlotList α) (i : Nat) : (s.linkFront i).len = s.len := by
  unfold linkFront
  cases s.head <;> rfl

@[simp] theorem size_linkFront (s : SlotList α) (i : Nat) :
    (s.linkFront i).slots.size = s.slots.size := by
  unfold linkFront
  cases s.head <;> simp

theorem content?_linkFront (s : SlotList α) {i : Nat} (apart : s.head ≠ some i) (j : Nat) :
    (s.linkFront i).content? j = s.content? j := by
  unfold content?
  rw [getElem?_linkFront s apart]
  cases s.slots[j]? with
  | none => rfl
  | some slot =>
      simp only [Option.map_some]
      split
      · rfl
      · split <;> rfl

theorem getElem?_unlink (s : SlotList α) {i : Nat} {slot : Slot α} (here : s.slots[i]? = some slot)
    (before : slot.prev ≠ some i) (after : slot.next ≠ some i) (j : Nat) :
    (s.unlink i).slots[j]? = s.slots[j]?.map fun q =>
      if j = i then { q with prev := none, next := none }
      else
        { q with
          next := if slot.prev = some j then slot.next else q.next
          prev := if slot.next = some j then slot.prev else q.prev } := by
  obtain ⟨v, p, n⟩ := slot
  unfold unlink
  simp only [here]
  cases at_j : s.slots[j]? with
  | none => cases p <;> cases n <;> simp [Array.getElem?_modify, at_j]
  | some q =>
      obtain ⟨w, q, r⟩ := q
      cases p <;> cases n <;> simp only [Array.getElem?_modify, at_j] <;> grind

theorem head_unlink (s : SlotList α) {i : Nat} {slot : Slot α} (here : s.slots[i]? = some slot) :
    (s.unlink i).head = if slot.prev = none then slot.next else s.head := by
  obtain ⟨v, p, n⟩ := slot
  unfold unlink
  simp only [here]
  cases p <;> cases n <;> rfl

theorem tail_unlink (s : SlotList α) {i : Nat} {slot : Slot α} (here : s.slots[i]? = some slot) :
    (s.unlink i).tail = if slot.next = none then slot.prev else s.tail := by
  obtain ⟨v, p, n⟩ := slot
  unfold unlink
  simp only [here]
  cases p <;> cases n <;> rfl

@[simp] theorem free_unlink (s : SlotList α) (i : Nat) : (s.unlink i).free = s.free := by
  unfold unlink
  cases s.slots[i]? with
  | none => rfl
  | some slot =>
      obtain ⟨v, p, n⟩ := slot
      cases p <;> cases n <;> rfl

@[simp] theorem len_unlink (s : SlotList α) (i : Nat) : (s.unlink i).len = s.len := by
  unfold unlink
  cases s.slots[i]? with
  | none => rfl
  | some slot =>
      obtain ⟨v, p, n⟩ := slot
      cases p <;> cases n <;> rfl

@[simp] theorem size_unlink (s : SlotList α) (i : Nat) :
    (s.unlink i).slots.size = s.slots.size := by
  unfold unlink
  cases s.slots[i]? with
  | none => rfl
  | some slot =>
      obtain ⟨v, p, n⟩ := slot
      cases p <;> cases n <;> simp

theorem content?_unlink (s : SlotList α) {i : Nat} {slot : Slot α} (here : s.slots[i]? = some slot)
    (before : slot.prev ≠ some i) (after : slot.next ≠ some i) (j : Nat) :
    (s.unlink i).content? j = s.content? j := by
  unfold content?
  rw [getElem?_unlink s here before after]
  cases s.slots[j]? with
  | none => rfl
  | some q =>
      simp only [Option.map_some]
      split <;> rfl

end CacheNode.SlotList
