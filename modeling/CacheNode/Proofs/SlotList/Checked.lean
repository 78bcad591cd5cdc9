import CacheNode.Proofs.SlotList.SlotUse
import Mathlib.Data.List.Infix

/-!
# Slots are found where the links lead

The operations of a slot list once more, with every access to a slot checked, and no check fails:
`wellFormed_every_run`.
-/

namespace CacheNode.SlotList

variable {α : Type u}

/-- Where a link is a machine word, this number stands for no slot. -/
def noSlot : Nat := UInt64.size - 1

def modify? (slots : Array (Slot α)) (i : Nat) (f : Slot α → Slot α) :
    Option (Array (Slot α)) :=
  if i < slots.size then some (slots.modify i f) else none

def checkedLinkFront (s : SlotList α) (i : Nat) : Option (SlotList α) := do
  let slots ← modify? s.slots i fun slot => { slot with prev := none, next := s.head }
  match s.head with
  | none => return { s with slots, head := some i, tail := some i }
  | some h =>
      let slots ← modify? slots h fun slot => { slot with prev := some i }
      return { s with slots, head := some i }

def checkedUnlink (s : SlotList α) (i : Nat) : Option (SlotList α) := do
  let slot ← s.slots[i]?
  let s ← match slot.prev with
    | none => some { s with head := slot.next }
    | some p => (modify? s.slots p fun q => { q with next := slot.next }).map fun slots =>
        { s with slots }
  let s ← match slot.next with
    | none => some { s with tail := slot.prev }
    | some n => (modify? s.slots n fun q => { q with prev := slot.prev }).map fun slots =>
        { s with slots }
  let slots ← modify? s.slots i fun q => { q with prev := none, next := none }
  return { s with slots }

def checkedPushFront (s : SlotList α) (a : α) : Option (SlotList α × Nat) := do
  let (t, i) ← match s.free with
    | i :: free => (modify? s.slots i fun _ => { value := some a }).map fun slots =>
        ({ s with slots, free }, i)
    | [] => some ({ s with slots := s.slots.push { value := some a } }, s.slots.size)
  if i < noSlot ∧ s.len < noSlot then
    let t ← t.checkedLinkFront i
    return ({ t with len := s.len + 1 }, i)
  else none

def checkedMoveToFront (s : SlotList α) (i : Nat) : Option (SlotList α) :=
  if (s.get? i).isNone || s.head == some i then some s
  else (s.checkedUnlink i).bind fun s => s.checkedLinkFront i

def checkedRemove (s : SlotList α) (i : Nat) : Option (SlotList α × Option α) :=
  match s.get? i with
  | none => some (s, none)
  | some a => do
      let s := { s with slots := s.slots.modify i fun slot => { slot with value := none } }
      let s ← s.checkedUnlink i
      if 0 < s.len then return ({ s with free := i :: s.free, len := s.len - 1 }, some a)
      else none

def checkedPopBack (s : SlotList α) : Option (SlotList α × Option α) :=
  match s.back? with
  | none => some (s, none)
  | some i => s.checkedRemove i

def checkedItems (s : SlotList α) : Nat → Option Nat → Option (List α)
  | _, none => some []
  | 0, some _ => none
  | fuel + 1, some i => do
      let slot ← s.slots[i]?
      let a ← slot.value
      let rest ← s.checkedItems fuel slot.next
      return a :: rest

def checkedStep (s : SlotList α) : Command α → Option (SlotList α × Reply α)
  | .push a => (s.checkedPushFront a).map fun (s, i) => (s, .index i)
  | .front i => (s.checkedMoveToFront i).map fun s => (s, .done)
  | .remove i => (s.checkedRemove i).map fun (s, a) => (s, .value? a)
  | .pop => s.checkedPopBack.map fun (s, a) => (s, .value? a)
  | .items => (s.checkedItems s.len s.head).map fun as => (s, .items as)
  | .get i => some (s, .value? (s.get? i))
  | .set i a => some (s.set i a, .value? (s.get? i))
  | .back => some (s, .index? s.back?)
  | .len => some (s, .count s.len)
  | .isEmpty => some (s, .flag s.isEmpty)
  | .clear => some (s.clear, .done)

def checkedRun (s : SlotList α) : List (Command α) → Option (SlotList α × List (Reply α))
  | [] => some (s, [])
  | command :: commands => do
      let (s, reply) ← s.checkedStep command
      let (s, replies) ← s.checkedRun commands
      return (s, reply :: replies)

variable {s : SlotList α} {m : Handles α} {items before after : List (Nat × α)} {i : Nat} {a : α}
  {slot : Slot α}

/-! ## Links -/

theorem modify?_eq {slots : Array (Slot α)} (inside : i < slots.size) (f : Slot α → Slot α) :
    modify? slots i f = some (slots.modify i f) := if_pos inside

theorem modify_const (slots : Array (Slot α)) (i : Nat) (slot : Slot α) :
    (slots.modify i fun _ => slot) = slots.setIfInBounds i slot := by
  apply Array.ext_getElem?
  intro j
  grind

theorem checkedLinkFront_eq (inside : i < s.slots.size) (front : ∀ h ∈ s.head, h < s.slots.size) :
    s.checkedLinkFront i = some (s.linkFront i) := by
  unfold checkedLinkFront linkFront
  cases head : s.head with
  | none => simp [modify?_eq inside]
  | some h =>
      have reaches : h < s.slots.size := front h head
      simp [modify?, inside, reaches]

theorem checkedUnlink_eq (here : s.slots[i]? = some slot)
    (prev : ∀ p ∈ slot.prev, p < s.slots.size) (next : ∀ n ∈ slot.next, n < s.slots.size) :
    s.checkedUnlink i = some (s.unlink i) := by
  have inside : i < s.slots.size := (Array.getElem?_eq_some_iff.1 here).1
  obtain ⟨value, p, n⟩ := slot
  unfold checkedUnlink unlink
  cases p <;> cases n <;> simp_all [modify?]

theorem Holds.link_lt (h : s.Holds items) {item? : Option (Nat × α)}
    (held : ∀ item ∈ item?, item ∈ items) : ∀ j ∈ item?.map (·.1), j < s.slots.size := by
  intro j mem
  obtain ⟨⟨i, a⟩, there, rfl⟩ := Option.map_eq_some_iff.1 mem
  exact h.lt_size (held (i, a) there)

theorem Holds.head_lt (h : s.Holds items) : ∀ j ∈ s.head, j < s.slots.size := by
  rw [h.head]
  apply h.link_lt
  intro item first
  exact List.mem_of_head? first

theorem Holds.prev_lt (h : s.Holds (before ++ (i, a) :: after)) :
    ∀ j ∈ before.getLast?.map (·.1), j < s.slots.size := by
  apply h.link_lt
  intro item last
  exact List.mem_append_left _ (List.mem_of_getLast? last)

theorem Holds.next_lt (h : s.Holds (before ++ (i, a) :: after)) :
    ∀ j ∈ after.head?.map (·.1), j < s.slots.size := by
  apply h.link_lt
  intro item first
  exact List.mem_append_right _ (List.mem_cons_of_mem _ (List.mem_of_head? first))

/-! ## Items -/

theorem Holds.checkedPushFront_eq (h : s.Holds items) (a : α)
    (index : (s.pushFront a).2 < noSlot) (room : s.len < noSlot) :
    s.checkedPushFront a = some (s.pushFront a) := by
  unfold checkedPushFront SlotList.pushFront at *
  cases vacant : s.free with
  | nil =>
      simp only [vacant] at index
      have linked := checkedLinkFront_eq (i := s.slots.size)
        (s := { s with slots := s.slots.push { value := some a }, free := [] }) (by simp)
        fun j mem => by simpa using Nat.lt_succ_of_lt (h.head_lt j mem)
      simp_all
  | cons i free =>
      simp only [vacant] at index
      have empty := (h.free i).1 (by simp [vacant])
      have inside : i < s.slots.size := ((s.content?_eq_some_none_iff i).1 empty).1
      have linked := checkedLinkFront_eq (i := i)
        (s := { s with slots := s.slots.setIfInBounds i { value := some a }, free })
        (by simpa using inside) fun j mem => by simpa using h.head_lt j mem
      simp_all [modify?, modify_const]

theorem Holds.checkedMoveToFront_eq (h : s.Holds items) (i : Nat) :
    s.checkedMoveToFront i = some (s.moveToFront i) := by
  unfold checkedMoveToFront SlotList.moveToFront
  split
  · rfl
  · rename_i moves
    obtain ⟨a, there⟩ : ∃ a, s.get? i = some a := by
      cases found : s.get? i <;> simp_all
    obtain ⟨before, after, rfl⟩ := List.append_of_mem (h.get?_eq_some_iff.1 there)
    have here := h.placed before i a after rfl
    rw [checkedUnlink_eq here h.prev_lt h.next_lt, Option.bind_some]
    apply checkedLinkFront_eq
    · simpa using h.lt_size (List.mem_append_right before List.mem_cons_self)
    · rw [head_unlink_of_placed here h.head, size_unlink]
      apply h.link_lt
      intro item first
      have mem := List.mem_of_head? first
      simp only [List.mem_append, List.mem_cons] at mem ⊢
      tauto

theorem Holds.checkedRemove_eq (h : s.Holds items) (i : Nat) :
    s.checkedRemove i = some (s.remove i) := by
  unfold checkedRemove SlotList.remove
  cases found : s.get? i with
  | none => rfl
  | some a =>
      obtain ⟨before, after, rfl⟩ := List.append_of_mem (h.get?_eq_some_iff.1 found)
      have here := h.placed before i a after rfl
      have emptied : (s.slots.modify i fun slot => { slot with value := none })[i]? =
          some ⟨none, before.getLast?.map (·.1), after.head?.map (·.1)⟩ := by
        simp [Array.getElem?_modify, here]
      have unlinked := checkedUnlink_eq (i := i)
        (s := { s with slots := s.slots.modify i fun slot => { slot with value := none } })
        emptied (by simpa using h.prev_lt) (by simpa using h.next_lt)
      have held : 0 < s.len := by
        rw [h.len]
        exact List.length_pos_of_mem (List.mem_append_right before List.mem_cons_self)
      simp_all

theorem Holds.checkedPopBack_eq (h : s.Holds items) : s.checkedPopBack = some s.popBack := by
  unfold checkedPopBack SlotList.popBack
  cases s.back? with
  | none => rfl
  | some i => exact h.checkedRemove_eq i

theorem Holds.checkedItems_eq (h : s.Holds (before ++ after)) :
    s.checkedItems after.length (after.head?.map (·.1)) = some (after.map (·.2)) := by
  induction after generalizing before with
  | nil => rfl
  | cons item after ih =>
      obtain ⟨i, a⟩ := item
      have moved : s.Holds ((before ++ [(i, a)]) ++ after) := by simpa using h
      have rest := ih moved
      have here := h.placed before i a after rfl
      simp [checkedItems, here, rest]

theorem Holds.checkedItems_head (h : s.Holds items) :
    s.checkedItems s.len s.head = some s.toList := by
  have whole : s.Holds ([] ++ items) := h
  rw [h.len, h.head, h.toList_eq]
  exact whole.checkedItems_eq

/-! ## Runs -/

theorem Models.checkedStep_eq (h : s.Models m) (command : Command α)
    (size : (s.step command).1.slots.size ≤ noSlot) (len : (s.step command).1.len ≤ noSlot) :
    s.checkedStep command = some (s.step command) := by
  have holds := h.holds
  cases command with
  | push a =>
      have index : (s.pushFront a).2 < noSlot :=
        Nat.lt_of_lt_of_le (holds.index_pushFront_lt a) size
      have room : s.len < noSlot := by
        change (s.pushFront a).1.len ≤ noSlot at len
        rw [s.len_pushFront] at len
        exact len
      simp [checkedStep, SlotList.step, holds.checkedPushFront_eq a index room]
  | front i => simp [checkedStep, SlotList.step, holds.checkedMoveToFront_eq i]
  | remove i => simp [checkedStep, SlotList.step, holds.checkedRemove_eq i]
  | pop => simp [checkedStep, SlotList.step, holds.checkedPopBack_eq]
  | items => simp [checkedStep, SlotList.step, holds.checkedItems_head]
  | _ => rfl

theorem noSlot_pos : 0 < noSlot := by decide

theorem Models.checkedRun_eq (h : s.Models m) (commands : List (Command α))
    (size : s.slots.size < noSlot)
    (held : ∀ first, first <+: commands → (s.run first).1.len < noSlot) :
    s.checkedRun commands = some (s.run commands) := by
  induction commands generalizing s m with
  | nil => rfl
  | cons command commands ih =>
      have len : (s.step command).1.len < noSlot := held [command] (by simp)
      have size' : (s.step command).1.slots.size < noSlot := by
        cases cleared : command.isClear with
        | true =>
            cases command with
            | clear => exact noSlot_pos
            | _ => cases cleared
        | false =>
            rw [h.size_step cleared]
            exact Nat.max_lt.2 ⟨size, len⟩
      have first := h.checkedStep_eq command (Nat.le_of_lt size') (Nat.le_of_lt len)
      have rest := ih (h.step command).1 size' fun part start =>
        held (command :: part) (by simpa using start)
      simp [checkedRun, SlotList.run, first, rest]

theorem wellFormed_every_run (capacity : Nat) (made : withCapacity capacity = .ok s)
    (commands : List (Command α)) :
    let t := (s.run commands).1
    (∃ places, t.WellFormed places ∧ t.toList.map some = places.map t.get?) ∧
      t.checkedItems t.len t.head = some t.toList ∧ t.toList.length = t.len ∧
      (t.head = none ↔ t.len = 0) ∧ (t.tail = none ↔ t.len = 0) ∧ (t.back? = none ↔ t.len = 0) ∧
      ((∀ first, first <+: commands → (s.run first).1.len < noSlot) →
        s.checkedRun commands = some (s.run commands)) := by
  obtain rfl := eq_empty_of_withCapacity made
  intro t
  have holds := (models_empty.run commands).1.holds
  change t.Holds _ at holds
  refine ⟨⟨_, holds.wellFormed, ?_⟩, holds.checkedItems_head, ?_, ?_, ?_, ?_, ?_⟩
  · rw [holds.toList_eq, List.map_map, List.map_map]
    apply List.map_congr_left
    intro item mem
    exact (holds.get?_eq_some_iff.2 mem).symm
  · rw [holds.toList_eq, holds.len, List.length_map]
  · simp [holds.head, holds.len]
  · simp [holds.tail, holds.len]
  · simp [back?, holds.tail, holds.len]
  · exact models_empty.checkedRun_eq commands noSlot_pos

theorem wellFormed_after_reuse :
    let s : SlotList Nat := {}
    let commands : List (Command Nat) :=
      [.push 10, .push 11, .push 12, .remove 1, .remove 1, .front 0, .push 13, .front 9, .pop,
        .items]
    let t := (s.run commands).1
    withCapacity 2 = .ok s ∧ (∀ first, first <+: commands → (s.run first).1.len < noSlot) ∧
      (∃ places, t.WellFormed places ∧ [some 13, some 10] = places.map t.get?) ∧
      t.checkedItems 2 (some 1) = some [13, 10] ∧
      s.checkedRun commands = some (s.run commands) := by
  intro s commands t
  have made : withCapacity 2 = .ok s := if_pos (by decide)
  have held : ∀ first, first <+: commands → (s.run first).1.len < noSlot := by
    have each : ∀ first ∈ commands.inits, (s.run first).1.len < noSlot := by decide +kernel
    intro first start
    exact each first ((List.mem_inits first commands).2 start)
  have shown : t.toList = [13, 10] := by decide +kernel
  have ends : t.len = 2 ∧ t.head = some 1 := by decide +kernel
  obtain ⟨⟨places, shaped, met⟩, items, -, -, -, -, checked⟩ := wellFormed_every_run 2 made commands
  change t.toList.map some = places.map t.get? at met
  change t.checkedItems t.len t.head = some t.toList at items
  rw [shown] at met
  rw [shown, ends.1, ends.2] at items
  exact ⟨made, held, ⟨places, shaped, met⟩, items, checked held⟩

end CacheNode.SlotList
