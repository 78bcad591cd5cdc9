import CacheNode.Proofs.SlotList.Operations
import CacheNode.SlotList.Command
import CacheNode.Table
import Mathlib.Data.List.Induction

/-!
# Items under lasting indices

A slot list answers what a plain list of items with their indices answers (`Handles`), in which
neither slots nor links show: `answers_eq_handles`.
-/

namespace CacheNode.SlotList

variable {α : Type u}

structure Handles (α : Type u) where
  items : List (Nat × α) := []
  /-- The indices given up, the last one first. -/
  freed : List Nat := []
  slots : Nat := 0

namespace Handles

def get? (m : Handles α) (i : Nat) : Option α :=
  (m.items.find? fun item => item.1 = i).map (·.2)

def others (m : Handles α) (i : Nat) : List (Nat × α) := m.items.filter fun item => item.1 ≠ i

def push (m : Handles α) (a : α) : Handles α × Nat :=
  match m.freed with
  | i :: freed => ({ m with items := (i, a) :: m.items, freed }, i)
  | [] => ({ m with items := (m.slots, a) :: m.items, slots := m.slots + 1 }, m.slots)

def set (m : Handles α) (i : Nat) (a : α) : Handles α :=
  { m with items := m.items.map fun item => if item.1 = i then (i, a) else item }

def front (m : Handles α) (i : Nat) : Handles α :=
  match m.get? i with
  | none => m
  | some a => { m with items := (i, a) :: m.others i }

def remove (m : Handles α) (i : Nat) : Handles α × Option α :=
  match m.get? i with
  | none => (m, none)
  | some a => ({ m with items := m.others i, freed := i :: m.freed }, some a)

def pop (m : Handles α) : Handles α × Option α :=
  match m.items.getLast? with
  | none => (m, none)
  | some (i, a) => ({ m with items := m.items.dropLast, freed := i :: m.freed }, some a)

def step (m : Handles α) : Command α → Handles α × Reply α
  | .push a => let (m, i) := m.push a; (m, .index i)
  | .get i => (m, .value? (m.get? i))
  | .set i a => (m.set i a, .value? (m.get? i))
  | .front i => (m.front i, .done)
  | .remove i => let (m, a) := m.remove i; (m, .value? a)
  | .pop => let (m, a) := m.pop; (m, .value? a)
  | .back => (m, .index? (m.items.getLast?.map (·.1)))
  | .len => (m, .count m.items.length)
  | .isEmpty => (m, .flag m.items.isEmpty)
  | .items => (m, .items (m.items.map (·.2)))
  | .clear => ({}, .done)

def run (m : Handles α) : List (Command α) → Handles α × List (Reply α)
  | [] => (m, [])
  | c :: cs =>
      let (m, r) := m.step c
      let (m, rs) := m.run cs
      (m, r :: rs)

end Handles

structure Models (s : SlotList α) (m : Handles α) : Prop where
  holds : s.Holds m.items
  freed : s.free = m.freed
  slots : s.slots.size = m.slots

variable {s : SlotList α} {m : Handles α} {items before after : List (Nat × α)} {i : Nat} {a : α}

theorem models_empty : ({} : SlotList α).Models {} := ⟨holds_empty, rfl, rfl⟩

/-! ## What an operation leaves of the slots -/

theorem pushFront_of_free_nil (vacant : s.free = []) (a : α) :
    (s.pushFront a).2 = s.slots.size ∧ (s.pushFront a).1.free = [] ∧
      (s.pushFront a).1.slots.size = s.slots.size + 1 := by
  simp [pushFront, vacant]

theorem pushFront_of_free_cons {free : List Nat} (vacant : s.free = i :: free) (a : α) :
    (s.pushFront a).2 = i ∧ (s.pushFront a).1.free = free ∧
      (s.pushFront a).1.slots.size = s.slots.size := by
  simp [pushFront, vacant]

theorem slots_moveToFront (s : SlotList α) (i : Nat) :
    (s.moveToFront i).free = s.free ∧ (s.moveToFront i).slots.size = s.slots.size := by
  unfold moveToFront
  split <;> simp

theorem slots_remove (present : s.get? i = some a) :
    (s.remove i).1.free = i :: s.free ∧ (s.remove i).1.slots.size = s.slots.size := by
  simp [remove, present]

theorem slots_set (s : SlotList α) (i : Nat) (a : α) :
    (s.set i a).free = s.free ∧ (s.set i a).slots.size = s.slots.size := by
  simp [set]

theorem set_of_get?_eq_none (absent : s.get? i = none) (a : α) : s.set i a = s := by
  have same : (s.slots.modify i fun slot => { slot with value := slot.value.map fun _ => a }) =
      s.slots := by
    apply Array.ext_getElem?
    intro j
    rw [Array.getElem?_modify]
    split
    · rename_i here
      subst here
      cases at_i : s.slots[i]? with
      | none => rfl
      | some slot =>
          obtain ⟨value, prev, next⟩ := slot
          obtain rfl : value = none := by simpa [get?, at_i] using absent
          rfl
    · rfl
  rw [set, same]

/-! ## Items apart from one -/

theorem filter_ne_of_split (distinct : ((before ++ (i, a) :: after).map (·.1)).Nodup) :
    ((before ++ (i, a) :: after).filter fun item => item.1 ≠ i) = before ++ after := by
  have first : (before.filter fun item => item.1 ≠ i) = before :=
    List.filter_eq_self.2 fun item mem => by simpa using ne_of_mem_before distinct mem
  have last : (after.filter fun item => item.1 ≠ i) = after :=
    List.filter_eq_self.2 fun item mem => by simpa using ne_of_mem_after distinct mem
  rw [List.filter_append, List.filter_cons_of_neg (by simp), first, last]

theorem map_set_of_split (distinct : ((before ++ (i, a) :: after).map (·.1)).Nodup) (b : α) :
    ((before ++ (i, a) :: after).map fun item => if item.1 = i then (i, b) else item) =
      before ++ (i, b) :: after := by
  have kept : ∀ part : List (Nat × α), (∀ item ∈ part, item.1 ≠ i) →
      (part.map fun item => if item.1 = i then (i, b) else item) = part := by
    intro part apart
    exact (List.map_congr_left fun item mem => if_neg (apart item mem)).trans (List.map_id part)
  rw [List.map_append, List.map_cons, kept before fun item mem => ne_of_mem_before distinct mem,
    kept after fun item mem => ne_of_mem_after distinct mem, if_pos rfl]

/-! ## One command -/

theorem Models.mem_iff (h : s.Models m) : m.get? i = some a ↔ (i, a) ∈ m.items :=
  Table.get?_eq_some_iff ⟨m.items, h.holds.distinct⟩ i a

theorem Models.get?_eq (h : s.Models m) (i : Nat) : s.get? i = m.get? i := by
  apply Option.ext
  intro a
  rw [h.holds.get?_eq_some_iff, h.mem_iff]

theorem Models.split (h : s.Models m) (present : m.get? i = some a) :
    ∃ before after, s.Holds (before ++ (i, a) :: after) ∧ m.others i = before ++ after ∧
      ∀ b, (m.set i b).items = before ++ (i, b) :: after := by
  obtain ⟨before, after, same⟩ := List.append_of_mem (h.mem_iff.1 present)
  have holds := h.holds
  rw [same] at holds
  refine ⟨before, after, holds, ?_, fun b => ?_⟩
  · rw [Handles.others, same, filter_ne_of_split holds.distinct]
  · rw [Handles.set, same, map_set_of_split holds.distinct]

theorem Models.push (h : s.Models m) (a : α) :
    (s.pushFront a).1.Models (m.push a).1 ∧ (s.pushFront a).2 = (m.push a).2 := by
  have holds := h.holds.pushFront a
  unfold Handles.push
  cases vacant : m.freed with
  | nil =>
      obtain ⟨index, freed, size⟩ := pushFront_of_free_nil (h.freed.trans vacant) a
      rw [index, h.slots] at holds
      rw [h.slots] at index size
      exact ⟨⟨holds, freed, size⟩, index⟩
  | cons i rest =>
      obtain ⟨index, freed, size⟩ := pushFront_of_free_cons (h.freed.trans vacant) a
      rw [index] at holds
      exact ⟨⟨holds, freed, size.trans h.slots⟩, index⟩

theorem Models.front (h : s.Models m) (i : Nat) : (s.moveToFront i).Models (m.front i) := by
  unfold Handles.front
  cases found : m.get? i with
  | none =>
      have absent := (h.get?_eq i).trans found
      have still : s.moveToFront i = s := by simp [moveToFront, absent]
      rw [still]
      exact h
  | some a =>
      obtain ⟨before, after, holds, rest, -⟩ := h.split found
      obtain ⟨freed, size⟩ := slots_moveToFront s i
      refine ⟨?_, freed.trans h.freed, size.trans h.slots⟩
      rw [rest]
      exact holds.moveToFront

theorem Models.remove (h : s.Models m) (i : Nat) :
    (s.remove i).1.Models (m.remove i).1 ∧ (s.remove i).2 = (m.remove i).2 := by
  unfold Handles.remove
  cases found : m.get? i with
  | none =>
      have absent := (h.get?_eq i).trans found
      have still : s.remove i = (s, none) := by simp [SlotList.remove, absent]
      rw [still]
      exact ⟨h, rfl⟩
  | some a =>
      obtain ⟨before, after, holds, rest, -⟩ := h.split found
      obtain ⟨removed, held⟩ := holds.remove
      obtain ⟨freed, size⟩ := slots_remove ((h.get?_eq i).trans found)
      refine ⟨⟨?_, freed.trans (congrArg (i :: ·) h.freed), size.trans h.slots⟩, removed⟩
      rw [rest]
      exact held

theorem Models.set (h : s.Models m) (i : Nat) (b : α) : (s.set i b).Models (m.set i b) := by
  cases found : m.get? i with
  | none =>
      -- no item has this index, so the list of items stays as it is too
      have still : m.set i b = m := by
        have apart : ∀ item ∈ m.items, item.1 ≠ i := by
          rintro ⟨j, a⟩ mem rfl
          rw [h.mem_iff.2 mem] at found
          cases found
        have same := List.map_congr_left fun item mem =>
          (if_neg (apart item mem) : (if item.1 = i then (i, b) else item) = item)
        rw [Handles.set, same, List.map_id']
      rw [still, set_of_get?_eq_none ((h.get?_eq i).trans found)]
      exact h
  | some a =>
      obtain ⟨before, after, holds, -, replaced⟩ := h.split found
      obtain ⟨freed, size⟩ := slots_set s i b
      refine ⟨?_, freed.trans h.freed, size.trans h.slots⟩
      rw [replaced]
      exact holds.set b

theorem Models.pop (h : s.Models m) :
    s.popBack.1.Models m.pop.1 ∧ s.popBack.2 = m.pop.2 := by
  obtain ⟨items, freed, slots⟩ := m
  unfold Handles.pop
  cases items using List.reverseRecOn with
  | nil =>
      rw [Holds.popBack_nil h.holds]
      exact ⟨h, rfl⟩
  | append_singleton rest last =>
      obtain ⟨i, a⟩ := last
      have tail : s.back? = some i := by simp [back?, h.holds.tail]
      have holds : s.Holds (rest ++ [(i, a)]) := h.holds
      obtain ⟨popped, held⟩ := holds.popBack
      obtain ⟨free, size⟩ := slots_remove (holds.get?_eq_some_iff.2 (by simp : (i, a) ∈ _))
      have made : s.popBack = s.remove i := by rw [popBack, tail]
      rw [← made] at free size
      simp only [List.getLast?_concat, List.dropLast_concat]
      exact ⟨⟨held, free.trans (congrArg (i :: ·) h.freed), size.trans h.slots⟩, popped⟩

theorem Models.step (h : s.Models m) (command : Command α) :
    (s.step command).1.Models (m.step command).1 ∧ (s.step command).2 = (m.step command).2 := by
  cases command with
  | push a =>
      obtain ⟨models, index⟩ := h.push a
      exact ⟨models, congrArg Reply.index index⟩
  | get i => exact ⟨h, congrArg Reply.value? (h.get?_eq i)⟩
  | set i a => exact ⟨h.set i a, congrArg Reply.value? (h.get?_eq i)⟩
  | front i => exact ⟨h.front i, rfl⟩
  | remove i =>
      obtain ⟨models, answer⟩ := h.remove i
      exact ⟨models, congrArg Reply.value? answer⟩
  | pop =>
      obtain ⟨models, answer⟩ := h.pop
      exact ⟨models, congrArg Reply.value? answer⟩
  | back => exact ⟨h, congrArg Reply.index? h.holds.tail⟩
  | len => exact ⟨h, congrArg Reply.count h.holds.len⟩
  | isEmpty =>
      have empty : s.isEmpty = m.items.isEmpty := by
        rw [isEmpty, h.holds.len]
        cases m.items <;> rfl
      exact ⟨h, congrArg Reply.flag empty⟩
  | items => exact ⟨h, congrArg Reply.items h.holds.toList_eq⟩
  | clear => exact ⟨models_empty, rfl⟩

/-! ## Whole runs -/

theorem Models.run (h : s.Models m) (commands : List (Command α)) :
    (s.run commands).1.Models (m.run commands).1 ∧ (s.run commands).2 = (m.run commands).2 := by
  induction commands generalizing s m with
  | nil => exact ⟨h, rfl⟩
  | cons command commands ih =>
      obtain ⟨models, answer⟩ := h.step command
      obtain ⟨last, answers⟩ := ih models
      exact ⟨last, congrArg₂ List.cons answer answers⟩

/-! ## One item through a run -/

def Command.takes (s : SlotList α) (i : Nat) : Command α → Bool
  | .remove j => j == i
  | .pop => s.back? == some i
  | .clear => true
  | _ => false

def keeps (s : SlotList α) (i : Nat) : List (Command α) → Bool
  | [] => true
  | command :: commands => !command.takes s i && (s.step command).1.keeps i commands

def Command.written (i : Nat) (a : α) : Command α → α
  | .set j b => if j = i then b else a
  | _ => a

theorem Models.mem_step (h : s.Models m) (mem : (i, a) ∈ m.items) (command : Command α)
    (stays : command.takes s i = false) : (i, command.written i a) ∈ (m.step command).1.items := by
  have apart : ∀ j ≠ i, (i, a) ∈ m.others j := fun j other =>
    List.mem_filter.2 ⟨mem, by simpa using Ne.symm other⟩
  cases command with
  | push b =>
      show (i, a) ∈ (m.push b).1.items
      unfold Handles.push
      cases m.freed <;> exact List.mem_cons_of_mem _ mem
  | set j b =>
      refine List.mem_map.2 ⟨(i, a), mem, ?_⟩
      by_cases here : i = j
      · simp [Command.written, here]
      · simp [Command.written, here, Ne.symm here]
  | front j =>
      show (i, a) ∈ (m.front j).items
      unfold Handles.front
      cases found : m.get? j with
      | none => exact mem
      | some b =>
          by_cases here : j = i
          · subst here
            obtain rfl : a = b := Option.some.inj ((h.mem_iff.2 mem).symm.trans found)
            exact List.mem_cons_self
          · exact List.mem_cons_of_mem _ (apart j here)
  | remove j =>
      show (i, a) ∈ (m.remove j).1.items
      unfold Handles.remove
      cases m.get? j with
      | none => exact mem
      | some b => exact apart j (by simpa [Command.takes] using stays)
  | pop =>
      show (i, a) ∈ m.pop.1.items
      obtain ⟨items, freed, slots⟩ := m
      unfold Handles.pop
      cases items using List.reverseRecOn with
      | nil => exact mem
      | append_singleton rest last =>
          have other : (i, a) ≠ last := by
            rintro rfl
            simp [Command.takes, back?, h.holds.tail] at stays
          simpa [other] using mem
  | clear => cases stays
  | get j => exact mem
  | back => exact mem
  | len => exact mem
  | isEmpty => exact mem
  | items => exact mem

theorem Models.get?_run (h : s.Models m) (mem : (i, a) ∈ m.items) (commands : List (Command α))
    (kept : s.keeps i commands = true) :
    (s.run commands).1.get? i = some (commands.foldl (Command.written i) a) := by
  induction commands generalizing s m a with
  | nil => exact h.holds.get?_eq_some_iff.2 mem
  | cons command commands ih =>
      simp only [keeps, Bool.and_eq_true, Bool.not_eq_true'] at kept
      exact ih (h.step command).1 (h.mem_step mem command kept.1) kept.2

theorem answers_eq_handles (capacity : Nat) (made : withCapacity capacity = .ok s)
    (commands : List (Command α)) :
    (s.run commands).2 = (({} : Handles α).run commands).2 ∧
      ∀ a later, let pushed := (s.run commands).1.pushFront a
        pushed.1.keeps pushed.2 later = true →
          (pushed.1.run later).1.get? pushed.2 =
            some (later.foldl (Command.written pushed.2) a) := by
  obtain rfl := eq_empty_of_withCapacity made
  obtain ⟨models, answers⟩ := (models_empty (α := α)).run commands
  refine ⟨answers, fun a later kept => ?_⟩
  obtain ⟨pushed, index⟩ := models.push a
  refine pushed.get?_run ?_ later kept
  rw [index]
  unfold Handles.push
  cases ((({} : Handles α).run commands).1).freed <;> exact List.mem_cons_self

/-- Indices 1 and 2 are given out again; the item under 2 is replaced and moved while others leave. -/
theorem answers_eq_handles_reused :
    let s : SlotList Nat := {}
    let commands : List (Command Nat) :=
      [.push 10, .push 11, .push 12, .remove 1, .remove 1, .front 7, .push 13, .front 0, .back,
        .pop, .set 2 0, .items]
    let later : List (Command Nat) := [.remove 1, .set 2 21, .push 14, .front 2, .pop, .remove 9]
    let pushed := (s.run commands).1.pushFront 20
    withCapacity 3 = .ok s ∧
      (s.run commands).2 =
        [.index 0, .index 1, .index 2, .value? (some 11), .value? none, .done, .index 1, .done,
          .index? (some 2), .value? (some 12), .value? none, .items [10, 13]] ∧
      pushed.2 = 2 ∧ pushed.1.keeps 2 later = true ∧ (pushed.1.run later).1.get? 2 = some 21 := by
  intro s commands later pushed
  have made : withCapacity 3 = .ok s := if_pos (by decide)
  have index : ((s.run commands).1.pushFront 20).2 = 2 := by decide +kernel
  have kept : ((s.run commands).1.pushFront 20).1.keeps 2 later = true := by decide +kernel
  obtain ⟨answers, names⟩ := answers_eq_handles 3 made commands
  have named := names 20 later
  simp only [index] at named
  exact ⟨made, answers.trans (by decide +kernel), index, kept, named kept⟩

end CacheNode.SlotList
