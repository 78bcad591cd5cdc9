import CacheNode.Proofs.SlotList.Handles
import CacheNode.Proofs.SlotList.WellFormed
import Mathlib.Order.Bounds.Basic

/-! # How many slots a list uses -/

namespace CacheNode.SlotList

variable {α : Type u} {s : SlotList α} {m : Handles α} {items : List (Nat × α)}
  {commands : List (Command α)} {command : Command α}

def Command.isClear : Command α → Bool
  | .clear => true
  | _ => false

/-- The numbers of items held, one for each moment of a run since the list was last cleared. -/
def heldSince (s : SlotList α) (commands : List (Command α)) : Set Nat :=
  {n | ∃ first rest, commands = first ++ rest ∧ (∀ command ∈ rest, command.isClear = false) ∧
    n = (s.run first).1.len}

theorem len_pushFront (s : SlotList α) (a : α) : (s.pushFront a).1.len = s.len + 1 := by
  unfold pushFront
  cases s.free <;> rfl

theorem size_remove (s : SlotList α) (i : Nat) : (s.remove i).1.slots.size = s.slots.size := by
  cases found : s.get? i with
  | none => simp [remove, found]
  | some a => exact (slots_remove found).2

theorem size_popBack (s : SlotList α) : s.popBack.1.slots.size = s.slots.size := by
  unfold popBack
  cases s.back? with
  | none => rfl
  | some i => exact s.size_remove i

theorem Holds.size_pushFront (h : s.Holds items) (a : α) :
    (s.pushFront a).1.slots.size = max s.slots.size (s.len + 1) := by
  have size := h.size_eq
  cases vacant : s.free with
  | nil =>
      obtain ⟨-, -, grown⟩ := pushFront_of_free_nil vacant a
      simp only [vacant, List.length_nil] at size
      omega
  | cons i free =>
      obtain ⟨-, -, kept⟩ := pushFront_of_free_cons vacant a
      simp only [vacant, List.length_cons] at size
      omega

theorem Holds.index_pushFront_lt (h : s.Holds items) (a : α) :
    (s.pushFront a).2 < (s.pushFront a).1.slots.size :=
  (h.pushFront a).lt_size List.mem_cons_self

theorem Models.size_step (h : s.Models m) (stays : command.isClear = false) :
    (s.step command).1.slots.size = max s.slots.size (s.step command).1.len := by
  have kept (same : (s.step command).1.slots.size = s.slots.size) :
      (s.step command).1.slots.size = max s.slots.size (s.step command).1.len := by
    have later := (h.step command).1.holds
    have fits := later.size_eq
    omega
  cases command with
  | push a =>
      show (s.pushFront a).1.slots.size = max s.slots.size (s.pushFront a).1.len
      rw [h.holds.size_pushFront, s.len_pushFront]
  | set i a => exact kept (slots_set s i a).2
  | front i => exact kept (slots_moveToFront s i).2
  | remove i => exact kept (s.size_remove i)
  | pop => exact kept s.size_popBack
  | clear => cases stays
  | get i => exact kept rfl
  | back => exact kept rfl
  | len => exact kept rfl
  | isEmpty => exact kept rfl
  | items => exact kept rfl

theorem state_run_append (s : SlotList α) (first second : List (Command α)) :
    (s.run (first ++ second)).1 = ((s.run first).1.run second).1 := by
  induction first generalizing s with
  | nil => rfl
  | cons command first ih => exact ih (s.step command).1

theorem state_run_concat (s : SlotList α) (commands : List (Command α)) (command : Command α) :
    (s.run (commands ++ [command])).1 = ((s.run commands).1.step command).1 :=
  s.state_run_append commands [command]

theorem heldSince_append {first rest : List (Command α)}
    (kept : ∀ command ∈ rest, command.isClear = false) :
    s.heldSince first ⊆ s.heldSince (first ++ rest) := by
  intro n held
  obtain ⟨before, after, rfl, uncleared, rfl⟩ := held
  refine ⟨before, after ++ rest, by simp, ?_, rfl⟩
  intro command mem
  rcases List.mem_append.1 mem with mem | mem
  · exact uncleared command mem
  · exact kept command mem

theorem len_mem_heldSince (s : SlotList α) (commands : List (Command α)) :
    (s.run commands).1.len ∈ s.heldSince commands :=
  ⟨commands, [], by simp, by simp, rfl⟩

theorem heldSince_nil (s : SlotList α) : s.heldSince [] = {s.len} := by
  ext n
  constructor
  · intro held
    obtain ⟨first, rest, whole, -, rfl⟩ := held
    obtain ⟨rfl, rfl⟩ := List.nil_eq_append_iff.1 whole
    rfl
  · rintro rfl
    exact s.len_mem_heldSince []

theorem heldSince_concat (s : SlotList α) (commands : List (Command α))
    (stays : command.isClear = false) :
    s.heldSince (commands ++ [command]) =
      insert (s.run (commands ++ [command])).1.len (s.heldSince commands) := by
  apply Set.Subset.antisymm
  · intro n held
    obtain ⟨first, rest, whole, uncleared, rfl⟩ := held
    cases rest using List.reverseRecOn with
    | nil =>
        left
        rw [whole, List.append_nil]
    | append_singleton rest last =>
        rw [← List.append_assoc] at whole
        obtain ⟨rfl, -⟩ := List.append_inj' whole rfl
        right
        exact ⟨first, rest, rfl, fun command mem => uncleared command (by simp [mem]), rfl⟩
  · apply Set.insert_subset
    · exact s.len_mem_heldSince _
    · apply heldSince_append
      simpa using stays

theorem heldSince_concat_clear (s : SlotList α) (commands : List (Command α)) :
    s.heldSince (commands ++ [.clear]) = {0} := by
  have emptied : (s.run (commands ++ [.clear])).1.len = 0 := by
    rw [state_run_concat]
    rfl
  apply Set.Subset.antisymm
  · intro n held
    obtain ⟨first, rest, whole, uncleared, rfl⟩ := held
    cases rest using List.reverseRecOn with
    | nil =>
        rw [List.append_nil] at whole
        rw [← whole, emptied]
        rfl
    | append_singleton rest last =>
        rw [← List.append_assoc] at whole
        obtain ⟨-, same⟩ := List.append_inj' whole rfl
        obtain rfl : Command.clear = last := by simpa using same
        have not_clear := uncleared .clear (by simp)
        cases not_clear
  · rintro n rfl
    rw [← emptied]
    exact s.len_mem_heldSince _

theorem isGreatest_heldSince (commands : List (Command α)) :
    IsGreatest (({} : SlotList α).heldSince commands)
      (({} : SlotList α).run commands).1.slots.size := by
  induction commands using List.reverseRecOn with
  | nil =>
      rw [heldSince_nil]
      exact isGreatest_singleton
  | append_singleton commands command ih =>
      cases cleared : command.isClear with
      | true =>
          cases command with
          | clear =>
              rw [heldSince_concat_clear, state_run_concat]
              exact isGreatest_singleton
          | _ => cases cleared
      | false =>
          have models := (models_empty.run commands).1
          rw [heldSince_concat _ _ cleared, state_run_concat, models.size_step cleared, max_comm]
          exact ih.insert _

theorem size_run_append_le (first : List (Command α)) {rest : List (Command α)}
    (kept : ∀ command ∈ rest, command.isClear = false) :
    (({} : SlotList α).run first).1.slots.size ≤
      (({} : SlotList α).run (first ++ rest)).1.slots.size :=
  (isGreatest_heldSince (first ++ rest)).2
    (heldSince_append kept (isGreatest_heldSince first).1)

end CacheNode.SlotList
