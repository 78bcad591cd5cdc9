import CacheNode.Proofs.SlotList.Holds
import Mathlib.Data.List.Nodup
import Mathlib.Tactic.Tauto

/-! # What the operations of a slot list do to its items -/

namespace CacheNode.SlotList

variable {α : Type u} {s : SlotList α} {items before after : List (Nat × α)} {i : Nat} {a : α}

theorem Holds.content?_eq (h : s.Holds items) (mem : (i, a) ∈ items) :
    s.content? i = some (some a) :=
  (get?_eq_some_iff_content s i a).1 (h.get?_eq_some_iff.2 mem)

theorem head_ne_of_fresh (head : s.head = items.head?.map (·.1)) (fresh : i ∉ items.map (·.1)) :
    s.head ≠ some i := by
  rw [head]
  intro same
  obtain ⟨item, first, rfl⟩ := Option.map_eq_some_iff.1 same
  exact fresh (List.mem_map_of_mem (List.mem_of_head? first))

theorem Holds.linkFront {t : SlotList α} (h : s.Holds items) (fresh : i ∉ items.map (·.1))
    (head : t.head = s.head) (tail : t.tail = s.tail)
    (slots : ∀ j, t.slots[j]? = if j = i then some { value := some a } else s.slots[j]?)
    (free : ∀ j, j ∈ t.free ↔ j ∈ s.free ∧ j ≠ i) (freeDistinct : t.free.Nodup) :
    ({ t.linkFront i with len := s.len + 1 } : SlotList α).Holds ((i, a) :: items) := by
  have apart : t.head ≠ some i := head_ne_of_fresh (head.trans h.head) fresh
  have placed : Placed t.slots items := by
    intro b j x c split
    have other : j ≠ i := fun same => fresh (by simp [split, same])
    rw [slots, if_neg other]
    exact h.placed b j x c split
  have content (j : Nat) : (t.linkFront i).content? j =
      if j = i then some (some a) else s.content? j := by
    rw [content?_linkFront t apart]
    unfold content?
    rw [slots]
    split <;> rfl
  refine ⟨?_, ?_, ?_, ?_, ?_, ?_, ?_, ?_⟩
  · exact placed_linkFront placed (head.trans h.head) fresh h.distinct (by rw [slots, if_pos rfl])
  · intro j x there
    have there : (t.linkFront i).content? j = some (some x) := there
    rw [content] at there
    split at there
    · rename_i same
      cases there
      simp [same]
    · exact List.mem_cons_of_mem _ (h.occupied j x there)
  · exact List.nodup_cons.2 ⟨fresh, h.distinct⟩
  · exact head_linkFront t i
  · exact tail_linkFront_of_placed (head.trans h.head) (tail.trans h.tail)
  · simp [h.len]
  · intro j
    have there := content j
    show j ∈ (t.linkFront i).free ↔ (t.linkFront i).content? j = some none
    rw [free_linkFront, free, h.free, there]
    split <;> simp_all
  · simpa using freeDistinct

theorem Holds.pushFront (h : s.Holds items) (a : α) :
    (s.pushFront a).1.Holds (((s.pushFront a).2, a) :: items) := by
  unfold SlotList.pushFront
  cases vacant : s.free with
  | nil =>
      have beyond : s.slots.size ∉ items.map (·.1) := by
        intro mem
        obtain ⟨⟨i, x⟩, held, same⟩ := List.mem_map.1 mem
        have inside := h.lt_size held
        simp only at same
        omega
      refine h.linkFront (t := { s with slots := s.slots.push { value := some a }, free := [] })
        beyond rfl rfl ?_ ?_ List.nodup_nil
      · intro j
        rw [Array.getElem?_push]
      · intro j
        simp [vacant]
  | cons i free =>
      have empty : s.content? i = some none := (h.free i).1 (by simp [vacant])
      have fresh : i ∉ items.map (·.1) := by
        intro mem
        obtain ⟨⟨i, x⟩, held, rfl⟩ := List.mem_map.1 mem
        rw [h.content?_eq held] at empty
        cases empty
      have inside : i < s.slots.size := by
        obtain ⟨slot, there, _⟩ := Option.map_eq_some_iff.1 empty
        exact (Array.getElem?_eq_some_iff.1 there).1
      have distinct := h.freeDistinct
      rw [vacant, List.nodup_cons] at distinct
      refine h.linkFront
        (t := { s with slots := s.slots.setIfInBounds i { value := some a }, free })
        fresh rfl rfl ?_ ?_ distinct.2
      · intro j
        rw [Array.getElem?_setIfInBounds]
        by_cases same : i = j
        · simp [← same, inside]
        · simp [same, Ne.symm same]
      · intro j
        simp only [vacant, List.mem_cons]
        constructor
        · intro mem
          exact ⟨.inr mem, fun same => distinct.1 (same ▸ mem)⟩
        · intro given
          obtain ⟨rfl | mem, other⟩ := given
          · exact absurd rfl other
          · exact mem

theorem Holds.distinct_apart (h : s.Holds (before ++ (i, a) :: after)) :
    i ∉ (before ++ after).map (·.1) ∧ ((before ++ after).map (·.1)).Nodup := by
  have distinct := h.distinct
  simp only [List.map_append, List.map_cons, List.nodup_middle, List.nodup_cons] at distinct
  simpa only [List.map_append] using distinct

theorem Holds.moveToFront (h : s.Holds (before ++ (i, a) :: after)) :
    (s.moveToFront i).Holds ((i, a) :: (before ++ after)) := by
  have here := h.placed before i a after rfl
  have prev_ne := last_ne h.distinct
  have next_ne := first_ne h.distinct
  obtain ⟨fresh, distinct⟩ := h.distinct_apart
  unfold SlotList.moveToFront
  simp only [h.get?_eq_some_iff.2 (List.mem_append_right before List.mem_cons_self),
    Option.isNone_some, Bool.false_or, beq_iff_eq]
  split
  · rename_i front
    cases before with
    | nil => exact h
    | cons y before =>
        have first : y.1 = i := by simpa [h.head] using front
        exact absurd first (ne_of_mem_before h.distinct List.mem_cons_self)
  · have placed := placed_unlink h.distinct here fun b j x c split _ => h.placed b j x c split
    have head := head_unlink_of_placed here h.head
    have tail := tail_unlink_of_placed here h.tail
    have apart : (s.unlink i).head ≠ some i := head_ne_of_fresh head fresh
    have content (j : Nat) : ((s.unlink i).linkFront i).content? j = s.content? j := by
      rw [content?_linkFront _ apart, content?_unlink s here prev_ne next_ne]
    refine ⟨?_, ?_, ?_, ?_, ?_, ?_, ?_, ?_⟩
    · apply placed_linkFront (p := none) (n := none) placed head fresh distinct
      simp [getElem?_unlink s here prev_ne next_ne, here]
    · intro j x there
      rw [content] at there
      have mem := h.occupied j x there
      simp only [List.mem_append, List.mem_cons] at mem ⊢
      tauto
    · exact List.nodup_cons.2 ⟨fresh, distinct⟩
    · exact head_linkFront _ i
    · exact tail_linkFront_of_placed head tail
    · simp [h.len, Nat.add_assoc]
    · intro j
      rw [content, free_linkFront, free_unlink, h.free]
    · simpa using h.freeDistinct

theorem Holds.remove (h : s.Holds (before ++ (i, a) :: after)) :
    (s.remove i).2 = some a ∧ (s.remove i).1.Holds (before ++ after) := by
  have here := h.placed before i a after rfl
  have prev_ne := last_ne h.distinct
  have next_ne := first_ne h.distinct
  obtain ⟨fresh, distinct⟩ := h.distinct_apart
  unfold SlotList.remove
  rw [h.get?_eq_some_iff.2 (List.mem_append_right before List.mem_cons_self)]
  let emptied : SlotList α :=
    { s with slots := s.slots.modify i fun slot => { slot with value := none } }
  have slot (j : Nat) (other : j ≠ i) : emptied.slots[j]? = s.slots[j]? := by
    simp [emptied, Array.getElem?_modify, Ne.symm other]
  have here' : emptied.slots[i]? =
      some ⟨none, before.getLast?.map (·.1), after.head?.map (·.1)⟩ := by
    simp [emptied, Array.getElem?_modify, here]
  have content (j : Nat) :
      (emptied.unlink i).content? j = if j = i then some none else s.content? j := by
    rw [content?_unlink emptied here' prev_ne next_ne]
    unfold content?
    split
    · rename_i same
      rw [same, here']
      rfl
    · rename_i other
      rw [slot j other]
  refine ⟨rfl, ?_, ?_, ?_, ?_, ?_, ?_, ?_, ?_⟩
  · apply placed_unlink h.distinct here'
    intro b j x c split other
    rw [slot j other]
    exact h.placed b j x c split
  · intro j x there
    have there : (emptied.unlink i).content? j = some (some x) := there
    rw [content] at there
    split at there
    · cases there
    · rename_i other
      have mem := h.occupied j x there
      simp only [List.mem_append, List.mem_cons, Prod.mk.injEq] at mem ⊢
      tauto
  · exact distinct
  · exact head_unlink_of_placed here' h.head
  · exact tail_unlink_of_placed here' h.tail
  · have len := h.len
    show (emptied.unlink i).len - 1 = _
    rw [len_unlink]
    show s.len - 1 = _
    simp only [List.length_append, List.length_cons] at len ⊢
    omega
  · intro j
    have there := content j
    show j ∈ i :: (emptied.unlink i).free ↔ (emptied.unlink i).content? j = some none
    rw [free_unlink, List.mem_cons, there]
    show j = i ∨ j ∈ s.free ↔ _
    rw [h.free]
    split <;> simp_all
  · show (i :: (emptied.unlink i).free).Nodup
    rw [free_unlink, List.nodup_cons]
    refine ⟨fun vacant => ?_, h.freeDistinct⟩
    have empty : s.content? i = some none := (h.free i).1 vacant
    rw [content?, here] at empty
    cases empty

theorem Holds.popBack_nil (h : s.Holds []) : s.popBack = (s, none) := by
  have tail : s.back? = none := h.tail
  simp only [SlotList.popBack, tail]

theorem Holds.popBack (h : s.Holds (before ++ [(i, a)])) :
    s.popBack.2 = some a ∧ s.popBack.1.Holds before := by
  have tail : s.back? = some i := by simp [back?, h.tail]
  have removed := h.remove
  simp only [SlotList.popBack, tail]
  simpa using removed

theorem Holds.set (h : s.Holds (before ++ (i, a) :: after)) (b : α) :
    (s.set i b).Holds (before ++ (i, b) :: after) := by
  have here := h.placed before i a after rfl
  have slot (j : Nat) : (s.set i b).slots[j]? =
      if j = i then some ⟨some b, before.getLast?.map (·.1), after.head?.map (·.1)⟩
      else s.slots[j]? := by
    by_cases same : i = j
    · subst same
      simp [SlotList.set, Array.getElem?_modify, here]
    · simp [SlotList.set, Array.getElem?_modify, same, Ne.symm same]
  have content (j : Nat) :
      (s.set i b).content? j = if j = i then some (some b) else s.content? j := by
    unfold content?
    rw [slot]
    split <;> rfl
  have indices : (before ++ (i, b) :: after).map (·.1) = (before ++ (i, a) :: after).map (·.1) := by
    simp
  refine ⟨?_, ?_, ?_, ?_, ?_, ?_, ?_, ?_⟩
  · intro c j x d split
    rw [slot]
    rcases split_cases split with ⟨t, rfl, rfl⟩ | ⟨t, more, rfl⟩
    · have other : j ≠ i := ne_of_mem_before h.distinct (p := (j, x)) (by simp)
      rw [if_neg other, h.placed c j x (t ++ (i, a) :: after) (by simp)]
      cases t <;> rfl
    · cases t with
      | nil =>
          obtain ⟨same, rfl⟩ := List.cons.inj more
          obtain ⟨rfl, rfl⟩ := Prod.mk.inj same
          simp
      | cons y t =>
          obtain ⟨rfl, rfl⟩ := List.cons.inj more
          have other : j ≠ i := ne_of_mem_after h.distinct (p := (j, x)) (by simp)
          rw [if_neg other, h.placed (before ++ (i, a) :: t) j x d (by simp)]
          simp [List.getLast?_cons]
          cases t.getLast? <;> rfl
  · intro j x there
    rw [content] at there
    split at there
    · rename_i same
      cases there
      simp [same]
    · rename_i other
      have mem := h.occupied j x there
      simp only [List.mem_append, List.mem_cons, Prod.mk.injEq] at mem ⊢
      tauto
  · rw [indices]
    exact h.distinct
  · have head : (s.set i b).head = s.head := rfl
    rw [head, h.head, ← List.head?_map, ← List.head?_map, indices]
  · have tail : (s.set i b).tail = s.tail := rfl
    rw [tail, h.tail, ← List.getLast?_map, ← List.getLast?_map, indices]
  · have len := h.len
    simp only [List.length_append, List.length_cons] at len ⊢
    exact len
  · intro j
    have vacant : j ∈ (s.set i b).free ↔ j ∈ s.free := Iff.rfl
    rw [content, vacant, h.free]
    split
    · rename_i same
      simp [same, content?, here]
    · rfl
  · exact h.freeDistinct

theorem eq_empty_of_withCapacity {capacity : Nat} (made : withCapacity capacity = .ok s) :
    s = {} := by
  unfold withCapacity at made
  split at made
  · exact (Except.ok.inj made).symm
  · cases made

end CacheNode.SlotList
