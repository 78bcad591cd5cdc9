import CacheNode.Proofs.SlotList.Links
import Mathlib.Data.List.Perm.Subperm

/-!
# The items that a slot list holds

`Holds s items` ties the whole of a slot list (both chains of links, vacant slots, free list,
length) to a plain list of items, each with its index, in order.
-/

namespace CacheNode.SlotList

variable {α : Type u} {s : SlotList α} {items before after : List (Nat × α)} {i : Nat} {a : α}

def Placed (slots : Array (Slot α)) (items : List (Nat × α)) : Prop :=
  ∀ before i a after, items = before ++ (i, a) :: after →
    slots[i]? = some ⟨some a, before.getLast?.map (·.1), after.head?.map (·.1)⟩

structure Holds (s : SlotList α) (items : List (Nat × α)) : Prop where
  placed : Placed s.slots items
  occupied : ∀ i a, s.content? i = some (some a) → (i, a) ∈ items
  distinct : (items.map (·.1)).Nodup
  head : s.head = items.head?.map (·.1)
  tail : s.tail = items.getLast?.map (·.1)
  len : s.len = items.length
  free : ∀ i, i ∈ s.free ↔ s.content? i = some none
  freeDistinct : s.free.Nodup

theorem holds_empty : ({} : SlotList α).Holds [] where
  placed := by simp [Placed]
  occupied := by simp [content?]
  distinct := List.nodup_nil
  head := rfl
  tail := rfl
  len := rfl
  free := by simp [content?]
  freeDistinct := List.nodup_nil

theorem Holds.get?_eq_some_iff (h : s.Holds items) : s.get? i = some a ↔ (i, a) ∈ items := by
  rw [get?_eq_some_iff_content]
  constructor
  · exact h.occupied i a
  · intro mem
    obtain ⟨before, after, split⟩ := List.append_of_mem mem
    simp [content?, h.placed before i a after split]

theorem Holds.lt_size (h : s.Holds items) (mem : (i, a) ∈ items) : i < s.slots.size := by
  obtain ⟨before, after, split⟩ := List.append_of_mem mem
  exact (Array.getElem?_eq_some_iff.1 (h.placed before i a after split)).1

theorem Holds.length_le_size (h : s.Holds items) : items.length ≤ s.slots.size := by
  have inside : items.map (·.1) ⊆ List.range s.slots.size := by
    intro i mem
    obtain ⟨⟨i, a⟩, held, rfl⟩ := List.mem_map.1 mem
    exact List.mem_range.2 (h.lt_size held)
  simpa using (List.subperm_of_subset h.distinct inside).length_le

theorem Holds.itemsFrom_eq (h : s.Holds items) (fuel : Nat) :
    ∀ before rest, items = before ++ rest → rest.length ≤ fuel →
      s.itemsFrom fuel (rest.head?.map (·.1)) = rest.map (·.2) := by
  induction fuel with
  | zero =>
      intro before rest split enough
      rw [List.length_eq_zero_iff.1 (Nat.le_zero.1 enough)]
      rfl
  | succ fuel ih =>
      intro before rest split enough
      cases rest with
      | nil => rfl
      | cons item rest =>
          obtain ⟨i, a⟩ := item
          have next := ih (before ++ [(i, a)]) rest (by simp [split]) (by simpa using enough)
          simp only [List.head?_cons, Option.map_some, itemsFrom, h.placed before i a rest split,
            next, List.map_cons]

theorem Holds.toList_eq (h : s.Holds items) : s.toList = items.map (·.2) := by
  unfold toList
  rw [h.head]
  exact h.itemsFrom_eq s.slots.size [] items rfl h.length_le_size

theorem ne_of_mem_before (distinct : ((before ++ (i, a) :: after).map (·.1)).Nodup)
    {p : Nat × α} (mem : p ∈ before) : p.1 ≠ i := by
  simp only [List.map_append, List.map_cons, List.nodup_append] at distinct
  exact distinct.2.2 p.1 (List.mem_map_of_mem mem) i List.mem_cons_self

theorem ne_of_mem_after (distinct : ((before ++ (i, a) :: after).map (·.1)).Nodup)
    {p : Nat × α} (mem : p ∈ after) : p.1 ≠ i := by
  simp only [List.map_append, List.map_cons, List.nodup_append, List.nodup_cons] at distinct
  intro same
  exact distinct.2.1.1 (same ▸ List.mem_map_of_mem mem)

theorem split_cases {β : Type v} {xs ys b c : List β} {y : β} (split : xs ++ ys = b ++ y :: c) :
    (∃ t, xs = b ++ y :: t ∧ c = t ++ ys) ∨ (∃ t, ys = t ++ y :: c ∧ b = xs ++ t) := by
  rcases List.append_eq_append_iff.1 split with ⟨t, hb, hys⟩ | ⟨t, hxs, hc⟩
  · exact .inr ⟨t, hys, hb⟩
  · cases t with
    | nil => exact .inr ⟨[], by simpa using hc.symm, by simpa using hxs.symm⟩
    | cons z t =>
        obtain ⟨rfl, rfl⟩ := List.cons.inj hc
        exact .inl ⟨t, hxs, rfl⟩

theorem last_ne (distinct : ((before ++ (i, a) :: after).map (·.1)).Nodup) :
    before.getLast?.map (·.1) ≠ some i := by
  intro same
  obtain ⟨item, last, rfl⟩ := Option.map_eq_some_iff.1 same
  exact ne_of_mem_before distinct (List.mem_of_getLast? last) rfl

theorem first_ne (distinct : ((before ++ (i, a) :: after).map (·.1)).Nodup) :
    after.head?.map (·.1) ≠ some i := by
  intro same
  obtain ⟨item, first, rfl⟩ := Option.map_eq_some_iff.1 same
  exact ne_of_mem_after distinct (List.mem_of_head? first) rfl

/-- The slot of the item may have lost its value already, as long as its links still stand. -/
theorem placed_unlink {v : Option α}
    (distinct : ((before ++ (i, a) :: after).map (·.1)).Nodup)
    (here : s.slots[i]? = some ⟨v, before.getLast?.map (·.1), after.head?.map (·.1)⟩)
    (others : ∀ b j x c, before ++ (i, a) :: after = b ++ (j, x) :: c → j ≠ i →
      s.slots[j]? = some ⟨some x, b.getLast?.map (·.1), c.head?.map (·.1)⟩) :
    Placed (s.unlink i).slots (before ++ after) := by
  intro b j x c split
  rw [getElem?_unlink s here (last_ne distinct) (first_ne distinct)]
  rcases split_cases split with ⟨t, rfl, rfl⟩ | ⟨t, rfl, rfl⟩
  · -- the other item stands before the one taken out
    have apart : j ≠ i := ne_of_mem_before distinct (p := (j, x)) (by simp)
    have old := others b j x (t ++ (i, a) :: after) (by simp) apart
    have distinct_j : ((b ++ (j, x) :: (t ++ (i, a) :: after)).map (·.1)).Nodup := by
      simpa using distinct
    have next_ne : after.head?.map (·.1) ≠ some j := by
      intro same
      obtain ⟨item, first, rfl⟩ := Option.map_eq_some_iff.1 same
      exact ne_of_mem_after distinct_j (p := item) (by simp [List.mem_of_head? first]) rfl
    cases t with
    | nil => simp [old, apart, next_ne]
    | cons y t =>
        have prev_ne : (t.getLast?.getD y).1 ≠ j := by
          apply ne_of_mem_after distinct_j
          cases last : t.getLast? with
          | none => simp
          | some z => simp [List.mem_of_getLast? last]
        simp [old, apart, next_ne, List.getLast?_cons, prev_ne]
  · have apart : j ≠ i := ne_of_mem_after distinct (p := (j, x)) (by simp)
    have old := others (before ++ (i, a) :: t) j x c (by simp) apart
    have distinct_j : (((before ++ (i, a) :: t) ++ (j, x) :: c).map (·.1)).Nodup := by
      simpa using distinct
    have prev_ne : before.getLast?.map (·.1) ≠ some j := by
      intro same
      obtain ⟨item, last, rfl⟩ := Option.map_eq_some_iff.1 same
      exact ne_of_mem_before distinct_j (p := item) (by simp [List.mem_of_getLast? last]) rfl
    cases t with
    | nil => simp [old, apart, prev_ne]
    | cons y t =>
        have next_ne : y.1 ≠ j := ne_of_mem_before distinct_j (by simp)
        simp [old, apart, next_ne, prev_ne, List.getLast?_cons]

theorem head_unlink_of_placed {v : Option α}
    (here : s.slots[i]? = some ⟨v, before.getLast?.map (·.1), after.head?.map (·.1)⟩)
    (head : s.head = (before ++ (i, a) :: after).head?.map (·.1)) :
    (s.unlink i).head = (before ++ after).head?.map (·.1) := by
  rw [head_unlink s here, head]
  cases before with
  | nil => simp
  | cons y before => simp [List.getLast?_cons]

theorem tail_unlink_of_placed {v : Option α}
    (here : s.slots[i]? = some ⟨v, before.getLast?.map (·.1), after.head?.map (·.1)⟩)
    (tail : s.tail = (before ++ (i, a) :: after).getLast?.map (·.1)) :
    (s.unlink i).tail = (before ++ after).getLast?.map (·.1) := by
  rw [tail_unlink s here, tail]
  cases after with
  | nil => simp
  | cons y after => simp [List.getLast?_cons]

theorem placed_linkFront {p n : Option Nat} (placed : Placed s.slots items)
    (head : s.head = items.head?.map (·.1)) (fresh : i ∉ items.map (·.1))
    (distinct : (items.map (·.1)).Nodup) (here : s.slots[i]? = some ⟨some a, p, n⟩) :
    Placed (s.linkFront i).slots ((i, a) :: items) := by
  have apart : s.head ≠ some i := by
    intro same
    rw [head] at same
    obtain ⟨item, first, rfl⟩ := Option.map_eq_some_iff.1 same
    exact fresh (List.mem_map_of_mem (List.mem_of_head? first))
  intro b j x c split
  rw [getElem?_linkFront s apart]
  cases b with
  | nil =>
      obtain ⟨same, rfl⟩ := List.cons.inj split
      obtain ⟨rfl, rfl⟩ := Prod.mk.inj same
      simp [here, head]
  | cons y b =>
      obtain ⟨rfl, rfl⟩ := List.cons.inj split
      have other : j ≠ i := fun same => fresh (by simp [same])
      have old := placed b j x c rfl
      cases b with
      | nil => simp [old, other, head]
      | cons z b =>
          have first_ne : z.1 ≠ j := ne_of_mem_before distinct (by simp)
          simp [old, other, head, first_ne, List.getLast?_cons]

theorem tail_linkFront_of_placed (head : s.head = items.head?.map (·.1))
    (tail : s.tail = items.getLast?.map (·.1)) :
    (s.linkFront i).tail = ((i, a) :: items).getLast?.map (·.1) := by
  rw [tail_linkFront, head, tail]
  cases items with
  | nil => rfl
  | cons y items => simp [List.getLast?_cons]

end CacheNode.SlotList
