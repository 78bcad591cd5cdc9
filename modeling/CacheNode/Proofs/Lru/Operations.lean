import CacheNode.Proofs.Lru.Shows
import Mathlib.Data.List.Induction

/-!
# What the operations of a store do to the list it shows

Each operation does to that list what the operation of `Recency` does; only the answer depends on
whether the listener accepts the entry that leaves (`Follows`).
-/

namespace CacheNode.Lru

variable {K : Type u} {V : Type v} [BEq K] [Hashable K]

def farewell (onEvict : Option (Listener K V)) (remaining : Nat) (entry : K × V) :
    List (Note K V) :=
  .left remaining :: onEvict.toList.map fun _ => .told entry.1 entry.2

def verdict (onEvict : Option (Listener K V)) (leaver : Option (K × V)) : Except Fault Unit :=
  match onEvict, leaver with
  | some tell, some entry => tell entry.1 entry.2
  | _, _ => .ok ()

omit [BEq K] [Hashable K] in
@[simp] theorem verdict_none (onEvict : Option (Listener K V)) :
    verdict onEvict (none : Option (K × V)) = .ok () := by
  cases onEvict <;> rfl

structure Follows {A : Type w} (c : Lru K V) (o : Outcome (Lru K V) (Note K V) A)
    (d : Change K V A) : Prop where
  shows : o.state.Shows d.entries
  limit : o.state.limit = c.limit
  onEvict : o.state.onEvict = c.onEvict
  notes : o.notes = d.leaver.toList.flatMap (farewell c.onEvict d.entries.length)
  answer : o.answer = (verdict c.onEvict d.leaver).map fun _ => d.answer

theorem depart_eq (c : Lru K V) (entry : K × V) :
    c.depart entry = ⟨c, farewell c.onEvict c.len entry,
      (verdict c.onEvict (some entry)).map fun _ => entry⟩ := by
  unfold depart
  cases c.onEvict <;> rfl

variable {c : Lru K V} {l : Recency K V} {items : List (Nat × K × V)}

theorem Shows.toList_eq (h : c.Shows l) : c.toList = l := by
  obtain ⟨items, stored, rfl⟩ := h.stored
  exact stored.entries.toList_eq

theorem Shows.len_eq (h : c.Shows l) : c.len = l.length := by
  obtain ⟨items, stored, rfl⟩ := h.stored
  simp [len, stored.entries.len]

theorem Follows.map {A : Type w} {B : Type x} {o : Outcome (Lru K V) (Note K V) A}
    {d : Change K V A} (h : c.Follows o d) (f : A → B) :
    c.Follows (o.map f) ⟨d.entries, d.leaver, f d.answer⟩ := by
  refine ⟨h.shows, h.limit, h.onEvict, h.notes, ?_⟩
  rw [Outcome.answer_map, h.answer]
  cases verdict c.onEvict d.leaver <;> rfl

theorem Follows.rebase {A : Type w} {base : Lru K V} {o : Outcome (Lru K V) (Note K V) A}
    {d : Change K V A} (h : base.Follows o d) (limit : base.limit = c.limit)
    (onEvict : base.onEvict = c.onEvict) : c.Follows o d :=
  ⟨h.shows, h.limit.trans limit, h.onEvict.trans onEvict, onEvict ▸ h.notes, onEvict ▸ h.answer⟩

theorem Follows.ok {A : Type w} {state : Lru K V} (shows : state.Shows l)
    (limit : state.limit = c.limit) (onEvict : state.onEvict = c.onEvict) (answer : A) :
    c.Follows (.ok state answer) { entries := l, answer } :=
  ⟨shows, limit, onEvict, rfl, by cases h : c.onEvict <;> simp [verdict, Outcome.ok, Except.map]⟩

theorem Shows.depart {state : Lru K V} (shows : state.Shows l) (limit : state.limit = c.limit)
    (onEvict : state.onEvict = c.onEvict) (entry : K × V) :
    c.Follows (state.depart entry) { entries := l, leaver := some entry, answer := entry } := by
  rw [depart_eq, shows.len_eq, onEvict]
  exact ⟨shows, limit, onEvict, by simp, rfl⟩

theorem Shows.distinct (h : c.Shows l) : l.Distinct := by
  obtain ⟨items, stored, rfl⟩ := h.stored
  simpa [Recency.Distinct, List.map_map, Function.comp_def] using stored.distinct

theorem Shows.isEmpty_eq (h : c.Shows l) : c.isEmpty = l.isEmpty := by
  have len := h.len_eq
  unfold Lru.len at len
  unfold isEmpty SlotList.isEmpty
  rw [len]
  cases l <;> simp

variable [EquivBEq K]

theorem Shows.contains_eq [LawfulHashable K] (h : c.Shows l) (key : K) :
    c.contains key = (l.entry? key).isSome := by
  obtain ⟨items, stored, rfl⟩ := h.stored
  rw [Lru.contains, Std.HashMap.contains_eq_isSome_getElem?]
  cases found : c.index[key]? with
  | none => rw [stored.entry?_eq_none found, Option.isSome_none, Option.isSome_none]
  | some i =>
      obtain ⟨before, written, old, after, rfl, same, entry, rest⟩ := stored.split found
      rw [entry, Option.isSome_some, Option.isSome_some]

theorem Shows.peek_eq (h : c.Shows l) (key : K) : c.peek key = (l.entry? key).map (·.2) := by
  obtain ⟨items, stored, rfl⟩ := h.stored
  unfold peek
  cases found : c.index[key]? with
  | none => rw [stored.entry?_eq_none found, Option.bind_none, Option.map_none]
  | some i =>
      obtain ⟨before, written, old, after, rfl, same, entry, rest⟩ := stored.split found
      rw [entry, Option.bind_some,
        (stored.entries.get?_eq_some_iff (a := (written, old))).2 (by simp)]

theorem Shows.get (h : c.Shows l) (key : K) :
    (c.get key).1.Shows (l.get key).entries ∧ (c.get key).1.limit = c.limit ∧
      (c.get key).1.onEvict = c.onEvict ∧ (c.get key).2 = (l.get key).answer := by
  obtain ⟨items, stored, rfl⟩ := h.stored
  unfold Lru.get Recency.get
  cases found : c.index[key]? with
  | none =>
      rw [stored.entry?_eq_none found]
      exact ⟨h, rfl, rfl, rfl⟩
  | some i =>
      obtain ⟨before, written, old, after, rfl, same, entry, rest⟩ := stored.split found
      have moved := stored.entries.moveToFront
      rw [entry, rest]
      refine ⟨⟨⟨_, stored.promote moved, by simp⟩, ?_⟩, rfl, rfl, ?_⟩
      · intro limited
        have within := h.within limited
        simp only [List.length_map, List.length_append, List.length_cons] at within ⊢
        omega
      · simp [moved.get?_eq_some_iff.2 List.mem_cons_self]

/-- One entry too many is no harm here. -/
theorem Stores.removeOldest [LawfulHashable K] (h : c.Stores items)
    (almost : c.limit ≠ 0 → items.length ≤ c.limit + 1) :
    c.Follows c.removeOldest (Recency.removeOldest (items.map (·.2))) := by
  unfold Lru.removeOldest Recency.removeOldest
  cases items using List.reverseRecOn with
  | nil =>
      rw [h.entries.popBack_nil]
      exact Follows.ok ⟨⟨[], h, rfl⟩, fun _ => Nat.zero_le _⟩ rfl rfl none
  | append_singleton before item =>
      obtain ⟨i, entry⟩ := item
      obtain ⟨popped, rest⟩ := h.entries.popBack
      have same : (entry.1 == entry.1) = true := BEq.rfl
      have dropped := h.drop same (by simpa using rest)
      cases whole : c.entries.popBack with
      | mk entries found =>
          rw [whole] at popped dropped
          obtain rfl : found = some entry := popped
          have shows : ({ c with entries, index := c.index.erase entry.1 } : Lru K V).Shows
              (before.map (·.2)) := by
            refine ⟨⟨before, by simpa using dropped, rfl⟩, fun limited => ?_⟩
            have almost := almost limited
            simpa using almost
          have departed := (shows.depart (c := c) rfl rfl entry).map some
          simpa using departed

theorem Shows.removeOldest [LawfulHashable K] (h : c.Shows l) :
    c.Follows c.removeOldest l.removeOldest := by
  obtain ⟨items, stored, rfl⟩ := h.stored
  apply stored.removeOldest
  intro limited
  have within := h.within limited
  rw [List.length_map] at within
  omega

theorem Shows.remove [LawfulHashable K] (h : c.Shows l) (key : K) :
    c.Follows (c.remove key) (l.remove key) := by
  obtain ⟨items, stored, rfl⟩ := h.stored
  unfold Lru.remove Recency.remove
  cases found : c.index[key]? with
  | none =>
      rw [stored.entry?_eq_none found]
      exact Follows.ok h rfl rfl none
  | some i =>
      obtain ⟨before, written, old, after, rfl, same, entry, rest⟩ := stored.split found
      obtain ⟨removed, held⟩ := stored.entries.remove
      have dropped := stored.drop same held
      simp only [entry, rest]
      cases whole : c.entries.remove i with
      | mk entries gone =>
          rw [whole] at removed dropped
          obtain rfl : gone = some (written, old) := removed
          have shows : ({ c with entries, index := c.index.erase key } : Lru K V).Shows
              ((before ++ after).map (·.2)) := by
            refine ⟨⟨_, dropped, rfl⟩, fun limited => ?_⟩
            have within := h.within limited
            simp only [List.length_map, List.length_append, List.length_cons] at within ⊢
            show before.length + after.length ≤ c.limit
            omega
          exact (shows.depart (c := c) rfl rfl (written, old)).map fun entry => some entry.2

theorem Shows.put [LawfulHashable K] (h : c.Shows l) (key : K) (value : V) :
    c.Follows (c.put key value) (l.put c.limit key value) := by
  obtain ⟨items, stored, rfl⟩ := h.stored
  unfold Lru.put Recency.put
  cases found : c.index[key]? with
  | some i =>
      obtain ⟨before, written, old, after, rfl, same, entry, rest⟩ := stored.split found
      have moved := stored.entries.moveToFront
      have front : (c.entries.moveToFront i).Holds ([] ++ (i, written, old) :: (before ++ after)) :=
        moved
      have replaced := front.set (written, value)
      simp only [entry, rest, moved.get?_eq_some_iff.2 List.mem_cons_self]
      refine Follows.ok (c := c)
        ⟨⟨_, stored.promote replaced, by simp⟩, fun limited => ?_⟩ rfl rfl _
      have within := h.within limited
      simp only [List.length_map, List.length_append, List.length_cons] at within ⊢
      show before.length + after.length + 1 ≤ c.limit
      omega
  | none =>
      have pushed := stored.entries.pushFront (key, value)
      have added := stored.add found pushed
      simp only [stored.entry?_eq_none found]
      have len : ({ c with
          entries := (c.entries.pushFront (key, value)).1
          index := c.index.insert key (c.entries.pushFront (key, value)).2 } : Lru K V).len =
          ((key, value) :: items.map (·.2)).length := by
        simp [Lru.len, pushed.len]
      simp only [len]
      split
      · have removed := added.removeOldest fun limited => by
          have within := h.within limited
          simpa using within
        exact (removed.map fun _ => none).rebase rfl rfl
      · rename_i room
        refine Follows.ok (c := c) ⟨⟨_, added, rfl⟩, fun limited => ?_⟩ rfl rfl _
        exact Nat.le_of_not_lt fun exceeds => room ⟨limited, exceeds⟩

end CacheNode.Lru
