import CacheNode.Proofs.Lru.Recency
import CacheNode.Proofs.SlotList.Operations
import Std.Data.HashMap.Lemmas
import Mathlib.Data.List.Perm.Basic
import Mathlib.Tactic.Tauto

/-!
# Stores and the lists they show

`Stores c items` is the invariant of a store: slots, links and index describe the same entries, no
two of which have equal keys. `Shows c l` leaves the slots out.
-/

namespace CacheNode.Lru

variable {K : Type u} {V : Type v} [BEq K]

theorem key_ne_of_mem_apart [EquivBEq K] {before after : List (Nat × K × V)} {i : Nat}
    {entry : K × V}
    (distinct : ((before ++ (i, entry) :: after).map (·.2.1)).Pairwise fun a b => (a == b) = false)
    {p : Nat × K × V} (mem : p ∈ before ++ after) : (p.2.1 == entry.1) = false := by
  rw [List.map_append, List.map_cons] at distinct
  apply beq_false_of_distinct distinct
  rw [← List.map_append]
  exact List.mem_map_of_mem mem

variable [Hashable K]

structure Stores (c : Lru K V) (items : List (Nat × K × V)) : Prop where
  entries : c.entries.Holds items
  index : ∀ key i, c.index[key]? = some i ↔ ∃ entry, (i, entry) ∈ items ∧ (entry.1 == key) = true
  distinct : (items.map (·.2.1)).Pairwise fun a b => (a == b) = false
  size : c.index.size = items.length

structure Shows (c : Lru K V) (l : Recency K V) : Prop where
  stored : ∃ items, c.Stores items ∧ items.map (·.2) = l
  within : c.limit ≠ 0 → l.length ≤ c.limit

variable {c : Lru K V} {items before after : List (Nat × K × V)}
  {i : Nat} {key written : K} {old value : V}

theorem shows_empty [EquivBEq K] [LawfulHashable K] (limit : Nat)
    (onEvict : Option (Listener K V)) : (empty limit onEvict).Shows [] where
  stored := by
    refine ⟨[], ⟨SlotList.holds_empty, ?_, List.Pairwise.nil, rfl⟩, rfl⟩
    intro key i
    simp [empty]
  within _ := Nat.zero_le limit

theorem Stores.entry?_eq_none (h : c.Stores items) (absent : c.index[key]? = none) :
    Recency.entry? (items.map (·.2)) key = none := by
  apply List.find?_eq_none.2
  intro entry mem same
  obtain ⟨⟨i, entry⟩, held, rfl⟩ := List.mem_map.1 mem
  have present := (h.index key i).2 ⟨entry, held, same⟩
  rw [absent] at present
  cases present

variable [EquivBEq K]

theorem Stores.split (h : c.Stores items) (present : c.index[key]? = some i) :
    ∃ before written old after, items = before ++ (i, written, old) :: after ∧
      (written == key) = true ∧
      Recency.entry? (items.map (·.2)) key = some (written, old) ∧
      Recency.without (items.map (·.2)) key = (before ++ after).map (·.2) := by
  obtain ⟨⟨written, old⟩, mem, same⟩ := (h.index key i).1 present
  obtain ⟨before, after, rfl⟩ := List.append_of_mem mem
  have missed : ∀ entry ∈ before.map (·.2), (entry.1 == key) = false := by
    intro entry mem
    obtain ⟨p, held, rfl⟩ := List.mem_map.1 mem
    have other := key_ne_of_mem_apart h.distinct (List.mem_append_left after held)
    rwa [BEq.congr_right (PartialEquivBEq.symm same)]
  refine ⟨before, written, old, after, rfl, same, ?_, ?_⟩
  · rw [Recency.entry?, List.find?_eq_some_iff_append]
    refine ⟨same, before.map (·.2), after.map (·.2), by simp, ?_⟩
    intro entry mem
    simp [missed entry mem]
  · have first : ∀ entry ∈ before.map (·.2), ¬ (entry.1 == key) = true := by
      intro entry mem
      simp [missed entry mem]
    rw [Recency.without, List.map_append, List.eraseP_append_right _ first, List.map_cons,
      List.eraseP_cons_of_pos (by exact same), List.map_append]

theorem Stores.promote {entries : SlotList (K × V)}
    (h : c.Stores (before ++ (i, written, old) :: after))
    (holds : entries.Holds ((i, written, value) :: (before ++ after))) :
    ({ c with entries } : Lru K V).Stores ((i, written, value) :: (before ++ after)) where
  entries := holds
  index key j := by
    rw [h.index]
    constructor
    · intro given
      obtain ⟨entry, mem, same⟩ := given
      simp only [List.mem_append, List.mem_cons, Prod.mk.injEq] at mem
      rcases mem with mem | ⟨rfl, rfl⟩ | mem
      · exact ⟨entry, by simp [mem], same⟩
      · exact ⟨(written, value), by simp, same⟩
      · exact ⟨entry, by simp [mem], same⟩
    · intro given
      obtain ⟨entry, mem, same⟩ := given
      simp only [List.mem_append, List.mem_cons, Prod.mk.injEq] at mem
      rcases mem with ⟨rfl, rfl⟩ | mem | mem
      · exact ⟨(written, old), by simp, same⟩
      · exact ⟨entry, by simp [mem], same⟩
      · exact ⟨entry, by simp [mem], same⟩
  distinct := by
    have moved : ((i, written, value) :: (before ++ after)).map (·.2.1) |>.Perm
        ((before ++ (i, written, old) :: after).map (·.2.1)) := by
      simpa using List.perm_middle.symm
    refine (moved.pairwise_iff ?_).2 h.distinct
    intro a b apart
    rwa [BEq.comm]
  size := by simpa [Nat.add_assoc] using h.size

theorem Stores.drop [LawfulHashable K] {entries : SlotList (K × V)} {entry : K × V}
    (h : c.Stores (before ++ (i, entry) :: after)) (same : (entry.1 == key) = true)
    (holds : entries.Holds (before ++ after)) :
    ({ c with entries, index := c.index.erase key } : Lru K V).Stores (before ++ after) where
  entries := holds
  index other j := by
    rw [Std.HashMap.getElem?_erase]
    split
    · rename_i erased
      simp only [reduceCtorEq, false_iff]
      intro given
      obtain ⟨entry', mem, same'⟩ := given
      have apart := key_ne_of_mem_apart h.distinct mem
      have equal : (entry'.1 == entry.1) = true :=
        PartialEquivBEq.trans same' (PartialEquivBEq.symm (PartialEquivBEq.trans same erased))
      rw [apart] at equal
      cases equal
    · rename_i kept
      rw [h.index]
      constructor
      · intro given
        obtain ⟨entry', mem, same'⟩ := given
        simp only [List.mem_append, List.mem_cons, Prod.mk.injEq] at mem
        rcases mem with mem | ⟨rfl, rfl⟩ | mem
        · exact ⟨entry', by simp [mem], same'⟩
        · exact absurd (PartialEquivBEq.trans (PartialEquivBEq.symm same) same') kept
        · exact ⟨entry', by simp [mem], same'⟩
      · intro given
        obtain ⟨entry', mem, same'⟩ := given
        refine ⟨entry', ?_, same'⟩
        simp only [List.mem_append, List.mem_cons] at mem ⊢
        tauto
  distinct := by
    refine List.Pairwise.sublist ?_ h.distinct
    simp
  size := by
    have present : key ∈ c.index := by
      rw [Std.HashMap.mem_iff_isSome_getElem?, (h.index key i).2 ⟨entry, by simp, same⟩]
      rfl
    have size := h.size
    simp only [List.length_append, List.length_cons] at size ⊢
    rw [Std.HashMap.size_erase, if_pos present]
    omega

theorem Stores.add [LawfulHashable K] {entries : SlotList (K × V)} (h : c.Stores items)
    (absent : c.index[key]? = none) (holds : entries.Holds ((i, key, value) :: items)) :
    ({ c with entries, index := c.index.insert key i } : Lru K V).Stores
      ((i, key, value) :: items) where
  entries := holds
  index other j := by
    rw [Std.HashMap.getElem?_insert]
    split
    · rename_i same
      constructor
      · rintro ⟨⟩
        exact ⟨(key, value), by simp, same⟩
      · intro given
        obtain ⟨entry, mem, same'⟩ := given
        simp only [List.mem_cons, Prod.mk.injEq] at mem
        rcases mem with ⟨rfl, rfl⟩ | mem
        · rfl
        · have present := (h.index key j).2
            ⟨entry, mem, PartialEquivBEq.trans same' (PartialEquivBEq.symm same)⟩
          rw [absent] at present
          cases present
    · rename_i apart
      rw [h.index]
      constructor
      · intro given
        obtain ⟨entry, mem, same⟩ := given
        exact ⟨entry, List.mem_cons_of_mem _ mem, same⟩
      · intro given
        obtain ⟨entry, mem, same⟩ := given
        simp only [List.mem_cons, Prod.mk.injEq] at mem
        rcases mem with ⟨rfl, rfl⟩ | mem
        · exact absurd same apart
        · exact ⟨entry, mem, same⟩
  distinct := by
    rw [List.map_cons, List.pairwise_cons]
    refine ⟨?_, h.distinct⟩
    intro other mem
    obtain ⟨⟨j, entry⟩, held, rfl⟩ := List.mem_map.1 mem
    rw [← Bool.not_eq_true]
    intro same
    have present := (h.index key j).2 ⟨entry, held, PartialEquivBEq.symm same⟩
    rw [absent] at present
    cases present
  size := by
    have missing : key ∉ c.index := by
      rw [Std.HashMap.mem_iff_isSome_getElem?, absent]
      simp
    rw [Std.HashMap.size_insert, if_neg missing, h.size, List.length_cons]

end CacheNode.Lru
