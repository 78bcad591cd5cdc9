/-! Finite tables kept as lists of bindings, for tables that stay small. -/

namespace CacheNode

structure Table (α : Type u) (β : Type v) where
  bindings : List (α × β) := []
  distinct : (bindings.map (·.1)).Nodup := by exact List.nodup_nil

namespace Table

variable {α : Type u} {β : Type v} [DecidableEq α]

instance : Inhabited (Table α β) := ⟨{}⟩

def get? (t : Table α β) (a : α) : Option β := (t.bindings.find? fun b => b.1 = a).map (·.2)

def size (t : Table α β) : Nat := t.bindings.length

def contains (t : Table α β) (a : α) : Bool := (t.get? a).isSome

def erase (t : Table α β) (a : α) : Table α β where
  bindings := t.bindings.filter fun b => b.1 ≠ a
  distinct := t.distinct.sublist (List.filter_sublist.map _)

def insert (t : Table α β) (a : α) (b : β) : Table α β where
  bindings := (a, b) :: (t.erase a).bindings
  distinct := List.nodup_cons.2 ⟨by simp [erase], (t.erase a).distinct⟩

def modify (t : Table α β) (a : α) (f : β → β) : Table α β where
  bindings := t.bindings.map fun b => if b.1 = a then (b.1, f b.2) else b
  distinct := by
    have keys : (fun b : α × β => (if b.1 = a then (b.1, f b.2) else b).1) = (·.1) := by
      funext b
      split <;> rfl
    simpa [Function.comp_def, keys] using t.distinct

@[simp] theorem get?_empty (a : α) : ({} : Table α β).get? a = none := rfl

theorem get?_erase (t : Table α β) (a k : α) :
    (t.erase a).get? k = if k = a then none else t.get? k := by
  unfold get? erase
  rw [List.find?_filter]
  split
  case isTrue h => simp [h]
  case isFalse h =>
    congr 2
    funext b
    by_cases hb : b.1 = k <;> simp [hb, h]

theorem get?_insert (t : Table α β) (a k : α) (b : β) :
    (t.insert a b).get? k = if k = a then some b else t.get? k := by
  have rest := get?_erase t a k
  unfold get? at rest ⊢
  by_cases h : k = a
  · simp [insert, h]
  · simp only [h, if_false] at rest ⊢
    rw [← rest, insert, List.find?_cons_of_neg (by simpa using Ne.symm h)]

theorem get?_modify (t : Table α β) (a k : α) (f : β → β) :
    (t.modify a f).get? k = if k = a then (t.get? k).map f else t.get? k := by
  have keys : ((fun b : α × β => decide (b.1 = k)) ∘
      fun b => if b.1 = a then (b.1, f b.2) else b) = fun b => decide (b.1 = k) := by
    funext b
    simp only [Function.comp_apply]
    split <;> rfl
  unfold get? modify
  rw [List.find?_map, keys]
  cases found : t.bindings.find? fun b => decide (b.1 = k) with
  | none => simp
  | some b =>
      have hb : b.1 = k := by simpa using List.find?_some found
      by_cases h : k = a <;> simp [hb, h]

theorem get?_eq_none_iff (t : Table α β) (a : α) :
    t.get? a = none ↔ a ∉ t.bindings.map (·.1) := by
  simp only [get?, Option.map_eq_none_iff, List.find?_eq_none, List.mem_map, not_exists, not_and,
    decide_eq_true_eq]

theorem get?_eq_some_iff (t : Table α β) (a : α) (b : β) :
    t.get? a = some b ↔ (a, b) ∈ t.bindings := by
  obtain ⟨bindings, distinct⟩ := t
  simp only [get?]
  induction bindings with
  | nil => simp
  | cons first rest ih =>
      obtain ⟨k, v⟩ := first
      rw [List.map_cons, List.nodup_cons] at distinct
      by_cases same : k = a
      · subst same
        have once : (k, b) ∉ rest := fun mem =>
          distinct.1 (List.mem_map.2 ⟨(k, b), mem, rfl⟩)
        simp [once, eq_comm]
      · simpa [List.find?_cons_of_neg, same, Ne.symm same] using ih distinct.2

theorem size_insert (t : Table α β) {a : α} (b : β) (absent : t.get? a = none) :
    (t.insert a b).size = t.size + 1 := by
  have kept : t.bindings.filter (fun b => decide (b.1 ≠ a)) = t.bindings := by
    rw [List.filter_eq_self]
    intro x hx
    have := (get?_eq_none_iff t a).1 absent
    simp only [List.mem_map, not_exists, not_and] at this
    simpa using this x hx
  simp only [size, insert, erase, List.length_cons, kept]

theorem size_erase (t : Table α β) {a : α} (present : t.get? a ≠ none) :
    (t.erase a).size + 1 = t.size := by
  obtain ⟨bindings, distinct⟩ := t
  have hmem : a ∈ bindings.map (·.1) :=
    Decidable.byContradiction fun h => present ((get?_eq_none_iff ⟨bindings, distinct⟩ a).2 h)
  clear present
  simp only [size, erase]
  induction bindings with
  | nil => simp at hmem
  | cons b rest ih =>
      rw [List.map_cons, List.nodup_cons] at distinct
      by_cases h : b.1 = a
      · have kept : rest.filter (fun b => decide (b.1 ≠ a)) = rest := by
          rw [List.filter_eq_self]
          intro x hx
          have : x.1 ∈ rest.map (·.1) := List.mem_map_of_mem hx
          simp only [ne_eq, decide_not, Bool.not_eq_true', decide_eq_false_iff_not]
          intro hxa
          exact distinct.1 (by rw [h, ← hxa]; exact this)
        rw [List.filter_cons_of_neg (by simp [h]), kept, List.length_cons]
      · rw [List.map_cons, List.mem_cons] at hmem
        have hrest : a ∈ rest.map (·.1) := hmem.resolve_left (Ne.symm h)
        rw [List.filter_cons_of_pos (by simp [h]), List.length_cons, List.length_cons,
          ih distinct.2 hrest]

end Table

end CacheNode
