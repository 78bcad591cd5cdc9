import CacheNode.Key
import CacheNode.Proofs.Lru.Refinement
import Mathlib.Data.List.Forall2

/-! # Stores of different limits -/

namespace CacheNode.Lru

section
variable {α : Type u} {R : α → α → Prop} {xs ys zs : List α}

theorem sublistForall₂_filter {p : α → Bool} (respects : ∀ a b, R a b → p a = p b)
    (h : List.SublistForall₂ R xs ys) : List.SublistForall₂ R (xs.filter p) (ys.filter p) := by
  induction h with
  | nil => exact .nil
  | @cons a b xs ys related _ ih =>
      have same := respects a b related
      by_cases keep : p a = true
      · rw [List.filter_cons_of_pos keep, List.filter_cons_of_pos (same ▸ keep)]
        exact .cons related ih
      · rw [List.filter_cons_of_neg keep, List.filter_cons_of_neg (same ▸ keep)]
        exact ih
  | @cons_right b xs ys _ ih =>
      rw [List.filter_cons]
      split
      · exact .cons_right ih
      · exact ih

theorem sublistForall₂_dropLast (h : List.SublistForall₂ R xs ys) :
    List.SublistForall₂ R xs.dropLast ys.dropLast := by
  induction h with
  | nil => exact .nil
  | @cons a b xs ys related rest ih =>
      cases rest with
      | nil => exact .nil
      | cons => exact .cons related ih
      | cons_right =>
          cases xs with
          | nil => exact .nil
          | cons => exact .cons related ih
  | @cons_right b xs ys rest ih =>
      cases rest with
      | nil => exact .nil
      | cons => exact .cons_right ih
      | cons_right => exact .cons_right ih

theorem sublistForall₂_of_sublist (part : zs.Sublist xs) (h : List.SublistForall₂ R xs ys) :
    List.SublistForall₂ R zs ys := by
  induction h generalizing zs with
  | nil =>
      rw [List.sublist_nil.1 part]
      exact .nil
  | cons related _ ih =>
      cases part with
      | cons _ part => exact .cons_right (ih part)
      | cons_cons _ part => exact .cons related (ih part)
  | cons_right _ ih => exact .cons_right (ih part)

theorem length_le_of_sublistForall₂ (h : List.SublistForall₂ R xs ys) : xs.length ≤ ys.length := by
  obtain ⟨zs, related, part⟩ := List.sublistForall₂_iff.1 h
  rw [related.length_eq]
  exact part.length_le

theorem exists_of_sublistForall₂ (h : List.SublistForall₂ R xs ys) {a : α} (mem : a ∈ xs) :
    ∃ b ∈ ys, R a b := by
  induction h with
  | nil => cases mem
  | cons related _ ih =>
      rcases List.mem_cons.1 mem with rfl | mem
      · exact ⟨_, List.mem_cons_self, related⟩
      · obtain ⟨b, held, related⟩ := ih mem
        exact ⟨b, List.mem_cons_of_mem _ held, related⟩
  | cons_right _ ih =>
      obtain ⟨b, held, related⟩ := ih mem
      exact ⟨b, List.mem_cons_of_mem _ held, related⟩

end

variable {K : Type u} {V : Type v} [BEq K] {m n : Nat} {small large : Recency K V} {key : K}
  {value : V} {entry other : K × V}

/-! ## One list within another -/

structure Within (small large : Recency K V) : Prop where
  shown : List.SublistForall₂ SameEntry small large
  small : small.Distinct
  large : large.Distinct

theorem within_nil : Within ([] : Recency K V) [] := ⟨.nil, .nil, .nil⟩

theorem Within.dropLast (h : Within small large) : Within small.dropLast large.dropLast where
  shown := sublistForall₂_dropLast h.shown
  small := h.small.sublist ((List.dropLast_sublist small).map _)
  large := h.large.sublist ((List.dropLast_sublist large).map _)

theorem Within.dropLast_left (h : Within small large) : Within small.dropLast large where
  shown := sublistForall₂_of_sublist (List.dropLast_sublist small) h.shown
  small := h.small.sublist ((List.dropLast_sublist small).map _)
  large := h.large

theorem Recency.without_of_absent {l : Recency K V} (absent : l.entry? key = none) :
    l.without key = l := by
  apply List.eraseP_of_forall_not
  intro entry mem
  simp [Recency.key_ne_of_entry? absent mem]

theorem Recency.entries_remove (l : Recency K V) (key : K) :
    (l.remove key).entries = l.without key := by
  unfold remove
  cases found : l.entry? key with
  | some entry => rfl
  | none => rw [without_of_absent found]

theorem Recency.length_without {l : Recency K V} (found : l.entry? key = some entry) :
    (l.without key).length + 1 = l.length := by
  obtain ⟨same, before, after, rfl, rest⟩ := split_of_entry? found
  simp [rest, Nat.add_assoc]

theorem Recency.answer_put (limit : Nat) (l : Recency K V) (key : K) (value : V) :
    (l.put limit key value).answer = (l.entry? key).map (·.2) := by
  unfold put
  cases l.entry? key with
  | some entry => rfl
  | none =>
      simp only
      split <;> rfl

theorem Recency.answer_get (l : Recency K V) (key : K) :
    (l.get key).answer = (l.entry? key).map (·.2) := by
  unfold get
  cases l.entry? key <;> rfl

theorem Recency.answer_remove (l : Recency K V) (key : K) :
    (l.remove key).answer = (l.entry? key).map (·.2) := by
  unfold remove
  cases l.entry? key <;> rfl

variable [EquivBEq K]

theorem Recency.without_eq_filter {l : Recency K V} (distinct : l.Distinct) (key : K) :
    l.without key = l.filter fun entry => !(entry.1 == key) := by
  cases found : l.entry? key with
  | none =>
      rw [without_of_absent found, eq_comm, List.filter_eq_self]
      intro entry mem
      simp [Recency.key_ne_of_entry? found mem]
  | some entry =>
      obtain ⟨same, before, after, rfl, rest⟩ := split_of_entry? found
      have others : (before ++ after).filter (fun entry => !(entry.1 == key)) =
          before ++ after := by
        rw [List.filter_eq_self]
        intro other mem
        simp [key_ne_of_distinct distinct same mem]
      rw [rest, ← others, List.filter_append, List.filter_append,
        List.filter_cons_of_neg (by simp [same])]

theorem Recency.entry?_of_mem {l : Recency K V} (distinct : l.Distinct) (mem : entry ∈ l)
    (same : (entry.1 == key) = true) : l.entry? key = some entry := by
  obtain ⟨before, after, rfl⟩ := List.append_of_mem mem
  rw [Recency.entry?, List.find?_eq_some_iff_append]
  refine ⟨same, before, after, rfl, ?_⟩
  intro other held
  simp [key_ne_of_distinct distinct same (List.mem_append_left after held)]

theorem Within.entry? (h : Within small large) (found : small.entry? key = some entry) :
    ∃ other, large.entry? key = some other ∧ SameEntry entry other := by
  obtain ⟨other, held, same⟩ := exists_of_sublistForall₂ h.shown (List.mem_of_find?_eq_some found)
  have equal : (other.1 == key) = true :=
    PartialEquivBEq.trans (PartialEquivBEq.symm same.1) (Recency.split_of_entry? found).1
  exact ⟨other, Recency.entry?_of_mem h.large held equal, same⟩

theorem Within.without (h : Within small large) (key : K) :
    Within (small.without key) (large.without key) where
  shown := by
    rw [Recency.without_eq_filter h.small, Recency.without_eq_filter h.large]
    apply sublistForall₂_filter ?_ h.shown
    intro entry other same
    rw [BEq.congr_left same.1]
  small := h.small.sublist (List.eraseP_sublist.map _)
  large := h.large.sublist (List.eraseP_sublist.map _)

theorem Recency.distinct_front {l : Recency K V} (distinct : l.Distinct)
    (same : (entry.1 == key) = true) : Distinct (entry :: l.without key) := by
  rw [Distinct, List.map_cons, List.pairwise_cons]
  refine ⟨?_, distinct.sublist (List.eraseP_sublist.map _)⟩
  intro written mem
  obtain ⟨other, held, rfl⟩ := List.mem_map.1 mem
  rw [without_eq_filter distinct] at held
  rw [BEq.congr_left same, BEq.comm]
  simpa using (List.mem_filter.1 held).2

theorem Within.front (h : Within small large) (same : SameEntry entry other)
    (equal : (entry.1 == key) = true) :
    Within (entry :: small.without key) (other :: large.without key) where
  shown := .cons same (h.without key).shown
  small := Recency.distinct_front h.small equal
  large := Recency.distinct_front h.large
    (PartialEquivBEq.trans (PartialEquivBEq.symm same.1) equal)

theorem Within.get (h : Within small large) (key : K) :
    Within (small.get key).entries (large.get key).entries := by
  unfold Recency.get
  cases found : small.entry? key with
  | some entry =>
      obtain ⟨other, found', same⟩ := h.entry? found
      rw [found']
      exact h.front same (Recency.split_of_entry? found).1
  | none =>
      cases found' : large.entry? key with
      | none => exact h
      | some other =>
          have rest := h.without key
          rw [Recency.without_of_absent found] at rest
          exact ⟨.cons_right rest.shown, h.small,
            Recency.distinct_front h.large (Recency.split_of_entry? found').1⟩

/-! ## One command -/

/-- The smaller store shows a part of the larger one and has no more room left. -/
structure Inside (m n : Nat) (small large : Recency K V) : Prop where
  within : Within small large
  room : n ≠ 0 → m + large.length ≤ n + small.length

theorem Inside.put (h : Inside m n small large) (limits : n = 0 ∨ m ≠ 0 ∧ m ≤ n) (key : K)
    (value : V) : Inside m n (small.put m key value).entries (large.put n key value).entries := by
  have room := h.room
  cases found : small.entry? key with
  | some entry =>
      obtain ⟨other, found', same⟩ := h.within.entry? found
      rw [Recency.put_present found, Recency.put_present found']
      refine ⟨h.within.front ⟨same.1, rfl⟩ (Recency.split_of_entry? found).1, fun limited => ?_⟩
      have shorter := Recency.length_without found
      have shorter' := Recency.length_without found'
      have room := room limited
      simp only [List.length_cons]
      omega
  | none =>
      have kept := Recency.without_of_absent found
      rw [Recency.entries_put_absent found]
      cases found' : large.entry? key with
      | some other =>
          have equal := PartialEquivBEq.symm (Recency.split_of_entry? found').1
          have shorter' := Recency.length_without found'
          have front : Within ((key, value) :: small.without key)
              ((other.1, value) :: large.without key) := h.within.front ⟨equal, rfl⟩ BEq.rfl
          rw [kept] at front
          rw [Recency.put_present found']
          split
          · refine ⟨front.dropLast_left, fun limited => ?_⟩
            have room := room limited
            simp only [List.length_dropLast, List.length_cons]
            omega
          · refine ⟨front, fun limited => ?_⟩
            have room := room limited
            simp only [List.length_cons]
            omega
      | none =>
          have front : Within ((key, value) :: small.without key)
              ((key, value) :: large.without key) := h.within.front ⟨BEq.rfl, rfl⟩ BEq.rfl
          rw [kept, Recency.without_of_absent found'] at front
          rw [Recency.entries_put_absent found']
          simp only [List.length_cons]
          -- with no more room, the smaller store drops an entry whenever the larger one does
          split <;> split
          · refine ⟨front.dropLast, fun limited => ?_⟩
            have room := room limited
            simp only [List.length_dropLast, List.length_cons]
            omega
          · refine ⟨front.dropLast_left, fun limited => ?_⟩
            have room := room limited
            simp only [List.length_dropLast, List.length_cons]
            omega
          · omega
          · refine ⟨front, fun limited => ?_⟩
            have room := room limited
            simp only [List.length_cons]
            omega

theorem Inside.get (h : Inside m n small large) (key : K) :
    Inside m n (small.get key).entries (large.get key).entries := by
  refine ⟨h.within.get key, ?_⟩
  rw [Recency.length_get, Recency.length_get]
  exact h.room

theorem Inside.remove (h : Inside m n small large) (key : K) :
    Inside m n (small.remove key).entries (large.remove key).entries := by
  rw [Recency.entries_remove, Recency.entries_remove]
  refine ⟨h.within.without key, fun limited => ?_⟩
  have room := h.room limited
  cases found : small.entry? key with
  | some entry =>
      obtain ⟨other, found', _⟩ := h.within.entry? found
      have shorter := Recency.length_without found
      have shorter' := Recency.length_without found'
      omega
  | none =>
      have shorter : (large.without key).length ≤ large.length := List.eraseP_sublist.length_le
      rw [Recency.without_of_absent found]
      omega

omit [EquivBEq K] in
theorem Inside.removeOldest (h : Inside m n small large) :
    Inside m n small.removeOldest.entries large.removeOldest.entries := by
  refine ⟨h.within.dropLast, fun limited => ?_⟩
  have room := h.room limited
  have fewer := length_le_of_sublistForall₂ h.within.shown
  simp only [Recency.removeOldest, List.length_dropLast]
  omega

theorem Inside.putAll (h : Inside m n small large) (limits : n = 0 ∨ m ≠ 0 ∧ m ≤ n)
    (pairs : List (K × V)) :
    Inside m n (Recency.putAll m small pairs).1 (Recency.putAll n large pairs).1 := by
  induction pairs generalizing small large with
  | nil => exact h
  | cons pair pairs ih => exact ih (h.put limits pair.1 pair.2)

theorem Inside.step (h : Inside m n small large) (limits : n = 0 ∨ m ≠ 0 ∧ m ≤ n)
    (command : Command K V) :
    Inside m n (small.step m command).1 (large.step n command).1 := by
  cases command with
  | put key value => exact h.put limits key value
  | get key => exact h.get key
  | remove key => exact h.remove key
  | removeOldest => exact h.removeOldest
  | extend pairs => exact h.putAll limits pairs
  | clear =>
      refine ⟨within_nil, fun limited => ?_⟩
      show m + 0 ≤ n + 0
      omega
  | peek key => exact h
  | contains key => exact h
  | len => exact h
  | isEmpty => exact h
  | iter => exact h

/-- What a reply of the smaller store says of the reply of the larger one to the same command. -/
def Command.Upholds : Command K V → Reply K V → Reply K V → Prop
  | .put _ _, reply, reply' | .get _, reply, reply' | .peek _, reply, reply'
  | .remove _, reply, reply' =>
      ∀ value, reply = .value? (some value) → reply' = .value? (some value)
  | .contains _, reply, reply' => reply = .flag true → reply' = .flag true
  | _, _, _ => True

theorem Within.upholds (h : Within small large) (m n : Nat) (command : Command K V) :
    command.Upholds (small.step m command).2.2 (large.step n command).2.2 := by
  have values : ∀ key value, (small.entry? key).map (·.2) = some value →
      (large.entry? key).map (·.2) = some value := by
    intro key value held
    obtain ⟨entry, found, rfl⟩ := Option.map_eq_some_iff.1 held
    obtain ⟨other, found', same⟩ := h.entry? found
    rw [found', Option.map_some, same.2]
  have answers : ∀ key value,
      Reply.value? (K := K) ((small.entry? key).map (·.2)) = .value? (some value) →
        Reply.value? (K := K) ((large.entry? key).map (·.2)) = .value? (some value) := by
    intro key value found
    rw [values key value (Reply.value?.inj found)]
  cases command with
  | put key value =>
      intro old
      simp only [Recency.step, Recency.answer_put]
      exact answers key old
  | get key =>
      intro value
      simp only [Recency.step, Recency.answer_get]
      exact answers key value
  | peek key => exact answers key
  | remove key =>
      intro value
      simp only [Recency.step, Recency.answer_remove]
      exact answers key value
  | contains key =>
      intro found
      obtain ⟨entry, found⟩ := Option.isSome_iff_exists.1 (Reply.flag.inj found)
      obtain ⟨other, found', _⟩ := h.entry? found
      simp only [Recency.step, found', Option.isSome_some]
  | _ => trivial

/-! ## Whole runs -/

theorem Inside.run (h : Inside m n small large) (limits : n = 0 ∨ m ≠ 0 ∧ m ≤ n)
    (commands : List (Command K V)) :
    Inside m n (small.run m commands).1 (large.run n commands).1 := by
  induction commands generalizing small large with
  | nil => exact h
  | cons command commands ih => exact ih (h.step limits command)

theorem inclusion_every_run [Hashable K] [LawfulHashable K] (m n : Nat)
    (limits : n = 0 ∨ m ≠ 0 ∧ m ≤ n) (onEvict onEvict' : Option (Listener K V))
    (accepts : Accepts onEvict) (accepts' : Accepts onEvict') (commands : List (Command K V)) :
    let small := ((empty m onEvict).run commands).1
    let large := ((empty n onEvict').run commands).1
    List.SublistForall₂ SameEntry small.toList large.toList ∧
      ∀ command, ∃ reply reply', (small.step command).answer = .ok reply ∧
        (large.step command).answer = .ok reply' ∧ command.Upholds reply reply' := by
  intro small large
  have shows : small.Shows (Recency.run m [] commands).1 :=
    ((shows_empty m onEvict).run accepts commands).1
  have shows' : large.Shows (Recency.run n [] commands).1 :=
    ((shows_empty n onEvict').run accepts' commands).1
  obtain ⟨_, hears⟩ := (shows_empty m onEvict).settings_run accepts commands
  obtain ⟨_, hears'⟩ := (shows_empty n onEvict').settings_run accepts' commands
  have start : Inside m n ([] : Recency K V) [] := by
    refine ⟨within_nil, fun limited => ?_⟩
    show m + 0 ≤ n + 0
    omega
  have inside := start.run limits commands
  refine ⟨?_, fun command => ?_⟩
  · rw [shows.toList_eq, shows'.toList_eq]
    exact inside.within.shown
  · have answered := (shows.step (hears ▸ accepts) command).answer
    have answered' := (shows'.step (hears' ▸ accepts') command).answer
    exact ⟨_, _, answered, answered', inside.within.upholds _ _ command⟩

/-- A lookup that only the larger store answers brings its entry to the front there. -/
theorem inclusion_after_lookup :
    let commands : List (Command (Key true) Nat) :=
      [.put ⟨.int 1⟩ 10, .put ⟨.int 2⟩ 20, .put ⟨.int 3⟩ 30, .get ⟨.int 1⟩, .put ⟨.int 2⟩ 21,
        .removeOldest]
    let small := ((empty 2 none).run commands).1
    let large := ((empty 3 none).run commands).1
    (3 = 0 ∨ 2 ≠ 0 ∧ 2 ≤ 3) ∧ small.toList = [(⟨.int 2⟩, 21)] ∧
      large.toList = [(⟨.int 2⟩, 21), (⟨.int 1⟩, 10)] ∧
      List.SublistForall₂ SameEntry small.toList large.toList ∧
      (small.step (.get ⟨.int 2⟩)).answer = .ok (.value? (some 21)) ∧
      (large.step (.get ⟨.int 2⟩)).answer = .ok (.value? (some 21)) := by
  intro commands small large
  have accepts : Accepts (none : Option (Listener (Key true) Nat)) := by simp [Accepts]
  have limits : 3 = 0 ∨ 2 ≠ 0 ∧ 2 ≤ 3 := by decide
  have shows : small.Shows [(⟨.int 2⟩, 21)] := ((shows_empty 2 none).run accepts commands).1
  have shows' : large.Shows [(⟨.int 2⟩, 21), (⟨.int 1⟩, 10)] :=
    ((shows_empty 3 none).run accepts commands).1
  have found : (small.step (.get ⟨.int 2⟩)).answer = .ok (.value? (some 21)) :=
    congrArg (fun value => Except.ok (Reply.value? value)) (shows.get ⟨.int 2⟩).2.2.2
  obtain ⟨shown, upheld⟩ := inclusion_every_run 2 3 limits none none accepts accepts commands
  obtain ⟨reply, reply', answered, answered', upholds⟩ := upheld (.get ⟨.int 2⟩)
  have hit : reply' = .value? (some 21) :=
    upholds 21 (Except.ok.inj (answered.symm.trans found))
  exact ⟨limits, shows.toList_eq, shows'.toList_eq, shown, found, hit ▸ answered'⟩

end CacheNode.Lru
