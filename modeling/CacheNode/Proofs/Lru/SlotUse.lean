import CacheNode.Proofs.Lru.Consistency
import CacheNode.Proofs.SlotList.SlotUse

/-!
# How many slots a store uses

A store with a limit holds one entry more than that for a moment, when it puts a new one before the
oldest leaves: `slots_of_every_run`.
-/

namespace CacheNode.Lru

variable {K : Type u} {V : Type v} [BEq K] [Hashable K] {c : Lru K V} {l : Recency K V}

structure Sparing (c : Lru K V) : Prop where
  shows : ∃ l, c.Shows l
  slots : c.limit ≠ 0 → c.entries.slots.size ≤ c.limit + 1

theorem size_get (c : Lru K V) (key : K) :
    (c.get key).1.entries.slots.size = c.entries.slots.size := by
  unfold get
  cases c.index[key]? with
  | none => rfl
  | some i => exact (SlotList.slots_moveToFront c.entries i).2

theorem size_removeOldest (c : Lru K V) :
    c.removeOldest.state.entries.slots.size = c.entries.slots.size := by
  have popped := c.entries.size_popBack
  unfold removeOldest
  cases whole : c.entries.popBack with
  | mk entries found =>
      rw [whole] at popped
      cases found with
      | none => exact popped
      | some entry => simpa [depart_eq] using popped

theorem size_remove (c : Lru K V) (key : K) :
    (c.remove key).state.entries.slots.size = c.entries.slots.size := by
  unfold remove
  cases c.index[key]? with
  | none => rfl
  | some i =>
      have removed := c.entries.size_remove i
      simp only
      cases whole : c.entries.remove i with
      | mk entries found =>
          rw [whole] at removed
          cases found with
          | none => exact removed
          | some entry => simpa [depart_eq] using removed

theorem size_clear_le (c : Lru K V) :
    c.clear.state.entries.slots.size ≤ c.entries.slots.size := by
  unfold clear
  cases c.announce with
  | mk notes answer =>
      cases answer with
      | error f => exact Nat.le_refl _
      | ok done => exact Nat.zero_le _

theorem Shows.size_put_le (h : c.Shows l) (key : K) (value : V) :
    (c.put key value).state.entries.slots.size ≤ max c.entries.slots.size (c.len + 1) := by
  unfold Lru.put
  cases c.index[key]? with
  | some i =>
      have moved := (SlotList.slots_moveToFront c.entries i).2
      simp only
      cases (c.entries.moveToFront i).get? i with
      | none => exact Nat.le_trans (Nat.le_of_eq moved) (Nat.le_max_left _ _)
      | some entry =>
          have set := (SlotList.slots_set (c.entries.moveToFront i) i (entry.1, value)).2
          exact Nat.le_trans (Nat.le_of_eq (set.trans moved)) (Nat.le_max_left _ _)
  | none =>
      obtain ⟨items, stored, rfl⟩ := h.stored
      have pushed := stored.entries.size_pushFront (key, value)
      simp only
      split
      · rw [Outcome.state_map, size_removeOldest]
        exact Nat.le_of_eq pushed
      · exact Nat.le_of_eq pushed

variable [EquivBEq K] [LawfulHashable K]

theorem sparing_empty (limit : Nat) (onEvict : Option (Listener K V)) :
    (empty limit onEvict).Sparing :=
  ⟨⟨[], shows_empty limit onEvict⟩, fun _ => Nat.zero_le _⟩

theorem Sparing.put (h : c.Sparing) (key : K) (value : V) : (c.put key value).state.Sparing := by
  obtain ⟨l, shows⟩ := h.shows
  have follows := shows.put key value
  refine ⟨⟨_, follows.shows⟩, ?_⟩
  rw [follows.limit]
  intro limited
  have size := shows.size_put_le key value
  have slots := h.slots limited
  have held := shows.within limited
  rw [← shows.len_eq] at held
  omega

theorem Sparing.step (h : c.Sparing) (command : Command K V) :
    (c.step command).state.Sparing := by
  obtain ⟨l, shows⟩ := h.shows
  obtain ⟨later, limit⟩ := shows.state_step command
  have spared (fits : (c.step command).state.entries.slots.size ≤ c.entries.slots.size) :
      (c.step command).state.Sparing := by
    refine ⟨later, ?_⟩
    rw [limit]
    intro limited
    exact Nat.le_trans fits (h.slots limited)
  cases command with
  | put key value => exact h.put key value
  | extend pairs =>
      apply Outcome.inTurn_preserves (P := Sparing) _ pairs h
      intro c pair sparing
      exact sparing.put pair.1 pair.2
  | get key => exact spared (Nat.le_of_eq (c.size_get key))
  | remove key => exact spared (Nat.le_of_eq (c.size_remove key))
  | removeOldest => exact spared (Nat.le_of_eq c.size_removeOldest)
  | clear => exact spared c.size_clear_le
  | peek key => exact h
  | contains key => exact h
  | len => exact h
  | isEmpty => exact h
  | iter => exact h

omit [EquivBEq K] [LawfulHashable K] in
theorem Sparing.hearing (h : c.Sparing) (onEvict : Option (Listener K V)) :
    ({ c with onEvict } : Lru K V).Sparing := by
  obtain ⟨l, shows⟩ := h.shows
  exact ⟨⟨l, shows.hearing onEvict⟩, h.slots⟩

theorem Sparing.after (h : c.Sparing) (requests : List (Request K V)) :
    (c.after requests).Sparing := by
  induction requests generalizing c with
  | nil => exact h
  | cons request requests ih => exact ih ((h.hearing request.listener).step request.command)

theorem slots_of_every_run {α : Type w} {s : SlotList α} (capacity : Nat)
    (made : SlotList.withCapacity capacity = .ok s) (commands : List (SlotList.Command α)) :
    IsGreatest (s.heldSince commands) (s.run commands).1.slots.size ∧
      (∀ first a rest, commands = first ++ .push a :: rest →
        (∀ command ∈ rest, command.isClear = false) →
        ((s.run first).1.pushFront a).2 < (s.run commands).1.slots.size) ∧
      ∀ (config : LruConfig) (onEvict : Option (Listener K V)) (requests : List (Request K V)),
        config.maxEntries ≠ 0 →
          ((ofConfig config onEvict).after requests).entries.slots.size ≤
            config.maxEntries + 1 := by
  obtain rfl := SlotList.eq_empty_of_withCapacity made
  refine ⟨SlotList.isGreatest_heldSince commands, ?_, ?_⟩
  · rintro first a rest rfl kept
    have holds := (SlotList.models_empty.run first).1.holds
    have grown := SlotList.size_run_append_le (first ++ [.push a]) kept
    rw [SlotList.state_run_concat, List.append_assoc] at grown
    exact Nat.lt_of_lt_of_le (holds.index_pushFront_lt a) grown
  · intro config onEvict requests limited
    have sparing := (sparing_empty config.maxEntries onEvict).after requests
    obtain ⟨-, limit⟩ := (shows_empty config.maxEntries onEvict).after requests
    have slots := sparing.slots
    rw [limit] at slots
    exact slots limited

/-- Two slots do after the clearing. The store is refused both the entry that it drives out and its
clearing. -/
theorem slots_of_refilled_store :
    let s : SlotList Nat := {}
    let first : List (SlotList.Command Nat) :=
      [.push 1, .push 2, .push 3, .clear, .push 4, .push 5, .remove 0]
    let commands := first ++ [.push 6, .pop]
    let tell : Option (Listener Nat Nat) := some (.failingOn 1 "refused")
    let requests : List (Request Nat Nat) :=
      [⟨.extend [(1, 10), (2, 20), (3, 30)], tell⟩, ⟨.remove 2, tell⟩, ⟨.put 1 11, tell⟩,
        ⟨.clear, tell⟩, ⟨.put 4 40, tell⟩, ⟨.put 5 50, tell⟩]
    IsGreatest (s.heldSince commands) 2 ∧ ((s.run first).1.pushFront 6).2 < 2 ∧
      ((ofConfig ⟨2⟩ none).after requests).entries.slots.size ≤ 3 := by
  intro s first commands tell requests
  have made : SlotList.withCapacity 8 = .ok s := if_pos (by decide)
  have used : (s.run commands).1.slots.size = 2 := by decide +kernel
  obtain ⟨greatest, within, store⟩ := slots_of_every_run (K := Nat) (V := Nat) 8 made commands
  have index := within first 6 [.pop] rfl (by simp [SlotList.Command.isClear])
  rw [used] at greatest index
  exact ⟨greatest, index, store ⟨2⟩ none requests (by decide)⟩

end CacheNode.Lru
