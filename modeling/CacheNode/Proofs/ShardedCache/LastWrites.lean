import CacheNode.Proofs.ShardedCache.Values

/-! # Values written last -/

namespace CacheNode

variable {K : Type u} {V : Type v} [BEq K] {limit n : Nat}

namespace ShardedCache

def WrittenLast (commands : List (Command K V)) (key : K) (value : V)
    (since : List (Command K V)) : Prop :=
  ∃ past written, commands = past ++ .insert written value :: since ∧ (written == key) = true ∧
    ∀ command ∈ since, command.overwrites key = false

variable [Hashable K]

def Command.onMap (held : Std.HashMap K V) : Command K V → Std.HashMap K V
  | .insert key value => held.insert key value
  | .remove key => held.erase key
  | .clear => ∅
  | .get _ | .len | .isEmpty | .shards | .stats _ => held

def Command.replyOf? (held : Std.HashMap K V) : Command K V → Option (Reply V)
  | .insert key _ | .get key | .remove key => some (.value? held[key]?)
  | .len => some (.count held.size)
  | .isEmpty => some (.flag held.isEmpty)
  | .clear => some .done
  | .shards | .stats _ => none

structure ShowsMap (c : ShardedCache K V n) (held : Std.HashMap K V) : Prop where
  value? : ∀ key, c.value? key = held[key]?
  len : c.len = held.size

variable {c : ShardedCache K V n} {listener : Option (Listener K V)} [EquivBEq K]
  [LawfulHashable K]

omit [EquivBEq K] [LawfulHashable K] in
theorem state_run_append (c : ShardedCache K V n) (first second : List (Command K V)) :
    (c.run (first ++ second)).1 = ((c.run first).1.run second).1 := by
  induction first generalizing c with
  | nil => rfl
  | cons command first ih => exact ih (c.step command).state

theorem Sound.writtenLast_of_value? (h : c.Sound listener) (accepts : Lru.Accepts listener)
    (consistent : c.hasher.Consistent) {commands : List (Command K V)} {key : K} {value : V}
    (held : (c.run commands).1.value? key = some value) :
    (c.value? key = some value ∧ ∀ command ∈ commands, command.overwrites key = false) ∨
      ∃ since, WrittenLast commands key value since := by
  induction commands generalizing c with
  | nil => exact .inl ⟨held, nofun⟩
  | cons command commands ih =>
      rcases ih (h.step command) ((c.hasher_step command).symm ▸ consistent) held with
        ⟨first, keeps⟩ | ⟨since, past, written, rfl, equal, keeps⟩
      · -- no later command wrote the value: it was this one, or it was held before
        cases overwrites : command.overwrites key with
        | true =>
            rw [h.value?_overwritten accepts consistent overwrites] at first
            cases command with
            | insert written added =>
                obtain rfl := Option.some.inj first
                exact .inr ⟨commands, [], written, rfl, overwrites, keeps⟩
            | _ => cases first
        | false =>
            rcases h.value?_kept accepts overwrites with same | ⟨gone, -⟩
            · rw [same] at first
              exact .inl ⟨first, List.forall_mem_cons.2 ⟨overwrites, keeps⟩⟩
            · rw [gone] at first
              cases first
      · exact .inr ⟨since, command :: past, written, rfl, equal, keeps⟩

theorem Sound.stays_or_evicted (h : c.Sound listener) (accepts : Lru.Accepts listener) {key : K}
    {value : V} (held : c.value? key = some value) {since : List (Command K V)}
    (keeps : ∀ command ∈ since, command.overwrites key = false) :
    (c.run since).1.value? key = some value ∨
      ∃ middle evicting rest, since = middle ++ evicting :: rest ∧
        (c.run middle).1.Evicts key value evicting := by
  induction since generalizing c with
  | nil => exact .inl held
  | cons command since ih =>
      rw [List.forall_mem_cons] at keeps
      rcases h.value?_kept accepts keeps.1 with same | ⟨-, value', held', evicts⟩
      · rcases ih (h.step command) (same.trans held) keeps.2 with
          stays | ⟨middle, evicting, rest, rfl, evicts⟩
        · exact .inl stays
        · exact .inr ⟨command :: middle, evicting, rest, rfl, evicts⟩
      · obtain rfl : value' = value := Option.some.inj (held'.symm.trans held)
        exact .inr ⟨[], command, since, rfl, evicts⟩

theorem Sound.evicted_of_writtenLast (h : c.Sound listener) (accepts : Lru.Accepts listener)
    (consistent : c.hasher.Consistent) {commands since : List (Command K V)} {key : K} {value : V}
    (wrote : WrittenLast commands key value since)
    (missed : (c.run commands).1.value? key = none) :
    ∃ before evicting rest, commands = before ++ evicting :: rest ∧ evicting :: rest <:+ since ∧
      (c.run before).1.Evicts key value evicting := by
  obtain ⟨past, written, rfl, equal, keeps⟩ := wrote
  have sound : (c.run past).1.Sound listener := h.run past
  have consistent' : (c.run past).1.hasher.Consistent := (h.hasher_run past).symm ▸ consistent
  have overwrites : (Command.insert written value).overwrites key = true := equal
  have held : ((c.run past).1.step (.insert written value)).state.value? key = some value :=
    sound.value?_overwritten accepts consistent' overwrites
  rw [state_run_append] at missed
  rcases (sound.step _).stays_or_evicted accepts held keeps with
    stays | ⟨middle, evicting, rest, rfl, evicts⟩
  · cases missed.symm.trans stays
  · refine ⟨past ++ .insert written value :: middle, evicting, rest, ?_, ?_, ?_⟩
    · rw [List.append_assoc, List.cons_append]
    · exact List.suffix_append _ _
    · rw [state_run_append]
      exact evicts

theorem getElem?_onMap (held : Std.HashMap K V) (command : Command K V) (key : K) :
    (command.onMap held)[key]? = if command.overwrites key then command.leaves else held[key]? := by
  cases command with
  | insert other value => exact Std.HashMap.getElem?_insert
  | remove other => exact Std.HashMap.getElem?_erase
  | clear => exact Std.HashMap.getElem?_empty
  | _ => rfl

theorem Sound.len_insert (h : c.Sound listener) (unlimited : c.Limited 0) (key : K) (value : V) :
    (c.step (.insert key value)).state.len = c.len + (c.value? key).isNone.toNat := by
  obtain ⟨l, shows⟩ := h.shown (c.route key)
  have advanced := h.advance (·.insert key value) shows (Shard.advances_insert shows key value)
  have stays : (l.put 0 key value).leaver = none := by
    rw [← Option.isSome_eq_false_iff.trans Option.isNone_iff_eq_none, l.isSome_leaver_put]
    rfl
  have put := l.length_put 0 key value
  rw [stays, l.answer_put] at put
  have len := advanced.2.2
  rw [unlimited] at len
  rw [value?, shows.peek_eq]
  show (c.onShard (c.route key) (·.insert key value)).state.len = _
  simp only [Option.toList_none, List.length_nil] at put
  omega

theorem Sound.len_remove (h : c.Sound listener) (key : K) :
    (c.step (.remove key)).state.len + (c.value? key).isSome.toNat = c.len := by
  obtain ⟨l, shows⟩ := h.shown (c.route key)
  have advanced := h.advance (·.remove key) shows (Shard.advances_remove shows key)
  have removed := l.length_remove key
  rw [l.answer_remove] at removed
  rw [value?, shows.peek_eq]
  show (c.onShard (c.route key) (·.remove key)).state.len + _ = _
  have len := advanced.2.2
  omega

omit [LawfulHashable K] in
theorem Sound.len_get (h : c.Sound listener) (key : K) :
    (c.step (.get key)).state.len = c.len := by
  obtain ⟨l, shows⟩ := h.shown (c.route key)
  have advanced := h.advance (fun s => .ok (s.get key).1 (s.get key).2) shows
    (Shard.advances_get shows key)
  have len := advanced.2.2
  rw [l.length_get] at len
  exact Nat.add_right_cancel len

theorem Sound.len_clear (h : c.Sound listener) (accepts : Lru.Accepts listener) :
    c.clear.state.len = 0 := by
  rw [len_eq_sum_shards]
  refine Finset.sum_eq_zero fun i _ => ?_
  obtain ⟨l, shows⟩ := h.shown i
  rw [(h.clear_each accepts).1]
  exact (shows.clear (h.accepts accepts i)).shows.len_eq

omit [EquivBEq K] [LawfulHashable K] in
theorem isEmpty_eq (c : ShardedCache K V n) : c.isEmpty = (c.len == 0) := by
  rw [Bool.eq_iff_iff, isEmpty_iff, beq_iff_eq, len_eq_sum_shards, Finset.sum_eq_zero_iff]
  simp [Shard.len, Lru.isEmpty, Lru.len, SlotList.isEmpty]

theorem ShowsMap.step {held : Std.HashMap K V} (shows : c.ShowsMap held) (h : c.Sound listener)
    (accepts : Lru.Accepts listener) (consistent : c.hasher.Consistent) (unlimited : c.Limited 0)
    (command : Command K V) : (c.step command).state.ShowsMap (command.onMap held) where
  value? key := by
    rw [getElem?_onMap]
    split
    · rename_i overwrites
      exact h.value?_overwritten accepts consistent overwrites
    · rename_i keeps
      rcases h.value?_kept accepts (Bool.eq_false_of_not_eq_true keeps) with
        same | ⟨-, value, -, evicts⟩
      · exact same.trans (shows.value? key)
      · exact absurd rfl (evicts.limited h accepts unlimited)
  len := by
    cases command with
    | insert key value =>
        rw [h.len_insert unlimited, shows.value?, shows.len, Command.onMap,
          Std.HashMap.size_insert]
        simp only [Std.HashMap.mem_iff_isSome_getElem?]
        cases held[key]? <;> rfl
    | remove key =>
        have removed := h.len_remove key
        rw [shows.value?, shows.len] at removed
        rw [Command.onMap, Std.HashMap.size_erase]
        simp only [Std.HashMap.mem_iff_isSome_getElem?]
        cases found : held[key]? with
        | none =>
            rw [found] at removed
            exact removed
        | some value =>
            rw [found] at removed
            exact Nat.eq_sub_of_add_eq removed
    | get key => exact (h.len_get key).trans shows.len
    | clear => exact (h.len_clear accepts).trans Std.HashMap.size_empty.symm
    | stats millis => exact (h.stats millis).2.2.trans shows.len
    | len => exact shows.len
    | isEmpty => exact shows.len
    | shards => exact shows.len

theorem ShowsMap.answer {held : Std.HashMap K V} (shows : c.ShowsMap held) (h : c.Sound listener)
    (accepts : Lru.Accepts listener) {command : Command K V} {reply : Reply V}
    (replied : command.replyOf? held = some reply) : (c.step command).answer = .ok reply := by
  have keyed : ∀ key, command.key? = some key → .value? held[key]? = reply →
      (c.step command).answer = .ok reply := by
    rintro key asks rfl
    rw [h.answer_key accepts asks, shows.value?]
  cases command with
  | insert key value => exact keyed key rfl (Option.some.inj replied)
  | get key => exact keyed key rfl (Option.some.inj replied)
  | remove key => exact keyed key rfl (Option.some.inj replied)
  | clear =>
      obtain rfl := Option.some.inj replied
      exact congrArg (Except.map fun _ => Reply.done) (h.clear_each accepts).2.2
  | len =>
      obtain rfl := Option.some.inj replied
      rw [← shows.len]
      rfl
  | isEmpty =>
      obtain rfl := Option.some.inj replied
      rw [Std.HashMap.isEmpty_eq_size_eq_zero, ← shows.len, ← isEmpty_eq]
      rfl
  | shards => cases replied
  | stats millis => cases replied

theorem ShowsMap.run {held : Std.HashMap K V} (shows : c.ShowsMap held) (h : c.Sound listener)
    (accepts : Lru.Accepts listener) (consistent : c.hasher.Consistent) (unlimited : c.Limited 0)
    (commands : List (Command K V)) :
    (c.run commands).1.ShowsMap (commands.foldl Command.onMap held) := by
  induction commands generalizing c held with
  | nil => exact shows
  | cons command commands ih =>
      exact ih (shows.step h accepts consistent unlimited command) (h.step command)
        ((c.hasher_step command).symm ▸ consistent) (unlimited.step h command)

theorem last_write_served {s : Sharding} {hasher : Hasher K} {c : ShardedCache K V s.shards}
    (made : ofSharding s hasher listener = .ok c) (consistent : hasher.Consistent)
    (accepts : Lru.Accepts listener) (commands : List (Command K V)) :
    let c' := (c.run commands).1
    (∀ command key, command.key? = some key →
      ∃ found, (c'.step command).answer = .ok (.value? found) ∧
        (∀ value, found = some value → ∃ since, WrittenLast commands key value since) ∧
        ∀ value since, WrittenLast commands key value since → found = none →
          s.capacity ≠ 0 ∧ ∃ before evicting rest, commands = before ++ evicting :: rest ∧
            evicting :: rest <:+ since ∧ (c.run before).1.Evicts key value evicting) ∧
    (s.capacity = 0 → ∀ command reply,
      command.replyOf? (commands.foldl Command.onMap (∅ : Std.HashMap K V)) = some reply →
        (c'.step command).answer = .ok reply) := by
  intro c'
  have sound : c.Sound listener := (sound_ofSharding made).1
  have later : c'.Sound listener := sound.run commands
  have consistent' : c.hasher.Consistent := (hasher_ofSharding made).symm ▸ consistent
  have limited : c.Limited s.perShard := limited_ofSharding made
  have empty : ∀ key, c.value? key = none := fun key => by
    rw [value?, shard_ofSharding made]
    exact (Lru.shows_empty s.perShard listener).peek_eq key
  constructor
  · intro command key asks
    refine ⟨c'.value? key, later.answer_key accepts asks, ?_, ?_⟩
    · intro value held
      rcases sound.writtenLast_of_value? accepts consistent' held with ⟨first, -⟩ | written
      · rw [empty] at first
        cases first
      · exact written
    · intro value since wrote missed
      have driven := sound.evicted_of_writtenLast accepts consistent' wrote missed
      obtain ⟨before, evicting, rest, split, after, evicts⟩ := driven
      refine ⟨?_, before, evicting, rest, split, after, evicts⟩
      have share := evicts.limited (sound.run before) accepts (limited.run sound before)
      exact mt s.perShard_eq_zero_iff.2 share
  · intro unlimited command reply replied
    rw [s.perShard_eq_zero_iff.2 unlimited] at limited
    have start : c.ShowsMap ∅ := by
      refine ⟨fun key => (empty key).trans Std.HashMap.getElem?_empty.symm, ?_⟩
      exact (sound_ofSharding made).2.2.trans Std.HashMap.size_empty.symm
    exact (start.run sound accepts consistent' limited commands).answer later accepts replied

/-- The second key of the even shard drives out the first one; the odd shard keeps its own. -/
theorem last_write_served_evicting :
    let hasher : Hasher Nat := ⟨fun key => key.toUInt64 <<< 32, 0⟩
    let accepts : Option (Listener Nat Nat) := some fun _ _ => .ok ()
    let commands : List (Command Nat Nat) :=
      [.insert 0 10, .insert 1 11, .insert 0 20, .insert 2 12, .get 1]
    ∃ c : ShardedCache Nat Nat 2,
      ofSharding ⟨2, 2, by decide⟩ hasher accepts = .ok c ∧ hasher.Consistent ∧
      Lru.Accepts accepts ∧ WrittenLast commands 0 20 [.insert 2 12, .get 1] ∧
      ((c.run commands).1.step (.get 0)).answer = .ok (.value? none) ∧
      ((c.run commands).1.step (.get 1)).answer = .ok (.value? (some 11)) ∧
      (∃ before evicting rest, commands = before ++ evicting :: rest ∧
        evicting :: rest <:+ [.insert 2 12, .get 1] ∧ (c.run before).1.Evicts 0 20 evicting) ∧
      ∃ since, WrittenLast commands 1 11 since := by
  intro hasher accepts commands
  let c : ShardedCache Nat Nat 2 := ⟨.replicate 2 (.empty 1 accepts), hasher, by decide⟩
  have fits : TableFits 2 (shardBytes hasher) := by
    show 2 * (8 * (20 + (0 + 7) / 8)) < 2 ^ 63
    decide
  have made : ofSharding ⟨2, 2, by decide⟩ hasher accepts = .ok c := if_pos fits
  have consistent : hasher.Consistent := by
    intro key other same
    rw [eq_of_beq same]
  have accepting : Lru.Accepts accepts := by simp [Lru.Accepts, accepts]
  have wrote : WrittenLast commands 0 20 [.insert 2 12, .get 1] :=
    ⟨[.insert 0 10, .insert 1 11], 0, rfl, rfl, by simp [Command.overwrites]⟩
  have missed : ((c.run commands).1.step (.get 0)).answer = .ok (.value? none) ∧
      ((c.run commands).1.step (.get 1)).answer = .ok (.value? (some 11)) := by
    constructor <;> cbv
  obtain ⟨served, -⟩ := last_write_served made consistent accepting commands
  obtain ⟨none', answered, -, evicted⟩ := served (.get 0) 0 rfl
  obtain ⟨some', answered', written, -⟩ := served (.get 1) 1 rfl
  obtain rfl : none' = none := Reply.value?.inj (Except.ok.inj (answered.symm.trans missed.1))
  obtain rfl : some' = some 11 := Reply.value?.inj (Except.ok.inj (answered'.symm.trans missed.2))
  exact ⟨c, made, consistent, accepting, wrote, missed.1, missed.2, (evicted 20 _ wrote rfl).2,
    written 11 rfl⟩

end ShardedCache

end CacheNode
