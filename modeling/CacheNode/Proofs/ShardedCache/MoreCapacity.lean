import CacheNode.Proofs.Lru.Inclusion
import CacheNode.Proofs.ShardedCache.Capacity
import CacheNode.Proofs.ShardedCache.Independence

/-! # More capacity never hurts -/

namespace CacheNode

theorem Sharding.perShard_limits {capacity capacity' n : Nat} (pos : 0 < n)
    (limits : capacity' = 0 ∨ capacity ≠ 0 ∧ capacity ≤ capacity') :
    perShard ⟨capacity', n, pos⟩ = 0 ∨
      perShard ⟨capacity, n, pos⟩ ≠ 0 ∧
        perShard ⟨capacity, n, pos⟩ ≤ perShard ⟨capacity', n, pos⟩ := by
  rcases limits with unlimited | ⟨limited, smaller⟩
  · exact .inl ((perShard_eq_zero_iff ⟨capacity', n, pos⟩).2 unlimited)
  · refine .inr ⟨mt (perShard_eq_zero_iff ⟨capacity, n, pos⟩).1 limited, ?_⟩
    exact Nat.div_le_div_right (Nat.sub_le_sub_right (Nat.add_le_add_right smaller n) 1)

variable {K : Type u} {V : Type v} [BEq K] {m m' n : Nat}

/-- With no less room left, the larger store lets an entry go only when the smaller one does. -/
theorem Lru.Inside.leaver_put [EquivBEq K] {l l' : Recency K V} (h : Inside m m' l l')
    (limits : m' = 0 ∨ m ≠ 0 ∧ m ≤ m') {key : K} {value : V}
    (leaves : (l'.put m' key value).leaver.isSome = true) :
    (l.put m key value).leaver.isSome = true := by
  rw [Recency.isSome_leaver_put] at leaves ⊢
  simp only [Bool.and_eq_true, bne_iff_ne, decide_eq_true_eq, Bool.not_eq_true',
    Option.isSome_eq_false_iff, Option.isNone_iff_eq_none] at leaves ⊢
  obtain ⟨⟨finite, full⟩, absent⟩ := leaves
  obtain ⟨positive, -⟩ := limits.resolve_left finite
  have room := h.room finite
  refine ⟨⟨positive, by omega⟩, ?_⟩
  cases found : l.entry? key with
  | none => rfl
  | some entry =>
      obtain ⟨other, found', -⟩ := h.within.entry? found
      rw [absent] at found'
      cases found'

theorem countP_le_of_forall₂ {α : Type u} {β : Type v} {R : α → β → Prop} {p : α → Bool}
    {q : β → Bool} {xs : List α} {ys : List β} (h : List.Forall₂ R xs ys)
    (keeps : ∀ x y, R x y → p x = true → q y = true) : xs.countP p ≤ ys.countP q := by
  induction h with
  | nil => exact Nat.le_refl 0
  | @cons x y xs ys related _ ih =>
      rw [List.countP_cons, List.countP_cons]
      by_cases counts : p x = true
      · rw [if_pos counts, if_pos (keeps x y related counts)]
        exact Nat.succ_le_succ ih
      · rw [if_neg counts]
        exact ih.trans (Nat.le_add_right _ _)

variable [Hashable K]

namespace ShardedCache

def totals (c : ShardedCache K V n) (commands : List (Command K V)) : Counters :=
  ((c.run (commands ++ [.stats 0])).2.map fun step => snapshot step.2).sum

structure Roomier (m m' : Nat) (listener listener' : Option (Listener K V))
    (small large : ShardedCache K V n) : Prop where
  limits : m' = 0 ∨ m ≠ 0 ∧ m ≤ m'
  accepts : Lru.Accepts listener
  accepts' : Lru.Accepts listener'
  sound : small.Sound listener
  sound' : large.Sound listener'
  limited : small.Limited m
  limited' : large.Limited m'
  hasher : large.hasher = small.hasher
  inside : ∀ i, ∃ l l' : Lru.Recency K V, (small.shard i).entries.Shows l ∧
    (large.shard i).entries.Shows l' ∧ Lru.Inside m m' l l'

structure Visit.Spares (v v' : Visit K V n) : Prop where
  hit : v.isHit = true → v'.isHit = true
  miss : v'.isMiss = true → v.isMiss = true
  evicts : v'.evicts = true → v.evicts = true

variable {small large c : ShardedCache K V n} {listener listener' : Option (Listener K V)}

/-! ## What a store finds -/

omit [Hashable K] in
theorem Command.finds_more [EquivBEq K] {l l' : Lru.Recency K V} (within : Lru.Within l l')
    (m m' : Nat) {command : Command K V} {asked : Lru.Command K V}
    (asks : command.onStore? = some asked) (stays : asked.isClear = false) :
    ∃ found found', (l.step m asked).2.2 = .value? found ∧
      (l'.step m' asked).2.2 = .value? found' ∧
      ∀ value, found = some value → found' = some value := by
  have upheld := within.upholds m m' asked
  cases command with
  | insert key value =>
      obtain rfl := Option.some.inj asks
      exact ⟨_, _, rfl, rfl, fun old found => Lru.Reply.value?.inj
        (upheld old (congrArg Lru.Reply.value? found))⟩
  | get key =>
      obtain rfl := Option.some.inj asks
      exact ⟨_, _, rfl, rfl, fun value found => Lru.Reply.value?.inj
        (upheld value (congrArg Lru.Reply.value? found))⟩
  | remove key =>
      obtain rfl := Option.some.inj asks
      exact ⟨_, _, rfl, rfl, fun value found => Lru.Reply.value?.inj
        (upheld value (congrArg Lru.Reply.value? found))⟩
  | clear =>
      obtain rfl := Option.some.inj asks
      cases stays
  | _ => cases asks

theorem exists_place?_of_value? {command : Command K V} {value : V}
    (answer : (c.step command).answer = .ok (.value? (some value))) :
    ∃ i, c.place? command = some i := by
  cases command with
  | insert key value => exact ⟨_, rfl⟩
  | get key => exact ⟨_, rfl⟩
  | remove key => exact ⟨_, rfl⟩
  | clear =>
      have done : (c.clear.answer.map fun _ => Reply.done) = .ok (.value? (some value)) := answer
      cases cleared : c.clear.answer <;> rw [cleared] at done <;> cases done
  | _ => cases answer

/-! ## One command -/

variable [EquivBEq K] [LawfulHashable K]

theorem Limited.evicts_insert {limit : Nat} (limited : c.Limited limit)
    (accepts : Lru.Accepts listener) {key : K} {l : Lru.Recency K V}
    (shows : (c.shard (c.route key)).entries.Shows l) (value : V) :
    Visit.evicts ⟨c, .insert key value, listener⟩ = (l.put limit key value).leaver.isSome := by
  rw [Visit.evicts, Visit.displaced_insert shows, limited]
  cases (l.put limit key value).leaver with
  | none => rfl
  | some entry =>
      rw [Option.toList_some, List.any_cons, List.any_nil, Bool.or_false,
        Lru.verdict_of_accepts accepts]
      rfl

theorem Roomier.step (h : Roomier m m' listener listener' small large) (command : Command K V) :
    Roomier m m' listener listener' (small.step command).state (large.step command).state where
  limits := h.limits
  accepts := h.accepts
  accepts' := h.accepts'
  sound := h.sound.step command
  sound' := h.sound'.step command
  limited := h.limited.step h.sound command
  limited' := h.limited'.step h.sound' command
  hasher := (large.hasher_step command).trans (h.hasher.trans (small.hasher_step command).symm)
  inside i := by
    obtain ⟨l, l', shows, shows', inside⟩ := h.inside i
    rw [h.sound.shard_step h.accepts, h.sound'.shard_step h.accepts',
      concerns_eq_of_hasher_eq h.hasher]
    split
    · rw [Shard.entries_next, Shard.entries_next]
      cases command.onStore? with
      | none => exact ⟨l, l', shows, shows', inside⟩
      | some asked =>
          have next := (shows.step (h.sound.accepts h.accepts i) asked).shows
          have next' := (shows'.step (h.sound'.accepts h.accepts' i) asked).shows
          rw [h.limited i] at next
          rw [h.limited' i] at next'
          exact ⟨_, _, next, next', inside.step h.limits asked⟩
    · exact ⟨l, l', shows, shows', inside⟩

theorem Roomier.answers (h : Roomier m m' listener listener' small large) {command : Command K V}
    {i : Fin n} (placed : small.place? command = some i) :
    ∃ found found', (small.step command).answer = .ok (.value? found) ∧
      (large.step command).answer = .ok (.value? found') ∧
      ∀ value, found = some value → found' = some value := by
  have placed' : large.place? command = some i := by
    rw [place?, route_eq_of_hasher_eq h.hasher]
    exact placed
  obtain ⟨l, l', shows, shows', inside⟩ := h.inside i
  obtain ⟨asked, asks, stays, -, answer⟩ := step_at placed
  obtain ⟨asked', asks', -, -, answer'⟩ := step_at placed'
  obtain rfl := Option.some.inj (asks.symm.trans asks')
  rw [(shows.step (h.sound.accepts h.accepts i) asked).answer] at answer
  rw [(shows'.step (h.sound'.accepts h.accepts' i) asked).answer] at answer'
  obtain ⟨found, found', finds, finds', more⟩ := Command.finds_more inside.within
    (small.shard i).entries.limit (large.shard i).entries.limit asks stays
  rw [finds] at answer
  rw [finds'] at answer'
  exact ⟨found, found', answer, answer', more⟩

omit [EquivBEq K] [LawfulHashable K] in
theorem Roomier.len_le (h : Roomier m m' listener listener' small large) :
    small.len ≤ large.len := by
  rw [len_eq_sum_shards, len_eq_sum_shards]
  refine Finset.sum_le_sum fun i _ => ?_
  obtain ⟨l, l', shows, shows', inside⟩ := h.inside i
  rw [Shard.len, Shard.len, shows.len_eq, shows'.len_eq]
  exact Lru.length_le_of_sublistForall₂ inside.within.shown

theorem Roomier.spares (h : Roomier m m' listener listener' small large)
    (command : Command K V) :
    Visit.Spares ⟨small, command, listener⟩ ⟨large, command, listener'⟩ := by
  cases command with
  | get key =>
      obtain ⟨found, found', answer, answer', more⟩ :=
        h.answers (show small.place? (.get key) = some (small.route key) from rfl)
      refine ⟨?_, ?_, fun evicts => nomatch evicts⟩
      · unfold Visit.isHit Visit.outcome
        rw [h.sound.serve_eq, h.sound'.serve_eq, answer, answer']
        cases found with
        | none => exact fun hit => nomatch hit
        | some value =>
            rw [more value rfl]
            exact fun _ => rfl
      · unfold Visit.isMiss Visit.outcome
        rw [h.sound.serve_eq, h.sound'.serve_eq, answer, answer']
        cases found with
        | none => exact fun _ => rfl
        | some value =>
            rw [more value rfl]
            exact fun miss => nomatch miss
  | insert key value =>
      refine ⟨(fun hit => nomatch hit), (fun miss => nomatch miss), ?_⟩
      obtain ⟨l, l', shows, shows', inside⟩ := h.inside (small.route key)
      rw [← route_eq_of_hasher_eq h.hasher] at shows'
      rw [h.limited.evicts_insert h.accepts shows,
        h.limited'.evicts_insert h.accepts' shows']
      exact inside.leaver_put h.limits
  | _ =>
      refine ⟨?_, ?_, ?_⟩
      · exact fun hit => nomatch hit
      · exact fun miss => nomatch miss
      · exact fun evicts => nomatch evicts

/-! ## Whole runs -/

theorem Roomier.run (h : Roomier m m' listener listener' small large)
    (commands : List (Command K V)) :
    Roomier m m' listener listener' (small.run commands).1 (large.run commands).1 := by
  induction commands generalizing small large with
  | nil => exact h
  | cons command commands ih => exact ih (h.step command)

theorem Roomier.visits (h : Roomier m m' listener listener' small large)
    (commands : List (Command K V)) :
    List.Forall₂ Visit.Spares (small.visits (commands.map (⟨·, listener⟩)))
      (large.visits (commands.map (⟨·, listener'⟩))) := by
  induction commands generalizing small large with
  | nil => exact .nil
  | cons command commands ih =>
      refine .cons (h.spares command) ?_
      rw [h.sound.serve_eq, h.sound'.serve_eq]
      exact ih (h.step command)

theorem Sound.totals_eq (h : c.Sound listener) (fresh : c.counted = 0)
    (commands : List (Command K V)) :
    let visits := c.visits (commands.map (⟨·, listener⟩))
    c.totals commands =
      ⟨visits.countP Visit.isHit, visits.countP Visit.isMiss, visits.countP Visit.evicts⟩ := by
  intro visits
  let requests : List (Request K V) := commands.map (⟨·, listener⟩)
  obtain ⟨last, -, sound⟩ := h.after requests
  have told := h.snapshots_after (requests ++ [⟨.stats 0, listener⟩])
  have reset : (c.after (requests ++ [⟨.stats 0, listener⟩])).counted = 0 := by
    rw [after_concat, Visit.counted_outcome sound]
    rfl
  have silent : Visit.counts ⟨c.after requests, .stats 0, listener⟩ = 0 := rfl
  rw [reset, fresh, add_zero, zero_add] at told
  rw [totals, h.run_eq_visits, List.map_map, List.map_append, List.map_singleton]
  refine told.trans ?_
  rw [visits_concat, List.map_append, List.sum_append, List.map_singleton, List.sum_singleton,
    silent, add_zero, sum_counts]

theorem roomier_ofSharding {capacity capacity' : Nat} {pos : 0 < n} {hasher : Hasher K}
    (made : ofSharding ⟨capacity, n, pos⟩ hasher listener = .ok small)
    (made' : ofSharding ⟨capacity', n, pos⟩ hasher listener' = .ok large)
    (limits : capacity' = 0 ∨ capacity ≠ 0 ∧ capacity ≤ capacity')
    (accepts : Lru.Accepts listener) (accepts' : Lru.Accepts listener') :
    Roomier (Sharding.perShard ⟨capacity, n, pos⟩) (Sharding.perShard ⟨capacity', n, pos⟩) listener
      listener' small large where
  limits := Sharding.perShard_limits pos limits
  accepts := accepts
  accepts' := accepts'
  sound := (sound_ofSharding made).1
  sound' := (sound_ofSharding made').1
  limited := limited_ofSharding made
  limited' := limited_ofSharding made'
  hasher := (hasher_ofSharding made').trans (hasher_ofSharding made).symm
  inside i := by
    refine ⟨[], [], ?_, ?_, Lru.within_nil, fun finite => ?_⟩
    · rw [shard_ofSharding made]
      exact Lru.shows_empty _ listener
    · rw [shard_ofSharding made']
      exact Lru.shows_empty _ listener'
    · exact Nat.add_le_add_right ((Sharding.perShard_limits pos limits).resolve_left finite).2 0

theorem more_capacity_never_hurts {capacity capacity' : Nat} {pos : 0 < n} {hasher : Hasher K}
    (made : ofSharding ⟨capacity, n, pos⟩ hasher listener = .ok small)
    (made' : ofSharding ⟨capacity', n, pos⟩ hasher listener' = .ok large)
    (limits : capacity' = 0 ∨ capacity ≠ 0 ∧ capacity ≤ capacity')
    (accepts : Lru.Accepts listener) (accepts' : Lru.Accepts listener')
    (commands : List (Command K V)) :
    (∀ command value, ((small.run commands).1.step command).answer = .ok (.value? (some value)) →
      ((large.run commands).1.step command).answer = .ok (.value? (some value))) ∧
    (small.run commands).1.len ≤ (large.run commands).1.len ∧
    (small.totals commands).hits ≤ (large.totals commands).hits ∧
    (large.totals commands).misses ≤ (small.totals commands).misses ∧
    (large.totals commands).evictions ≤ (small.totals commands).evictions := by
  have start := roomier_ofSharding made made' limits accepts accepts'
  have reached := start.run commands
  have visits := start.visits commands
  have back := visits.flip
  rw [start.sound.totals_eq (sound_ofSharding made).2.1,
    start.sound'.totals_eq (sound_ofSharding made').2.1]
  refine ⟨fun command value answer => ?_, reached.len_le, ?_, ?_, ?_⟩
  · obtain ⟨i, placed⟩ := exists_place?_of_value? answer
    obtain ⟨found, found', finds, finds', more⟩ := reached.answers placed
    obtain rfl := Reply.value?.inj (Except.ok.inj (finds.symm.trans answer))
    rw [finds', more value rfl]
  · exact countP_le_of_forall₂ visits fun _ _ spares => spares.hit
  · exact countP_le_of_forall₂ back fun _ _ spares => spares.miss
  · exact countP_le_of_forall₂ back fun _ _ spares => spares.evicts

/-- The smaller cache drops an entry that the larger one still finds, and both drop one later. -/
theorem more_capacity_never_hurts_two_shards :
    let hasher : Hasher Nat := ⟨fun key => key.toUInt64 <<< 32, 0⟩
    let accepts : Option (Listener Nat Nat) := some fun _ _ => .ok ()
    let commands : List (Command Nat Nat) :=
      [.insert 0 10, .insert 2 20, .get 0, .insert 1 11, .insert 4 40, .stats 5, .get 2, .remove 1]
    ∃ small large : ShardedCache Nat Nat 2,
      ofSharding ⟨2, 2, by decide⟩ hasher accepts = .ok small ∧
      ofSharding ⟨3, 2, by decide⟩ hasher none = .ok large ∧ Lru.Accepts accepts ∧
      (3 = 0 ∨ 2 ≠ 0 ∧ 2 ≤ 3) ∧
      ((large.run commands).1.step (.insert 4 41)).answer = .ok (.value? (some 40)) ∧
      1 ≤ (large.run commands).1.len ∧ small.totals commands = ⟨0, 2, 2⟩ ∧
      (large.totals commands).misses ≤ 2 ∧ (large.totals commands).evictions ≤ 2 := by
  intro hasher accepts commands
  let small : ShardedCache Nat Nat 2 := ⟨.replicate 2 (.empty 1 accepts), hasher, by decide⟩
  let large : ShardedCache Nat Nat 2 := ⟨.replicate 2 (.empty 2 none), hasher, by decide⟩
  have fits : TableFits 2 (shardBytes hasher) := by
    show 2 * (8 * (20 + (0 + 7) / 8)) < 2 ^ 63
    decide
  have made : ofSharding ⟨2, 2, by decide⟩ hasher accepts = .ok small := if_pos fits
  have made' : ofSharding ⟨3, 2, by decide⟩ hasher none = .ok large := if_pos fits
  have accepting : Lru.Accepts accepts := by simp [Lru.Accepts, accepts]
  have silent : Lru.Accepts (none : Option (Listener Nat Nat)) := by simp [Lru.Accepts]
  have limits : 3 = 0 ∨ 2 ≠ 0 ∧ 2 ≤ 3 := by decide
  have evaluated : ((small.run commands).1.step (.insert 4 41)).answer =
        .ok (.value? (some 40)) ∧
      (small.run commands).1.len = 1 ∧ small.totals commands = ⟨0, 2, 2⟩ := by
    refine ⟨?_, ?_, ?_⟩ <;> cbv
  obtain ⟨answer, len, totals⟩ := evaluated
  obtain ⟨answers, fewer, -, misses, evictions⟩ :=
    more_capacity_never_hurts made made' limits accepting silent commands
  rw [len] at fewer
  rw [totals] at misses evictions
  exact ⟨small, large, made, made', accepting, limits, answers _ _ answer, fewer, totals, misses,
    evictions⟩

end ShardedCache

end CacheNode
