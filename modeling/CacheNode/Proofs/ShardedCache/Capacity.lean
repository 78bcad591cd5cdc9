import CacheNode.Proofs.ShardedCache.Statistics

/-!
# How much a cache holds

The share of a shard is zero, that is without limit, just if the capacity is, so a capacity is never
lost in the division: `capacity_kept`.
-/

namespace CacheNode

namespace Sharding

theorem perShard_eq_ceilDiv (s : Sharding) : s.perShard = s.capacity ⌈/⌉ s.shards := rfl

theorem le_shards_mul_perShard (s : Sharding) : s.capacity ≤ s.shards * s.perShard :=
  (ceilDiv_le_iff_le_mul s.shards_pos).1 (Nat.le_refl s.perShard)

theorem shards_mul_perShard_lt (s : Sharding) :
    s.shards * s.perShard < s.capacity + s.shards := by
  have pos := s.shards_pos
  have below : s.shards * s.perShard ≤ s.capacity + s.shards - 1 := Nat.mul_div_le _ _
  omega

theorem perShard_eq_zero_iff (s : Sharding) : s.perShard = 0 ↔ s.capacity = 0 := by
  rw [← Nat.le_zero, perShard_eq_ceilDiv, ceilDiv_le_iff_le_mul s.shards_pos, Nat.mul_zero,
    Nat.le_zero]

end Sharding

theorem CacheConfig.sharding_eq_ok {config : CacheConfig} {processors : Nat} {s : Sharding}
    {available : 0 < processors} (given : config.sharding processors available = .ok s) :
    s.capacity = config.capacity ∧
      s.shards = config.shards.getD (Sharding.defaultShards processors config.capacity) := by
  unfold sharding at given
  split at given
  · rename_i derived
    cases given
    rw [derived]
    exact ⟨rfl, rfl⟩
  · cases given
  · rename_i explicit
    cases given
    rw [explicit]
    exact ⟨rfl, rfl⟩

variable {K : Type u} {V : Type v} [BEq K] [Hashable K] {n limit : Nat}

namespace ShardedCache

def Limited (c : ShardedCache K V n) (limit : Nat) : Prop :=
  ∀ i : Fin n, (c.shard i).entries.limit = limit

variable {c : ShardedCache K V n} {before : Option (Listener K V)}

theorem Limited.onShard {α : Type w} (h : c.Limited limit) (i : Fin n)
    (act : Shard K V → Outcome (Shard K V) (Lru.Note K V) α)
    (kept : (act (c.shard i)).state.entries.limit = (c.shard i).entries.limit) :
    (c.onShard i act).state.Limited limit := by
  intro j
  rw [shard_onShard]
  split
  · exact kept.trans (h i)
  · exact h j

theorem Limited.clear (h : c.Limited limit) : c.clear.state.Limited limit := by
  unfold ShardedCache.clear
  rw [Outcome.state_map]
  refine Outcome.inTurn_preserves (P := fun c' : ShardedCache K V n => c'.Limited limit) ?_ _ h
  intro c' i limited
  exact limited.onShard i Shard.clear (Lru.limit_clear (c'.shard i).entries)

theorem Limited.map (h : c.Limited limit) (f : Shard K V → Shard K V)
    (same : ∀ s, (f s).entries.limit = s.entries.limit) :
    Limited { c with shards := c.shards.map f } limit := by
  intro i
  rw [shard_map, same]
  exact h i

variable [EquivBEq K] [LawfulHashable K]

theorem Limited.step (h : c.Limited limit) (sound : c.Sound before) (command : Command K V) :
    (c.step command).state.Limited limit := by
  cases command with
  | insert key value =>
      obtain ⟨l, shows⟩ := sound.shown (c.route key)
      exact h.onShard (c.route key) (·.insert key value)
        (Shard.advances_insert shows key value).entries.limit
  | get key =>
      obtain ⟨l, shows⟩ := sound.shown (c.route key)
      exact h.onShard (c.route key) (fun s => .ok (s.get key).1 (s.get key).2)
        (Shard.advances_get shows key).entries.limit
  | remove key =>
      obtain ⟨l, shows⟩ := sound.shown (c.route key)
      exact h.onShard (c.route key) (·.remove key) (Shard.advances_remove shows key).entries.limit
  | clear => exact h.clear
  | stats millis => exact h.map Shard.resetCounters fun _ => rfl
  | len => exact h
  | isEmpty => exact h
  | shards => exact h

theorem Limited.after (h : c.Limited limit) (sound : c.Sound before)
    (requests : List (Request K V)) : (c.after requests).Limited limit := by
  induction requests generalizing c before with
  | nil => exact h
  | cons request requests ih =>
      have heard : (c.hearing request.listener).Limited limit :=
        h.map (·.hearing request.listener) fun _ => rfl
      exact ih (heard.step sound.hearing request.command) (sound.serve request)

theorem Limited.run (h : c.Limited limit) (sound : c.Sound before) (commands : List (Command K V)) :
    (c.run commands).1.Limited limit := by
  rw [sound.state_run]
  exact h.after sound _

omit [EquivBEq K] [LawfulHashable K] in
theorem limited_ofSharding {s : Sharding} {hasher : Hasher K} {c : ShardedCache K V s.shards}
    (made : ofSharding s hasher before = .ok c) : c.Limited s.perShard := by
  intro i
  rw [shard_ofSharding made]
  rfl

omit [EquivBEq K] [LawfulHashable K] in
theorem Sound.len_shard_le (h : c.Sound before) (limited : c.Limited limit) (finite : limit ≠ 0)
    (i : Fin n) : (c.shard i).len ≤ limit := by
  obtain ⟨l, shows⟩ := h.shown i
  have within := shows.within
  rw [limited i] at within
  rw [Shard.len, shows.len_eq]
  exact within finite

omit [EquivBEq K] [LawfulHashable K] in
theorem Sound.len_le (h : c.Sound before) (limited : c.Limited limit) (finite : limit ≠ 0) :
    c.len ≤ n * limit := by
  have bounded : ∀ held ∈ c.shards.toList.map Shard.len, held ≤ limit := by
    intro held mem
    obtain ⟨s, present, rfl⟩ := List.mem_map.1 mem
    obtain ⟨i, inside, rfl⟩ := List.getElem_of_mem present
    exact h.len_shard_le limited finite ⟨i, by simpa using inside⟩
  have total := List.sum_le_card_nsmul _ _ bounded
  rw [len_eq_sum, sum]
  simpa using total

theorem Sound.full_of_displaced (h : c.Sound before) (limited : c.Limited limit) {key : K}
    {value : V} {listener : Option (Listener K V)}
    (displaces : Visit.displaced ⟨c, .insert key value, listener⟩ ≠ []) :
    limit ≠ 0 ∧ (c.shard (c.route key)).len = limit ∧
      ∀ entry ∈ (c.shard (c.route key)).entries.toList, (entry.1 == key) = false := by
  obtain ⟨l, shows⟩ := h.shown (c.route key)
  have leaves : (l.put limit key value).leaver.isSome = true := by
    rw [Visit.displaced_insert shows, limited] at displaces
    cases left : (l.put limit key value).leaver with
    | none => exact absurd (by rw [left]; rfl) displaces
    | some entry => rfl
  rw [Lru.Recency.isSome_leaver_put] at leaves
  simp only [Bool.and_eq_true, bne_iff_ne, decide_eq_true_eq, Bool.not_eq_true',
    Option.isSome_eq_false_iff, Option.isNone_iff_eq_none] at leaves
  obtain ⟨⟨finite, full⟩, absent⟩ := leaves
  refine ⟨finite, ?_, ?_⟩
  · have within := h.len_shard_le limited finite (c.route key)
    rw [Shard.len, shows.len_eq] at within ⊢
    exact Nat.le_antisymm within full
  · intro entry mem
    rw [shows.toList_eq] at mem
    exact Lru.Recency.key_ne_of_entry? absent mem

theorem capacity_kept {config : CacheConfig} {processors : Nat} {available : 0 < processors}
    {s : Sharding} {hasher : Hasher K} {c : ShardedCache K V s.shards}
    (few : processors < 2 ^ 62) (given : config.sharding processors available = .ok s)
    (made : ofSharding s hasher before = .ok c) (requests : List (Request K V)) :
    let share := config.capacity ⌈/⌉ s.shards
    let c' := c.after requests
    (processors * 4 < 2 ^ 64 ∧
      (config.shards = none → s.shards =
        if config.capacity = 0 then processors * 4 else min (processors * 4) config.capacity) ∧
      (∀ explicit, config.shards = some explicit → s.shards = explicit) ∧
      1 ≤ s.shards ∧ (∀ hash : UInt64, (hash >>> 32).toNat % s.shards < s.shards) ∧
      ∀ key, (c'.route key : Nat) = (hasher.hash key >>> 32).toNat % s.shards) ∧
    (config.capacity ≠ 0 →
      (∀ i, 1 ≤ (c'.shard i).entries.limit) ∧ (∀ i, (c'.shard i).len ≤ share) ∧
        c'.len ≤ s.shards * share) ∧
    config.capacity ≤ s.shards * share ∧ s.shards * share < config.capacity + s.shards ∧
    (∀ key value listener, Visit.displaced ⟨c', .insert key value, listener⟩ ≠ [] →
      (c'.shard (c'.route key)).len = share ∧
        ∀ entry ∈ (c'.shard (c'.route key)).entries.toList, (entry.1 == key) = false) ∧
    (config.capacity = 0 → ∀ key value listener,
      Visit.displaced ⟨c', .insert key value, listener⟩ = []) := by
  intro share c'
  obtain ⟨capacity, shards⟩ := CacheConfig.sharding_eq_ok given
  have shared : share = s.perShard := by rw [Sharding.perShard_eq_ceilDiv, capacity]
  have sound : c.Sound before := (sound_ofSharding made).1
  have limited : c.Limited share := shared ▸ limited_ofSharding made
  have limitless : share = 0 ↔ config.capacity = 0 := by
    rw [shared, ← capacity]
    exact s.perShard_eq_zero_iff
  obtain ⟨last, -, later⟩ := sound.after requests
  have limited' : c'.Limited share := limited.after sound requests
  refine ⟨⟨by omega, ?_, ?_, s.shards_pos, fun hash => Nat.mod_lt _ s.shards_pos, ?_⟩, ?_, ?_, ?_,
    ?_, ?_⟩
  · intro derived
    rw [shards, derived]
    rfl
  · intro explicit chosen
    rw [shards, chosen]
    rfl
  · intro key
    have hashes : c'.hasher = hasher := (c.hasher_after requests).trans (hasher_ofSharding made)
    rw [← hashes]
    rfl
  · intro finite
    have positive : share ≠ 0 := mt limitless.1 finite
    refine ⟨fun i => ?_, later.len_shard_le limited' positive, later.len_le limited' positive⟩
    rw [limited' i]
    exact Nat.one_le_iff_ne_zero.2 positive
  · rw [shared, ← capacity]
    exact s.le_shards_mul_perShard
  · rw [shared, ← capacity]
    exact s.shards_mul_perShard_lt
  · intro key value listener displaces
    exact (later.full_of_displaced limited' displaces).2
  · intro unlimited key value listener
    by_contra displaces
    exact (later.full_of_displaced limited' displaces).1 (limitless.2 unlimited)

/-- Three keys of one shard that holds two entries; the listener fails on the one that leaves. -/
theorem capacity_kept_after_failure :
    let hasher : Hasher Nat := ⟨fun key => key.toUInt64 <<< 32, 0⟩
    let accepts : Option (Listener Nat Nat) := some fun _ _ => .ok ()
    let fails : Option (Listener Nat Nat) := some (.failingOn 0 "refused")
    let requests : List (Request Nat Nat) :=
      [⟨.insert 0 1, accepts⟩, ⟨.insert 4 2, accepts⟩, ⟨.insert 8 3, fails⟩]
    ∃ (s : Sharding) (c : ShardedCache Nat Nat s.shards),
      CacheConfig.sharding { capacity := 5 } 1 (by decide) = .ok s ∧
      ofSharding s hasher accepts = .ok c ∧ s.shards = 4 ∧
      (c.visits requests).map (·.outcome.answer) =
        [.ok (.value? none), .ok (.value? none), .error (.raised "refused")] ∧
      (∀ i, ((c.after requests).shard i).len ≤ 2) ∧ (c.after requests).len ≤ 8 ∧
      Visit.displaced ⟨c.after requests, .insert 12 4, accepts⟩ = [(4, 2)] ∧
      ((c.after requests).shard ((c.after requests).route 12)).len = 2 := by
  intro hasher accepts fails requests
  let s : Sharding := .standard 1 5 (by decide)
  let c : ShardedCache Nat Nat s.shards :=
    ⟨.replicate _ (.empty s.perShard accepts), hasher, s.shards_pos⟩
  have fits : TableFits s.shards (shardBytes hasher) := by
    show 4 * (8 * (20 + (0 + 7) / 8)) < 2 ^ 63
    decide
  have made : ofSharding s hasher accepts = .ok c := if_pos fits
  have evaluated : (c.visits requests).map (·.outcome.answer) =
        [.ok (.value? none), .ok (.value? none), .error (.raised "refused")] ∧
      Visit.displaced ⟨c.after requests, .insert 12 4, accepts⟩ = [(4, 2)] := by cbv
  obtain ⟨answers, displaced⟩ := evaluated
  have given : CacheConfig.sharding { capacity := 5 } 1 (by decide) = .ok s := rfl
  have share : CacheConfig.capacity { capacity := 5 } ⌈/⌉ s.shards = 2 := by decide
  obtain ⟨_, bounded, _, _, full, _⟩ := capacity_kept (by decide) given made requests
  simp only [share] at bounded full
  obtain ⟨_, each, all⟩ := bounded (by decide)
  refine ⟨s, c, given, made, rfl, answers, each, all, displaced, ?_⟩
  refine (full 12 4 accepts ?_).1
  rw [displaced]
  exact List.cons_ne_nil _ _

end ShardedCache

end CacheNode
