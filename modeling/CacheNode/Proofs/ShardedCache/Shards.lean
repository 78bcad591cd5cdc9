import CacheNode.Proofs.Lru.Consistency
import CacheNode.ShardedCache.Command
import Mathlib.Algebra.BigOperators.Group.List.Basic
import Mathlib.Algebra.GroupWithZero.Nat

/-! # The shards of a cache -/

namespace CacheNode

/-! ## Counters as summands -/

attribute [ext] Counters

namespace Counters

instance : Zero Counters := ⟨{}⟩

instance : AddCommMonoid Counters where
  add_assoc _ _ _ := Counters.ext (Nat.add_assoc ..) (Nat.add_assoc ..) (Nat.add_assoc ..)
  zero_add _ := Counters.ext (Nat.zero_add _) (Nat.zero_add _) (Nat.zero_add _)
  add_zero _ := rfl
  add_comm _ _ := Counters.ext (Nat.add_comm ..) (Nat.add_comm ..) (Nat.add_comm ..)
  nsmul := nsmulRec

@[simp] theorem evictions_zero : (0 : Counters).evictions = 0 := rfl

theorem evictions_sum (cs : List Counters) : cs.sum.evictions = (cs.map (·.evictions)).sum := by
  induction cs with
  | nil => rfl
  | cons first cs ih => rw [List.sum_cons, evictions_add, ih, List.map_cons, List.sum_cons]

theorem total_eq_sum (cs : List Counters) : total cs = cs.sum := List.sum_eq_foldl.symm

end Counters

variable {K : Type u} {V : Type v} [BEq K] [Hashable K] {n : Nat}

/-! ## One shard -/

namespace Shard

variable {s : Shard K V} {l : Lru.Recency K V}

structure Advances {A : Type w} (s : Shard K V) (o : Outcome (Shard K V) (Lru.Note K V) A)
    (d : Lru.Change K V A) (gained : Counters) : Prop where
  entries : s.entries.Follows (o.mapState (·.entries)) d
  counters : o.state.counters = s.counters + gained

theorem entries_insert (s : Shard K V) (key : K) (value : V) :
    (s.insert key value).mapState (·.entries) = s.entries.put key value := by
  unfold insert
  cases s.entries.put key value with
  | mk entries notes answer => cases answer <;> rfl

theorem counters_insert (s : Shard K V) (key : K) (value : V) :
    (s.insert key value).state.counters = s.counters +
      ⟨0, 0, (s.evictsFor key && (s.entries.put key value).answer.isOk).toNat⟩ := by
  unfold insert
  cases s.entries.put key value with
  | mk entries notes answer =>
      cases answer with
      | error f => simp [Except.isOk, Except.toBool, Counters.ext_iff]
      | ok old =>
          cases s.evictsFor key <;>
            simp [Except.isOk, Except.toBool, Counters.ext_iff, Counters.recordEviction]

theorem get_eq (s : Shard K V) (key : K) :
    s.get key = ({ entries := (s.entries.get key).1, counters := s.counters +
      ⟨(s.entries.get key).2.isSome.toNat, (s.entries.get key).2.isNone.toNat, 0⟩ },
      (s.entries.get key).2) := by
  unfold get
  cases s.entries.get key with
  | mk entries value => cases value <;> rfl

variable [EquivBEq K] [LawfulHashable K]

theorem evictsFor_eq (shows : s.entries.Shows l) (key : K) (value : V) :
    s.evictsFor key = (l.put s.entries.limit key value).leaver.isSome := by
  rw [Lru.Recency.isSome_leaver_put, evictsFor, shows.len_eq, shows.contains_eq]

theorem advances_insert (shows : s.entries.Shows l) (key : K) (value : V) :
    s.Advances (s.insert key value) (l.put s.entries.limit key value)
      ⟨0, 0, ((l.put s.entries.limit key value).leaver.any fun entry =>
        (Lru.verdict s.entries.onEvict (some entry)).isOk).toNat⟩ where
  entries := by
    rw [entries_insert]
    exact shows.put key value
  counters := by
    rw [counters_insert, evictsFor_eq shows key value, (shows.put key value).answer]
    cases (l.put s.entries.limit key value).leaver with
    | none => rfl
    | some entry =>
        rw [Option.isSome_some, Bool.true_and, Option.any_some]
        cases Lru.verdict s.entries.onEvict (some entry) <;> rfl

omit [LawfulHashable K] in
theorem advances_get (shows : s.entries.Shows l) (key : K) :
    s.Advances (.ok (s.get key).1 (s.get key).2) (l.get key)
      ⟨(l.get key).answer.isSome.toNat, (l.get key).answer.isNone.toNat, 0⟩ := by
  obtain ⟨after, limit, onEvict, answer⟩ := shows.get key
  rw [get_eq, answer]
  refine ⟨⟨after, limit, onEvict, ?_, ?_⟩, rfl⟩
  · rw [Lru.Recency.leaver_get]
    rfl
  · rw [Lru.Recency.leaver_get, Lru.verdict_none]
    rfl

theorem advances_remove (shows : s.entries.Shows l) (key : K) :
    s.Advances (s.remove key) (l.remove key) 0 :=
  ⟨shows.remove key, (add_zero _).symm⟩

end Shard

namespace ShardedCache

def shard (c : ShardedCache K V n) (i : Fin n) : Shard K V := c.shards.get i

structure Sound (c : ShardedCache K V n) (listener : Option (Listener K V)) : Prop where
  shown : ∀ i : Fin n, ∃ l, (c.shard i).entries.Shows l
  listener : ∀ i : Fin n, (c.shard i).entries.onEvict = listener

def sum {M : Type w} [AddCommMonoid M] (f : Shard K V → M) (c : ShardedCache K V n) : M :=
  (c.shards.toList.map f).sum

variable {c : ShardedCache K V n} {listener : Option (Listener K V)}

theorem shard_onShard {α : Type w} (c : ShardedCache K V n) (i j : Fin n)
    (act : Shard K V → Outcome (Shard K V) (Lru.Note K V) α) :
    (c.onShard i act).state.shard j =
      if i = j then (act (c.shard i)).state else c.shard j := by
  rw [onShard_eq, Outcome.state_mapState]
  show (c.shards.set i (act (c.shard i)).state)[(j : Nat)] = _
  rw [Vector.getElem_set]
  simp only [Fin.ext_iff]
  rfl

theorem notes_onShard {α : Type w} (c : ShardedCache K V n) (i : Fin n)
    (act : Shard K V → Outcome (Shard K V) (Lru.Note K V) α) :
    (c.onShard i act).notes = (act (c.shard i)).notes := by
  rw [onShard_eq]
  rfl

theorem answer_onShard {α : Type w} (c : ShardedCache K V n) (i : Fin n)
    (act : Shard K V → Outcome (Shard K V) (Lru.Note K V) α) :
    (c.onShard i act).answer = (act (c.shard i)).answer := by
  rw [onShard_eq]
  rfl

theorem hasher_onShard {α : Type w} (c : ShardedCache K V n) (i : Fin n)
    (act : Shard K V → Outcome (Shard K V) (Lru.Note K V) α) :
    (c.onShard i act).state.hasher = c.hasher := by
  rw [onShard_eq]
  rfl

theorem hasher_clear (c : ShardedCache K V n) : c.clear.state.hasher = c.hasher := by
  unfold ShardedCache.clear
  rw [Outcome.state_map]
  refine Outcome.inTurn_preserves (P := fun c' : ShardedCache K V n => c'.hasher = c.hasher) ?_ _
    rfl
  intro c' i same
  exact (c'.hasher_onShard i Shard.clear).trans same

theorem hasher_step (c : ShardedCache K V n) (command : Command K V) :
    (c.step command).state.hasher = c.hasher := by
  cases command with
  | insert key value => exact c.hasher_onShard (c.route key) (·.insert key value)
  | get key =>
      exact c.hasher_onShard (c.route key) fun s => .ok (s.get key).1 (s.get key).2
  | remove key => exact c.hasher_onShard (c.route key) (·.remove key)
  | clear => exact c.hasher_clear
  | stats millis => rfl
  | len => rfl
  | isEmpty => rfl
  | shards => rfl

theorem route_eq_of_hasher_eq {c c' : ShardedCache K V n} (same : c'.hasher = c.hasher) :
    c'.route = c.route := by
  funext key
  apply Fin.ext
  simp only [route, same]

theorem shard_map (c : ShardedCache K V n) (f : Shard K V → Shard K V) (i : Fin n) :
    shard { c with shards := c.shards.map f } i = f (c.shard i) := by
  show (c.shards.map f)[(i : Nat)] = _
  rw [Vector.getElem_map]
  rfl

/-! ## Sums over the shards -/

theorem exists_sum_rest {α : Type w} {M : Type x} [AddCommMonoid M] (f : α → M) (xs : List α)
    {i : Nat} (inside : i < xs.length) :
    ∃ rest, (xs.map f).sum = f xs[i] + rest ∧
      ∀ x, ((xs.set i x).map f).sum = f x + rest := by
  have replaced (x : α) : ((xs.set i x).map f).sum =
      f x + (((xs.map f).take i).sum + ((xs.map f).drop (i + 1)).sum) := by
    rw [List.map_set, List.sum_set, if_pos (by simpa using inside), ← add_assoc, add_comm (f x)]
  have whole := replaced xs[i]
  rw [List.set_getElem_self] at whole
  exact ⟨_, whole, replaced⟩

theorem sum_onShard {M : Type w} [AddCommMonoid M] {α : Type x} (f : Shard K V → M)
    (c : ShardedCache K V n) (i : Fin n)
    (act : Shard K V → Outcome (Shard K V) (Lru.Note K V) α) (out gain : M)
    (changed : f (act (c.shard i)).state + out = f (c.shard i) + gain) :
    (c.onShard i act).state.sum f + out = c.sum f + gain := by
  obtain ⟨rest, whole, replaced⟩ := exists_sum_rest f c.shards.toList (i := i) (by simp)
  have here : c.shards.toList[(i : Nat)] = c.shard i := Vector.getElem_toList _
  rw [here] at whole
  have set : (c.onShard i act).state.shards.toList =
      c.shards.toList.set i (act (c.shard i)).state := by
    rw [onShard_eq, Outcome.state_mapState, Vector.toList_set]
    rfl
  rw [sum, sum, set, replaced, whole, add_right_comm, changed, add_right_comm]

theorem sum_map {M : Type w} [AddCommMonoid M] (f : Shard K V → M) (c : ShardedCache K V n)
    (g : Shard K V → Shard K V) :
    sum f { c with shards := c.shards.map g } = c.sum fun s => f (g s) := by
  simp [sum, Vector.toList_map, Function.comp_def]

theorem sum_eq_zero {M : Type w} [AddCommMonoid M] {f : Shard K V → M}
    (zero : ∀ i : Fin n, f (c.shard i) = 0) : c.sum f = 0 := by
  apply List.sum_eq_zero
  intro x mem
  obtain ⟨s, held, rfl⟩ := List.mem_map.1 mem
  obtain ⟨i, inside, rfl⟩ := List.getElem_of_mem held
  exact zero ⟨i, by simpa using inside⟩

theorem len_eq_sum (c : ShardedCache K V n) : c.len = c.sum Shard.len := List.sum_eq_foldl.symm

def counted (c : ShardedCache K V n) : Counters := c.sum (·.counters)

theorem stats_eq (c : ShardedCache K V n) (millis : Nat) :
    c.stats millis = ({ c with shards := c.shards.map Shard.resetCounters },
      .ofCounters c.counted millis) := by
  rw [stats, Counters.total_eq_sum]
  rfl

/-! ## Soundness -/

theorem Sound.onShard {α : Type w} (h : c.Sound listener) (i : Fin n)
    (act : Shard K V → Outcome (Shard K V) (Lru.Note K V) α)
    (shown : ∃ l, (act (c.shard i)).state.entries.Shows l)
    (kept : (act (c.shard i)).state.entries.onEvict = (c.shard i).entries.onEvict) :
    (c.onShard i act).state.Sound listener := by
  refine ⟨fun j => ?_, fun j => ?_⟩
  · rw [shard_onShard]
    split
    · exact shown
    · exact h.shown j
  · rw [shard_onShard]
    split
    · exact kept.trans (h.listener i)
    · exact h.listener j

theorem Sound.advance {A : Type w} {i : Fin n} {l : Lru.Recency K V} {d : Lru.Change K V A}
    {gained : Counters} (h : c.Sound listener)
    (act : Shard K V → Outcome (Shard K V) (Lru.Note K V) A)
    (shows : (c.shard i).entries.Shows l)
    (advances : (c.shard i).Advances (act (c.shard i)) d gained) :
    (c.onShard i act).state.Sound listener ∧
      (c.onShard i act).state.counted = c.counted + gained ∧
      (c.onShard i act).state.len + l.length = c.len + d.entries.length := by
  refine ⟨h.onShard i act ⟨_, advances.entries.shows⟩ advances.entries.onEvict, ?_, ?_⟩
  · have counted := sum_onShard (·.counters) c i act 0 gained
      (by rw [add_zero, advances.counters])
    rwa [add_zero] at counted
  · rw [len_eq_sum, len_eq_sum]
    apply sum_onShard
    have after := advances.entries.shows.len_eq
    rw [Outcome.state_mapState] at after
    rw [Shard.len, Shard.len, after, shows.len_eq, Nat.add_comm]

theorem Sound.stats (h : c.Sound listener) (millis : Nat) :
    (c.stats millis).1.Sound listener ∧ (c.stats millis).1.counted = 0 ∧
      (c.stats millis).1.len = c.len := by
  rw [stats_eq, len_eq_sum, len_eq_sum]
  refine ⟨⟨fun i => ?_, fun i => ?_⟩, ?_, sum_map _ _ _⟩
  · rw [shard_map]
    exact h.shown i
  · rw [shard_map]
    exact h.listener i
  · rw [counted, sum_map]
    exact sum_eq_zero fun _ => rfl

variable [EquivBEq K] [LawfulHashable K]

theorem Sound.clear (h : c.Sound listener) :
    c.clear.state.Sound listener ∧ c.clear.state.counted = c.counted ∧
      c.clear.state.len ≤ c.len := by
  unfold ShardedCache.clear
  rw [Outcome.state_map]
  -- it holds after each shard, so also where a fault cuts off the rest
  refine Outcome.inTurn_preserves
    (P := fun c' : ShardedCache K V n =>
      c'.Sound listener ∧ c'.counted = c.counted ∧ c'.len ≤ c.len) ?_ _
    ⟨h, rfl, Nat.le_refl _⟩
  rintro c' i ⟨sound, counted, len⟩
  obtain ⟨l, shows⟩ := sound.shown i
  obtain ⟨⟨rest, rests, fewer⟩, onEvict⟩ := shows.state_clear
  refine ⟨sound.onShard i Shard.clear ⟨rest, rests⟩ onEvict, ?_, ?_⟩
  · have same := sum_onShard (·.counters) c' i Shard.clear 0 0 rfl
    rw [add_zero, add_zero] at same
    exact same.trans counted
  · have dropped : ((c'.shard i).clear).state.len + (l.length - rest.length) =
        (c'.shard i).len + 0 := by
      show (c'.shard i).entries.clear.state.len + _ = (c'.shard i).entries.len + 0
      rw [rests.len_eq, shows.len_eq]
      omega
    have fewer := sum_onShard Shard.len c' i Shard.clear _ _ dropped
    rw [← len_eq_sum, ← len_eq_sum] at fewer
    omega

theorem Sound.step (h : c.Sound listener) (command : Command K V) :
    (c.step command).state.Sound listener := by
  cases command with
  | insert key value =>
      obtain ⟨l, shows⟩ := h.shown (c.route key)
      exact (h.advance (·.insert key value) shows (Shard.advances_insert shows key value)).1
  | get key =>
      obtain ⟨l, shows⟩ := h.shown (c.route key)
      exact (h.advance (fun s => .ok (s.get key).1 (s.get key).2) shows
        (Shard.advances_get shows key)).1
  | remove key =>
      obtain ⟨l, shows⟩ := h.shown (c.route key)
      exact (h.advance (·.remove key) shows (Shard.advances_remove shows key)).1
  | clear => exact h.clear.1
  | stats millis => exact (h.stats millis).1
  | len => exact h
  | isEmpty => exact h
  | shards => exact h

omit [EquivBEq K] [LawfulHashable K] in
theorem shard_ofSharding {s : Sharding} {hasher : Hasher K} {c : ShardedCache K V s.shards}
    (made : ofSharding s hasher listener = .ok c) (i : Fin s.shards) :
    c.shard i = .empty s.perShard listener := by
  unfold ofSharding at made
  split at made
  · cases made
    exact Vector.getElem_replicate _
  · cases made

omit [EquivBEq K] [LawfulHashable K] in
theorem hasher_ofSharding {s : Sharding} {hasher : Hasher K} {c : ShardedCache K V s.shards}
    (made : ofSharding s hasher listener = .ok c) : c.hasher = hasher := by
  unfold ofSharding at made
  split at made
  · cases made
    rfl
  · cases made

theorem sound_ofSharding {s : Sharding} {hasher : Hasher K} {c : ShardedCache K V s.shards}
    (made : ofSharding s hasher listener = .ok c) :
    c.Sound listener ∧ c.counted = 0 ∧ c.len = 0 := by
  have empties := shard_ofSharding made
  refine ⟨⟨fun i => ⟨[], ?_⟩, fun i => ?_⟩, sum_eq_zero fun i => ?_, ?_⟩
  · rw [empties]
    exact Lru.shows_empty s.perShard listener
  · rw [empties]
    rfl
  · rw [empties]
    rfl
  · rw [len_eq_sum]
    apply sum_eq_zero
    intro i
    rw [empties]
    rfl

end ShardedCache

end CacheNode
