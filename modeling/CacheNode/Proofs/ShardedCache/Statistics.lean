import CacheNode.Proofs.Lru.Departures
import CacheNode.Proofs.ShardedCache.Visits
import Mathlib

/-! # Exact statistics -/

namespace CacheNode

variable {K : Type u} {V : Type v} [BEq K] [Hashable K] {n : Nat}

def Shard.displaced (s after : Shard K V) (key : K) : List (K × V) :=
  s.entries.toList.filter fun entry => !(entry.1 == key) && !after.entries.contains entry.1

theorem Shard.displaced_insert [EquivBEq K] [LawfulHashable K] {s : Shard K V}
    {l : Lru.Recency K V} (shows : s.entries.Shows l) (key : K) (value : V) :
    s.displaced (s.insert key value).state key =
      (l.put s.entries.limit key value).leaver.toList := by
  have after : (s.insert key value).state.entries.Shows (l.put s.entries.limit key value).entries :=
    (advances_insert shows key value).entries.shows
  have others : ∀ entry ∈ (l.put s.entries.limit key value).leaver.toList,
      (!(entry.1 == key)) = true := by
    intro entry mem
    rw [Lru.Recency.leaver_put_ne (Option.mem_toList.1 mem)]
    rfl
  rw [← List.filter_eq_self.2 others, ← Lru.missing_put shows.distinct, Lru.Recency.missing,
    List.filter_filter, displaced, shows.toList_eq]
  simp only [after.contains_eq]

namespace ShardedCache

def Command.isStats : Command K V → Bool
  | .stats _ => true
  | _ => false

def snapshot : Except Fault (Reply V) → Counters
  | .ok (.stats stats) => ⟨stats.hits, stats.misses, stats.evictions⟩
  | _ => 0

namespace Visit

/-! ## What happens with a request -/

variable (v : Visit K V n)

def isHit : Bool :=
  match v.request.command, v.outcome.answer with
  | .get _, .ok (.value? (some _)) => true
  | _, _ => false

def isMiss : Bool :=
  match v.request.command, v.outcome.answer with
  | .get _, .ok (.value? none) => true
  | _, _ => false

/-- The entries of other keys that an inserted one drives out of its shard. -/
def displaced : List (K × V) :=
  match v.request.command with
  | .insert key _ =>
      let i := v.cache.route key
      (v.cache.shard i).displaced (v.outcome.state.shard i) key
  | _ => []

def evicts : Bool :=
  v.displaced.any fun entry => (Lru.verdict v.request.listener (some entry)).isOk

def isNew : Bool :=
  match v.request.command, v.outcome.answer with
  | .insert _ _, .ok (.value? none) => true
  | _, _ => false

def removes : Bool :=
  match v.request.command, v.outcome.answer with
  | .remove _, .ok (.value? (some _)) => true
  | _, _ => false

def cleared : Nat :=
  match v.request.command with
  | .clear => v.cache.len - v.outcome.state.len
  | _ => 0

def reported : Nat :=
  match v.request.command, v.outcome.answer with
  | .stats _, .ok (.stats stats) => stats.evictions
  | _, _ => 0

def Quiet : Prop :=
  ∀ entry ∈ v.outcome.notes.filterMap Lru.Note.told?,
    Lru.verdict v.request.listener (some entry) = .ok ()

def counts : Counters := ⟨v.isHit.toNat, v.isMiss.toNat, v.evicts.toNat⟩

end Visit

structure Visit.Reads (v : Visit K V n) (l : Lru.Recency K V) (d : Lru.Change K V (Option V))
    (gained : Counters) : Prop where
  counted : v.outcome.state.counted = v.cache.counted + gained
  len : v.outcome.state.len + l.length = v.cache.len + d.entries.length
  answer : v.outcome.answer =
    (Lru.verdict v.request.listener d.leaver).map fun _ => .value? d.answer
  accepted : v.Quiet → Lru.verdict v.request.listener d.leaver = .ok ()

variable {c : ShardedCache K V n} {before : Option (Listener K V)} {v : Visit K V n}

/-! ## One request to one shard -/

theorem Visit.reads {i : Fin n} {l : Lru.Recency K V} {d : Lru.Change K V (Option V)}
    {gained : Counters} (h : v.cache.Sound before) (shows : (v.cache.shard i).entries.Shows l)
    (act : Shard K V → Outcome (Shard K V) (Lru.Note K V) (Option V))
    (made : v.outcome = ((v.cache.hearing v.request.listener).onShard i act).map .value?)
    (advances : ((v.cache.shard i).hearing v.request.listener).Advances
      (act ((v.cache.shard i).hearing v.request.listener)) d gained) : v.Reads l d gained := by
  have started := shard_hearing v.cache v.request.listener i
  have shown : ((v.cache.hearing v.request.listener).shard i).entries.Shows l := by
    rw [started]
    exact shows.hearing _
  have sound : (v.cache.hearing v.request.listener).Sound v.request.listener := h.hearing
  obtain ⟨-, counted, len⟩ := sound.advance act shown (by rwa [started])
  rw [counted_hearing] at counted
  rw [len_hearing] at len
  refine ⟨?_, ?_, ?_, ?_⟩
  · rw [made, Outcome.state_map, counted]
  · rw [made, Outcome.state_map, len]
  · have answer : _ = (Lru.verdict v.request.listener d.leaver).map _ := advances.entries.answer
    rw [Outcome.answer_mapState] at answer
    rw [made, Outcome.answer_map, answer_onShard, started, answer]
    cases Lru.verdict v.request.listener d.leaver <;> rfl
  · intro quiet
    rw [Visit.Quiet, made, Outcome.notes_map, notes_onShard, started] at quiet
    exact advances.entries.verdict_eq_ok quiet

variable [EquivBEq K] [LawfulHashable K]

omit [LawfulHashable K] in
theorem Sound.reads_get (h : c.Sound before) (key : K) (listener : Option (Listener K V)) :
    ∃ l : Lru.Recency K V, Visit.Reads ⟨c, .get key, listener⟩ l (l.get key)
      ⟨(l.get key).answer.isSome.toNat, (l.get key).answer.isNone.toNat, 0⟩ := by
  obtain ⟨l, shows⟩ := h.shown (c.route key)
  refine ⟨l, Visit.reads h shows (fun s => .ok (s.get key).1 (s.get key).2) rfl ?_⟩
  exact Shard.advances_get (shows.hearing listener) key

theorem Sound.reads_remove (h : c.Sound before) (key : K) (listener : Option (Listener K V)) :
    ∃ l : Lru.Recency K V, Visit.Reads ⟨c, .remove key, listener⟩ l (l.remove key) 0 := by
  obtain ⟨l, shows⟩ := h.shown (c.route key)
  refine ⟨l, Visit.reads h shows (·.remove key) rfl ?_⟩
  exact Shard.advances_remove (shows.hearing listener) key

theorem Visit.displaced_insert {key : K} {l : Lru.Recency K V}
    (shows : (c.shard (c.route key)).entries.Shows l) (value : V)
    (listener : Option (Listener K V)) :
    Visit.displaced ⟨c, .insert key value, listener⟩ =
      (l.put (c.shard (c.route key)).entries.limit key value).leaver.toList := by
  have after := shard_onShard (c.hearing listener) (c.route key) (c.route key)
    fun s => s.insert key value
  rw [if_pos rfl, shard_hearing] at after
  refine (congrArg ((c.shard (c.route key)).displaced · key) after).trans ?_
  exact Shard.displaced_insert (s := (c.shard (c.route key)).hearing listener)
    (shows.hearing listener) key value

theorem Sound.reads_insert (h : c.Sound before) (key : K) (value : V)
    (listener : Option (Listener K V)) :
    ∃ (l : Lru.Recency K V) (limit : Nat),
      Visit.Reads ⟨c, .insert key value, listener⟩ l (l.put limit key value)
        ⟨0, 0, (Visit.evicts ⟨c, .insert key value, listener⟩).toNat⟩ ∧
      Visit.displaced ⟨c, .insert key value, listener⟩ =
        (l.put limit key value).leaver.toList := by
  obtain ⟨l, shows⟩ := h.shown (c.route key)
  have displaced := Visit.displaced_insert shows value listener
  have evicts : Visit.evicts ⟨c, .insert key value, listener⟩ =
      (l.put (c.shard (c.route key)).entries.limit key value).leaver.any fun entry =>
        (Lru.verdict listener (some entry)).isOk := by
    rw [Visit.evicts, displaced]
    cases (l.put (c.shard (c.route key)).entries.limit key value).leaver <;> simp
  refine ⟨l, (c.shard (c.route key)).entries.limit, ?_, displaced⟩
  rw [evicts]
  exact Visit.reads h shows (·.insert key value) rfl
    (Shard.advances_insert (shows.hearing listener) key value)

/-! ## One request -/

theorem Visit.counted_outcome (h : v.cache.Sound before) :
    v.outcome.state.counted =
      if v.request.command.isStats then 0 else v.cache.counted + v.counts := by
  obtain ⟨c, command, listener⟩ := v
  change c.Sound before at h
  have sound : (c.hearing listener).Sound listener := h.hearing
  have untouched : (c.hearing listener).counted = c.counted + 0 := by
    rw [counted_hearing, add_zero]
  cases command with
  | insert key value =>
      obtain ⟨l, limit, reads, -⟩ := h.reads_insert key value listener
      exact reads.counted
  | get key =>
      obtain ⟨l, reads⟩ := h.reads_get key listener
      have counts : Visit.counts ⟨c, .get key, listener⟩ =
          ⟨(l.get key).answer.isSome.toNat, (l.get key).answer.isNone.toNat, 0⟩ := by
        have answer := reads.answer
        rw [Lru.Recency.leaver_get, Lru.verdict_none] at answer
        unfold Visit.counts Visit.isHit Visit.isMiss
        rw [answer]
        cases (l.get key).answer <;> rfl
      rw [counts]
      exact reads.counted
  | remove key =>
      obtain ⟨l, reads⟩ := h.reads_remove key listener
      exact reads.counted
  | clear => exact sound.clear.2.1.trans untouched
  | stats millis => exact (sound.stats millis).2.1
  | len => exact untouched
  | isEmpty => exact untouched
  | shards => exact untouched

theorem Visit.balance (h : v.cache.Sound before) (quiet : v.Quiet) :
    v.outcome.state.len + v.evicts.toNat + v.removes.toNat + v.cleared =
      v.cache.len + v.isNew.toNat := by
  obtain ⟨c, command, listener⟩ := v
  change c.Sound before at h
  have sound : (c.hearing listener).Sound listener := h.hearing
  have untouched : (c.hearing listener).len = c.len := c.len_hearing
  cases command with
  | insert key value =>
      obtain ⟨l, limit, reads, displaced⟩ := h.reads_insert key value listener
      have accepted := reads.accepted quiet
      have answer := reads.answer
      have len : _ = c.len + _ := reads.len
      have put := l.length_put limit key value
      rw [accepted] at answer
      have evicts : (Visit.evicts ⟨c, .insert key value, listener⟩).toNat =
          (l.put limit key value).leaver.toList.length := by
        rw [Visit.evicts, displaced]
        cases left : (l.put limit key value).leaver with
        | none => rfl
        | some entry =>
            rw [left] at accepted
            simp [accepted, Except.isOk, Except.toBool]
      have isNew : Visit.isNew ⟨c, .insert key value, listener⟩ =
          (l.put limit key value).answer.isNone := by
        unfold Visit.isNew
        rw [answer]
        cases (l.put limit key value).answer <;> rfl
      rw [evicts, isNew]
      show _ + _ + 0 + 0 = c.len + _
      omega
  | get key =>
      obtain ⟨l, reads⟩ := h.reads_get key listener
      have len := reads.len
      rw [l.length_get] at len
      exact Nat.add_right_cancel len
  | remove key =>
      obtain ⟨l, reads⟩ := h.reads_remove key listener
      have len : _ = c.len + _ := reads.len
      have answer := reads.answer
      have remove := l.length_remove key
      rw [reads.accepted quiet] at answer
      have removes : Visit.removes ⟨c, .remove key, listener⟩ = (l.remove key).answer.isSome := by
        unfold Visit.removes
        rw [answer]
        cases (l.remove key).answer <;> rfl
      rw [removes]
      show _ + 0 + _ + 0 = c.len + 0
      omega
  | clear =>
      -- without this the difference would be cut off at zero
      have fewer := sound.clear.2.2
      rw [untouched] at fewer
      show (c.hearing listener).clear.state.len + 0 + 0 +
        (c.len - (c.hearing listener).clear.state.len) = c.len + 0
      omega
  | stats millis => exact (sound.stats millis).2.2.trans untouched
  | len => exact untouched
  | isEmpty => exact untouched
  | shards => exact untouched

theorem Visit.evicts_update (h : v.cache.Sound before) {key : K} {value old : V}
    (command : v.request.command = .insert key value)
    (answer : v.outcome.answer = .ok (.value? (some old))) : v.evicts = false := by
  obtain ⟨c, request, listener⟩ := v
  change c.Sound before at h
  obtain rfl : request = .insert key value := command
  obtain ⟨l, limit, reads, displaced⟩ := h.reads_insert key value listener
  have present : (l.put limit key value).answer = some old := by
    rw [reads.answer] at answer
    cases accepted : Lru.verdict listener (l.put limit key value).leaver with
    | error f => simp [accepted, Except.map] at answer
    | ok _ => simpa [accepted, Except.map] using answer
  rw [Visit.evicts, displaced, Lru.Recency.leaver_put_present present]
  rfl

omit [EquivBEq K] [LawfulHashable K] in
theorem snapshot_step (c : ShardedCache K V n) (command : Command K V) :
    snapshot (c.step command).answer = if command.isStats then c.counted else 0 := by
  have silent : ∀ answer : Except Fault (Option V), snapshot (answer.map .value?) = 0 := by
    intro answer
    cases answer <;> rfl
  cases command with
  | insert key value => exact silent (c.insert key value).answer
  | get key => exact silent (c.get key).answer
  | remove key => exact silent (c.remove key).answer
  | clear =>
      show snapshot (c.clear.answer.map _) = 0
      cases c.clear.answer <;> rfl
  | stats millis =>
      show snapshot (.ok (.stats (c.stats millis).2)) = c.counted
      rw [stats_eq]
      rfl
  | _ => rfl

omit [EquivBEq K] [LawfulHashable K] in
theorem Visit.snapshot_eq (v : Visit K V n) :
    snapshot v.outcome.answer = if v.request.command.isStats then v.cache.counted else 0 := by
  have told := (v.cache.hearing v.request.listener).snapshot_step v.request.command
  rwa [counted_hearing] at told

omit [EquivBEq K] [LawfulHashable K] in
theorem Visit.reported_eq (v : Visit K V n) :
    v.reported = (snapshot v.outcome.answer).evictions := by
  obtain ⟨c, command, listener⟩ := v
  cases command with
  | stats millis => rfl
  | _ =>
      rw [Visit.snapshot_eq]
      rfl

theorem Visit.snapshot_add (h : v.cache.Sound before) :
    snapshot v.outcome.answer + v.outcome.state.counted = v.cache.counted + v.counts := by
  rw [v.snapshot_eq, v.counted_outcome h]
  cases stats : v.request.command.isStats with
  | false => exact zero_add _
  | true =>
      have silent : v.counts = 0 := by
        obtain ⟨c, command, listener⟩ := v
        cases command with
        | stats millis => rfl
        | _ => cases stats
      rw [silent]
      rfl

/-! ## Runs -/

def sinceStats (visits : List (Visit K V n)) : List (Visit K V n) :=
  visits.rtakeWhile fun v => !v.request.command.isStats

omit [EquivBEq K] [LawfulHashable K] in
theorem sum_counts (visits : List (Visit K V n)) :
    (visits.map Visit.counts).sum =
      ⟨visits.countP Visit.isHit, visits.countP Visit.isMiss, visits.countP Visit.evicts⟩ := by
  induction visits with
  | nil => rfl
  | cons v visits ih =>
      rw [List.map_cons, List.sum_cons, ih]
      ext <;> simp [Visit.counts, List.countP_cons, Bool.toNat, Nat.add_comm]

theorem countP_concat {α : Type w} (p : α → Bool) (items : List α) (last : α) :
    (items ++ [last]).countP p = items.countP p + (p last).toNat := by
  cases hit : p last <;> simp [hit]

theorem Sound.counted_after (h : c.Sound before) (fresh : c.counted = 0)
    (requests : List (Request K V)) :
    (c.after requests).counted = ((sinceStats (c.visits requests)).map Visit.counts).sum := by
  -- from the end, where the last snapshot is looked for
  induction requests using List.reverseRecOn with
  | nil => exact fresh
  | append_singleton requests request ih =>
      obtain ⟨last, -, sound⟩ := h.after requests
      have counted := Visit.counted_outcome (v := ⟨c.after requests, request⟩) sound
      rw [after_concat, visits_concat, sinceStats, List.rtakeWhile_concat]
      refine counted.trans ?_
      cases request.command.isStats with
      | true => rfl
      | false =>
          rw [ih]
          simp [sinceStats]

theorem Sound.snapshots_after (h : c.Sound before) (requests : List (Request K V)) :
    ((c.visits requests).map fun v => snapshot v.outcome.answer).sum +
        (c.after requests).counted =
      c.counted + ((c.visits requests).map Visit.counts).sum := by
  induction requests using List.reverseRecOn with
  | nil => exact add_comm _ _
  | append_singleton requests request ih =>
      obtain ⟨last, -, sound⟩ := h.after requests
      have added := Visit.snapshot_add (v := ⟨c.after requests, request⟩) sound
      rw [after_concat, visits_concat, List.map_append, List.sum_append, List.map_singleton,
        List.sum_singleton, add_assoc, added, ← add_assoc, ih, List.map_append, List.sum_append,
        List.map_singleton, List.sum_singleton, add_assoc]

theorem Sound.reported_after (h : c.Sound before) (requests : List (Request K V)) :
    ((c.visits requests).map Visit.reported).sum + (c.after requests).counted.evictions =
      c.counted.evictions + (c.visits requests).countP Visit.evicts := by
  have told := congrArg Counters.evictions (h.snapshots_after requests)
  rw [sum_counts, Counters.evictions_add, Counters.evictions_add, Counters.evictions_sum,
    List.map_map] at told
  rw [← told]
  congr 2
  exact List.map_congr_left fun v _ => v.reported_eq

theorem Sound.balance_after (h : c.Sound before) (requests : List (Request K V))
    (quiet : ∀ v ∈ c.visits requests, v.Quiet) :
    (c.after requests).len + (c.visits requests).countP Visit.evicts +
        (c.visits requests).countP Visit.removes + ((c.visits requests).map Visit.cleared).sum =
      c.len + (c.visits requests).countP Visit.isNew := by
  induction requests using List.reverseRecOn with
  | nil => simp [visits]
  | append_singleton requests request ih =>
      obtain ⟨last, -, sound⟩ := h.after requests
      rw [visits_concat] at quiet ⊢
      have earlier := ih fun v mem => quiet v (List.mem_append_left _ mem)
      have now : _ = (c.after requests).len + _ :=
        Visit.balance (v := ⟨c.after requests, request⟩) sound (quiet _ (by simp))
      rw [after_concat, countP_concat, countP_concat, countP_concat, List.map_append,
        List.sum_append, List.map_singleton, List.sum_singleton]
      omega

theorem stats_exact {s : Sharding} {hasher : Hasher K} {c : ShardedCache K V s.shards}
    (made : ofSharding s hasher before = .ok c) (requests : List (Request K V)) :
    (∀ millis listener, (Visit.outcome ⟨c.after requests, .stats millis, listener⟩).answer =
      .ok (.stats {
        hits := (sinceStats (c.visits requests)).countP Visit.isHit
        misses := (sinceStats (c.visits requests)).countP Visit.isMiss
        evictions := (sinceStats (c.visits requests)).countP Visit.evicts
        millis })) ∧
    (∀ v ∈ c.visits requests, ∀ key value old, v.request.command = .insert key value →
      v.outcome.answer = .ok (.value? (some old)) → v.evicts = false) ∧
    ((c.visits requests).map Visit.reported).sum + ((c.after requests).stats 0).2.evictions =
      (c.visits requests).countP Visit.evicts ∧
    ((∀ v ∈ c.visits requests, v.Quiet) →
      (c.visits requests).countP Visit.isNew =
        (c.after requests).len +
          (((c.visits requests).map Visit.reported).sum +
            ((c.after requests).stats 0).2.evictions) +
          (c.visits requests).countP Visit.removes +
          ((c.visits requests).map Visit.cleared).sum) := by
  obtain ⟨sound, uncounted, empty⟩ := sound_ofSharding made
  have reported : ((c.visits requests).map Visit.reported).sum +
      ((c.after requests).stats 0).2.evictions = (c.visits requests).countP Visit.evicts := by
    have reported := sound.reported_after requests
    rw [uncounted, Counters.evictions_zero, Nat.zero_add] at reported
    rw [stats_eq]
    exact reported
  refine ⟨?_, ?_, reported, ?_⟩
  · intro millis listener
    show Except.ok (Reply.stats (((c.after requests).hearing listener).stats millis).2) = _
    rw [stats_eq, counted_hearing, sound.counted_after uncounted, sum_counts]
    rfl
  · intro v mem key value old command answer
    obtain ⟨listener, met⟩ := sound.of_mem_visits mem
    exact Visit.evicts_update met command answer
  · intro quiet
    have balanced := sound.balance_after requests quiet
    rw [empty, Nat.zero_add] at balanced
    rw [reported, balanced]

theorem stats_exact_failing_once :
    let hasher : Hasher Nat := ⟨fun key => key.toUInt64 <<< 32, 0⟩
    let accepts : Option (Listener Nat Nat) := some fun _ _ => .ok ()
    let fails : Option (Listener Nat Nat) := some (.failingOn 2 "refused")
    let rough : List (Request Nat Nat) :=
      [⟨.insert 1 10, accepts⟩, ⟨.insert 2 20, accepts⟩, ⟨.get 1, accepts⟩, ⟨.get 4, accepts⟩,
        ⟨.insert 4 40, fails⟩, ⟨.insert 3 30, accepts⟩]
    let smooth : List (Request Nat Nat) :=
      [⟨.insert 1 10, accepts⟩, ⟨.insert 3 30, accepts⟩, ⟨.stats 5, accepts⟩,
        ⟨.insert 5 50, accepts⟩, ⟨.remove 5, accepts⟩, ⟨.insert 2 20, accepts⟩, ⟨.clear, accepts⟩,
        ⟨.insert 6 60, accepts⟩]
    ∃ c : ShardedCache Nat Nat 2,
      ofSharding ⟨2, 2, by decide⟩ hasher accepts = .ok c ∧
      (Visit.outcome ⟨c.after rough, .stats 7, accepts⟩).answer =
        .ok (.stats { hits := 1, misses := 1, evictions := 1, millis := 7 }) ∧
      Visit.evicts ⟨c.after rough, .insert 3 31, accepts⟩ = false ∧
      (∀ v ∈ c.visits smooth, v.Quiet) ∧ (c.visits smooth).countP Visit.isNew = 5 ∧
      ((c.visits smooth).map Visit.reported).sum = 1 ∧ (c.after smooth).len = 1 := by
  intro hasher accepts fails rough smooth
  let c : ShardedCache Nat Nat 2 := ⟨.replicate 2 (.empty 1 accepts), hasher, by decide⟩
  have fits : TableFits 2 (shardBytes hasher) := by
    show 2 * (8 * (20 + (0 + 7) / 8)) < 2 ^ 63
    decide
  have made : ofSharding ⟨2, 2, by decide⟩ hasher accepts = .ok c := if_pos fits
  have quiet : ∀ v ∈ c.visits smooth, v.Quiet := by
    intro v mem entry _
    have installed : ∀ request ∈ smooth, request.listener = accepts := by simp [smooth]
    rw [installed v.request (request_mem_of_mem_visits mem)]
    rfl
  have evaluated : (sinceStats (c.visits rough)).countP Visit.isHit = 1 ∧
      (sinceStats (c.visits rough)).countP Visit.isMiss = 1 ∧
      (sinceStats (c.visits rough)).countP Visit.evicts = 1 ∧
      (Visit.outcome ⟨c.after rough, .insert 3 31, accepts⟩).answer = .ok (.value? (some 30)) ∧
      (c.visits smooth).countP Visit.isNew = 5 ∧
      ((c.visits smooth).map Visit.reported).sum = 1 ∧
      ((c.after smooth).stats 0).2.evictions = 1 ∧
      (c.visits smooth).countP Visit.removes = 1 ∧
      ((c.visits smooth).map Visit.cleared).sum = 1 := by cbv
  obtain ⟨hits, misses, evictions, replaced, new, reported, pending, removed, cleared⟩ := evaluated
  refine ⟨c, made, ?_, ?_, quiet, new, reported, ?_⟩
  · rw [(stats_exact made rough).1 7 accepts, hits, misses, evictions]
  · have last : (⟨c.after rough, .insert 3 31, accepts⟩ : Visit Nat Nat 2) ∈
        c.visits (rough ++ [⟨.insert 3 31, accepts⟩]) := by simp [visits_concat]
    exact (stats_exact made (rough ++ [⟨.insert 3 31, accepts⟩])).2.1 _ last 3 31 30 rfl replaced
  · have balanced := (stats_exact made smooth).2.2.2 quiet
    rw [new, reported, pending, removed, cleared] at balanced
    omega

end ShardedCache

end CacheNode
