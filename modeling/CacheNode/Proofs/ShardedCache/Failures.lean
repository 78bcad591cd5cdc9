import CacheNode.Proofs.Lru.Failures
import CacheNode.Proofs.ShardedCache.MoreCapacity

/-!
# Caches whose listener fails

Two caches that differ in their listeners hold the same entries after the same commands, and count
the same but for the evictions of the insertions that failed (`Beside`).
-/

namespace CacheNode

variable {K : Type u} {V : Type v}

def Counters.ofEvictions : Nat →+ Counters where
  toFun evictions := ⟨0, 0, evictions⟩
  map_zero' := rfl
  map_add' _ _ := rfl

namespace ShardedCache

def Command.isClear : Command K V → Bool
  | .clear => true
  | _ => false

def isFailedInsert : Command K V → Except Fault (Reply V) → Bool
  | .insert _ _, .error _ => true
  | _, _ => false

def hitsAndMisses (trace : List (List (Lru.Note K V) × Except Fault (Reply V))) :
    List (Nat × Nat) :=
  trace.map fun step => ((snapshot step.2).hits, (snapshot step.2).misses)

end ShardedCache

variable [BEq K] [Hashable K] {n : Nat} {tell calm : Listener K V} {bad : Set K}

/-! ## One shard -/

namespace Shard

variable {rough smooth : Shard K V} {lost : Nat} {l : Lru.Recency K V}

/-- The entries are the same; so many evictions have not been counted in the first shard. -/
structure Beside (tell : Listener K V) (lost : Nat) (rough smooth : Shard K V) : Prop where
  entries : rough.entries = smooth.entries.hearing (some tell)
  counters : smooth.counters = rough.counters + .ofEvictions lost

theorem Beside.get (h : Beside tell lost rough smooth) (key : K) :
    Beside tell lost (rough.get key).1 (smooth.get key).1 ∧
      (rough.get key).2 = (smooth.get key).2 := by
  rw [get_eq, get_eq, h.entries, Lru.get_hearing, h.counters]
  exact ⟨⟨rfl, add_right_comm _ _ _⟩, rfl⟩

theorem Beside.resetCounters (h : Beside tell lost rough smooth) :
    Beside tell 0 rough.resetCounters smooth.resetCounters := ⟨h.entries, rfl⟩

theorem Beside.remove (h : Beside tell lost rough smooth)
    (listens : smooth.entries.onEvict = some calm) (key : K) :
    Beside tell lost (rough.remove key).state (smooth.remove key).state ∧
      (rough.remove key).notes = (smooth.remove key).notes := by
  have alike : Lru.Alike (some tell) ((smooth.entries.hearing (some tell)).remove key)
      ((smooth.entries.hearing (some calm)).remove key) := smooth.entries.alike_remove key
  rw [← h.entries, Lru.hearing_self listens] at alike
  exact ⟨⟨alike.1, h.counters⟩, alike.2⟩

theorem clear_of_refusedAt {s : Shard K V} {before after : List (K × V)} {entry : K × V}
    {fault : Fault} (fails : tell.FailsOn bad)
    (refusal : Lru.RefusedAt tell bad s.entries.toList before entry after fault) :
    (s.hearing (some tell)).clear = ⟨s.hearing (some tell),
      (before ++ [entry]).map fun entry => .told entry.1 entry.2, .error fault⟩ :=
  congrArg (Outcome.mapState fun entries => ({ s with entries } : Shard K V))
    (Lru.clear_of_refusedAt fails refusal)

theorem clear_of_all_good {s : Shard K V} (fails : tell.FailsOn bad)
    (good : ∀ entry ∈ s.entries.toList, entry.1 ∉ bad) :
    (s.hearing (some tell)).clear.answer = .ok () ∧
      (s.hearing (some tell)).clear.state.entries.toList = [] ∧
      (s.hearing (some tell)).clear.state.counters = s.counters ∧
      Lru.reported (s.hearing (some tell)).clear.notes = s.entries.toList := by
  have made : (s.hearing (some tell)).clear = _ :=
    congrArg (Outcome.mapState fun entries => ({ s with entries } : Shard K V))
      (Lru.clear_of_all_good fails good)
  rw [made]
  refine ⟨rfl, rfl, rfl, ?_⟩
  show Lru.reported ((s.entries.toList.map fun entry => .told entry.1 entry.2) ++ _) = _
  rw [Lru.reported, List.filterMap_append, ← Lru.reported, Lru.reported_told]
  exact List.append_nil _

variable [EquivBEq K] [LawfulHashable K]

theorem Beside.insert (h : Beside tell lost rough smooth) (shows : smooth.entries.Shows l)
    (listens : smooth.entries.onEvict = some calm) (accepts : Lru.Accepts (some calm)) (key : K)
    (value : V) :
    Beside tell (lost + (!(rough.insert key value).answer.isOk).toNat)
        (rough.insert key value).state (smooth.insert key value).state ∧
      (rough.insert key value).notes = (smooth.insert key value).notes := by
  have alike : Lru.Alike (some tell) ((smooth.entries.hearing (some tell)).put key value)
      ((smooth.entries.hearing (some calm)).put key value) := smooth.entries.alike_put key value
  rw [← h.entries, Lru.hearing_self listens, ← entries_insert, ← entries_insert] at alike
  refine ⟨⟨alike.1, ?_⟩, alike.2⟩
  have shown : rough.entries.Shows l := by
    rw [h.entries]
    exact shows.hearing (some tell)
  have first := advances_insert shown key value
  have answer : (rough.insert key value).answer = _ := first.entries.answer
  rw [first.counters, (advances_insert shows key value).counters, h.counters, answer]
  simp only [h.entries, listens, Lru.hearing]
  cases (l.put smooth.entries.limit key value).leaver with
  | none => rfl
  | some entry =>
      simp only [Lru.verdict, Option.any_some, accepts calm rfl entry.1 entry.2]
      cases tell entry.1 entry.2 with
      | error fault => rfl
      | ok done => exact add_right_comm _ _ _

end Shard

namespace ShardedCache

def failedInserts (c : ShardedCache K V n) (commands : List (Command K V)) : Nat :=
  (commands.zip (c.run commands).2).countP fun step => isFailedInsert step.1 step.2.2

structure Beside (tell : Listener K V) (lost : Fin n → Nat) (rough smooth : ShardedCache K V n) :
    Prop where
  shards : ∀ i, Shard.Beside tell (lost i) (rough.shard i) (smooth.shard i)
  hasher : rough.hasher = smooth.hasher

variable {rough smooth c : ShardedCache K V n} {lost : Fin n → Nat}

theorem failedInserts_cons (c : ShardedCache K V n) (command : Command K V)
    (commands : List (Command K V)) :
    c.failedInserts (command :: commands) =
      (isFailedInsert command (c.step command).answer).toNat +
        (c.step command).state.failedInserts commands := by
  unfold failedInserts
  rw [run, List.zip_cons_cons, List.countP_cons, Nat.add_comm]
  cases isFailedInsert command (c.step command).answer <;> rfl

/-! ## One command -/

theorem Beside.counted (h : Beside tell lost rough smooth) :
    smooth.counted = rough.counted + .ofEvictions (∑ i, lost i) := by
  rw [ShardedCache.counted, ShardedCache.counted, sum_eq_sum_shards, sum_eq_sum_shards, map_sum,
    ← Finset.sum_add_distrib]
  exact Finset.sum_congr rfl fun i _ => (h.shards i).counters

theorem beside_hearing (c : ShardedCache K V n) :
    Beside tell 0 (c.hearing (some tell)) (c.hearing (some calm)) where
  shards i := by
    rw [shard_hearing, shard_hearing]
    exact ⟨rfl, rfl⟩
  hasher := rfl

theorem Beside.onShard {α : Type w} (h : Beside tell lost rough smooth) (i : Fin n)
    (act : Shard K V → Outcome (Shard K V) (Lru.Note K V) α) (more : Nat)
    (acted : Shard.Beside tell (lost i + more) (act (rough.shard i)).state
      (act (smooth.shard i)).state) :
    Beside tell (fun j => lost j + if i = j then more else 0) (rough.onShard i act).state
      (smooth.onShard i act).state where
  shards j := by
    rw [shard_onShard, shard_onShard]
    by_cases same : i = j
    · subst same
      rw [if_pos rfl, if_pos rfl, if_pos rfl]
      exact acted
    · rw [if_neg same, if_neg same, if_neg same]
      exact h.shards j
  hasher := by rw [hasher_onShard, hasher_onShard, h.hasher]

theorem Beside.remove (h : Beside tell lost rough smooth) (sound : smooth.Sound (some calm))
    (key : K) :
    Beside tell lost (rough.remove key).state (smooth.remove key).state ∧
      (rough.remove key).notes = (smooth.remove key).notes := by
  have route := congrFun (route_eq_of_hasher_eq h.hasher) key
  obtain ⟨acted, notes⟩ := (h.shards (rough.route key)).remove
    (sound.listener (rough.route key)) key
  unfold ShardedCache.remove
  rw [notes_onShard, notes_onShard, ← route]
  refine ⟨?_, notes⟩
  simpa using h.onShard (rough.route key) (·.remove key) 0 acted

theorem Beside.get (h : Beside tell lost rough smooth) (key : K) :
    Beside tell lost (rough.get key).state (smooth.get key).state := by
  have route := congrFun (route_eq_of_hasher_eq h.hasher) key
  obtain ⟨acted, -⟩ := (h.shards (rough.route key)).get key
  unfold ShardedCache.get
  rw [← route]
  simpa using h.onShard (rough.route key) (fun s => .ok (s.get key).1 (s.get key).2) 0 acted

theorem Beside.stats (h : Beside tell lost rough smooth) (millis : Nat) :
    Beside tell 0 (rough.stats millis).1 (smooth.stats millis).1 where
  shards i := by
    rw [stats_eq, stats_eq, shard_map, shard_map]
    exact (h.shards i).resetCounters
  hasher := h.hasher

variable [EquivBEq K] [LawfulHashable K]

theorem Beside.insert (h : Beside tell lost rough smooth) (sound : smooth.Sound (some calm))
    (accepts : Lru.Accepts (some calm)) (key : K) (value : V) :
    Beside tell (fun i => lost i +
        if rough.route key = i then (!(rough.insert key value).answer.isOk).toNat else 0)
      (rough.insert key value).state (smooth.insert key value).state ∧
      (rough.insert key value).notes = (smooth.insert key value).notes := by
  have route := congrFun (route_eq_of_hasher_eq h.hasher) key
  obtain ⟨l, shows⟩ := sound.shown (rough.route key)
  obtain ⟨acted, notes⟩ := (h.shards (rough.route key)).insert shows
    (sound.listener (rough.route key)) accepts key value
  unfold ShardedCache.insert
  rw [notes_onShard, notes_onShard, answer_onShard, ← route]
  exact ⟨h.onShard (rough.route key) (·.insert key value) _ acted, notes⟩

theorem Beside.step (h : Beside tell lost rough smooth) (sound : smooth.Sound (some calm))
    (accepts : Lru.Accepts (some calm)) {command : Command K V} (stays : command.isClear = false) :
    ∃ lost', Beside tell lost' (rough.step command).state (smooth.step command).state ∧
      (rough.step command).notes = (smooth.step command).notes ∧
      snapshot (smooth.step command).answer + .ofEvictions (∑ i, lost' i) =
        snapshot (rough.step command).answer + .ofEvictions (∑ i, lost i +
          (isFailedInsert command (rough.step command).answer).toNat) := by
  cases command with
  | insert key value =>
      obtain ⟨state, notes⟩ := h.insert sound accepts key value
      have failed : isFailedInsert (.insert key value) (rough.step (.insert key value)).answer =
          !(rough.insert key value).answer.isOk := by
        show isFailedInsert _ ((rough.insert key value).answer.map _) = _
        cases (rough.insert key value).answer <;> rfl
      refine ⟨_, state, notes, ?_⟩
      rw [snapshot_step, snapshot_step, failed, Finset.sum_add_distrib, Finset.sum_ite_eq,
        if_pos (Finset.mem_univ _)]
      rfl
  | get key =>
      refine ⟨lost, h.get key, ?_, ?_⟩
      · show (rough.get key).notes = (smooth.get key).notes
        unfold ShardedCache.get
        rw [notes_onShard, notes_onShard]
        rfl
      · rw [snapshot_step, snapshot_step]
        rfl
  | remove key =>
      obtain ⟨state, notes⟩ := h.remove sound key
      refine ⟨lost, state, notes, ?_⟩
      rw [snapshot_step, snapshot_step]
      rfl
  | stats millis =>
      refine ⟨0, h.stats millis, rfl, ?_⟩
      rw [snapshot_step, snapshot_step]
      show smooth.counted + _ = rough.counted + _
      rw [h.counted]
      simp [isFailedInsert]
  | clear => cases stays
  | len => exact ⟨lost, h, rfl, rfl⟩
  | isEmpty => exact ⟨lost, h, rfl, rfl⟩
  | shards => exact ⟨lost, h, rfl, rfl⟩

/-! ## Runs -/

omit [BEq K] [Hashable K] [EquivBEq K] [LawfulHashable K] in
/-- What is owed after the first balance is where the second one starts. -/
theorem add_balances {M : Type w} [AddCommMonoid M] {a b x y f a' b' z f' : M}
    (first : a + y = b + (x + f)) (second : a' + z = b' + (y + f')) :
    a + a' + z = b + b' + (x + (f + f')) :=
  calc
    a + a' + z = a + (b' + (y + f')) := by rw [add_assoc, second]
    _ = a + y + (b' + f') := by abel
    _ = b + b' + (x + (f + f')) := by
      rw [first]
      abel

theorem Beside.run (h : Beside tell lost rough smooth) (sound : smooth.Sound (some calm))
    (accepts : Lru.Accepts (some calm)) (commands : List (Command K V))
    (stays : ∀ command ∈ commands, command.isClear = false) :
    ∃ lost', Beside tell lost' (rough.run commands).1 (smooth.run commands).1 ∧
      (rough.run commands).2.map (·.1) = (smooth.run commands).2.map (·.1) ∧
      hitsAndMisses (rough.run commands).2 = hitsAndMisses (smooth.run commands).2 ∧
      ((smooth.run commands).2.map fun step => snapshot step.2).sum +
          .ofEvictions (∑ i, lost' i) =
        ((rough.run commands).2.map fun step => snapshot step.2).sum +
          .ofEvictions (∑ i, lost i + rough.failedInserts commands) := by
  induction commands generalizing rough smooth lost with
  | nil => exact ⟨lost, h, rfl, rfl, rfl⟩
  | cons command commands ih =>
      obtain ⟨lost', after, notes, balance⟩ := h.step sound accepts
        (stays command List.mem_cons_self)
      obtain ⟨lost'', last, later, same, total⟩ := ih after (sound.step command)
        fun other mem => stays other (List.mem_cons_of_mem _ mem)
      have hits : (snapshot (rough.step command).answer).hits = _ :=
        (congrArg Counters.hits balance).symm
      have misses : (snapshot (rough.step command).answer).misses = _ :=
        (congrArg Counters.misses balance).symm
      refine ⟨lost'', last, congrArg₂ List.cons notes later, ?_, ?_⟩
      · exact congrArg₂ List.cons (Prod.ext hits misses) same
      · rw [failedInserts_cons]
        simp only [ShardedCache.run, List.map_cons, List.sum_cons, map_add] at balance total ⊢
        exact add_balances balance total

omit [EquivBEq K] [LawfulHashable K] in
theorem totals_eq (c : ShardedCache K V n) (commands : List (Command K V)) :
    c.totals commands =
      ((c.run commands).2.map fun step => snapshot step.2).sum + (c.run commands).1.counted := by
  unfold totals
  induction commands generalizing c with
  | nil => exact (add_zero _).trans ((c.snapshot_step (.stats 0)).trans (zero_add _).symm)
  | cons command commands ih =>
      simp only [List.cons_append, ShardedCache.run, List.map_cons, List.sum_cons, ih, add_assoc]

/-! ## Clearing -/

theorem mem_take_finRange {i s : Fin n} : i ∈ (List.finRange n).take s ↔ i < s := by
  rw [List.mem_take_iff_getElem]
  constructor
  · rintro ⟨j, inside, rfl⟩
    rw [List.getElem_finRange]
    exact (lt_min_iff.1 inside).1
  · intro before
    exact ⟨i, by simpa using before, by simp⟩

theorem finRange_eq_take_cons_drop (s : Fin n) :
    List.finRange n = (List.finRange n).take s ++ s :: (List.finRange n).drop (s + 1) := by
  have inside : (s : Nat) < (List.finRange n).length := by simp
  have here : (List.finRange n)[(s : Nat)] = s := by simp
  have tail := List.drop_eq_getElem_cons inside
  rw [here] at tail
  rw [← tail, List.take_append_drop]

omit [EquivBEq K] [LawfulHashable K] in
theorem clear_of_refusedAt {s : Fin n} {before after : List (K × V)} {entry : K × V}
    {fault : Fault} (fails : tell.FailsOn bad)
    (good : ∀ i < s, ∀ other ∈ (c.shard i).entries.toList, other.1 ∉ bad)
    (refusal : Lru.RefusedAt tell bad (c.shard s).entries.toList before entry after fault) :
    let o := (c.hearing (some tell)).clear
    o.answer = .error fault ∧
      (∀ i, o.state.shard i = if i < s then ((c.hearing (some tell)).shard i).clear.state
        else (c.hearing (some tell)).shard i) ∧
      Lru.reported o.notes =
        (((List.finRange n).take s).flatMap fun i => (c.shard i).entries.toList) ++
          (before ++ [entry]) := by
  intro o
  let rough := c.hearing (some tell)
  have heard (i : Fin n) : rough.shard i = (c.shard i).hearing (some tell) := c.shard_hearing _ i
  obtain ⟨shards, notes, answer⟩ := clear_inTurn (c := rough) ((List.finRange n).take s)
    ((List.nodup_finRange n).sublist (List.take_sublist _ _)) fun i mem => by
      rw [heard]
      exact (Shard.clear_of_all_good fails (good i (mem_take_finRange.1 mem))).1
  simp only [mem_take_finRange] at shards
  -- the shards before the one where the listener fails have been cleared
  generalize reached : Outcome.inTurn (fun (c : ShardedCache K V n) i => c.onShard i Shard.clear)
    rough ((List.finRange n).take s) = first at shards notes answer
  have stopped : (first.state.shard s).clear = ⟨rough.shard s,
      (before ++ [entry]).map fun entry => .told entry.1 entry.2, .error fault⟩ := by
    rw [shards, if_neg (lt_irrefl s), heard]
    exact Shard.clear_of_refusedAt fails refusal
  have failed : (first.state.onShard s Shard.clear).answer = .error fault := by
    rw [answer_onShard, stopped]
  have made : o = ⟨(first.state.onShard s Shard.clear).state,
      first.notes ++ (first.state.onShard s Shard.clear).notes, .error fault⟩ := by
    show ShardedCache.clear rough = _
    unfold ShardedCache.clear
    have cut := Outcome.inTurn_of_failed (reached ▸ answer) (reached ▸ failed)
      ((List.finRange n).drop (s + 1))
    rw [reached, ← finRange_eq_take_cons_drop] at cut
    rw [cut]
    rfl
  rw [made]
  refine ⟨rfl, fun i => ?_, ?_⟩
  · rw [shard_onShard, stopped, shards]
    by_cases here : s = i
    · subst here
      rw [if_pos rfl, if_neg (lt_irrefl s)]
    · rw [if_neg here]
  · show Lru.reported (first.notes ++ _) = _
    rw [Lru.reported, List.filterMap_append, ← Lru.reported, ← Lru.reported, notes_onShard, stopped,
      Lru.reported_told, notes, Lru.reported, List.filterMap_flatMap]
    congr 1
    refine List.flatMap_congr fun i mem => ?_
    rw [heard]
    exact (Shard.clear_of_all_good fails (good i (mem_take_finRange.1 mem))).2.2.2

structure ClearsUpTo (c : ShardedCache K V n) (tell : Listener K V) (bad : Set K) : Prop where
  fails_iff : (∃ fault, (c.hearing (some tell)).clear.answer = .error fault) ↔
    ∃ i, ∃ entry ∈ (c.shard i).entries.toList, entry.1 ∈ bad
  stops : ∀ fault, (c.hearing (some tell)).clear.answer = .error fault →
    ∃ s before entry after,
      (∀ i < s, ∀ other ∈ (c.shard i).entries.toList, other.1 ∉ bad) ∧
      Lru.RefusedAt tell bad (c.shard s).entries.toList before entry after fault ∧
      (∀ i < s, ((c.hearing (some tell)).clear.state.shard i).entries.toList = []) ∧
      (∀ i, s ≤ i → (c.hearing (some tell)).clear.state.shard i =
        (c.hearing (some tell)).shard i) ∧
      (∀ i, ((c.hearing (some tell)).clear.state.shard i).counters = (c.shard i).counters) ∧
      Lru.reported (c.hearing (some tell)).clear.notes =
        (((List.finRange n).take s).flatMap fun i => (c.shard i).entries.toList) ++
          (before ++ [entry])

omit [EquivBEq K] [LawfulHashable K] in
theorem clearsUpTo (c : ShardedCache K V n) (fails : tell.FailsOn bad) : c.ClearsUpTo tell bad := by
  by_cases some_bad : ∃ i, ∃ entry ∈ (c.shard i).entries.toList, entry.1 ∈ bad
  · obtain ⟨s, here, least⟩ := wellFounded_lt.has_min
      {i | ∃ entry ∈ (c.shard i).entries.toList, entry.1 ∈ bad} some_bad
    have good : ∀ i < s, ∀ other ∈ (c.shard i).entries.toList, other.1 ∉ bad :=
      fun i before other mem isBad => least i ⟨other, mem, isBad⟩ before
    obtain ⟨before, entry, after, fault, refusal⟩ := Lru.exists_refusedAt fails here
    obtain ⟨answer, shards, told⟩ := clear_of_refusedAt fails good refusal
    have emptied (i : Fin n) (earlier : i < s) := Shard.clear_of_all_good fails (good i earlier)
    refine ⟨⟨fun _ => some_bad, fun _ => ⟨fault, answer⟩⟩, fun other failed => ?_⟩
    obtain rfl := Except.error.inj (answer.symm.trans failed)
    refine ⟨s, before, entry, after, good, refusal, fun i earlier => ?_, fun i later => ?_,
      fun i => ?_, told⟩
    · rw [shards, if_pos earlier, shard_hearing]
      exact (emptied i earlier).2.1
    · rw [shards, if_neg (not_lt.2 later)]
    · rw [shards, shard_hearing]
      by_cases earlier : i < s
      · rw [if_pos earlier]
        exact (emptied i earlier).2.2.1
      · rw [if_neg earlier]
        rfl
  · have answer : (c.hearing (some tell)).clear.answer = .ok () := by
      obtain ⟨-, -, answer⟩ := clear_inTurn (c := c.hearing (some tell)) (List.finRange n)
        (List.nodup_finRange n) fun i _ => by
          rw [shard_hearing]
          exact (Shard.clear_of_all_good fails fun entry mem isBad =>
            some_bad ⟨i, entry, mem, isBad⟩).1
      exact congrArg (Except.map fun _ => ()) answer
    have done (fault : Fault) : (c.hearing (some tell)).clear.answer ≠ .error fault := by
      rw [answer]
      nofun
    exact ⟨⟨fun ⟨fault, failed⟩ => absurd failed (done fault), fun held => absurd held some_bad⟩,
      fun fault failed => absurd failed (done fault)⟩

/-! ## What is left after a failure -/

theorem Sound.insert_fails_iff {listener : Option (Listener K V)} (h : c.Sound listener)
    (fails : tell.FailsOn bad) (key : K) (value : V) :
    (∃ fault, ((c.hearing (some tell)).insert key value).answer = .error fault) ↔
      ∃ entry ∈ Lru.reported ((c.hearing (some tell)).insert key value).notes, entry.1 ∈ bad := by
  obtain ⟨l, shows⟩ := h.shown (c.route key)
  have accepts : Lru.Accepts (some fun (_ : K) (_ : V) => .ok ()) := by simp [Lru.Accepts]
  have fails_iff := (shows.withstands_put fails accepts key value).fails_iff
  unfold ShardedCache.insert
  rw [answer_onShard, notes_onShard, shard_hearing]
  have stored := ((c.shard (c.route key)).hearing (some tell)).entries_insert key value
  change _ = ((c.shard (c.route key)).entries.hearing (some tell)).put key value at stored
  rw [← stored] at fails_iff
  exact fails_iff

theorem Sound.remove_fails_iff {listener : Option (Listener K V)} (h : c.Sound listener)
    (fails : tell.FailsOn bad) (key : K) :
    (∃ fault, ((c.hearing (some tell)).remove key).answer = .error fault) ↔
      ∃ entry ∈ Lru.reported ((c.hearing (some tell)).remove key).notes, entry.1 ∈ bad := by
  obtain ⟨l, shows⟩ := h.shown (c.route key)
  have accepts : Lru.Accepts (some fun (_ : K) (_ : V) => .ok ()) := by simp [Lru.Accepts]
  have fails_iff := (shows.withstands_remove fails accepts key).fails_iff
  unfold ShardedCache.remove
  rw [answer_onShard, notes_onShard, shard_hearing]
  exact fails_iff

theorem failures_lose_only_counts {s : Sharding} {hasher : Hasher K}
    {listener : Option (Listener K V)} {start : ShardedCache K V s.shards}
    (made : ofSharding s hasher listener = .ok start) (requests : List (Request K V))
    (fails : tell.FailsOn bad) (accepts : Lru.Accepts (some calm)) :
    let c := start.after requests
    let rough := c.hearing (some tell)
    let smooth := c.hearing (some calm)
    (∀ key value,
      Beside tell
        (fun i => if c.route key = i then (!(rough.insert key value).answer.isOk).toNat else 0)
        (rough.insert key value).state (smooth.insert key value).state ∧
      (rough.insert key value).notes = (smooth.insert key value).notes ∧
      ((∃ fault, (rough.insert key value).answer = .error fault) ↔
        ∃ entry ∈ Lru.reported (rough.insert key value).notes, entry.1 ∈ bad)) ∧
    (∀ key,
      Beside tell 0 (rough.remove key).state (smooth.remove key).state ∧
      (rough.remove key).notes = (smooth.remove key).notes ∧
      ((∃ fault, (rough.remove key).answer = .error fault) ↔
        ∃ entry ∈ Lru.reported (rough.remove key).notes, entry.1 ∈ bad)) ∧
    (∀ commands, (∀ command ∈ commands, command.isClear = false) →
      (∀ i, ((rough.run commands).1.shard i).entries =
        ((smooth.run commands).1.shard i).entries.hearing (some tell)) ∧
      (rough.run commands).2.map (·.1) = (smooth.run commands).2.map (·.1) ∧
      hitsAndMisses (rough.run commands).2 = hitsAndMisses (smooth.run commands).2 ∧
      smooth.totals commands =
        rough.totals commands + .ofEvictions (rough.failedInserts commands)) ∧
    c.ClearsUpTo tell bad := by
  intro c rough smooth
  obtain ⟨last, -, reached⟩ := (sound_ofSharding made).1.after requests
  have sound : smooth.Sound (some calm) := reached.hearing
  have beside : Beside tell 0 rough smooth := c.beside_hearing
  refine ⟨fun key value => ?_, fun key => ?_, fun commands stays => ?_, c.clearsUpTo fails⟩
  · obtain ⟨state, notes⟩ := beside.insert sound accepts key value
    simp only [Pi.zero_apply, Nat.zero_add] at state
    exact ⟨state, notes, reached.insert_fails_iff fails key value⟩
  · obtain ⟨state, notes⟩ := beside.remove sound key
    exact ⟨state, notes, reached.remove_fails_iff fails key⟩
  · obtain ⟨lost, after, notes, counts, balance⟩ := beside.run sound accepts commands stays
    refine ⟨fun i => (after.shards i).entries, notes, counts, ?_⟩
    have fresh : ∑ i, (0 : Fin s.shards → Nat) i = 0 := Finset.sum_const_zero
    rw [fresh, Nat.zero_add] at balance
    rw [totals_eq, totals_eq, after.counted, add_comm (ShardedCache.counted _), ← add_assoc,
      balance, add_right_comm]

/-- An insertion fails on the entry that it drives out, and a later one of the same shard does not;
clearing empties the first shard and stops at the second one. -/
theorem failures_lose_only_counts_once :
    let hasher : Hasher Nat := ⟨fun key => key.toUInt64 <<< 32, 0⟩
    let calm : Listener Nat Nat := fun _ _ => .ok ()
    let tell : Listener Nat Nat := .failingOn 1 "refused"
    let requests : List (Request Nat Nat) := [⟨.insert 0 10, none⟩, ⟨.insert 1 11, none⟩]
    let commands : List (Command Nat Nat) :=
      [.insert 3 30, .get 3, .get 1, .insert 5 50, .stats 5, .remove 0]
    ∃ start : ShardedCache Nat Nat 2,
      ofSharding ⟨2, 2, by decide⟩ hasher none = .ok start ∧
      tell.FailsOn {1} ∧ Lru.Accepts (some calm) ∧
      (∀ command ∈ commands, command.isClear = false) ∧
      let c := start.after requests
      let rough := c.hearing (some tell)
      (rough.insert 3 30).answer = .error (.raised "refused") ∧
      (rough.insert 3 30).notes = ((c.hearing (some calm)).insert 3 30).notes ∧
      (rough.remove 1).notes = ((c.hearing (some calm)).remove 1).notes ∧
      rough.totals commands = ⟨1, 1, 1⟩ ∧ (c.hearing (some calm)).totals commands = ⟨1, 1, 2⟩ ∧
      rough.clear.answer = .error (.raised "refused") ∧
      ∃ i : Fin 2, ∃ entry ∈ (c.shard i).entries.toList, entry.1 ∈ ({1} : Set Nat) := by
  intro hasher calm tell requests commands
  let start : ShardedCache Nat Nat 2 := ⟨.replicate 2 (.empty 1 none), hasher, by decide⟩
  have fits : TableFits 2 (shardBytes hasher) := by
    show 2 * (8 * (20 + (0 + 7) / 8)) < 2 ^ 63
    decide
  have made : ofSharding ⟨2, 2, by decide⟩ hasher none = .ok start := if_pos fits
  have fails : tell.FailsOn {1} := by
    intro key value
    by_cases same : key = 1 <;> simp [tell, Listener.failingOn, same]
  have accepts : Lru.Accepts (some calm) := by simp [Lru.Accepts, calm]
  have stays : ∀ command ∈ commands, command.isClear = false := by simp [commands, Command.isClear]
  have refused : (((start.after requests).hearing (some tell)).insert 3 30).answer =
      .error (.raised "refused") := by cbv
  have counted : ((start.after requests).hearing (some tell)).totals commands = ⟨1, 1, 1⟩ := by cbv
  have lost : ((start.after requests).hearing (some tell)).failedInserts commands = 1 := by cbv
  have stopped : ((start.after requests).hearing (some tell)).clear.answer =
      .error (.raised "refused") := by cbv
  obtain ⟨inserts, removes, runs, clears⟩ := failures_lose_only_counts made requests fails accepts
  have totals := (runs commands stays).2.2.2
  rw [counted, lost] at totals
  exact ⟨start, made, fails, accepts, stays, refused, (inserts 3 30).2.1, (removes 1).2.1, counted,
    totals, stopped, clears.fails_iff.1 ⟨_, stopped⟩⟩

end ShardedCache

end CacheNode
