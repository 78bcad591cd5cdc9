import CacheNode.Proofs.ShardedCache.Visits
import Mathlib

/-! # Shards are independent -/

namespace CacheNode

variable {K : Type u} {V : Type v}

namespace ShardedCache

def Command.key? : Command K V → Option K
  | .insert key _ | .get key | .remove key => some key
  | .len | .isEmpty | .clear | .shards | .stats _ => none

def Command.onStore? : Command K V → Option (Lru.Command K V)
  | .insert key value => some (.put key value)
  | .get key => some (.get key)
  | .remove key => some (.remove key)
  | .clear => some .clear
  | .len | .isEmpty | .shards | .stats _ => none

def Reply.ofStore : Lru.Reply K V → Reply V
  | .value? value => .value? value
  | .flag b => .flag b
  | .count n => .count n
  | .oldest _ | .entries _ | .done => .done

end ShardedCache

def Lru.Command.isClear : Lru.Command K V → Bool
  | .clear => true
  | _ => false

variable [BEq K] [Hashable K] {n : Nat}

def Shard.next (s : Shard K V) : ShardedCache.Command K V → Shard K V
  | .insert key value => (s.insert key value).state
  | .get key => (s.get key).1
  | .remove key => (s.remove key).state
  | .clear => s.clear.state
  | .stats _ => s.resetCounters
  | .len | .isEmpty | .shards => s

/-- What the commands on keys told and answered, the ones that clear left out. -/
def Lru.traffic (store : Lru K V) (commands : List (Lru.Command K V)) :
    List (List (Lru.Note K V) × Except Fault (Lru.Reply K V)) :=
  ((commands.zip (store.run commands).2).filter fun step => !step.1.isClear).map (·.2)

theorem Lru.traffic_cons (store : Lru K V) (command : Lru.Command K V)
    (commands : List (Lru.Command K V)) :
    store.traffic (command :: commands) =
      (if command.isClear then []
        else [((store.step command).notes, (store.step command).answer)]) ++
        (store.step command).state.traffic commands := by
  unfold traffic
  rw [Lru.run, List.zip_cons_cons, List.filter_cons]
  cases command.isClear <;> rfl

theorem Shard.entries_next (s : Shard K V) {command : ShardedCache.Command K V} :
    (s.next command).entries =
      (command.onStore?.map fun asked => (s.entries.step asked).state).getD s.entries := by
  cases command with
  | insert key value => exact congrArg Outcome.state (s.entries_insert key value)
  | get key =>
      show (s.get key).1.entries = _
      rw [s.get_eq]
      rfl
  | _ => rfl

theorem Shard.entries_foldl_next (s : Shard K V) (commands : List (ShardedCache.Command K V)) :
    (commands.foldl Shard.next s).entries =
      (s.entries.run (commands.filterMap ShardedCache.Command.onStore?)).1 := by
  induction commands generalizing s with
  | nil => rfl
  | cons command commands ih =>
      rw [List.foldl_cons, ih, s.entries_next, List.filterMap_cons]
      cases command.onStore? <;> rfl

namespace ShardedCache

/-! ## Portions of a run -/

def place? (c : ShardedCache K V n) (command : Command K V) : Option (Fin n) :=
  command.key?.map c.route

def concerns (c : ShardedCache K V n) (i : Fin n) : Command K V → Bool
  | .insert key _ | .get key | .remove key => c.route key = i
  | .clear | .stats _ => true
  | .len | .isEmpty | .shards => false

def portion (c : ShardedCache K V n) (i : Fin n) (commands : List (Command K V)) :
    List (Command K V) := commands.filter (c.concerns i)

def traffic (c : ShardedCache K V n) (i : Fin n) (commands : List (Command K V)) :
    List (List (Lru.Note K V) × Except Fault (Reply V)) :=
  ((commands.zip (c.run commands).2).filter fun step => c.place? step.1 == some i).map (·.2)

variable {c : ShardedCache K V n} {listener : Option (Listener K V)}

theorem place?_step (c : ShardedCache K V n) (command : Command K V) :
    (c.step command).state.place? = c.place? := by
  funext other
  rw [place?, place?, route_eq_of_hasher_eq (c.hasher_step command)]

theorem concerns_eq_of_hasher_eq {c c' : ShardedCache K V n} (same : c'.hasher = c.hasher) :
    c'.concerns = c.concerns := by
  funext i command
  cases command <;> simp only [concerns, route_eq_of_hasher_eq same]

theorem portion_step (c : ShardedCache K V n) (command : Command K V) :
    (c.step command).state.portion = c.portion := by
  funext i commands
  unfold portion
  rw [concerns_eq_of_hasher_eq (c.hasher_step command)]

theorem traffic_cons (c : ShardedCache K V n) (i : Fin n) (command : Command K V)
    (commands : List (Command K V)) :
    c.traffic i (command :: commands) =
      (if c.place? command = some i then [((c.step command).notes, (c.step command).answer)]
        else []) ++ (c.step command).state.traffic i commands := by
  unfold traffic
  rw [run, List.zip_cons_cons, List.filter_cons, c.place?_step command]
  simp only [beq_iff_eq]
  split <;> rfl

theorem concerns_of_place? {i : Fin n} {command : Command K V}
    (placed : c.place? command = some i) : c.concerns i command = true := by
  cases command with
  | insert key value => exact decide_eq_true (Option.some.inj placed)
  | get key => exact decide_eq_true (Option.some.inj placed)
  | remove key => exact decide_eq_true (Option.some.inj placed)
  | _ => cases placed

theorem isClear_of_place?_ne {i : Fin n} {command : Command K V}
    (concerned : c.concerns i command = true) (apart : c.place? command ≠ some i)
    {asked : Lru.Command K V} (asks : command.onStore? = some asked) : asked.isClear = true := by
  cases command with
  | insert key value => exact absurd (congrArg some (of_decide_eq_true concerned)) apart
  | get key => exact absurd (congrArg some (of_decide_eq_true concerned)) apart
  | remove key => exact absurd (congrArg some (of_decide_eq_true concerned)) apart
  | clear =>
      obtain rfl := Option.some.inj asks
      rfl
  | _ => cases asks

/-! ## Clearing -/

theorem clear_inTurn (places : List (Fin n)) (once : places.Nodup)
    (accepted : ∀ i ∈ places, (c.shard i).clear.answer = .ok ()) :
    let o := Outcome.inTurn (fun (c : ShardedCache K V n) i => c.onShard i Shard.clear) c places
    (∀ i, o.state.shard i = if i ∈ places then (c.shard i).clear.state else c.shard i) ∧
      o.notes = (places.flatMap fun i => (c.shard i).clear.notes) ∧
      o.answer = .ok (places.map fun _ => ()) := by
  induction places generalizing c with
  | nil => exact ⟨fun i => (if_neg List.not_mem_nil).symm, rfl, rfl⟩
  | cons first places ih =>
      rw [List.nodup_cons] at once
      -- the shards that follow are cleared as they were at the start
      have others : ∀ i ∈ places, (c.onShard first Shard.clear).state.shard i = c.shard i := by
        intro i mem
        rw [shard_onShard, if_neg]
        rintro rfl
        exact once.1 mem
      obtain ⟨shards, notes, answer⟩ := ih (c := (c.onShard first Shard.clear).state) once.2 <| by
        intro i mem
        rw [others i mem]
        exact accepted i (List.mem_cons_of_mem _ mem)
      have answered : (c.onShard first Shard.clear).answer = .ok () := by
        rw [answer_onShard]
        exact accepted first List.mem_cons_self
      rw [Outcome.inTurn_cons, Outcome.andThen_of_ok answered]
      refine ⟨fun i => ?_, ?_, ?_⟩
      · refine (shards i).trans ?_
        by_cases mem : i ∈ places
        · rw [if_pos mem, if_pos (List.mem_cons_of_mem _ mem), others i mem]
        · rw [if_neg mem, shard_onShard]
          by_cases same : first = i
          · subst same
            rw [if_pos rfl, if_pos List.mem_cons_self]
          · rw [if_neg same, if_neg]
            rw [List.mem_cons, not_or]
            exact ⟨Ne.symm same, mem⟩
      · rw [List.flatMap_cons, ← notes_onShard]
        refine congrArg ((c.onShard first Shard.clear).notes ++ ·) (notes.trans ?_)
        exact List.flatMap_congr fun i mem => by rw [others i mem]
      · rw [List.map_cons]
        exact congrArg (Except.map (() :: ·)) answer

theorem Sound.accepts (h : c.Sound listener) (accepts : Lru.Accepts listener) (i : Fin n) :
    Lru.Accepts (c.shard i).entries.onEvict := by
  rw [h.listener i]
  exact accepts

theorem Sound.answer_clear_shard (h : c.Sound listener) (accepts : Lru.Accepts listener)
    (i : Fin n) : (c.shard i).clear.answer = .ok () := by
  show (c.shard i).entries.clear.answer = .ok ()
  unfold Lru.clear
  rw [Lru.announce_of_accepts (h.accepts accepts i)]

theorem Sound.clear_each (h : c.Sound listener) (accepts : Lru.Accepts listener) :
    (∀ i, c.clear.state.shard i = (c.shard i).clear.state) ∧
      c.clear.notes = ((List.finRange n).flatMap fun i => (c.shard i).clear.notes) ∧
      c.clear.answer = .ok () := by
  obtain ⟨shards, notes, answer⟩ := clear_inTurn (c := c) (List.finRange n) (List.nodup_finRange n)
    fun i _ => h.answer_clear_shard accepts i
  refine ⟨fun i => ?_, notes, congrArg (Except.map fun _ => ()) answer⟩
  exact (shards i).trans (if_pos (List.mem_finRange i))

/-! ## One command -/

theorem shard_onShard_route {α : Type w} (c : ShardedCache K V n) (key : K) (i : Fin n)
    (act : Shard K V → Outcome (Shard K V) (Lru.Note K V) α) :
    (c.onShard (c.route key) act).state.shard i =
      if decide (c.route key = i) then (act (c.shard i)).state else c.shard i := by
  rw [shard_onShard]
  by_cases here : c.route key = i
  · subst here
    simp
  · simp [here]

theorem Sound.shard_step (h : c.Sound listener) (accepts : Lru.Accepts listener)
    (command : Command K V) (i : Fin n) :
    (c.step command).state.shard i =
      if c.concerns i command then (c.shard i).next command else c.shard i := by
  cases command with
  | insert key value => exact c.shard_onShard_route key i (·.insert key value)
  | get key => exact c.shard_onShard_route key i fun s => .ok (s.get key).1 (s.get key).2
  | remove key => exact c.shard_onShard_route key i (·.remove key)
  | clear => exact (h.clear_each accepts).1 i
  | stats millis => exact c.shard_map Shard.resetCounters i
  | len => rfl
  | isEmpty => rfl
  | shards => rfl

theorem step_at {i : Fin n} {command : Command K V} (placed : c.place? command = some i) :
    ∃ asked : Lru.Command K V, command.onStore? = some asked ∧ asked.isClear = false ∧
      (c.step command).notes = ((c.shard i).entries.step asked).notes ∧
      (c.step command).answer =
        ((c.shard i).entries.step asked).answer.map Reply.ofStore := by
  have answers : ∀ a : Except Fault (Option V),
      a.map Reply.value? = (a.map (Lru.Reply.value? (K := K))).map Reply.ofStore := by
    intro a
    cases a <;> rfl
  cases command with
  | insert key value =>
      obtain rfl := Option.some.inj placed
      have stored := (c.shard (c.route key)).entries_insert key value
      refine ⟨.put key value, rfl, rfl, ?_, ?_⟩
      · refine (c.notes_onShard (c.route key) (·.insert key value)).trans ?_
        exact congrArg Outcome.notes stored
      · refine (congrArg (Except.map Reply.value?)
          (c.answer_onShard (c.route key) (·.insert key value))).trans ?_
        exact (congrArg (fun o => o.answer.map Reply.value?) stored).trans (answers _)
  | get key =>
      obtain rfl := Option.some.inj placed
      refine ⟨.get key, rfl, rfl, ?_, ?_⟩
      · exact c.notes_onShard (c.route key) fun s => .ok (s.get key).1 (s.get key).2
      · refine (congrArg (Except.map Reply.value?) (c.answer_onShard (c.route key)
          fun s => .ok (s.get key).1 (s.get key).2)).trans ?_
        rw [Shard.get_eq]
        rfl
  | remove key =>
      obtain rfl := Option.some.inj placed
      refine ⟨.remove key, rfl, rfl, ?_, ?_⟩
      · exact c.notes_onShard (c.route key) (·.remove key)
      · refine (congrArg (Except.map Reply.value?)
          (c.answer_onShard (c.route key) (·.remove key))).trans ?_
        exact answers _
  | _ => cases placed

/-! ## Whole runs -/

variable [EquivBEq K] [LawfulHashable K]

theorem Sound.shard_run (h : c.Sound listener) (accepts : Lru.Accepts listener)
    (commands : List (Command K V)) (i : Fin n) :
    (c.run commands).1.shard i = (c.portion i commands).foldl Shard.next (c.shard i) := by
  induction commands generalizing c with
  | nil => rfl
  | cons command commands ih =>
      have later := ih (h.step command)
      rw [h.shard_step accepts, c.portion_step] at later
      refine later.trans ?_
      unfold portion
      rw [List.filter_cons]
      split <;> rfl

theorem Sound.traffic_eq (h : c.Sound listener) (accepts : Lru.Accepts listener)
    (commands : List (Command K V)) (i : Fin n) :
    c.traffic i commands =
      ((c.shard i).entries.traffic ((c.portion i commands).filterMap Command.onStore?)).map
        fun step => (step.1, step.2.map Reply.ofStore) := by
  induction commands generalizing c with
  | nil => rfl
  | cons command commands ih =>
      have later := ih (h.step command)
      rw [h.shard_step accepts, c.portion_step] at later
      rw [c.traffic_cons, later, portion, portion, List.filter_cons]
      by_cases concerned : c.concerns i command = true
      · rw [if_pos concerned, if_pos concerned, Shard.entries_next, List.filterMap_cons]
        by_cases placed : c.place? command = some i
        · obtain ⟨asked, asks, stays, notes, answer⟩ := step_at placed
          rw [if_pos placed, asks, Lru.traffic_cons, stays, notes, answer]
          rfl
        · rw [if_neg placed]
          cases asks : command.onStore? with
          | none => rfl
          | some asked =>
              rw [Lru.traffic_cons, isClear_of_place?_ne concerned placed asks]
              rfl
      · have apart : c.place? command ≠ some i := mt concerns_of_place? concerned
        rw [if_neg concerned, if_neg concerned, if_neg apart]
        rfl

/-! ## All shards together -/

omit [EquivBEq K] [LawfulHashable K] in
theorem toList_shards (c : ShardedCache K V n) : c.shards.toList = List.ofFn c.shard := by
  apply List.ext_getElem
  · simp
  · intro i inside within
    rw [List.getElem_ofFn, Vector.getElem_toList]
    rfl

omit [EquivBEq K] [LawfulHashable K] in
theorem sum_eq_sum_shards {M : Type w} [AddCommMonoid M] (f : Shard K V → M)
    (c : ShardedCache K V n) : c.sum f = ∑ i, f (c.shard i) := by
  rw [sum, toList_shards, List.map_ofFn, List.sum_ofFn]
  rfl

omit [EquivBEq K] [LawfulHashable K] in
theorem len_eq_sum_shards (c : ShardedCache K V n) : c.len = ∑ i, (c.shard i).len := by
  rw [len_eq_sum, sum_eq_sum_shards]

omit [EquivBEq K] [LawfulHashable K] in
theorem isEmpty_iff (c : ShardedCache K V n) :
    c.isEmpty = true ↔ ∀ i, (c.shard i).entries.isEmpty = true := by
  rw [isEmpty, toList_shards, List.all_eq_true]
  exact List.forall_mem_ofFn_iff

omit [EquivBEq K] [LawfulHashable K] in
theorem ext_shards {c c' : ShardedCache K V n} (shards : ∀ i, c'.shard i = c.shard i)
    (hashers : c'.hasher = c.hasher) : c' = c := by
  obtain ⟨held, hasher, pos⟩ := c
  obtain ⟨held', hasher', pos'⟩ := c'
  obtain rfl : hasher' = hasher := hashers
  obtain rfl : held' = held := Vector.ext fun i inside => shards ⟨i, inside⟩
  rfl

theorem shards_independent {s : Sharding} {hasher : Hasher K} {c : ShardedCache K V s.shards}
    (made : ofSharding s hasher listener = .ok c) (accepts : Lru.Accepts listener)
    (commands : List (Command K V)) :
    let alone : Lru K V := .ofConfig ⟨s.capacity ⌈/⌉ s.shards⟩ listener
    let asked (i : Fin s.shards) := (c.portion i commands).filterMap Command.onStore?
    let store (i : Fin s.shards) := (alone.run (asked i)).1
    let c' := (c.run commands).1
    (∀ key, (c.route key : Nat) = (hasher.hash key >>> 32).toNat % s.shards) ∧
    (∀ i, (c'.shard i).entries = store i ∧
      c.traffic i commands =
        (alone.traffic (asked i)).map fun step => (step.1, step.2.map Reply.ofStore)) ∧
    (c'.step .len).answer = .ok (.count (∑ i, (store i).len)) ∧
    ((c'.step .isEmpty).answer = .ok (.flag true) ↔ ∀ i, (store i).isEmpty = true) ∧
    ((c'.step .clear).answer = .ok .done ∧
      (c'.step .clear).notes =
        (List.finRange s.shards).flatMap fun i => ((store i).step .clear).notes) ∧
    ∀ others, (∀ i, c.portion i others = c.portion i commands) →
      (∀ i, c.traffic i others = c.traffic i commands) ∧ (c.run others).1 = c' := by
  intro alone asked store c'
  have sound : c.Sound listener := (sound_ofSharding made).1
  have start : ∀ i, (c.shard i).entries = alone := fun i => by
    rw [shard_ofSharding made]
    rfl
  have entries : ∀ i, (c'.shard i).entries = store i := fun i => by
    rw [sound.shard_run accepts, Shard.entries_foldl_next, start]
  have traffic : ∀ commands i, c.traffic i commands = (alone.traffic
      ((c.portion i commands).filterMap Command.onStore?)).map
        fun step => (step.1, step.2.map Reply.ofStore) := fun commands i => by
    rw [sound.traffic_eq accepts, start]
  obtain ⟨-, notes, answer⟩ := (sound.run commands).clear_each accepts
  refine ⟨fun key => ?_, fun i => ⟨entries i, traffic commands i⟩, ?_, ?_, ⟨?_, ?_⟩, ?_⟩
  · rw [← hasher_ofSharding made]
    rfl
  · show Except.ok (Reply.count c'.len) = _
    rw [len_eq_sum_shards]
    simp only [Shard.len, entries]
  · show Except.ok (Reply.flag c'.isEmpty) = .ok (.flag true) ↔ _
    rw [Except.ok.injEq, Reply.flag.injEq, isEmpty_iff]
    simp only [entries]
  · exact congrArg (Except.map fun _ => Reply.done) answer
  · refine notes.trans (List.flatMap_congr fun i _ => ?_)
    rw [← entries i]
    rfl
  · intro others same
    refine ⟨fun i => ?_, ext_shards (fun i => ?_) ?_⟩
    · rw [traffic, traffic, same]
    · rw [sound.shard_run accepts, sound.shard_run accepts, same]
    · rw [sound.hasher_run, sound.hasher_run]

/-- Keys of one shard keep their order and drive out an entry; the other shard works meanwhile. -/
theorem shards_independent_reordered :
    let hasher : Hasher Nat := ⟨fun key => key.toUInt64 <<< 32, 0⟩
    let accepts : Option (Listener Nat Nat) := some fun _ _ => .ok ()
    let first : List (Command Nat Nat) :=
      [.insert 0 10, .insert 1 11, .insert 2 12, .get 0, .insert 4 14, .len, .clear, .insert 1 21]
    let second : List (Command Nat Nat) :=
      [.insert 1 11, .insert 0 10, .isEmpty, .insert 2 12, .get 0, .insert 4 14, .clear,
        .insert 1 21]
    ∃ c : ShardedCache Nat Nat 2,
      ofSharding ⟨3, 2, by decide⟩ hasher accepts = .ok c ∧ Lru.Accepts accepts ∧
      (∀ i, c.portion i second = c.portion i first) ∧
      c.traffic 0 second =
        [([], .ok (.value? none)), ([], .ok (.value? none)), ([], .ok (.value? (some 10))),
          ([.left 2, .told 2 12], .ok (.value? none))] ∧
      ((c.run first).1.step .len).answer = .ok (.count 1) ∧ (c.run second).1 = (c.run first).1 := by
  intro hasher accepts first second
  let c : ShardedCache Nat Nat 2 := ⟨.replicate 2 (.empty 2 accepts), hasher, by decide⟩
  have fits : TableFits 2 (shardBytes hasher) := by
    show 2 * (8 * (20 + (0 + 7) / 8)) < 2 ^ 63
    decide
  have made : ofSharding ⟨3, 2, by decide⟩ hasher accepts = .ok c := if_pos fits
  have accepting : Lru.Accepts accepts := by simp [Lru.Accepts, accepts]
  have same : ∀ i, c.portion i second = c.portion i first := by
    rw [Fin.forall_fin_two]
    constructor <;> cbv
  have evaluated : c.traffic 0 first =
        [([], .ok (.value? none)), ([], .ok (.value? none)), ([], .ok (.value? (some 10))),
          ([.left 2, .told 2 12], .ok (.value? none))] ∧
      (c.run first).1.len = 1 := by
    constructor <;> cbv
  obtain ⟨_, _, _, _, _, reordered⟩ := shards_independent made accepting first
  obtain ⟨traffic, state⟩ := reordered second same
  exact ⟨c, made, accepting, same, (traffic 0).trans evaluated.1,
    congrArg (fun len => Except.ok (Reply.count len)) evaluated.2, state⟩

end ShardedCache

end CacheNode
