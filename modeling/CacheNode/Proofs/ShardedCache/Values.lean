import CacheNode.Proofs.Lru.Inclusion
import CacheNode.Proofs.ShardedCache.Capacity
import CacheNode.Proofs.ShardedCache.Independence

/-! # What is held for a key -/

namespace CacheNode

variable {K : Type u} {V : Type v}

def Hasher.Consistent [BEq K] (hasher : Hasher K) : Prop :=
  ∀ key other, (key == other) = true → hasher.hash key = hasher.hash other

variable [BEq K] {limit n : Nat}

namespace Lru.Recency

def value? (l : Recency K V) (key : K) : Option V := (l.entry? key).map (·.2)

theorem value?_cons (entry : K × V) (l : Recency K V) (key : K) :
    value? (entry :: l) key = if entry.1 == key then some entry.2 else l.value? key := by
  unfold value? entry?
  rw [List.find?_cons]
  cases entry.1 == key <;> rfl

variable [EquivBEq K] {l : Recency K V}

theorem value?_of_mem (distinct : l.Distinct) {entry : K × V} (mem : entry ∈ l) {key : K}
    (same : (entry.1 == key) = true) : l.value? key = some entry.2 := by
  rw [value?, entry?_of_mem distinct mem same, Option.map_some]

theorem value?_without (distinct : l.Distinct) (other key : K) :
    (l.without other).value? key = if other == key then none else l.value? key := by
  rw [value?, value?, without_eq_filter distinct, entry?, entry?, List.find?_filter]
  split
  · rename_i same
    rw [Option.map_eq_none_iff, List.find?_eq_none]
    intro entry _
    simp [BEq.congr_right same]
  · rename_i apart
    congr 2
    funext entry
    cases found : entry.1 == key with
    | false => simp
    | true =>
        have other' : (entry.1 == other) = false := by
          rwa [BEq.congr_left found, BEq.comm, ← Bool.not_eq_true]
        simp [other']

theorem value?_init {rest : Recency K V} {last : K × V} (distinct : Distinct (rest ++ [last]))
    (key : K) :
    rest.value? key = if last.1 == key then none else value? (rest ++ [last]) key := by
  unfold value? entry?
  split
  · rename_i same
    rw [Option.map_eq_none_iff, List.find?_eq_none]
    intro entry mem
    simp [key_ne_of_distinct distinct same (List.mem_append_left [] mem)]
  · rename_i apart
    have skipped : [last].find? (fun entry => entry.1 == key) = none := by simp [apart]
    rw [List.find?_append, skipped, Option.or_none]

theorem value?_front (distinct : l.Distinct) {written other : K}
    (same : (written == other) = true) (value : V) (key : K) :
    value? ((written, value) :: l.without other) key =
      if other == key then some value else l.value? key := by
  rw [value?_cons, value?_without distinct, BEq.congr_left same]
  split <;> rfl

theorem value?_put (distinct : l.Distinct) (limit : Nat) (other key : K) (value : V) :
    (l.put limit other value).entries.value? key =
      if other == key then some value
      else if (l.put limit other value).leaver.any (·.1 == key) then none
      else l.value? key := by
  cases found : l.entry? other with
  | some entry =>
      rw [put_present found, value?_front distinct (Recency.split_of_entry? found).1]
      rfl
  | none =>
      rcases put_absent found limit value with stays | ⟨rest, last, rfl, leaves⟩
      · rw [stays, value?_cons]
        rfl
      · rw [leaves, value?_cons, value?_init distinct]
        rfl

theorem value?_get (distinct : l.Distinct) (other key : K) :
    (l.get other).entries.value? key = l.value? key := by
  unfold get
  cases found : l.entry? other with
  | none => rfl
  | some entry =>
      have same := (Recency.split_of_entry? found).1
      refine (value?_front distinct same entry.2 key).trans ?_
      split
      · rename_i asked
        exact (value?_of_mem distinct (List.mem_of_find?_eq_some found)
          (PartialEquivBEq.trans same asked)).symm
      · rfl

theorem value?_remove (distinct : l.Distinct) (other key : K) :
    (l.remove other).entries.value? key = if other == key then none else l.value? key := by
  rw [entries_remove, value?_without distinct]

end Lru.Recency

namespace ShardedCache

/-- The command decides what is held for a key afterwards. -/
def Command.overwrites (key : K) : Command K V → Bool
  | .insert other _ | .remove other => other == key
  | .clear => true
  | .get _ | .len | .isEmpty | .shards | .stats _ => false

omit [BEq K] in
def Command.leaves : Command K V → Option V
  | .insert _ value => some value
  | _ => none

end ShardedCache

variable [Hashable K]

namespace Shard

variable [EquivBEq K] [LawfulHashable K] {s : Shard K V} {l : Lru.Recency K V}

theorem peek_next_overwritten (shows : s.entries.Shows l) (accepts : Lru.Accepts s.entries.onEvict)
    {command : ShardedCache.Command K V} {key : K} (overwrites : command.overwrites key = true) :
    (s.next command).entries.peek key = command.leaves := by
  cases command with
  | insert other value =>
      refine ((advances_insert shows other value).entries.shows.peek_eq key).trans ?_
      exact (Lru.Recency.value?_put shows.distinct _ other key value).trans (if_pos overwrites)
  | remove other =>
      refine ((advances_remove shows other).entries.shows.peek_eq key).trans ?_
      exact (Lru.Recency.value?_remove shows.distinct other key).trans (if_pos overwrites)
  | clear => exact (shows.clear accepts).shows.peek_eq key
  | _ => cases overwrites

theorem peek_insert (shows : s.entries.Shows l) {other key : K} (apart : (other == key) = false)
    (added : V) :
    (s.insert other added).state.entries.peek key = s.entries.peek key ∨
      (s.insert other added).state.entries.peek key = none ∧
        ∃ written value, (written == key) = true ∧ s.entries.peek key = some value ∧
          s.displaced (s.insert other added).state other = [(written, value)] := by
  have after := (advances_insert shows other added).entries.shows.peek_eq key
  have put := Lru.Recency.value?_put shows.distinct s.entries.limit other key added
  have driven := displaced_insert shows other added
  rw [apart, if_neg Bool.false_ne_true] at put
  rw [shows.peek_eq]
  cases left : (l.put s.entries.limit other added).leaver with
  | none =>
      rw [left, Option.any_none, if_neg Bool.false_ne_true] at put
      exact .inl (after.trans put)
  | some entry =>
      rw [left] at put driven
      cases same : entry.1 == key with
      | false =>
          rw [Option.any_some, same, if_neg Bool.false_ne_true] at put
          exact .inl (after.trans put)
      | true =>
          rw [Option.any_some, same, if_pos rfl] at put
          have mem : entry ∈ l := by
            have listed : entry ∈ s.displaced (s.insert other added).state other := by simp [driven]
            rw [← shows.toList_eq]
            exact (List.mem_filter.1 listed).1
          exact .inr ⟨after.trans put, entry.1, entry.2, same,
            Lru.Recency.value?_of_mem shows.distinct mem same, driven⟩

theorem peek_next_untouched (shows : s.entries.Shows l) {command : ShardedCache.Command K V}
    {key : K} (keeps : command.overwrites key = false)
    (adds : ∀ other value, command ≠ .insert other value) :
    (s.next command).entries.peek key = s.entries.peek key := by
  rw [shows.peek_eq]
  cases command with
  | insert other value => exact absurd rfl (adds other value)
  | get other =>
      refine ((advances_get shows other).entries.shows.peek_eq key).trans ?_
      exact Lru.Recency.value?_get shows.distinct other key
  | remove other =>
      refine ((advances_remove shows other).entries.shows.peek_eq key).trans ?_
      refine (Lru.Recency.value?_remove shows.distinct other key).trans (if_neg ?_)
      exact ne_true_of_eq_false keeps
  | clear => cases keeps
  | _ => exact shows.peek_eq key

end Shard

namespace ShardedCache

variable {c : ShardedCache K V n} {listener : Option (Listener K V)}

def value? (c : ShardedCache K V n) (key : K) : Option V :=
  (c.shard (c.route key)).entries.peek key

def Evicts (c : ShardedCache K V n) (key : K) (value : V) (command : Command K V) : Prop :=
  ∃ other added, command = .insert other added ∧ (other == key) = false ∧
    c.route other = c.route key ∧ ∃ written, (written == key) = true ∧
      (c.shard (c.route key)).displaced ((c.step command).state.shard (c.route key)) other =
        [(written, value)]

theorem route_eq_of_beq (consistent : c.hasher.Consistent) {key other : K}
    (same : (other == key) = true) : c.route other = c.route key := by
  apply Fin.ext
  simp only [route, consistent other key same]

theorem concerns_of_overwrites (consistent : c.hasher.Consistent) {command : Command K V} {key : K}
    (overwrites : command.overwrites key = true) :
    c.concerns (c.route key) command = true := by
  cases command with
  | insert other value => exact decide_eq_true (route_eq_of_beq consistent overwrites)
  | remove other => exact decide_eq_true (route_eq_of_beq consistent overwrites)
  | clear => rfl
  | _ => cases overwrites

variable [EquivBEq K] [LawfulHashable K]

omit [Hashable K] [EquivBEq K] [LawfulHashable K] in
theorem Command.reply_of_key? {command : Command K V} {key : K} (asks : command.key? = some key)
    {asked : Lru.Command K V} (passed : command.onStore? = some asked) (limit : Nat)
    (l : Lru.Recency K V) : (l.step limit asked).2.2 = .value? (l.value? key) := by
  cases command with
  | insert other value =>
      obtain rfl := Option.some.inj asks
      obtain rfl := Option.some.inj passed
      exact congrArg Lru.Reply.value? (l.answer_put limit other value)
  | get other =>
      obtain rfl := Option.some.inj asks
      obtain rfl := Option.some.inj passed
      exact congrArg Lru.Reply.value? (l.answer_get other)
  | remove other =>
      obtain rfl := Option.some.inj asks
      obtain rfl := Option.some.inj passed
      exact congrArg Lru.Reply.value? (l.answer_remove other)
  | _ => cases asks

theorem Sound.answer_key (h : c.Sound listener) (accepts : Lru.Accepts listener) {key : K}
    {command : Command K V} (asks : command.key? = some key) :
    (c.step command).answer = .ok (.value? (c.value? key)) := by
  obtain ⟨l, shows⟩ := h.shown (c.route key)
  have placed : c.place? command = some (c.route key) := congrArg (Option.map c.route) asks
  obtain ⟨asked, passed, -, -, answer⟩ := step_at placed
  rw [answer, (shows.step (h.accepts accepts _) asked).answer, Command.reply_of_key? asks passed,
    value?, shows.peek_eq]
  rfl

omit [EquivBEq K] [LawfulHashable K] in
theorem Sound.value?_step (h : c.Sound listener) (accepts : Lru.Accepts listener)
    (command : Command K V) (key : K) :
    (c.step command).state.value? key =
      if c.concerns (c.route key) command then
        ((c.shard (c.route key)).next command).entries.peek key
      else c.value? key := by
  rw [value?, value?, route_eq_of_hasher_eq (c.hasher_step command), h.shard_step accepts]
  split <;> rfl

theorem Sound.value?_overwritten (h : c.Sound listener) (accepts : Lru.Accepts listener)
    (consistent : c.hasher.Consistent) {command : Command K V} {key : K}
    (overwrites : command.overwrites key = true) :
    (c.step command).state.value? key = command.leaves := by
  obtain ⟨l, shows⟩ := h.shown (c.route key)
  rw [h.value?_step accepts, if_pos (concerns_of_overwrites consistent overwrites)]
  exact Shard.peek_next_overwritten shows (h.accepts accepts _) overwrites

theorem Sound.value?_kept (h : c.Sound listener) (accepts : Lru.Accepts listener)
    {command : Command K V} {key : K} (keeps : command.overwrites key = false) :
    (c.step command).state.value? key = c.value? key ∨
      (c.step command).state.value? key = none ∧
        ∃ value, c.value? key = some value ∧ c.Evicts key value command := by
  obtain ⟨l, shows⟩ := h.shown (c.route key)
  have stepped := h.value?_step accepts command key
  by_cases concerned : c.concerns (c.route key) command = true
  · rw [if_pos concerned] at stepped
    cases command with
    | insert other added =>
        rw [stepped]
        rcases Shard.peek_insert shows keeps added with same | ⟨gone, written, value, found⟩
        · exact .inl same
        · obtain ⟨equal, held, displaced⟩ := found
          refine .inr ⟨gone, value, held, other, added, rfl, keeps, of_decide_eq_true concerned,
            written, equal, ?_⟩
          rw [h.shard_step accepts, if_pos concerned]
          exact displaced
    | _ => exact .inl (stepped.trans (Shard.peek_next_untouched shows keeps nofun))
  · exact .inl (stepped.trans (if_neg concerned))

theorem Evicts.limited {key : K} {value : V} {command : Command K V}
    (evicts : c.Evicts key value command) (h : c.Sound listener) (accepts : Lru.Accepts listener)
    (limited : c.Limited limit) : limit ≠ 0 := by
  obtain ⟨other, added, rfl, -, routed, written, -, displaced⟩ := evicts
  obtain ⟨l, shows⟩ := h.shown (c.route key)
  have concerned : c.concerns (c.route key) (.insert other added) = true := decide_eq_true routed
  rw [h.shard_step accepts, if_pos concerned] at displaced
  have leaves := Lru.Recency.isSome_leaver_put limit l other added
  have driven := (Shard.displaced_insert shows other added).symm.trans displaced
  rw [limited] at driven
  rintro rfl
  simp [Option.toList_eq_singleton_iff.1 driven] at leaves

end ShardedCache

end CacheNode
