import CacheNode.Proofs.Lru.Refinement
import Mathlib.Data.List.Permutation

/-! # Index and slots describe the same entries -/

namespace CacheNode.Lru

variable {K : Type u} {V : Type v}

structure Request (K : Type u) (V : Type v) where
  command : Command K V
  listener : Option (Listener K V)

variable [BEq K] [Hashable K]

def serve (c : Lru K V) (request : Request K V) : Outcome (Lru K V) (Note K V) (Reply K V) :=
  { c with onEvict := request.listener }.step request.command

def after (c : Lru K V) (requests : List (Request K V)) : Lru K V :=
  requests.foldl (fun c request => (c.serve request).state) c

structure Consistent (c : Lru K V) : Prop where
  indexed : ∀ (key : K) i, c.index[key]? = some i →
    ∃ entry, c.entries.get? i = some entry ∧ (entry.1 == key) = true
  occupied : ∀ i entry, c.entries.get? i = some entry → c.index[entry.1]? = some i
  distinct : ∀ i j entry other, c.entries.get? i = some entry → c.entries.get? j = some other →
    (entry.1 == other.1) = true → i = j
  linked : ∃ places : List Nat, places.Nodup ∧
    (∀ i, i ∈ places ↔ (c.entries.get? i).isSome = true) ∧
      c.toList.map some = places.map c.entries.get?
  size : c.index.size = c.len
  len : c.toList.length = c.len
  within : c.limit ≠ 0 → c.len ≤ c.limit

def FailsBy {A : Type w} (listener : Option (Listener K V))
    (o : Outcome (Lru K V) (Note K V) A) : Prop :=
  ∀ fault, o.answer = .error fault → ∃ tell key value, listener = some tell ∧
    .told key value ∈ o.notes ∧ tell key value = .error fault

variable {A : Type w} {B : Type x} {c : Lru K V} {l : Recency K V} {key : K} {i : Nat}
  {listener : Option (Listener K V)} {o : Outcome (Lru K V) (Note K V) A}

theorem Shows.consistent [EquivBEq K] (h : c.Shows l) : c.Consistent := by
  have len := h.len_eq
  have within := h.within
  obtain ⟨items, stored, rfl⟩ := h.stored
  rw [List.length_map] at len within
  have held : ∀ {i entry}, c.entries.get? i = some entry ↔ (i, entry) ∈ items :=
    stored.entries.get?_eq_some_iff
  refine ⟨?_, ?_, ?_, ⟨items.map (·.1), stored.entries.distinct, fun i => ?_, ?_⟩, ?_, ?_, ?_⟩
  · intro key i found
    obtain ⟨entry, mem, same⟩ := (stored.index key i).1 found
    exact ⟨entry, held.2 mem, same⟩
  · intro i entry there
    exact (stored.index entry.1 i).2 ⟨entry, held.1 there, BEq.rfl⟩
  · intro i j entry other here there same
    have first := (stored.index entry.1 i).2 ⟨entry, held.1 here, BEq.rfl⟩
    have second := (stored.index entry.1 j).2 ⟨other, held.1 there, PartialEquivBEq.symm same⟩
    exact Option.some.inj (first.symm.trans second)
  · rw [Option.isSome_iff_exists, List.mem_map]
    constructor
    · rintro ⟨⟨i, entry⟩, mem, rfl⟩
      exact ⟨entry, held.2 mem⟩
    · rintro ⟨entry, there⟩
      exact ⟨(i, entry), held.1 there, rfl⟩
  · rw [h.toList_eq, List.map_map, List.map_map]
    exact List.map_congr_left fun item mem => (held.2 mem).symm
  · rw [stored.size, len]
  · rw [h.toList_eq, List.length_map, len]
  · rwa [len]

theorem Shows.lookup [EquivBEq K] (h : c.Shows l) (found : c.index[key]? = some i) :
    ∃ entry, (entry.1 == key) = true ∧ (c.entries.moveToFront i).get? i = some entry ∧
      (c.entries.remove i).2 = some entry := by
  obtain ⟨items, stored, rfl⟩ := h.stored
  obtain ⟨before, written, old, after, rfl, same, -, -⟩ := stored.split found
  have moved := stored.entries.moveToFront
  exact ⟨(written, old), same, moved.get?_eq_some_iff.2 List.mem_cons_self,
    stored.entries.remove.1⟩

theorem Shows.isSome_get [EquivBEq K] [LawfulHashable K] (h : c.Shows l) (key : K) :
    (c.get key).2.isSome = c.contains key := by
  rw [Lru.get, Lru.contains, Std.HashMap.contains_eq_isSome_getElem?]
  cases found : c.index[key]? with
  | none => rfl
  | some i =>
      obtain ⟨entry, same, moved, -⟩ := h.lookup found
      simp only [moved, Option.map_some, Option.isSome_some]

theorem Shows.hearing (h : c.Shows l) (onEvict : Option (Listener K V)) :
    ({ c with onEvict } : Lru K V).Shows l where
  stored := by
    obtain ⟨items, stored, same⟩ := h.stored
    exact ⟨items, ⟨stored.entries, stored.index, stored.distinct, stored.size⟩, same⟩
  within := h.within

theorem failsBy_ok (listener : Option (Listener K V)) (state : Lru K V) (a : A) :
    FailsBy listener (.ok state a) := by
  rintro fault ⟨⟩

theorem FailsBy.map (h : FailsBy listener o) (f : A → B) : FailsBy listener (o.map f) := by
  intro fault failed
  exact h fault (Outcome.answer_map_eq_error_iff.1 failed)

theorem FailsBy.andThen {next : Lru K V → A → Outcome (Lru K V) (Note K V) B}
    (first : FailsBy listener o)
    (second : ∀ a, o.answer = .ok a → FailsBy listener (next o.state a)) :
    FailsBy listener (o.andThen next) := by
  intro fault failed
  obtain ⟨state, notes, answer⟩ := o
  cases answer with
  | error other =>
      obtain rfl : other = fault := Except.error.inj failed
      exact first other rfl
  | ok a =>
      obtain ⟨tell, key, value, listens, told, refused⟩ := second a rfl fault failed
      exact ⟨tell, key, value, listens, List.mem_append_right notes told, refused⟩

theorem Follows.failsBy {d : Change K V A} (h : c.Follows o d) : FailsBy c.onEvict o := by
  intro fault failed
  rw [h.answer] at failed
  rw [h.notes]
  cases listens : c.onEvict with
  | none =>
      rw [listens] at failed
      cases failed
  | some tell =>
      rw [listens] at failed
      cases left : d.leaver with
      | none =>
          rw [left] at failed
          cases failed
      | some entry =>
          rw [left] at failed
          refine ⟨tell, entry.1, entry.2, rfl, by simp [farewell], ?_⟩
          cases refused : tell entry.1 entry.2 with
          | error other =>
              simp only [verdict, refused, Except.map, Except.error.injEq] at failed
              rw [failed]
          | ok done => simp [verdict, refused, Except.map] at failed

omit [BEq K] [Hashable K] in
theorem tellAll_eq_error {tell : Listener K V} {fault : Fault}
    (failed : (tellAll tell l).2 = .error fault) :
    ∃ key value, .told key value ∈ (tellAll tell l).1 ∧ tell key value = .error fault := by
  induction l with
  | nil => cases failed
  | cons entry l ih =>
      obtain ⟨key, value⟩ := entry
      unfold tellAll at failed ⊢
      cases refused : tell key value with
      | error other =>
          rw [refused] at failed
          obtain rfl : other = fault := Except.error.inj failed
          exact ⟨key, value, List.mem_cons_self, refused⟩
      | ok done =>
          rw [refused] at failed
          obtain ⟨key', value', told, refused'⟩ := ih failed
          exact ⟨key', value', List.mem_cons_of_mem _ told, refused'⟩

theorem failsBy_clear (c : Lru K V) : FailsBy c.onEvict c.clear := by
  intro fault failed
  unfold Lru.clear announce at failed ⊢
  cases listens : c.onEvict with
  | none =>
      rw [listens] at failed
      cases failed
  | some tell =>
      rw [listens] at failed
      simp only at failed ⊢
      cases told : tellAll tell c.toList with
      | mk notes answer =>
          rw [told] at failed
          cases answer with
          | ok done => cases failed
          | error other =>
              obtain rfl : other = fault := Except.error.inj failed
              have failed : (tellAll tell c.toList).2 = .error other := congrArg Prod.snd told
              obtain ⟨key, value, mem, refused⟩ := tellAll_eq_error failed
              rw [told] at mem
              exact ⟨tell, key, value, rfl, mem, refused⟩

theorem limit_clear (c : Lru K V) : c.clear.state.limit = c.limit := by
  unfold Lru.clear
  cases c.announce with
  | mk notes answer => cases answer <;> rfl

variable [EquivBEq K] [LawfulHashable K]

theorem Shows.state_clear (h : c.Shows l) :
    (∃ rest, c.clear.state.Shows rest ∧ rest.length ≤ l.length) ∧
      c.clear.state.onEvict = c.onEvict := by
  unfold Lru.clear
  cases c.announce with
  | mk notes answer =>
      cases answer with
      | error f => exact ⟨⟨l, h, Nat.le_refl _⟩, rfl⟩
      | ok done =>
          refine ⟨⟨[], ⟨?_, fun _ => Nat.zero_le _⟩, Nat.zero_le _⟩, rfl⟩
          exact (shows_empty c.limit c.onEvict).stored

theorem Shows.state_extend (h : c.Shows l) (pairs : List (K × V)) :
    (∃ rest, (c.extend pairs).state.Shows rest) ∧ (c.extend pairs).state.limit = c.limit := by
  unfold Lru.extend
  rw [Outcome.state_map]
  refine Outcome.inTurn_preserves
    (P := fun s : Lru K V => (∃ rest, s.Shows rest) ∧ s.limit = c.limit) ?_ pairs ⟨⟨l, h⟩, rfl⟩
  rintro s pair ⟨⟨rest, shows⟩, limit⟩
  have put := shows.put pair.1 pair.2
  exact ⟨⟨_, put.shows⟩, put.limit.trans limit⟩

theorem Shows.state_step (h : c.Shows l) (command : Command K V) :
    (∃ rest, (c.step command).state.Shows rest) ∧ (c.step command).state.limit = c.limit := by
  cases command with
  | put key value => exact ⟨⟨_, (h.put key value).shows⟩, (h.put key value).limit⟩
  | get key =>
      obtain ⟨shows, limit, -, -⟩ := h.get key
      exact ⟨⟨_, shows⟩, limit⟩
  | remove key => exact ⟨⟨_, (h.remove key).shows⟩, (h.remove key).limit⟩
  | removeOldest => exact ⟨⟨_, h.removeOldest.shows⟩, h.removeOldest.limit⟩
  | clear =>
      obtain ⟨⟨rest, shows, -⟩, -⟩ := h.state_clear
      exact ⟨⟨rest, shows⟩, c.limit_clear⟩
  | extend pairs => exact h.state_extend pairs
  | peek key => exact ⟨⟨l, h⟩, rfl⟩
  | contains key => exact ⟨⟨l, h⟩, rfl⟩
  | len => exact ⟨⟨l, h⟩, rfl⟩
  | isEmpty => exact ⟨⟨l, h⟩, rfl⟩
  | iter => exact ⟨⟨l, h⟩, rfl⟩

theorem Shows.failsBy_extend (h : c.Shows l) (pairs : List (K × V)) :
    FailsBy c.onEvict (c.extend pairs) := by
  induction pairs generalizing c l with
  | nil => exact failsBy_ok c.onEvict c ()
  | cons pair pairs ih =>
      have first := h.put pair.1 pair.2
      rw [extend_cons]
      refine first.failsBy.andThen fun old _ => ?_
      have rest := ih first.shows
      rwa [first.onEvict] at rest

theorem Shows.failsBy_step (h : c.Shows l) (command : Command K V) :
    FailsBy c.onEvict (c.step command) := by
  cases command with
  | put key value => exact (h.put key value).failsBy.map Reply.value?
  | remove key => exact (h.remove key).failsBy.map Reply.value?
  | removeOldest => exact h.removeOldest.failsBy.map Reply.oldest
  | clear => exact c.failsBy_clear.map fun _ => Reply.done
  | extend pairs => exact (h.failsBy_extend pairs).map fun _ => Reply.done
  | _ => exact failsBy_ok c.onEvict _ _

theorem Shows.after (h : c.Shows l) (requests : List (Request K V)) :
    (∃ rest, (c.after requests).Shows rest) ∧ (c.after requests).limit = c.limit := by
  induction requests generalizing c l with
  | nil => exact ⟨⟨l, h⟩, rfl⟩
  | cons request requests ih =>
      obtain ⟨⟨rest, shows⟩, limit⟩ := (h.hearing request.listener).state_step request.command
      obtain ⟨last, kept⟩ := ih shows
      exact ⟨last, kept.trans limit⟩

theorem consistent_every_run (config : LruConfig) (onEvict : Option (Listener K V))
    (requests : List (Request K V)) :
    let c := (ofConfig config onEvict).after requests
    c.Consistent ∧ c.limit = config.maxEntries ∧
      (∀ (key : K) i, c.index[key]? = some i → ∃ entry, (entry.1 == key) = true ∧
        (c.entries.moveToFront i).get? i = some entry ∧ (c.entries.remove i).2 = some entry) ∧
      (∀ request, FailsBy request.listener (c.serve request)) ∧
      ∀ key, (c.get key).2.isSome = c.contains key := by
  intro c
  obtain ⟨⟨l, shows⟩, limit⟩ := (shows_empty config.maxEntries onEvict).after requests
  refine ⟨shows.consistent, limit, fun key i found => shows.lookup found, fun request => ?_,
    shows.isSome_get⟩
  exact (shows.hearing request.listener).failsBy_step request.command

/-- The listener fails on the entry that an extension drives out, so the rest is not put; later it
fails on an entry of the same key, which is gone nevertheless. -/
theorem consistent_after_failure :
    let accepts : Option (Listener Nat Nat) := some fun _ _ => .ok ()
    let fails : Option (Listener Nat Nat) := some (.failingOn 1 "refused")
    let requests : List (Request Nat Nat) :=
      [⟨.put 1 10, accepts⟩, ⟨.put 2 20, accepts⟩, ⟨.extend [(3, 30), (4, 40)], fails⟩,
        ⟨.put 1 11, accepts⟩]
    let c := (ofConfig ⟨2⟩ accepts).after requests
    c.toList = [(1, 11), (3, 30)] ∧ c.Consistent ∧ c.len ≤ 2 ∧
      (c.serve ⟨.remove 1, fails⟩).answer = .error (.raised "refused") ∧
      (∃ tell key value, fails = some tell ∧ .told key value ∈ (c.serve ⟨.remove 1, fails⟩).notes ∧
        tell key value = .error (.raised "refused")) ∧
      c.index[1]? = some 0 ∧ (∃ entry, (entry.1 == 1) = true ∧
        (c.entries.moveToFront 0).get? 0 = some entry ∧ (c.entries.remove 0).2 = some entry) ∧
      (c.get 1).2.isSome = c.contains 1 := by
  intro accepts fails requests c
  have entries : ((ofConfig ⟨2⟩ accepts).after requests).toList = [(1, 11), (3, 30)] := by cbv
  have refused : (((ofConfig ⟨2⟩ accepts).after requests).serve ⟨.remove 1, fails⟩).answer =
      .error (.raised "refused") := by cbv
  have indexed : ((ofConfig ⟨2⟩ accepts).after requests).index[1]? = some 0 := by cbv
  obtain ⟨consistent, limit, lookup, failsBy, found⟩ := consistent_every_run ⟨2⟩ accepts requests
  have within := consistent.within
  rw [limit] at within
  exact ⟨entries, consistent, within (by decide), refused, failsBy _ _ refused,
    indexed, lookup 1 0 indexed, found 1⟩

end CacheNode.Lru
