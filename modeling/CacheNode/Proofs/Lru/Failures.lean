import CacheNode.Proofs.Lru.Accounting
import CacheNode.Proofs.Lru.Consistency
import Mathlib.Data.Set.Insert

/-!
# Listeners that fail

An operation on one entry is done with the store before it tells the listener, so a failure shows in
the answer and nowhere else (`Withstands`). Clearing tells the listener first: a failure leaves every
entry in its place (`ClearsAtOnce`).
-/

namespace CacheNode

variable {K : Type u} {V : Type v}

def Listener.FailsOn (tell : Listener K V) (bad : Set K) : Prop :=
  ∀ key value, (∃ fault, tell key value = .error fault) ↔ key ∈ bad

namespace Lru

structure RefusedAt (tell : Listener K V) (bad : Set K) (l before : List (K × V)) (entry : K × V)
    (after : List (K × V)) (fault : Fault) : Prop where
  split : l = before ++ entry :: after
  accepted : ∀ other ∈ before, other.1 ∉ bad
  bad : entry.1 ∈ bad
  refused : tell entry.1 entry.2 = .error fault

def Command.isBulk : Command K V → Bool
  | .clear | .extend _ => true
  | _ => false

theorem isBulk_of_mem_puts {command : Command K V} (pairs : List (K × V))
    (mem : command ∈ (Command.extend pairs).parts) : command.isBulk = false := by
  obtain ⟨pair, _, rfl⟩ := List.mem_map.1 mem
  rfl

variable {tell calm : Listener K V} {bad : Set K} {fault : Fault}

/-! ## What the listener does -/

theorem tell_of_not_mem (fails : tell.FailsOn bad) {key : K} (good : key ∉ bad) (value : V) :
    tell key value = .ok () := by
  cases answer : tell key value with
  | ok done => rfl
  | error fault => exact absurd ((fails key value).1 ⟨fault, answer⟩) good

theorem exists_refusedAt (fails : tell.FailsOn bad) {l : List (K × V)}
    (some_bad : ∃ entry ∈ l, entry.1 ∈ bad) :
    ∃ before entry after fault, RefusedAt tell bad l before entry after fault := by
  induction l with
  | nil => simp at some_bad
  | cons first l ih =>
      by_cases here : first.1 ∈ bad
      · obtain ⟨fault, refused⟩ := (fails first.1 first.2).2 here
        exact ⟨[], first, l, fault, rfl, by simp, here, refused⟩
      · have later : ∃ entry ∈ l, entry.1 ∈ bad := by simpa [here] using some_bad
        obtain ⟨before, entry, after, fault, refusal⟩ := ih later
        refine ⟨first :: before, entry, after, fault, ?_, ?_, refusal.bad, refusal.refused⟩
        · rw [refusal.split, List.cons_append]
        · simpa [here] using refusal.accepted

theorem RefusedAt.tellAll_eq {l before after : List (K × V)} {entry : K × V}
    (refusal : RefusedAt tell bad l before entry after fault) (fails : tell.FailsOn bad) :
    tellAll tell l = ((before ++ [entry]).map fun entry => .told entry.1 entry.2, .error fault) := by
  have accepted : ∀ other ∈ before, tell other.1 other.2 = .ok () := by
    intro other mem
    exact tell_of_not_mem fails (refusal.accepted other mem) other.2
  have last : tellAll tell (entry :: after) = ([.told entry.1 entry.2], .error fault) := by
    simp only [tellAll, refusal.refused]
  rw [refusal.split, tellAll_append accepted, last, List.map_append]
  rfl

variable [BEq K] [Hashable K]

def hearing (c : Lru K V) (onEvict : Option (Listener K V)) : Lru K V := { c with onEvict }

variable {c : Lru K V} {l : Recency K V} {A : Type w} {B : Type x}

/-! ## Two listeners -/

structure Withstands (c : Lru K V) (tell : Listener K V) (bad : Set K)
    (rough smooth : Outcome (Lru K V) (Note K V) A) : Prop where
  state : rough.state = smooth.state.hearing (some tell)
  notes : rough.notes = smooth.notes
  atMostOne : (reported rough.notes).length ≤ 1
  gone : ∀ entry ∈ reported rough.notes, entry ∈ c.toList ∧ rough.state.contains entry.1 = false
  answered : ∃ a, smooth.answer = .ok a
  accepted : (∀ entry ∈ reported rough.notes, entry.1 ∉ bad) → rough.answer = smooth.answer
  refused : ∀ entry ∈ reported rough.notes, entry.1 ∈ bad →
    ∃ fault, tell entry.1 entry.2 = .error fault ∧ rough.answer = .error fault

theorem Withstands.map {rough smooth : Outcome (Lru K V) (Note K V) A}
    (h : c.Withstands tell bad rough smooth) (f : A → B) :
    c.Withstands tell bad (rough.map f) (smooth.map f) where
  state := h.state
  notes := h.notes
  atMostOne := h.atMostOne
  gone := h.gone
  answered := by
    obtain ⟨a, answer⟩ := h.answered
    refine ⟨f a, ?_⟩
    rw [Outcome.answer_map, answer]
    rfl
  accepted good := congrArg (Except.map f) (h.accepted good)
  refused entry mem isBad := by
    obtain ⟨fault, refused, answer⟩ := h.refused entry mem isBad
    exact ⟨fault, refused, Outcome.answer_map_eq_error_iff.2 answer⟩

theorem Withstands.fails_iff {rough smooth : Outcome (Lru K V) (Note K V) A}
    (h : c.Withstands tell bad rough smooth) :
    (∃ fault, rough.answer = .error fault) ↔ ∃ entry ∈ reported rough.notes, entry.1 ∈ bad := by
  constructor
  · rintro ⟨fault, failed⟩
    by_contra none_bad
    have good : ∀ entry ∈ reported rough.notes, entry.1 ∉ bad := by
      intro entry mem isBad
      exact none_bad ⟨entry, mem, isBad⟩
    obtain ⟨a, answered⟩ := h.answered
    rw [h.accepted good, answered] at failed
    cases failed
  · rintro ⟨entry, mem, isBad⟩
    obtain ⟨fault, -, failed⟩ := h.refused entry mem isBad
    exact ⟨fault, failed⟩

/-! ## The state does not depend on the listener -/

/-- The two outcomes differ at most in the listener installed and in the answer. -/
def Alike (onEvict : Option (Listener K V)) (rough smooth : Outcome (Lru K V) (Note K V) A) :
    Prop :=
  rough.state = smooth.state.hearing onEvict ∧ rough.notes = smooth.notes

theorem Alike.map {onEvict : Option (Listener K V)}
    {rough smooth : Outcome (Lru K V) (Note K V) A} (h : Alike onEvict rough smooth) (f : A → B) :
    Alike onEvict (rough.map f) (smooth.map f) := h

theorem Alike.ite {onEvict : Option (Listener K V)} {p : Prop} [Decidable p]
    {rough smooth rough' smooth' : Outcome (Lru K V) (Note K V) A}
    (yes : Alike onEvict rough smooth) (no : Alike onEvict rough' smooth') :
    Alike onEvict (if p then rough else rough') (if p then smooth else smooth') := by
  by_cases holds : p
  · rwa [if_pos holds, if_pos holds]
  · rwa [if_neg holds, if_neg holds]

theorem alike_depart (c : Lru K V) (entry : K × V) :
    Alike (some tell) ((c.hearing (some tell)).depart entry)
      ((c.hearing (some calm)).depart entry) := ⟨rfl, rfl⟩

theorem alike_removeOldest (c : Lru K V) :
    Alike (some tell) (c.hearing (some tell)).removeOldest
      (c.hearing (some calm)).removeOldest := by
  simp only [removeOldest, hearing]
  cases c.entries.popBack with
  | mk entries popped =>
      cases popped with
      | none => exact ⟨rfl, rfl⟩
      | some entry =>
          exact (alike_depart { c with entries, index := c.index.erase entry.1 } entry).map some

theorem alike_remove (c : Lru K V) (key : K) :
    Alike (some tell) ((c.hearing (some tell)).remove key)
      ((c.hearing (some calm)).remove key) := by
  simp only [remove, hearing]
  cases c.index[key]? with
  | none => exact ⟨rfl, rfl⟩
  | some i =>
      simp only
      cases c.entries.remove i with
      | mk entries removed =>
          cases removed with
          | none => exact ⟨rfl, rfl⟩
          | some entry =>
              exact (alike_depart { c with entries, index := c.index.erase key } entry).map _

theorem alike_put (c : Lru K V) (key : K) (value : V) :
    Alike (some tell) ((c.hearing (some tell)).put key value)
      ((c.hearing (some calm)).put key value) := by
  simp only [put, hearing]
  cases c.index[key]? with
  | some i =>
      simp only
      cases (c.entries.moveToFront i).get? i <;> exact ⟨rfl, rfl⟩
  | none =>
      refine Alike.ite (Alike.map ?_ _) ⟨rfl, rfl⟩
      exact alike_removeOldest { c with
        entries := (c.entries.pushFront (key, value)).1
        index := c.index.insert key (c.entries.pushFront (key, value)).2 }

theorem get_hearing (c : Lru K V) (onEvict : Option (Listener K V)) (key : K) :
    (c.hearing onEvict).get key = ((c.get key).1.hearing onEvict, (c.get key).2) := by
  simp only [get, hearing]
  cases c.index[key]? <;> rfl

/-! ## One command -/

variable [EquivBEq K]

omit [Hashable K] in
theorem Recency.entry?_put (limit : Nat) (l : Recency K V) (key : K) (value : V) :
    ∃ written, (l.put limit key value).entries.entry? key = some (written, value) := by
  cases found : l.entry? key with
  | some entry =>
      obtain ⟨same, -⟩ := split_of_entry? found
      exact ⟨entry.1, by rw [put_present found]; exact List.find?_cons_of_pos same⟩
  | none =>
      refine ⟨key, ?_⟩
      rcases put_absent found limit value with stays | ⟨rest, last, -, leaves⟩
      · rw [stays]
        exact List.find?_cons_of_pos BEq.rfl
      · rw [leaves]
        exact List.find?_cons_of_pos BEq.rfl

variable [LawfulHashable K]

theorem Follows.withstands {rough smooth : Outcome (Lru K V) (Note K V) A} {d : Change K V A}
    (h : c.Shows l) (fails : tell.FailsOn bad) (accepts : Accepts (some calm))
    (first : (c.hearing (some tell)).Follows rough d)
    (second : (c.hearing (some calm)).Follows smooth d) (alike : Alike (some tell) rough smooth)
    (missing : l.missing d.entries = d.leaver.toList) : c.Withstands tell bad rough smooth := by
  have told : reported rough.notes = d.leaver.toList := by
    rw [reported, first.notes, told_farewell]
    rfl
  have answered : smooth.answer = .ok d.answer := (second.tracks accepts).answer
  refine ⟨alike.1, alike.2, ?_, ?_, ⟨d.answer, answered⟩, ?_, ?_⟩
  · rw [told]
    exact Option.length_toList_le
  · intro entry mem
    rw [told, ← missing, Recency.missing, List.mem_filter, ← h.toList_eq] at mem
    rw [first.shows.contains_eq]
    simpa using mem
  · intro good
    rw [told] at good
    rw [first.answer, answered]
    cases left : d.leaver with
    | none => rfl
    | some entry =>
        have here := good entry (by simp [left])
        show Except.map _ (tell entry.1 entry.2) = _
        rw [tell_of_not_mem fails here]
        rfl
  · intro entry mem isBad
    rw [told, Option.mem_toList] at mem
    obtain ⟨fault, refused⟩ := (fails entry.1 entry.2).2 isBad
    refine ⟨fault, refused, ?_⟩
    rw [first.answer, mem]
    show Except.map _ (tell entry.1 entry.2) = _
    rw [refused]
    rfl

theorem Shows.withstands_put (h : c.Shows l) (fails : tell.FailsOn bad)
    (accepts : Accepts (some calm)) (key : K) (value : V) :
    c.Withstands tell bad ((c.hearing (some tell)).put key value)
      ((c.hearing (some calm)).put key value) :=
  Follows.withstands h fails accepts ((h.hearing (some tell)).put key value)
    ((h.hearing (some calm)).put key value) (c.alike_put key value) (missing_put h.distinct)

theorem Shows.withstands_remove (h : c.Shows l) (fails : tell.FailsOn bad)
    (accepts : Accepts (some calm)) (key : K) :
    c.Withstands tell bad ((c.hearing (some tell)).remove key)
      ((c.hearing (some calm)).remove key) :=
  Follows.withstands h fails accepts ((h.hearing (some tell)).remove key)
    ((h.hearing (some calm)).remove key) (c.alike_remove key) (missing_remove h.distinct key)

theorem Shows.withstands (h : c.Shows l) (fails : tell.FailsOn bad)
    (accepts : Accepts (some calm)) {command : Command K V} (single : command.isBulk = false) :
    c.Withstands tell bad ((c.hearing (some tell)).step command)
      ((c.hearing (some calm)).step command) := by
  have rough : (c.hearing (some tell)).Shows l := h.hearing (some tell)
  have smooth : (c.hearing (some calm)).Shows l := h.hearing (some calm)
  have reads (answer : Reply K V) : c.Withstands tell bad (.ok (c.hearing (some tell)) answer)
      (.ok (c.hearing (some calm)) answer) :=
    Follows.withstands h fails accepts (Follows.ok rough rfl rfl answer)
      (Follows.ok smooth rfl rfl answer) ⟨rfl, rfl⟩
      (missing_eq_nil fun entry mem => ⟨entry, mem, BEq.rfl⟩)
  cases command with
  | put key value => exact (h.withstands_put fails accepts key value).map Reply.value?
  | remove key => exact (h.withstands_remove fails accepts key).map Reply.value?
  | removeOldest =>
      exact (Follows.withstands h fails accepts rough.removeOldest smooth.removeOldest
        c.alike_removeOldest (missing_removeOldest h.distinct)).map Reply.oldest
  | get key =>
      obtain ⟨shows, limit, -, -⟩ := h.get key
      simp only [Lru.step, get_hearing]
      exact Follows.withstands h fails accepts
        (Follows.ok (c := c.hearing (some tell)) (shows.hearing (some tell)) limit rfl _)
        (Follows.ok (c := c.hearing (some calm)) (shows.hearing (some calm)) limit rfl _)
        ⟨rfl, rfl⟩ (missing_get l key)
  | peek key => exact reads _
  | contains key => exact reads _
  | len => exact reads _
  | isEmpty => exact reads _
  | iter => exact reads _
  | clear => cases single
  | extend pairs => cases single

theorem Shows.peek_put (h : c.Shows l) (key : K) (value : V) :
    (c.put key value).state.peek key = some value := by
  obtain ⟨written, found⟩ := Recency.entry?_put c.limit l key value
  rw [(h.put key value).shows.peek_eq, found]
  rfl

/-! ## Clearing -/

structure ClearsAtOnce (c : Lru K V) (tell calm : Listener K V) (bad : Set K) : Prop where
  fails_iff : (∃ fault, (c.hearing (some tell)).clear.answer = .error fault) ↔
    ∃ entry ∈ c.toList, entry.1 ∈ bad
  finishes : (∀ fault, (c.hearing (some tell)).clear.answer ≠ .error fault) →
    Alike (some tell) (c.hearing (some tell)).clear (c.hearing (some calm)).clear
  stops : ∀ fault, (c.hearing (some tell)).clear.answer = .error fault →
    (c.hearing (some tell)).clear.state = c.hearing (some tell) ∧
      ∃ before entry after, RefusedAt tell bad c.toList before entry after fault ∧
        ((c.hearing (some tell)).clear.notes =
          (before ++ [entry]).map fun entry => .told entry.1 entry.2) ∧
        (c.hearing (some tell)).clear.notes.filterMap Note.notice? = []

omit [EquivBEq K] [LawfulHashable K] in
theorem clear_of_refusedAt {before after : List (K × V)} {entry : K × V}
    (fails : tell.FailsOn bad) (refusal : RefusedAt tell bad c.toList before entry after fault) :
    (c.hearing (some tell)).clear = ⟨c.hearing (some tell),
      (before ++ [entry]).map fun entry => .told entry.1 entry.2, .error fault⟩ := by
  have announced : (c.hearing (some tell)).announce =
      ((before ++ [entry]).map fun entry => .told entry.1 entry.2, .error fault) :=
    refusal.tellAll_eq fails
  unfold clear
  rw [announced]

omit [EquivBEq K] [LawfulHashable K] in
theorem clear_of_all_good (fails : tell.FailsOn bad) (good : ∀ entry ∈ c.toList, entry.1 ∉ bad) :
    (c.hearing (some tell)).clear =
      ⟨({ c with entries := c.entries.clear, index := {} } : Lru K V).hearing (some tell),
        (c.toList.map fun entry => .told entry.1 entry.2) ++ [.cleared c.len], .ok ()⟩ := by
  have announced : (c.hearing (some tell)).announce =
      (c.toList.map fun entry => .told entry.1 entry.2, .ok ()) :=
    tellAll_of_accepted fun entry mem => tell_of_not_mem fails (good entry mem) entry.2
  unfold clear
  rw [announced]
  rfl

omit [EquivBEq K] [LawfulHashable K] in
theorem clearsAtOnce (c : Lru K V) (fails : tell.FailsOn bad) (accepts : Accepts (some calm)) :
    c.ClearsAtOnce tell calm bad := by
  by_cases some_bad : ∃ entry ∈ c.toList, entry.1 ∈ bad
  · obtain ⟨before, entry, after, fault, refusal⟩ := exists_refusedAt fails some_bad
    have made := clear_of_refusedAt fails refusal
    refine ⟨⟨fun _ => some_bad, fun _ => ⟨fault, by rw [made]⟩⟩, fun finished => ?_, ?_⟩
    · exact absurd (congrArg Outcome.answer made) (finished fault)
    · intro other failed
      rw [made] at failed ⊢
      obtain rfl := Except.error.inj failed
      refine ⟨rfl, before, entry, after, refusal, rfl, ?_⟩
      rw [List.filterMap_map]
      exact List.filterMap_eq_nil_iff.2 fun _ _ => rfl
  · have good : ∀ entry ∈ c.toList, entry.1 ∉ bad := fun entry mem isBad =>
      some_bad ⟨entry, mem, isBad⟩
    have made := clear_of_all_good fails good
    -- the calm listener is one that fails on no key
    have silent : calm.FailsOn ∅ := fun key value => by simp [accepts calm rfl key value]
    have made' := clear_of_all_good (c := c) silent fun _ _ => id
    refine ⟨⟨?_, fun bad_one => absurd bad_one some_bad⟩, fun _ => ?_, ?_⟩
    · rintro ⟨fault, failed⟩
      rw [made] at failed
      cases failed
    · rw [made, made']
      exact ⟨rfl, rfl⟩
    · intro fault failed
      rw [made] at failed
      cases failed

/-! ## Commands until one fails -/

omit [EquivBEq K] [LawfulHashable K] in
theorem inTurn_step_cases (c : Lru K V) (commands : List (Command K V)) :
    ((∀ step ∈ (c.run commands).2, ∃ reply, step.2 = .ok reply) ∧ ∃ replies,
      Outcome.inTurn step c commands =
        ⟨(c.run commands).1, noted (c.run commands).2, .ok replies⟩) ∨
    ∃ before command after fault, commands = before ++ command :: after ∧
      (∀ step ∈ (c.run before).2, ∃ reply, step.2 = .ok reply) ∧
      ((c.run before).1.step command).answer = .error fault ∧
      Outcome.inTurn step c commands = ⟨(c.run (before ++ [command])).1,
        noted (c.run (before ++ [command])).2, .error fault⟩ := by
  induction commands generalizing c with
  | nil => exact .inl ⟨by simp [run], [], rfl⟩
  | cons command commands ih =>
      rw [Outcome.inTurn_cons]
      cases answer : (c.step command).answer with
      | error fault =>
          refine .inr ⟨[], command, commands, fault, rfl, by simp [run], answer, ?_⟩
          rw [Outcome.andThen_of_error answer]
          show _ = (⟨_, (c.step command).notes ++ [], _⟩ : Outcome _ _ _)
          rw [List.append_nil]
          rfl
      | ok reply =>
          rw [Outcome.andThen_of_ok answer]
          have first : ∃ reply, (c.step command).answer = .ok reply := ⟨reply, answer⟩
          rcases ih (c.step command).state with
            ⟨answered, replies, made⟩ | ⟨before, last, after, fault, rfl, answered, failed, made⟩
          · refine .inl ⟨List.forall_mem_cons.2 ⟨first, answered⟩, reply :: replies, ?_⟩
            rw [made]
            rfl
          · refine .inr ⟨command :: before, last, after, fault, rfl,
              List.forall_mem_cons.2 ⟨first, answered⟩, failed, ?_⟩
            rw [made]
            rfl

omit [EquivBEq K] [LawfulHashable K] in
theorem extend_eq_inTurn (c : Lru K V) (pairs : List (K × V)) :
    c.extend pairs =
      (Outcome.inTurn step c (Command.extend pairs).parts).map fun _ => () := by
  rw [Command.parts, Outcome.inTurn_map_items]
  show _ = (Outcome.inTurn (fun (c : Lru K V) (pair : K × V) =>
    (c.put pair.1 pair.2).map Reply.value?) c pairs).map _
  rw [Outcome.inTurn_map_answers, extend]
  cases (Outcome.inTurn (fun (c : Lru K V) (pair : K × V) => c.put pair.1 pair.2) c pairs) with
  | mk state notes answer => cases answer <;> rfl

omit [EquivBEq K] [LawfulHashable K] in
theorem inTurn_fails_iff (c : Lru K V) (commands : List (Command K V)) :
    (∃ fault, (Outcome.inTurn step c commands).answer = .error fault) ↔
      ∃ step ∈ (c.run commands).2, ∃ fault, step.2 = .error fault := by
  rcases c.inTurn_step_cases commands with
    ⟨answered, replies, made⟩ | ⟨before, command, after, fault, rfl, -, failed, made⟩
  · rw [made]
    constructor
    · rintro ⟨fault, ⟨⟩⟩
    · rintro ⟨step, mem, fault, failed⟩
      obtain ⟨reply, answer⟩ := answered step mem
      rw [answer] at failed
      cases failed
  · rw [made]
    refine ⟨fun _ => ?_, fun _ => ⟨fault, rfl⟩⟩
    rw [run_append]
    exact ⟨_, List.mem_append_right _ List.mem_cons_self, fault, failed⟩

/-! ## Whole runs -/

omit [BEq K] [Hashable K] [EquivBEq K] [LawfulHashable K] in
theorem mem_reported_noted {trace : List (List (Note K V) × Except Fault (Reply K V))}
    {entry : K × V} :
    entry ∈ reported (noted trace) ↔ ∃ step ∈ trace, entry ∈ reported step.1 := by
  simp only [reported, noted, List.filterMap_flatMap, List.mem_flatMap]

omit [EquivBEq K] [LawfulHashable K] in
theorem hearing_self {onEvict : Option (Listener K V)} (listens : c.onEvict = onEvict) :
    c.hearing onEvict = c := by
  subst listens
  rfl

theorem Shows.run_withstands (h : c.Shows l) (fails : tell.FailsOn bad)
    (accepts : Accepts (some calm)) (commands : List (Command K V))
    (single : ∀ command ∈ commands, command.isBulk = false) :
    ((c.hearing (some tell)).run commands).1 =
        ((c.hearing (some calm)).run commands).1.hearing (some tell) ∧
      ((c.hearing (some tell)).run commands).2.map (·.1) =
        ((c.hearing (some calm)).run commands).2.map (·.1) ∧
      ∀ step ∈ ((c.hearing (some tell)).run commands).2,
        (∃ fault, step.2 = .error fault) ↔ ∃ entry ∈ reported step.1, entry.1 ∈ bad := by
  induction commands generalizing c l with
  | nil => exact ⟨rfl, rfl, by simp [Lru.run]⟩
  | cons command commands ih =>
      have first := h.withstands fails accepts (single command List.mem_cons_self)
      have smooth : (c.hearing (some calm)).Shows l := h.hearing (some calm)
      have tracks := smooth.step accepts command
      obtain ⟨state, notes, failures⟩ := ih tracks.shows fun other mem =>
        single other (List.mem_cons_of_mem _ mem)
      -- both runs go on from the state that the calm listener saw, each with its own listener
      have kept : ((c.hearing (some calm)).step command).state.hearing (some calm) =
          ((c.hearing (some calm)).step command).state := hearing_self tracks.onEvict
      rw [← first.state] at state notes failures
      rw [kept] at state notes
      refine ⟨state, ?_, ?_⟩
      · exact congrArg₂ List.cons first.notes notes
      · exact List.forall_mem_cons.2 ⟨first.fails_iff, failures⟩

/-- Commands are carried out up to the first one that fails, and that one is carried out too. -/
structure StopsAfter (c : Lru K V) (tell calm : Listener K V) (bad : Set K)
    (commands : List (Command K V)) (o : Outcome (Lru K V) (Note K V) A) : Prop where
  fails_iff : (∃ fault, o.answer = .error fault) ↔
    ∃ entry ∈ reported (noted ((c.hearing (some calm)).run commands).2), entry.1 ∈ bad
  finishes : (∀ fault, o.answer ≠ .error fault) →
    o.state = ((c.hearing (some calm)).run commands).1.hearing (some tell) ∧
      o.notes = noted ((c.hearing (some calm)).run commands).2
  stops : ∀ fault, o.answer = .error fault → ∃ before command after,
    commands = before ++ command :: after ∧
      (∀ step ∈ ((c.hearing (some tell)).run before).2, ∃ reply, step.2 = .ok reply) ∧
      (((c.hearing (some tell)).run before).1.step command).answer = .error fault ∧
      o.state = ((c.hearing (some calm)).run (before ++ [command])).1.hearing (some tell) ∧
      o.notes = noted ((c.hearing (some calm)).run (before ++ [command])).2

omit [EquivBEq K] [LawfulHashable K] in
theorem StopsAfter.map {commands : List (Command K V)} {o : Outcome (Lru K V) (Note K V) A}
    (h : c.StopsAfter tell calm bad commands o) (f : A → B) :
    c.StopsAfter tell calm bad commands (o.map f) := by
  refine ⟨?_, ?_, ?_⟩
  · simpa only [Outcome.answer_map_eq_error_iff] using h.fails_iff
  · simpa only [Ne, Outcome.answer_map_eq_error_iff, Outcome.state_map, Outcome.notes_map]
      using h.finishes
  · simpa only [Outcome.answer_map_eq_error_iff, Outcome.state_map, Outcome.notes_map]
      using h.stops

theorem Shows.stopsAfter (h : c.Shows l) (fails : tell.FailsOn bad)
    (accepts : Accepts (some calm)) {commands : List (Command K V)}
    (single : ∀ command ∈ commands, command.isBulk = false) :
    c.StopsAfter tell calm bad commands
      (Outcome.inTurn Lru.step (c.hearing (some tell)) commands) := by
  have agree (part : List (Command K V)) (within : ∀ command ∈ part, command ∈ commands) :
      ((c.hearing (some tell)).run part).1 =
          ((c.hearing (some calm)).run part).1.hearing (some tell) ∧
        noted ((c.hearing (some tell)).run part).2 =
          noted ((c.hearing (some calm)).run part).2 := by
    obtain ⟨state, notes, -⟩ := h.run_withstands fails accepts part fun command mem =>
      single command (within command mem)
    refine ⟨state, ?_⟩
    rw [noted, noted, List.flatMap_def, List.flatMap_def, notes]
  obtain ⟨-, -, failures⟩ := h.run_withstands fails accepts commands single
  have whole := agree commands fun _ mem => mem
  have ends := (c.hearing (some tell)).inTurn_step_cases commands
  refine ⟨?_, ?_, ?_⟩
  · rw [inTurn_fails_iff, ← whole.2]
    simp only [mem_reported_noted]
    constructor
    · rintro ⟨step, mem, failed⟩
      obtain ⟨entry, told, isBad⟩ := (failures step mem).1 failed
      exact ⟨entry, ⟨step, mem, told⟩, isBad⟩
    · rintro ⟨entry, ⟨step, mem, told⟩, isBad⟩
      exact ⟨step, mem, (failures step mem).2 ⟨entry, told, isBad⟩⟩
  · intro answered
    rcases ends with ⟨-, replies, made⟩ | ⟨_, _, _, fault, -, -, -, made⟩
    · rw [made]
      exact whole
    · exact absurd (congrArg Outcome.answer made) (answered fault)
  · intro fault failed
    rcases ends with ⟨-, replies, made⟩ | ⟨before, last, after, _, rfl, answered, refused, made⟩
    · rw [made] at failed
      cases failed
    · rw [made] at failed ⊢
      obtain rfl := Except.error.inj failed
      have stopped := agree (before ++ [last]) fun command mem => by
        simp only [List.mem_append, List.mem_cons] at mem ⊢
        tauto
      exact ⟨before, last, after, rfl, answered, refused, stopped⟩

theorem Shows.stopsAfter_extend (h : c.Shows l) (fails : tell.FailsOn bad)
    (accepts : Accepts (some calm)) (pairs : List (K × V)) :
    c.StopsAfter tell calm bad (Command.extend pairs).parts
      ((c.hearing (some tell)).extend pairs) := by
  rw [extend_eq_inTurn]
  exact (h.stopsAfter fails accepts fun _ mem => isBulk_of_mem_puts pairs mem).map _

theorem withstands_every_run (config : LruConfig) (onEvict : Option (Listener K V))
    (requests : List (Request K V)) (fails : tell.FailsOn bad) (accepts : Accepts (some calm)) :
    let c := (ofConfig config onEvict).after requests
    let rough := c.hearing (some tell)
    let smooth := c.hearing (some calm)
    (∀ command, command.isBulk = false →
      c.Withstands tell bad (rough.step command) (smooth.step command)) ∧
    (∀ key value, (rough.put key value).state.peek key = some value) ∧
    c.ClearsAtOnce tell calm bad ∧
    (∀ pairs, c.StopsAfter tell calm bad (Command.extend pairs).parts (rough.extend pairs)) ∧
    ∀ commands, (∀ command ∈ commands, command.isBulk = false) →
      c.StopsAfter tell calm bad commands (Outcome.inTurn step rough commands) ∧
      (rough.run commands).1 = (smooth.run commands).1.hearing (some tell) ∧
      (rough.run commands).2.map (·.1) = (smooth.run commands).2.map (·.1) := by
  intro c rough smooth
  obtain ⟨⟨l, shows⟩, -⟩ := (shows_empty config.maxEntries onEvict).after requests
  change c.Shows l at shows
  refine ⟨fun command single => shows.withstands fails accepts single,
    (shows.hearing (some tell)).peek_put, c.clearsAtOnce fails accepts,
    shows.stopsAfter_extend fails accepts, fun commands single => ?_⟩
  obtain ⟨state, notes, -⟩ := shows.run_withstands fails accepts commands single
  exact ⟨shows.stopsAfter fails accepts single, state, notes⟩

/-- The put that drives out the entry of key 1 fails and is carried out; the store is not cleared,
although the other entry was told of first; and the second put of an extension is not reached. -/
theorem withstands_refusal_of_one :
    let calm : Listener Nat Nat := fun _ _ => .ok ()
    let tell : Listener Nat Nat := .failingOn 1 "refused"
    let requests : List (Request Nat Nat) := [⟨.extend [(1, 10), (2, 20)], none⟩]
    let c := (ofConfig ⟨2⟩ none).after requests
    let rough := c.hearing (some tell)
    tell.FailsOn {1} ∧ Accepts (some calm) ∧
      c.Withstands tell {1} (rough.step (.put 3 30)) ((c.hearing (some calm)).step (.put 3 30)) ∧
      (rough.step (.put 3 30)).answer = .error (.raised "refused") ∧
      (rough.put 3 30).state.peek 3 = some 30 ∧
      rough.clear.answer = .error (.raised "refused") ∧ rough.clear.state = rough ∧
      rough.clear.notes = [.told 2 20, .told 1 10] ∧
      c.StopsAfter tell calm {1} [.put 3 30, .put 4 40] (rough.extend [(3, 30), (4, 40)]) ∧
      (rough.extend [(3, 30), (4, 40)]).state.toList = [(3, 30), (2, 20)] ∧
      (rough.run [.put 3 30, .put 4 40]).2.map (·.1) =
        ((c.hearing (some calm)).run [.put 3 30, .put 4 40]).2.map (·.1) := by
  intro calm tell requests c rough
  have fails : tell.FailsOn {1} := by
    intro key value
    by_cases same : key = 1 <;> simp [tell, Listener.failingOn, same]
  have accepts : Accepts (some calm) := by simp [Accepts, calm]
  have failed : ((((ofConfig ⟨2⟩ none).after requests).hearing (some tell)).step
      (.put 3 30)).answer = .error (.raised "refused") := by cbv
  have refused : ((((ofConfig ⟨2⟩ none).after requests).hearing (some tell)).clear).answer =
      .error (.raised "refused") := by cbv
  have told : ((((ofConfig ⟨2⟩ none).after requests).hearing (some tell)).clear).notes =
      [.told 2 20, .told 1 10] := by cbv
  have stopped : ((((ofConfig ⟨2⟩ none).after requests).hearing (some tell)).extend
      [(3, 30), (4, 40)]).state.toList = [(3, 30), (2, 20)] := by cbv
  obtain ⟨withstands, peek, clears, extending, runs⟩ :=
    withstands_every_run ⟨2⟩ none requests fails accepts
  exact ⟨fails, accepts, withstands (.put 3 30) rfl, failed, peek 3 30, refused,
    (clears.stops _ refused).1, told, extending [(3, 30), (4, 40)], stopped,
    (runs [.put 3 30, .put 4 40] (by simp [Command.isBulk])).2.2⟩

end Lru

end CacheNode
