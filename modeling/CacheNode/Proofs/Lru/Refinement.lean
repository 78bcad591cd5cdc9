import CacheNode.Key
import CacheNode.Proofs.Lru.Operations

/-! # Stores refine plain lists -/

namespace CacheNode.Lru

variable {K : Type u} {V : Type v}

def Accepts (onEvict : Option (Listener K V)) : Prop :=
  ∀ tell ∈ onEvict, ∀ key value, tell key value = .ok ()

def heard (onEvict : Option (Listener K V)) (reported : List (K × V)) : List (K × V) :=
  if onEvict.isSome then reported else []

variable {onEvict : Option (Listener K V)}

theorem heard_nil : heard onEvict [] = [] := by
  unfold heard
  split <;> rfl

theorem heard_append (first second : List (K × V)) :
    heard onEvict (first ++ second) = heard onEvict first ++ heard onEvict second := by
  unfold heard
  split <;> rfl

theorem verdict_of_accepts (accepts : Accepts onEvict) (leaver : Option (K × V)) :
    verdict onEvict leaver = .ok () := by
  cases onEvict with
  | none => rfl
  | some tell =>
      cases leaver with
      | none => rfl
      | some entry => exact accepts tell rfl entry.1 entry.2

theorem told_farewell (leaver : Option (K × V)) (remaining : Nat) :
    (leaver.toList.flatMap (farewell onEvict remaining)).filterMap Note.told? =
      heard onEvict leaver.toList := by
  cases leaver <;> cases onEvict <;> rfl

theorem tellAll_append {tell : Listener K V} {first : List (K × V)}
    (accepted : ∀ entry ∈ first, tell entry.1 entry.2 = .ok ()) (second : List (K × V)) :
    tellAll tell (first ++ second) =
      ((first.map fun entry => .told entry.1 entry.2) ++ (tellAll tell second).1,
        (tellAll tell second).2) := by
  induction first with
  | nil => rfl
  | cons entry first ih =>
      have here := accepted entry List.mem_cons_self
      have rest := ih fun other mem => accepted other (List.mem_cons_of_mem _ mem)
      simp only [List.cons_append, tellAll, here, rest, List.map_cons]

theorem tellAll_of_accepted {tell : Listener K V} {l : List (K × V)}
    (accepted : ∀ entry ∈ l, tell entry.1 entry.2 = .ok ()) :
    tellAll tell l = (l.map fun entry => .told entry.1 entry.2, .ok ()) := by
  have all := tellAll_append accepted []
  simpa [tellAll] using all

theorem tellAll_of_accepts {tell : Listener K V} (accepts : Accepts (some tell))
    (l : List (K × V)) :
    tellAll tell l = (l.map fun entry => .told entry.1 entry.2, .ok ()) :=
  tellAll_of_accepted fun entry _ => accepts tell rfl entry.1 entry.2

variable [BEq K] [Hashable K] {c : Lru K V} {l : Recency K V}

structure Tracks {A : Type w} (c : Lru K V) (o : Outcome (Lru K V) (Note K V) A)
    (l : Recency K V) (reported : List (K × V)) (answer : A) : Prop where
  shows : o.state.Shows l
  limit : o.state.limit = c.limit
  onEvict : o.state.onEvict = c.onEvict
  told : o.notes.filterMap Note.told? = heard c.onEvict reported
  answer : o.answer = .ok answer

theorem Follows.tracks_of_verdict {A : Type w} {o : Outcome (Lru K V) (Note K V) A}
    {d : Change K V A} (h : c.Follows o d) (accepted : verdict c.onEvict d.leaver = .ok ()) :
    c.Tracks o d.entries d.leaver.toList d.answer := by
  refine ⟨h.shows, h.limit, h.onEvict, ?_, ?_⟩
  · rw [h.notes, told_farewell]
  · rw [h.answer, accepted]
    rfl

theorem Follows.tracks {A : Type w} {o : Outcome (Lru K V) (Note K V) A} {d : Change K V A}
    (h : c.Follows o d) (accepts : Accepts c.onEvict) :
    c.Tracks o d.entries d.leaver.toList d.answer :=
  h.tracks_of_verdict (verdict_of_accepts accepts d.leaver)

theorem Follows.verdict_eq_ok {A : Type w} {o : Outcome (Lru K V) (Note K V) A}
    {d : Change K V A} (h : c.Follows o d)
    (accepted : ∀ entry ∈ o.notes.filterMap Note.told?, verdict c.onEvict (some entry) = .ok ()) :
    verdict c.onEvict d.leaver = .ok () := by
  rw [h.notes, told_farewell] at accepted
  cases leaver : d.leaver with
  | none => exact verdict_none c.onEvict
  | some entry =>
      cases listens : c.onEvict with
      | none => rfl
      | some tell =>
          rw [leaver, listens] at accepted
          exact accepted entry (by simp [heard])

theorem Tracks.map {A : Type w} {B : Type x} {o : Outcome (Lru K V) (Note K V) A}
    {reported : List (K × V)} {answer : A} (h : c.Tracks o l reported answer) (f : A → B) :
    c.Tracks (o.map f) l reported (f answer) :=
  ⟨h.shows, h.limit, h.onEvict, h.told, by rw [Outcome.answer_map, h.answer]; rfl⟩

theorem Tracks.ok {A : Type w} {state : Lru K V} (shows : state.Shows l)
    (limit : state.limit = c.limit) (onEvict : state.onEvict = c.onEvict) {a b : A} (same : a = b) :
    c.Tracks (.ok state a) l [] b :=
  ⟨shows, limit, onEvict, heard_nil.symm, congrArg Except.ok same⟩

theorem announce_of_accepts (accepts : Accepts c.onEvict) :
    c.announce = ((heard c.onEvict c.toList).map fun entry => .told entry.1 entry.2, .ok ()) := by
  unfold announce
  cases installed : c.onEvict with
  | none => rfl
  | some tell =>
      rw [installed] at accepts
      exact tellAll_of_accepts accepts c.toList

theorem Shows.clear [EquivBEq K] [LawfulHashable K] (h : c.Shows l) (accepts : Accepts c.onEvict) :
    c.Tracks c.clear [] l () := by
  unfold Lru.clear
  rw [announce_of_accepts accepts, h.toList_eq]
  refine ⟨⟨(shows_empty c.limit c.onEvict).stored, fun _ => Nat.zero_le _⟩, rfl, rfl, ?_, rfl⟩
  simp [Note.told?, List.filterMap_map, Function.comp_def]

theorem extend_cons (c : Lru K V) (pair : K × V) (pairs : List (K × V)) :
    c.extend (pair :: pairs) =
      (c.put pair.1 pair.2).andThen fun c _ => c.extend pairs := by
  unfold extend
  rw [Outcome.inTurn_cons]
  cases c.put pair.1 pair.2 with
  | mk state notes answer =>
      cases answer with
      | error f => rfl
      | ok old =>
          simp only [Outcome.andThen, Outcome.map]
          cases (Outcome.inTurn (fun c pair => c.put pair.1 pair.2) state pairs).answer <;> rfl

theorem extend_append (c : Lru K V) (first second : List (K × V)) :
    c.extend (first ++ second) = (c.extend first).andThen fun c _ => c.extend second := by
  induction first generalizing c with
  | nil => rfl
  | cons pair first ih =>
      rw [List.cons_append, extend_cons, extend_cons, Outcome.andThen_assoc]
      congr 1
      funext c old
      exact ih c

theorem Tracks.andThen {A : Type w} {B : Type x} {o : Outcome (Lru K V) (Note K V) A}
    {next : Lru K V → A → Outcome (Lru K V) (Note K V) B} {l' : Recency K V}
    {reported reported' : List (K × V)} {a : A} {b : B} (first : c.Tracks o l reported a)
    (second : o.state.Tracks (next o.state a) l' reported' b) :
    c.Tracks (o.andThen next) l' (reported ++ reported') b := by
  obtain ⟨state, notes, answer⟩ := o
  obtain rfl : answer = .ok a := first.answer
  refine ⟨second.shows, second.limit.trans first.limit, second.onEvict.trans first.onEvict, ?_,
    second.answer⟩
  have later := second.told
  rw [first.onEvict] at later
  rw [heard_append, ← first.told, ← later]
  exact List.filterMap_append

theorem Shows.extend [EquivBEq K] [LawfulHashable K] (h : c.Shows l) (accepts : Accepts c.onEvict)
    (pairs : List (K × V)) :
    c.Tracks (c.extend pairs) (l.putAll c.limit pairs).1 (l.putAll c.limit pairs).2 () := by
  induction pairs generalizing c l with
  | nil => exact Tracks.ok h rfl rfl rfl
  | cons pair pairs ih =>
      have first := (h.put pair.1 pair.2).tracks accepts
      have second := ih first.shows (first.onEvict ▸ accepts)
      rw [first.limit] at second
      rw [extend_cons]
      exact first.andThen second

theorem Shows.step [EquivBEq K] [LawfulHashable K] (h : c.Shows l) (accepts : Accepts c.onEvict)
    (command : Command K V) :
    c.Tracks (c.step command) (l.step c.limit command).1 (l.step c.limit command).2.1
      (l.step c.limit command).2.2 := by
  cases command with
  | put key value => exact ((h.put key value).tracks accepts).map Reply.value?
  | get key =>
      obtain ⟨shows, limit, onEvict, answer⟩ := h.get key
      exact Tracks.ok shows limit onEvict (congrArg Reply.value? answer)
  | peek key => exact Tracks.ok h rfl rfl (congrArg Reply.value? (h.peek_eq key))
  | contains key => exact Tracks.ok h rfl rfl (congrArg Reply.flag (h.contains_eq key))
  | remove key => exact ((h.remove key).tracks accepts).map Reply.value?
  | removeOldest => exact (h.removeOldest.tracks accepts).map Reply.oldest
  | len => exact Tracks.ok h rfl rfl (congrArg Reply.count h.len_eq)
  | isEmpty => exact Tracks.ok h rfl rfl (congrArg Reply.flag h.isEmpty_eq)
  | iter => exact Tracks.ok h rfl rfl (congrArg Reply.entries h.toList_eq)
  | clear => exact (h.clear accepts).map fun _ => Reply.done
  | extend pairs => exact (h.extend accepts pairs).map fun _ => Reply.done

def heardAndAnswered (trace : List (List (Note K V) × Except Fault (Reply K V))) :
    List (List (K × V) × Except Fault (Reply K V)) :=
  trace.map fun step => (step.1.filterMap Note.told?, step.2)

theorem Shows.run [EquivBEq K] [LawfulHashable K] (h : c.Shows l) (accepts : Accepts c.onEvict)
    (commands : List (Command K V)) :
    (c.run commands).1.Shows (l.run c.limit commands).1 ∧
      heardAndAnswered (c.run commands).2 =
        (l.run c.limit commands).2.map fun step => (heard c.onEvict step.1, .ok step.2) := by
  induction commands generalizing c l with
  | nil => exact ⟨h, rfl⟩
  | cons command commands ih =>
      have first := h.step accepts command
      obtain ⟨shows, trace⟩ := ih first.shows (first.onEvict ▸ accepts)
      rw [first.limit] at shows trace
      rw [first.onEvict] at trace
      refine ⟨shows, ?_⟩
      simp only [Lru.run, Recency.run, heardAndAnswered, List.map_cons, List.cons.injEq]
      exact ⟨by rw [first.told, first.answer], trace⟩

theorem Shows.settings_run [EquivBEq K] [LawfulHashable K] (h : c.Shows l)
    (accepts : Accepts c.onEvict) (commands : List (Command K V)) :
    (c.run commands).1.limit = c.limit ∧ (c.run commands).1.onEvict = c.onEvict := by
  induction commands generalizing c l with
  | nil => exact ⟨rfl, rfl⟩
  | cons command commands ih =>
      have first := h.step accepts command
      obtain ⟨limit, onEvict⟩ := ih first.shows (first.onEvict ▸ accepts)
      exact ⟨limit.trans first.limit, onEvict.trans first.onEvict⟩

def AgreesOn (c : Lru K V) (l : Recency K V) (commands : List (Command K V)) : Prop :=
  (c.run commands).1.toList = (l.run c.limit commands).1 ∧
    heardAndAnswered (c.run commands).2 =
      (l.run c.limit commands).2.map fun step => (heard c.onEvict step.1, .ok step.2)

theorem Shows.agreesOn [EquivBEq K] [LawfulHashable K] (h : c.Shows l)
    (accepts : Accepts c.onEvict) (commands : List (Command K V)) : c.AgreesOn l commands := by
  obtain ⟨shows, trace⟩ := h.run accepts commands
  exact ⟨shows.toList_eq, trace⟩

theorem agreesOn_every_run [EquivBEq K] [LawfulHashable K] :
    (∀ (config : LruConfig) (onEvict : Option (Listener K V)), Accepts onEvict →
      ∀ commands, (ofConfig config onEvict).AgreesOn [] commands) ∧
    ∀ (pairs : List (K × V)), (extend (empty 0 none) pairs).answer = .ok () ∧
      ∀ commands, (ofPairs pairs).AgreesOn (Recency.putAll 0 [] pairs).1 commands := by
  constructor
  · intro config onEvict accepts commands
    exact (shows_empty config.maxEntries onEvict).agreesOn accepts commands
  · intro pairs
    have silent : Accepts (none : Option (Listener K V)) := by simp [Accepts]
    have collected := (shows_empty 0 none).extend silent pairs
    refine ⟨collected.answer, fun commands => ?_⟩
    exact collected.shows.agreesOn (collected.onEvict ▸ silent) commands

theorem agreesOn_number_keys :
    Accepts (some fun (_ : Key true) (_ : Nat) => Except.ok ()) ∧
      heardAndAnswered ((ofConfig ⟨2⟩ (some fun (_ : Key true) (_ : Nat) => .ok ())).run
        [.put ⟨.int 1⟩ 10, .put ⟨.int 2⟩ 20, .get ⟨.int 1⟩, .put ⟨.int 3⟩ 30, .put ⟨.int 3⟩ 31,
          .removeOldest, .put ⟨.int 4⟩ 40, .iter]).2 =
        [([], .ok (.value? none)), ([], .ok (.value? none)), ([], .ok (.value? (some 10))),
          ([(⟨.int 2⟩, 20)], .ok (.value? none)), ([], .ok (.value? (some 30))),
          ([(⟨.int 1⟩, 10)], .ok (.oldest (some (⟨.int 1⟩, 10)))), ([], .ok (.value? none)),
          ([], .ok (.entries [(⟨.int 4⟩, 40), (⟨.int 3⟩, 31)]))] := by
  have accepts : Accepts (some fun (_ : Key true) (_ : Nat) => Except.ok ()) := by
    simp [Accepts]
  refine ⟨accepts, (agreesOn_every_run.1 ⟨2⟩ _ accepts _).2.trans ?_⟩
  rfl

end CacheNode.Lru
