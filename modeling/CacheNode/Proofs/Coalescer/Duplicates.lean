import CacheNode.Proofs.Coalescer.Joiners
import Mathlib.Algebra.GroupWithZero.Nat

/-!
# Duplicates are counted exactly

An executor reads the number of those who joined its call when nobody can join any more, so that
late joiners are counted too: `duplicates_exact`.
-/

namespace CacheNode.Coalescer

variable {V : Type u} {E : Type v}

def Phase.hasExecuted : Phase V E → Bool
  | .left .executor _ => true
  | _ => false

def Move.entrant? : Move V E → Option Nat
  | .enter c _ _ => some c
  | _ => none

def Event.finisher? : Event → Option Nat
  | .finished c _ _ _ => some c
  | _ => none

def Event.duplicates? : Event → Option Nat
  | .finished _ _ duplicates _ => some duplicates
  | _ => none

structure Counted (seen : List Event) (g : Coalescer V E) : Prop where
  joined : ∀ x, g.joinedBy x = (g.joiners x).length
  reported : ∀ x key duplicates raised, .finished x key duplicates raised ∈ seen →
    duplicates = (g.joiners x).length
  finishers : ∀ x, x ∈ seen.filterMap Event.finisher? ↔
    ∃ caller, g.callers.get? x = some caller ∧ caller.phase.hasExecuted = true
  once : (seen.filterMap Event.finisher?).Nodup

variable {g g' : Coalescer V E} {c d x : Nat} {key : String} {caller : Caller V E}
  {move : Move V E} {moves : List (Move V E)} {p phase : Phase V E}
  {status : Option (Status V E)} {entry : Option Nat} {seen new : List Event}

/-! ## Points of joiners and executors -/

theorem Phase.not_isRegistered_of_hasExecuted (executed : phase.hasExecuted = true) :
    phase.isRegistered = false := by
  cases phase with
  | left role answer => rfl
  | _ => cases executed

theorem Phase.joined?_of_hasExecuted (executed : phase.hasExecuted = true) :
    phase.joined? = none := by
  cases phase with
  | left role answer =>
      cases role with
      | executor => rfl
      | joiner y => cases executed
  | _ => cases executed

theorem Phase.hasExecuted_or_joined (left : phase.hasLeft = true) :
    phase.hasExecuted = true ∨ ∃ x, phase.joined? = some x := by
  cases phase with
  | left role answer =>
      cases role with
      | executor => exact .inl rfl
      | joiner x => exact .inr ⟨x, rfl⟩
  | _ => cases left

theorem Phase.Records.eq_none (records : p.Records status) (joined : p.joined? = some x) :
    status = none := by
  cases p with
  | announcing y => exact records
  | waiting y => exact records
  | left role answer =>
      cases role with
      | executor => cases joined
      | joiner y => exact records
  | _ => cases joined

/-! ## What is logged -/

theorem Turn.finishers (turn : Turn g c key move p phase status entry seen) :
    p.hasExecuted = false ∧
      seen.filterMap Event.finisher? = if phase.hasExecuted then [c] else [] := by
  cases turn <;> exact ⟨rfl, rfl⟩

theorem Turn.reported {duplicates : Nat} {raised : Bool} {named : String}
    (turn : Turn g c caller.key move caller.phase phase status entry seen)
    (known : g.callers.get? c = some caller)
    (mem : .finished x named duplicates raised ∈ seen) :
    x = c ∧ duplicates = g.joinedBy c ∧ g.joins? move = none := by
  have joins := joins?_advance known
  obtain ⟨key, within, p⟩ := caller
  cases turn with
  | report =>
      obtain ⟨rfl, rfl, rfl, rfl⟩ := Event.finished.inj (List.mem_singleton.1 mem)
      exact ⟨rfl, rfl, joins⟩
  | _ => simp at mem

theorem counted_empty : Counted [] ({} : Coalescer V E) where
  joined _ := rfl
  reported _ _ _ _ mem := nomatch mem
  finishers x := by simp
  once := List.nodup_nil

theorem Counted.step (h : Counted seen g) (orderly : Orderly g)
    (stepped : g.step move = some (g', new)) : Counted (seen ++ new) g' := by
  have counted : ∀ x, g'.joinedBy x = (g'.joiners x).length := fun x => by
    rw [orderly.joinedBy_step stepped, length_joiners_step stepped, h.joined]
  -- what was seen before stays true: a call that is over is joined no more
  have earlier : ∀ x key duplicates raised, .finished x key duplicates raised ∈ seen →
      duplicates = (g'.joiners x).length := by
    intro x key duplicates raised mem
    have finisher : x ∈ seen.filterMap Event.finisher? := List.mem_filterMap.2 ⟨_, mem, rfl⟩
    obtain ⟨caller, known, executed⟩ := (h.finishers x).1 finisher
    have elsewhere := Phase.not_isRegistered_of_hasExecuted executed
    rw [length_joiners_step stepped, if_neg (orderly.not_joined known elsewhere move)]
    exact h.reported x key duplicates raised mem
  rcases step_cases stepped with ⟨c, key, within, rfl, absent, inside, rfl, rfl⟩ |
    ⟨c, caller, phase, status, entry, goes, turn⟩
  · rw [List.append_nil]
    refine ⟨counted, earlier, fun x => ?_, h.once⟩
    rw [h.finishers, Table.get?_insert]
    by_cases same : x = c
    · subst same
      simp [absent, Phase.hasExecuted]
    · simp [same]
  · obtain ⟨fresh, finisher⟩ := turn.finishers
    have unseen : c ∉ seen.filterMap Event.finisher? := by
      rw [h.finishers]
      rintro ⟨other, same, executed⟩
      obtain rfl := Option.some.inj (goes.known.symm.trans same)
      rw [fresh] at executed
      cases executed
    refine ⟨counted, ?_, fun x => ?_, ?_⟩
    · intro x key duplicates raised mem
      rcases List.mem_append.1 mem with past | now
      · exact earlier x key duplicates raised past
      · obtain ⟨rfl, rfl, joins⟩ := turn.reported goes.known now
        rw [length_joiners_step stepped, joins]
        exact h.joined x
    · rw [List.filterMap_append, List.mem_append, h.finishers, finisher, goes.callers]
      by_cases same : x = c
      · subst same
        simp [goes.known, fresh]
      · simp [same]
    · rw [List.filterMap_append, finisher]
      split
      · exact List.nodup_append.2 ⟨h.once, List.nodup_singleton c, fun x mem y mem' same =>
          unseen (List.mem_singleton.1 mem' ▸ same ▸ mem)⟩
      · rw [List.append_nil]
        exact h.once

theorem counted_run (ran : run {} moves = some (g, seen)) : Counted seen g := by
  induction moves using List.reverseRecOn generalizing g seen with
  | nil =>
      obtain ⟨rfl, rfl⟩ := Prod.mk.inj (Option.some.inj ran)
      exact counted_empty
  | append_singleton moves move ih =>
      obtain ⟨before, past, new, earlier, stepped, rfl⟩ := run_concat ran
      exact (ih earlier).step (orderly_run earlier) stepped

theorem Way.joined?_iff {states : List (Coalescer V E)} {events : List Event}
    {ended : List (Ending V E)} (way : Way c key phase states events ended) :
    phase.joined? = some x ↔ ∃ s, states = [s] ∧ s.registry.get? key = some x := by
  cases way with
  | entering => simp [Phase.joined?]
  | announcing offers => simp [Phase.joined?, offers.1]
  | waiting offers => simp [Phase.joined?, offers.1]
  | joined offers answer => simp [Phase.joined?, offers.1]
  | registered free => simp [Phase.joined?, free]
  | running free => simp [Phase.joined?, free]
  | publishing free => simp [Phase.joined?, free]
  | retiring free => simp [Phase.joined?, free]
  | reporting free => simp [Phase.joined?, free]
  | executed free duplicates => simp [Phase.joined?, free]

theorem Way.events_of_joined {states : List (Coalescer V E)} {events : List Event}
    {ended : List (Ending V E)} (way : Way c key phase states events ended)
    (joined : phase.joined? = some x) (announced : phase ≠ .announcing x) :
    events = [.joined c key] := by
  cases way with
  | waiting offers => rfl
  | joined offers answer => rfl
  | announcing offers =>
      obtain rfl := Option.some.inj joined
      exact absurd rfl announced
  | _ => cases joined

/-! ## Every caller is accounted for -/

theorem entrants_run (ran : run {} moves = some (g, seen)) :
    (moves.filterMap Move.entrant?).Nodup ∧
      ∀ c, c ∈ moves.filterMap Move.entrant? ↔ ∃ caller, g.callers.get? c = some caller := by
  induction moves using List.reverseRecOn generalizing g seen with
  | nil =>
      obtain ⟨rfl, rfl⟩ := Prod.mk.inj (Option.some.inj ran)
      exact ⟨List.nodup_nil, fun c => by simp⟩
  | append_singleton moves move ih =>
      obtain ⟨before, past, new, earlier, stepped, rfl⟩ := run_concat ran
      obtain ⟨once, known⟩ := ih earlier
      rw [List.filterMap_append]
      rcases step_cases stepped with ⟨c, key, within, rfl, absent, inside, rfl, rfl⟩ |
        ⟨c, caller, phase, status, entry, goes, turn⟩
      · refine ⟨List.nodup_append.2 ⟨once, List.nodup_singleton c, ?_⟩, fun d => ?_⟩
        · rintro d mem e mem' rfl
          obtain rfl := List.mem_singleton.1 mem'
          obtain ⟨caller, present⟩ := (known d).1 mem
          rw [absent] at present
          cases present
        · rw [List.mem_append, known, Table.get?_insert]
          by_cases same : d = c <;> simp [same, Move.entrant?]
      · have none : [move].filterMap Move.entrant? = [] := by
          rcases turn.move_eq with rfl | ⟨ending, rfl⟩ <;> rfl
        rw [none, List.append_nil]
        refine ⟨once, fun d => ?_⟩
        rw [known, goes.callers]
        by_cases same : d = c
        · simp [same, goes.known]
        · simp [same]

theorem Orderly.executed_of_joined (h : Orderly g)
    (left : ∀ c caller, g.callers.get? c = some caller → caller.phase.hasLeft = true)
    (known : g.callers.get? c = some caller) (joined : caller.phase.joined? = some x) :
    ∃ executor, g.callers.get? x = some executor ∧ executor.phase.hasExecuted = true := by
  obtain ⟨executor, present, -, recorded⟩ := h.joined c caller x known joined
  refine ⟨executor, present, ?_⟩
  rcases Phase.hasExecuted_or_joined (left x executor present) with executed | ⟨y, joined⟩
  · exact executed
  · rw [(h.records x executor present).eq_none joined] at recorded
    cases recorded

theorem perm_entrants (ran : run {} moves = some (g, seen))
    (left : ∀ c caller, g.callers.get? c = some caller → caller.phase.hasLeft = true) :
    (moves.filterMap Move.entrant?).Perm (seen.filterMap Event.finisher? ++
      (seen.filterMap Event.finisher?).flatMap g.joiners) := by
  have h := counted_run ran
  obtain ⟨once, known⟩ := entrants_run ran
  -- the parts have nobody in common: no two calls have a joiner in common, and no executor joins
  have apart : ∀ x y, x ≠ y → (g.joiners x).Disjoint (g.joiners y) := by
    intro x y different c mem mem'
    obtain ⟨caller, there, joined⟩ := mem_joiners.1 mem
    obtain ⟨other, same, joined'⟩ := mem_joiners.1 mem'
    obtain rfl := Option.some.inj (there.symm.trans same)
    exact different (Option.some.inj (joined.symm.trans joined'))
  have joinersOnce : ((seen.filterMap Event.finisher?).flatMap g.joiners).Nodup :=
    List.nodup_flatMap.2 ⟨fun x _ => nodup_joiners g x, h.once.imp fun {x y} => apart x y⟩
  have either : ∀ c ∈ seen.filterMap Event.finisher?,
      ∀ d ∈ (seen.filterMap Event.finisher?).flatMap g.joiners, c ≠ d := by
    rintro c executes d joins rfl
    obtain ⟨caller, there, executed⟩ := (h.finishers c).1 executes
    obtain ⟨x, -, mem⟩ := List.mem_flatMap.1 joins
    obtain ⟨other, same, joined⟩ := mem_joiners.1 mem
    obtain rfl := Option.some.inj (there.symm.trans same)
    rw [Phase.joined?_of_hasExecuted executed] at joined
    cases joined
  rw [List.perm_ext_iff_of_nodup once (List.nodup_append.2 ⟨h.once, joinersOnce, either⟩)]
  intro c
  rw [known, List.mem_append, List.mem_flatMap]
  constructor
  · rintro ⟨caller, there⟩
    rcases Phase.hasExecuted_or_joined (left c caller there) with executed | ⟨x, joined⟩
    · exact .inl ((h.finishers c).2 ⟨caller, there, executed⟩)
    · have executed := (orderly_run ran).executed_of_joined left there joined
      exact .inr ⟨x, (h.finishers x).2 executed, mem_joiners.2 ⟨caller, there, joined⟩⟩
  · rintro (executes | ⟨x, -, joins⟩)
    · obtain ⟨caller, there, -⟩ := (h.finishers c).1 executes
      exact ⟨caller, there⟩
    · obtain ⟨caller, there, -⟩ := mem_joiners.1 joins
      exact ⟨caller, there⟩

theorem Counted.duplicates_eq (h : Counted seen g) :
    seen.filterMap Event.duplicates? =
      (seen.filterMap Event.finisher?).map fun x => (g.joiners x).length := by
  have reported := h.reported
  clear h
  induction seen with
  | nil => rfl
  | cons event seen ih =>
      have rest := ih fun x key duplicates raised mem =>
        reported x key duplicates raised (List.mem_cons_of_mem _ mem)
      cases event with
      | finished x key duplicates raised =>
          rw [List.filterMap_cons, List.filterMap_cons]
          simp only [Event.duplicates?, Event.finisher?, List.map_cons]
          rw [rest, reported x key duplicates raised List.mem_cons_self]
      | _ => exact rest

theorem duplicates_exact (ran : run {} moves = some (g, seen)) :
    (∀ x, (g.joiners x).Nodup ∧ ∀ d, d ∈ g.joiners x ↔ ∃ caller s,
      g.callers.get? d = some caller ∧ looks {} d moves = [s] ∧
        s.registry.get? caller.key = some x) ∧
    (∀ x caller, g.callers.get? x = some caller → caller.phase.isRegistered = false →
      (g.status? x).isSome = true → ∀ later g' after, g.run later = some (g', after) →
        ∀ d, d ∈ g'.joiners x ↔ d ∈ g.joiners x) ∧
    (∀ c caller answer, g.callers.get? c = some caller → caller.phase = .left .executor answer →
      ∃ ending, endings c moves = [ending] ∧ answer = ending.answer ∧
        (eventsOf c seen).filterMap Event.notice? = [⟨.debug, "coalesced call finished",
          [("key", .text caller.key), ("duplicates", .count (g.joiners c).length),
            ("panicked", .flag ending.isRaised)]⟩]) ∧
    (∀ x d caller, d ∈ g.joiners x → g.callers.get? d = some caller →
      caller.phase ≠ .announcing x → (eventsOf d seen).filterMap Event.notice? =
        [⟨.trace, "joining in-flight call", [("key", .text caller.key)]⟩]) ∧
    ((∀ c caller, g.callers.get? c = some caller → caller.phase.hasLeft = true) →
      (moves.filterMap Move.entrant?).length =
        (seen.filterMap Event.duplicates?).length + (seen.filterMap Event.duplicates?).sum) := by
  have h := counted_run ran
  have recorded := recorded_run ran
  refine ⟨fun x => ⟨nodup_joiners g x, fun d => ?_⟩, ?_, ?_, ?_, ?_⟩
  · rw [mem_joiners]
    constructor
    · rintro ⟨caller, known, joined⟩
      obtain ⟨s, looked, found⟩ := (recorded.ways d caller known).joined?_iff.1 joined
      exact ⟨caller, s, known, looked, found⟩
    · rintro ⟨caller, s, known, looked, found⟩
      exact ⟨caller, known, (recorded.ways d caller known).joined?_iff.2 ⟨s, looked, found⟩⟩
  · intro x caller known removed status later g' after went d
    exact (orderly_run ran).mem_joiners_run known removed status went
  · intro c caller answer known left
    obtain ⟨ending, executed, answered⟩ := executed_of_left ran known left
    obtain ⟨duplicates, events⟩ := executed.once
    refine ⟨ending, executed.ended, answered, ?_⟩
    have mem : .finished c caller.key duplicates ending.isRaised ∈ seen := by
      have own : .finished c caller.key duplicates ending.isRaised ∈ eventsOf c seen := by
        simp [events]
      exact (List.mem_filter.1 own).1
    rw [events, ← h.reported c caller.key duplicates ending.isRaised mem]
    rfl
  · intro x d caller mem known announced
    obtain ⟨other, same, joined⟩ := mem_joiners.1 mem
    obtain rfl := Option.some.inj (known.symm.trans same)
    rw [(recorded.ways d caller known).events_of_joined joined announced]
    rfl
  · intro left
    rw [(perm_entrants ran left).length_eq, h.duplicates_eq, List.length_append, List.length_map,
      List.length_flatMap]

/-- One caller joins while the operation runs and another one after its failure was published. -/
theorem duplicates_exact_late_joiner :
    let moves : List (Move Nat String) :=
      [.enter 0 "a" none, .advance 0, .advance 0, .enter 1 "a" none, .advance 1, .advance 1,
        .finish 0 (.raised "no"), .advance 0, .enter 2 "a" none, .advance 2, .advance 0,
        .advance 0, .advance 2, .advance 1, .advance 2]
    ∃ g seen, run {} moves = some (g, seen) ∧ g.joiners 0 = [2, 1] ∧
      (eventsOf 0 seen).filterMap Event.notice? = [⟨.debug, "coalesced call finished",
        [("key", .text "a"), ("duplicates", .count 2), ("panicked", .flag true)]⟩] ∧
      (moves.filterMap Move.entrant?).length = 3 ∧
      3 = (seen.filterMap Event.duplicates?).length + (seen.filterMap Event.duplicates?).sum := by
  intro moves
  obtain ⟨⟨g, seen⟩, ran⟩ : ∃ made, run {} moves = some made := ⟨_, rfl⟩
  have reads : (run {} moves).map (fun made => (made.1.callers.get? 0, made.1.joiners 0,
      made.1.callers.bindings.all fun b => b.2.phase.hasLeft)) =
        some (some ⟨"a", none, .left .executor (.error (.raised "no"))⟩, [2, 1], true) := rfl
  rw [ran] at reads
  simp only [Option.map_some, Option.some.injEq, Prod.mk.injEq] at reads
  obtain ⟨known, joiners, left⟩ := reads
  obtain ⟨_, _, executors, _, total⟩ := duplicates_exact ran
  obtain ⟨ending, _, answered, logged⟩ := executors 0 _ _ known rfl
  obtain rfl : ending = .raised "no" := answer_inj answered.symm
  refine ⟨g, seen, ran, joiners, ?_, rfl, total fun c caller there => ?_⟩
  · rw [logged, joiners]
    rfl
  · exact List.all_eq_true.1 left _ ((Table.get?_eq_some_iff _ _ _).1 there)

end CacheNode.Coalescer
