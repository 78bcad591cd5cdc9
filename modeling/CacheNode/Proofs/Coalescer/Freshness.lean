import CacheNode.Proofs.Coalescer.Agreement
import CacheNode.Proofs.Coalescer.Registry

/-!
# Nothing is remembered of a call that is over

Once its executor has taken a call out of the registry, nobody joins it any more. Before that there
is a moment in which those who joined can have left with the outcome while the call is still
registered; who comes then may join it too (`joined_after_return`).
-/

namespace CacheNode.Coalescer

variable {V : Type u} {E : Type v}

/-- The caller who executed the call that a caller has left. -/
def Role.execution (c : Nat) : Role → Nat
  | .executor => c
  | .joiner x => x

/-- There was no record of one call as long as another one was registered for the key. -/
def Later (moves : List (Move V E)) (key : String) (x y : Nat) : Prop :=
  ∀ early rest s seen, moves = early ++ rest → run {} early = some (s, seen) →
    s.registry.get? key = some x → s.status? y = none

structure Missed (g : Coalescer V E) (x c : Nat) : Prop where
  orderly : Orderly g
  recorded : (g.status? x).isSome = true
  removed : ∀ key, g.registry.get? key ≠ some x
  apart : ∀ caller, g.callers.get? c = some caller → caller.phase.joined? ≠ some x

variable {g g' mid s : Coalescer V E} {c d r x y : Nat} {key : String}
  {caller executor returner : Caller V E} {move : Move V E} {moves past later : List (Move V E)}
  {p phase : Phase V E} {status : Option (Status V E)} {entry : Option Nat}
  {seen new before after : List Event} {role : Role} {answer : Answer V E}

theorem isSome_status_step (stepped : g.step move = some (g', new))
    (recorded : (g.status? x).isSome = true) : (g'.status? x).isSome = true := by
  rcases step_cases stepped with ⟨c, key, within, rfl, absent, inside, rfl, rfl⟩ |
    ⟨c, caller, phase, status, entry, goes, turn⟩
  · exact recorded
  · rw [goes.status]
    split
    · rename_i same
      subst same
      exact turn.isSome_status recorded
    · exact recorded

theorem known_step (stepped : g.step move = some (g', new))
    (known : g.callers.get? d = some caller) :
    ∃ caller', g'.callers.get? d = some caller' ∧ caller'.key = caller.key := by
  rcases step_cases stepped with ⟨c, key, within, rfl, absent, inside, rfl, rfl⟩ |
    ⟨c, other, phase, status, entry, goes, turn⟩
  · refine ⟨caller, ?_, rfl⟩
    rw [Table.get?_insert, if_neg]
    · exact known
    · rintro rfl
      rw [absent] at known
      cases known
  · rw [goes.callers]
    split
    · rename_i same
      subst same
      obtain rfl := Option.some.inj (goes.known.symm.trans known)
      exact ⟨_, rfl, rfl⟩
    · exact ⟨caller, known, rfl⟩

theorem known_run (ran : g.run moves = some (g', seen)) (known : g.callers.get? d = some caller) :
    ∃ caller', g'.callers.get? d = some caller' ∧ caller'.key = caller.key := by
  refine run_preserves (P := fun s => ∃ caller', s.callers.get? d = some caller' ∧
    caller'.key = caller.key) ?_ ran ⟨caller, known, rfl⟩
  intro s s' move new stepped present
  obtain ⟨between, there, named⟩ := present
  obtain ⟨last, found, same⟩ := known_step stepped there
  exact ⟨last, found, same.trans named⟩

theorem Turn.joins (turn : Turn g c key move p phase status entry seen)
    (joined : phase.joined? = some x) : p.joined? = some x ∨ g.registry.get? key = some x := by
  cases turn with
  | join found =>
      obtain rfl := Option.some.inj joined
      exact .inr found
  | announce => exact .inl joined
  | wake ready => exact .inl joined
  | _ => cases joined

theorem Missed.step (h : g.Missed x c) (stepped : g.step move = some (g', new)) :
    g'.Missed x c := by
  refine ⟨h.orderly.step stepped, isSome_status_step stepped h.recorded, ?_, ?_⟩
  · intro key found
    have revised := h.orderly.revises stepped key
    generalize was : g.registry.get? key = entry at revised
    rw [found] at revised
    cases revised with
    | kept => exact h.removed key was
    | registered known named point =>
        -- only one who has no record yet registers
        have none := h.orderly.records x _ known
        rw [point] at none
        have recorded := h.recorded
        rw [show g.status? x = Option.none from none] at recorded
        cases recorded
  · rcases step_cases stepped with ⟨d, key, within, rfl, absent, inside, rfl, rfl⟩ |
      ⟨d, caller, phase, status, entry, goes, turn⟩
    · intro caller known
      rw [Table.get?_insert] at known
      split at known
      · obtain rfl := Option.some.inj known
        exact (Option.some_ne_none x).symm
      · exact h.apart caller known
    · intro other known joined
      rw [goes.callers] at known
      split at known
      · rename_i same
        subst same
        obtain rfl := Option.some.inj known
        rcases turn.joins joined with already | found
        · exact h.apart caller goes.known already
        · exact h.removed caller.key found
      · exact h.apart other known joined

theorem Missed.run (h : g.Missed x c) (ran : g.run moves = some (g', seen)) : g'.Missed x c :=
  run_preserves (P := fun s => s.Missed x c) (fun _ _ _ _ stepped missed => missed.step stepped)
    ran h

theorem Phase.Records.not_isRegistered (records : p.Records status)
    (settled : status.bind (·.answer? key) = some answer)
    (apart : ∀ ending, p ≠ .retiring ending) : p.isRegistered = false := by
  have not_pending : status ≠ some .pending := by
    rintro rfl
    cases settled
  cases p with
  | registered => exact absurd records not_pending
  | running => exact absurd records not_pending
  | publishing ending => exact absurd records not_pending
  | retiring ending => exact absurd rfl (apart ending)
  | _ => rfl

theorem Orderly.missed (h : Orderly g) (returned : g.callers.get? r = some returner)
    (left : returner.phase = .left role answer)
    (removed : ∀ executor ending, g.callers.get? (role.execution r) = some executor →
      executor.phase ≠ .retiring ending)
    (unknown : g.callers.get? c = none) : g.Missed (role.execution r) c := by
  have apart : ∀ x caller, g.callers.get? c = some caller → caller.phase.joined? ≠ some x := by
    intro x caller known
    rw [unknown] at known
    cases known
  cases role with
  | executor =>
      have records := h.records r returner returned
      rw [left] at records
      obtain ⟨ending, _, recorded⟩ := records
      refine ⟨h, ?_, ?_, apart r⟩
      · show (g.status? r).isSome = true
        rw [recorded]
        rfl
      · exact h.not_registered returned (by rw [left]; rfl)
  | joiner x =>
      obtain ⟨executor, known, named, recorded⟩ :=
        h.joined r returner x returned (by rw [left]; rfl)
      have settled := h.answered r returner x answer returned left
      have gone := (h.records x executor known).not_isRegistered settled
        fun ending => removed executor ending known
      exact ⟨h, recorded, h.not_registered known gone, apart x⟩

theorem Missed.joined_later (h : mid.Missed x c)
    (ran : Coalescer.run {} past = some (mid, before))
    (went : mid.run later = some (g, after)) (unknown : mid.callers.get? c = none)
    (known : g.callers.get? c = some caller) (joined : caller.phase.joined? = some y)
    (same : caller.key = key) : Later (past ++ later) key x y := by
  intro early rest s seen split ran' found
  have last := h.run went
  by_contra recorded
  have recorded := Option.isSome_iff_ne_none.2 recorded
  rcases List.append_eq_append_iff.1 split with ⟨between, rfl, _⟩ | ⟨between, rfl, rfl⟩
  · -- `s` comes after `mid`, where the call is not registered any more
    rw [run_append, ran, Option.bind_some] at ran'
    obtain ⟨⟨s', new⟩, reached, made⟩ := Option.map_eq_some_iff.1 ran'
    obtain ⟨rfl, _⟩ := Prod.mk.inj made
    exact (h.run reached).removed key found
  · -- `s` comes before `mid`, and the other call would be over by then
    rw [run_append, ran', Option.bind_some] at ran
    obtain ⟨⟨mid', new⟩, reached, made⟩ := Option.map_eq_some_iff.1 ran
    obtain ⟨rfl, _⟩ := Prod.mk.inj made
    have orderly := orderly_run ran'
    have absent : s.callers.get? c = none := by
      cases there : s.callers.get? c with
      | none => rfl
      | some earlier =>
          obtain ⟨kept, still, _⟩ := known_run reached there
          rw [unknown] at still
          cases still
    have free : ∀ k, s.registry.get? k ≠ some y := by
      intro k registered
      obtain ⟨executor, present, named, _⟩ := (orderly.registry k y).1 registered
      obtain ⟨kept, there, key_mid⟩ := known_run reached present
      obtain ⟨kept, there, key_last⟩ := known_run went there
      obtain ⟨executor', present', named', _⟩ := last.orderly.joined c caller y known joined
      obtain rfl := Option.some.inj (there.symm.trans present')
      have named : k = key := by
        rw [← named, ← key_mid, ← key_last, named', same]
      subst named
      obtain rfl := Option.some.inj (found.symm.trans registered)
      exact last.apart caller known joined
    have finished : s.Missed y c :=
      ⟨orderly, recorded, free, fun earlier there => by rw [absent] at there; cases there⟩
    exact ((finished.run reached).run went).apart caller known joined

theorem fresh_once_removed (ran : run {} past = some (mid, before))
    (went : mid.run later = some (g, after)) (returned : mid.callers.get? r = some returner)
    (left : returner.phase = .left role answer)
    (removed : ∀ executor ending, mid.callers.get? (role.execution r) = some executor →
      executor.phase ≠ .retiring ending)
    (unknown : mid.callers.get? c = none) (known : g.callers.get? c = some caller)
    (same : caller.key = returner.key) :
    c ≠ role.execution r ∧ caller.phase.joined? ≠ some (role.execution r) ∧
      (∀ y, caller.phase.joined? = some y →
        y ≠ role.execution r ∧ Later (past ++ later) returner.key (role.execution r) y) ∧
      ∀ role' answer', caller.phase = .left role' answer' →
        (role' = .executor ∧ ∃ ending, answer' = ending.answer ∧
          Executed (past ++ later) (before ++ after) g c caller.key ending) ∨
        ∃ y, role' = .joiner y ∧ Joined (past ++ later) (before ++ after) g c caller.key y := by
  have missed := (orderly_run ran).missed returned left removed unknown
  have whole : run {} (past ++ later) = some (g, before ++ after) := by
    simp only [run_append, ran, Option.bind_some, went, Option.map_some]
  have apart := (missed.run went).apart caller known
  refine ⟨?_, apart, ?_, ?_⟩
  · rintro rfl
    have none := (orderly_run ran).unknown _ unknown
    have recorded := missed.recorded
    rw [none] at recorded
    cases recorded
  · intro y joined
    refine ⟨?_, missed.joined_later ran went unknown known joined same⟩
    rintro rfl
    exact apart joined
  · intro role' answer' gone
    cases role' with
    | executor =>
        obtain ⟨ending, executed, answered⟩ := executed_of_left whole known gone
        exact .inl ⟨rfl, ending, answered, executed⟩
    | joiner y => exact .inr ⟨y, rfl, joined_of_left whole known gone⟩

theorem fresh_once_removed_after_joiner :
    let past : List (Move Nat String) :=
      [.enter 0 "a" none, .advance 0, .advance 0, .enter 1 "a" none, .advance 1, .advance 1,
        .finish 0 (.value 7), .advance 0, .advance 1, .advance 0]
    let later : List (Move Nat String) :=
      [.enter 2 "a" none, .advance 2, .advance 2, .finish 2 (.value 8), .advance 0, .advance 2,
        .advance 2, .advance 2]
    ∃ mid before g after caller, run {} past = some (mid, before) ∧
      mid.run later = some (g, after) ∧ mid.phase? 1 = some (.left (.joiner 0) (.ok (.ok 7))) ∧
      mid.phase? 0 = some (.reporting (.value 7)) ∧ mid.callers.get? 2 = none ∧
      g.callers.get? 2 = some caller ∧ caller.phase = .left .executor (.ok (.ok 8)) ∧
      caller.phase.joined? ≠ some 0 ∧
      Executed (past ++ later) (before ++ after) g 2 caller.key (.value 8) := by
  intro past later
  obtain ⟨⟨mid, before⟩, ran⟩ : ∃ made, run {} past = some made := ⟨_, rfl⟩
  have reads : (run {} past).map (fun made => (made.1.callers.get? 1, made.1.callers.get? 0,
      made.1.callers.get? 2)) = some (some ⟨"a", none, .left (.joiner 0) (.ok (.ok 7))⟩,
        some ⟨"a", none, .reporting (.value 7)⟩, none) := rfl
  have went : (run {} past).bind (fun made => (made.1.run later).map fun last =>
      last.1.callers.get? 2) = some (some ⟨"a", none, .left .executor (.ok (.ok 8))⟩) := rfl
  rw [ran] at reads went
  simp only [Option.map_some, Option.some.injEq, Prod.mk.injEq] at reads
  obtain ⟨returned, executes, unknown⟩ := reads
  rw [Option.bind_some] at went
  obtain ⟨⟨g, after⟩, went, known⟩ := Option.map_eq_some_iff.1 went
  have removed : ∀ executor ending, mid.callers.get? 0 = some executor →
      executor.phase ≠ .retiring ending := by
    intro executor ending there
    obtain rfl := Option.some.inj (executes.symm.trans there)
    rintro ⟨⟩
  obtain ⟨_, apart, _, gone⟩ :=
    fresh_once_removed ran went returned rfl removed unknown known rfl
  rcases gone .executor (.ok (.ok 8)) rfl with ⟨_, ending, answered, executed⟩ | ⟨y, joiner, _⟩
  · obtain rfl : ending = .value 8 := answer_inj answered.symm
    refine ⟨mid, before, g, after, _, ran, went, ?_, ?_, unknown, known, rfl, apart, executed⟩
    · rw [phase?, returned, Option.map_some]
    · rw [phase?, executes, Option.map_some]
  · cases joiner

/-- The executor has published its outcome and not yet taken its call out; somebody who had joined
has left already, and a newcomer joins and receives the same outcome. -/
theorem joined_after_return :
    let past : List (Move Nat String) :=
      [.enter 0 "a" none, .advance 0, .advance 0, .enter 1 "a" none, .advance 1, .advance 1,
        .finish 0 (.value 7), .advance 0, .advance 1]
    let later : List (Move Nat String) :=
      [.enter 2 "a" none, .advance 2, .advance 2, .advance 2]
    ∃ mid before g after, run {} past = some (mid, before) ∧ mid.run later = some (g, after) ∧
      (mid.callers.get? 1).map (·.key) = some "a" ∧
      mid.phase? 1 = some (.left (.joiner 0) (.ok (.ok 7))) ∧ mid.callers.get? 2 = none ∧
      (g.callers.get? 2).map (·.key) = some "a" ∧
      g.phase? 2 = some (.left (.joiner 0) (.ok (.ok 7))) :=
  ⟨_, _, _, _, rfl, rfl, rfl, rfl, rfl, rfl, rfl⟩

end CacheNode.Coalescer
