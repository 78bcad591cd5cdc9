import CacheNode.Proofs.Coalescer.Ways

/-! # Agreement of the callers of one call -/

namespace CacheNode.Coalescer

variable {V : Type u} {E : Type v}

structure Executed (moves : List (Move V E)) (seen : List Event) (g : Coalescer V E) (c : Nat)
    (key : String) (ending : Ending V E) : Prop where
  alone : ∃ s, looks {} c moves = [s] ∧ s.registry.get? key = none
  once : ∃ duplicates, eventsOf c seen =
    [.began c key, .finished c key duplicates ending.isRaised]
  ended : endings c moves = [ending]
  record : g.status? c = some ending.status

structure Joined (moves : List (Move V E)) (seen : List Event) (g : Coalescer V E) (c : Nat)
    (key : String) (x : Nat) : Prop where
  offered : ∃ s, looks {} c moves = [s] ∧ s.Offers key x
  never : eventsOf c seen = [.joined c key]
  ended : endings c moves = []
  record : g.status? c = none

variable {g : Coalescer V E} {c x : Nat} {key : String} {caller : Caller V E}
  {moves : List (Move V E)} {seen : List Event} {phase : Phase V E}
  {status : Option (Status V E)} {answer : Answer V E} {role : Role} {ending other : Ending V E}

theorem answer_inj (same : ending.answer = other.answer) : ending = other := by
  cases ending <;> cases other <;> simp_all [Ending.answer]

theorem Way.settled {states : List (Coalescer V E)} {events : List Event}
    {ended : List (Ending V E)} (way : Way c key phase states events ended)
    (records : phase.Records status) (answered : status.bind (·.answer? key) = some answer) :
    ∃ ending, ended = [ending] ∧ status = some ending.status ∧
      ∀ role answer', phase = .left role answer' → role = .executor ∧ answer' = ending.answer := by
  have not_pending : status ≠ some .pending := by
    rintro rfl
    cases answered
  have not_none : status ≠ none := by
    rintro rfl
    cases answered
  cases way with
  | entering => exact absurd records not_none
  | registered free => exact absurd records not_pending
  | running free => exact absurd records not_pending
  | publishing free => exact absurd records not_pending
  | retiring free => exact ⟨_, rfl, records, fun _ _ left => nomatch left⟩
  | reporting free => exact ⟨_, rfl, records, fun _ _ left => nomatch left⟩
  | executed free duplicates =>
      -- the record and the run speak of one ending, since the answer tells them apart
      obtain ⟨same, equal, recorded⟩ := records
      obtain rfl := answer_inj equal
      refine ⟨_, rfl, recorded, ?_⟩
      intro role answer' left
      cases left
      exact ⟨rfl, rfl⟩
  | announcing offers => exact absurd records not_none
  | waiting offers => exact absurd records not_none
  | joined offers answer => exact absurd records not_none

theorem answer_of_status (received : ending.status.answer? key = some answer) :
    (∀ result, answer = .ok result ↔ ending.answer = .ok result) ∧
      ∀ fault, answer = .error fault ↔ ending.isRaised = true ∧ fault = .abandoned key := by
  cases ending with
  | value v =>
      obtain rfl := Option.some.inj received
      simp [Ending.answer, Ending.isRaised]
  | error e =>
      obtain rfl := Option.some.inj received
      simp [Ending.answer, Ending.isRaised]
  | raised text =>
      obtain rfl := Option.some.inj received
      simp [Ending.answer, Ending.isRaised, eq_comm]

theorem executed_of_left (ran : run {} moves = some (g, seen))
    (known : g.callers.get? c = some caller) (left : caller.phase = .left .executor answer) :
    ∃ ending, Executed moves seen g c caller.key ending ∧ answer = ending.answer := by
  have records := (orderly_run ran).records c caller known
  have way := (recorded_run ran).ways c caller known
  rw [left] at records way
  obtain ⟨ending, rfl, recorded⟩ := records
  -- `Way` can be taken apart only when nothing but variables stand for what it is indexed by
  generalize looks_eq : looks {} c moves = looked at way
  generalize events_eq : eventsOf c seen = events at way
  generalize endings_eq : endings c moves = ended at way
  generalize point : Phase.left Role.executor ending.answer = phase at way
  cases way with
  | executed free duplicates =>
      injection point with _ equal
      obtain rfl := answer_inj equal
      exact ⟨ending, ⟨⟨_, looks_eq, free⟩, ⟨duplicates, events_eq⟩, endings_eq, recorded⟩, rfl⟩
  | _ => cases point

theorem joined_of_left (ran : run {} moves = some (g, seen))
    (known : g.callers.get? c = some caller) (left : caller.phase = .left (.joiner x) answer) :
    Joined moves seen g c caller.key x := by
  have records := (orderly_run ran).records c caller known
  have way := (recorded_run ran).ways c caller known
  rw [left] at records way
  generalize looks_eq : looks {} c moves = looked at way
  generalize events_eq : eventsOf c seen = events at way
  generalize endings_eq : endings c moves = ended at way
  cases way with
  | joined offers _ => exact ⟨⟨_, looks_eq, offers⟩, events_eq, endings_eq, records⟩

theorem callers_agree (ran : run {} moves = some (g, seen))
    (known : g.callers.get? c = some caller) (left : caller.phase = .left role answer) :
    (role = .executor ∧
      ∃ ending, Executed moves seen g c caller.key ending ∧ answer = ending.answer) ∨
    ∃ x executor ending, role = .joiner x ∧ Joined moves seen g c caller.key x ∧
      g.callers.get? x = some executor ∧ executor.key = caller.key ∧
      endings x moves = [ending] ∧ g.status? x = some ending.status ∧
      (∀ result, answer = .ok result ↔ ending.answer = .ok result) ∧
      (∀ fault, answer = .error fault ↔ ending.isRaised = true ∧ fault = .abandoned caller.key) ∧
      ∀ role' answer', executor.phase = .left role' answer' →
        role' = .executor ∧ answer' = ending.answer := by
  cases role with
  | executor => exact .inl ⟨rfl, executed_of_left ran known left⟩
  | joiner x =>
      right
      have orderly := orderly_run ran
      obtain ⟨executor, present, named, _⟩ := orderly.joined c caller x known (by rw [left]; rfl)
      have answered := orderly.answered c caller x answer known left
      rw [← named] at answered
      obtain ⟨ending, ended, recorded, leaves⟩ :=
        ((recorded_run ran).ways x executor present).settled (orderly.records x executor present)
          answered
      rw [recorded, named] at answered
      obtain ⟨results, faults⟩ := answer_of_status answered
      exact ⟨x, executor, ending, rfl, joined_of_left ran known left, present, named, ended,
        recorded, results, faults, leaves⟩

theorem callers_agree_overlapping :
    let moves : List (Move Nat String) :=
      [.enter 0 "a" none, .advance 0, .advance 0, .enter 1 "a" none, .advance 1,
        .enter 2 "b" (some 0), .advance 2, .advance 2, .finish 2 (.raised "no"), .advance 2,
        .advance 2, .advance 2, .finish 0 (.value 7), .advance 0, .advance 1, .advance 1,
        .advance 0, .advance 0]
    ∃ g seen caller executor ending, run {} moves = some (g, seen) ∧
      g.callers.get? 1 = some caller ∧ caller.phase = .left (.joiner 0) (.ok (.ok 7)) ∧
      Joined moves seen g 1 caller.key 0 ∧ g.callers.get? 0 = some executor ∧
      endings 0 moves = [ending] ∧ ending.answer = .ok (.ok 7) ∧
      executor.phase = .left .executor (.ok (.ok 7)) := by
  intro moves
  obtain ⟨⟨g, seen⟩, ran⟩ : ∃ made, run {} moves = some made := ⟨_, rfl⟩
  have present : (run {} moves).map (fun made => (made.1.callers.get? 1).map (·.phase)) =
      some (some (.left (.joiner 0) (.ok (.ok 7)))) := rfl
  have executes : (run {} moves).map (fun made => (made.1.callers.get? 0).map (·.phase)) =
      some (some (.left .executor (.ok (.ok 7)))) := rfl
  rw [ran] at present executes
  obtain ⟨caller, known, left⟩ := Option.map_eq_some_iff.1 (Option.some.inj present)
  obtain ⟨executor, there, done⟩ := Option.map_eq_some_iff.1 (Option.some.inj executes)
  rcases callers_agree ran known left with ⟨alone, _⟩ |
    ⟨x, executor', ending, role, joined, there', named, ended, record, results, faults, leaves⟩
  · cases alone
  · cases role
    exact ⟨g, seen, caller, executor, ending, ran, known, left, joined, there, ended,
      (results (.ok 7)).1 rfl, done⟩

end CacheNode.Coalescer
