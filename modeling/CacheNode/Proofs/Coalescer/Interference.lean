import CacheNode.Proofs.Coalescer.Keys

/-! # Keys do not interfere -/

namespace CacheNode.Coalescer

variable {V : Type u} {E : Type v}

def Move.unnested : Move V E → Move V E
  | .enter c key _ => .enter c key none
  | move => move

def portion (key : String) (g : Coalescer V E) : List (Move V E) → List (Move V E)
  | [] => []
  | move :: moves =>
      match g.step move with
      | none => []
      | some (g', _) =>
          (if g.key? move = some key then [move.unnested] else []) ++ portion key g' moves

structure Alone (key : String) (g h : Coalescer V E) : Prop where
  same : SameAt key g h
  only : ∀ c caller, h.callers.get? c = some caller → caller.key = key ∧ caller.within = none

variable {g g' h h' : Coalescer V E} {c d x : Nat} {key : String} {caller own : Caller V E}
  {move : Move V E} {moves : List (Move V E)} {p phase : Phase V E} {status : Option (Status V E)}
  {entry : Option Nat} {seen new : List Event}

theorem alone_empty (key : String) : Alone key ({} : Coalescer V E) {} where
  same := SameAt.refl key {}
  only _ _ known := nomatch known

theorem phase?_eq_some_iff : g.phase? c = some p ↔ ∃ key, g.phaseFor? key c = some p := by
  constructor
  · intro point
    obtain ⟨caller, known, rfl⟩ := Option.map_eq_some_iff.1 point
    exact ⟨caller.key, phaseFor?_of_known known⟩
  · rintro ⟨key, found⟩
    obtain ⟨caller, known, -, rfl⟩ := phaseFor?_eq_some_iff.1 found
    rw [phase?, known, Option.map_some]

theorem Alone.known (alone : Alone key g h) (known : g.callers.get? c = some caller)
    (named : caller.key = key) : h.callers.get? c = some { caller with within := none } := by
  have point := alone.same.phases c
  rw [← named, phaseFor?_of_known known] at point
  obtain ⟨own, here, spelled, same⟩ := phaseFor?_eq_some_iff.1 point
  obtain ⟨-, outside⟩ := alone.only c own here
  obtain ⟨k, w, q⟩ := own
  cases spelled
  cases same
  cases outside
  exact here

theorem Alone.unknown (alone : Alone key g h) (absent : g.callers.get? c = none) :
    h.callers.get? c = none := by
  cases here : h.callers.get? c with
  | none => rfl
  | some own =>
      obtain ⟨rfl, -⟩ := alone.only c own here
      have point := alone.same.phases c
      rw [phaseFor?_of_known here, phaseFor?, absent] at point
      cases point

theorem Alone.isIdleInside (alone : Alone key g h)
    (known : h.callers.get? c = some own) (point : own.phase = .running) :
    h.isIdleInside c = true := by
  unfold Coalescer.isIdleInside
  rw [phase?, known, Option.map_some, point, Bool.and_eq_true]
  refine ⟨rfl, List.all_eq_true.2 fun other held => ?_⟩
  obtain ⟨-, outside⟩ := alone.only other.1 other.2 ((Table.get?_eq_some_iff _ _ _).2 held)
  rw [outside]
  rfl

theorem Alone.turn (alone : Alone caller.key g h) (orderly : Orderly g)
    (known : g.callers.get? c = some caller)
    (turn : Turn g c caller.key move caller.phase phase status entry seen) :
    ∃ h', h.step move.unnested = some (h', seen) ∧
      Goes h h' c { caller with within := none } phase status entry := by
  have own := alone.known known rfl
  have present : (g.phaseFor? caller.key c).isSome = true :=
    isSome_phaseFor?_iff.2 ⟨caller, known, rfl⟩
  have registry := alone.same.registry
  have recorded := alone.same.statuses c present
  have counted := alone.same.joined c present
  -- the call that a caller waits for is one for the same key
  have awaited : ∀ x, caller.phase.joined? = some x → h.status? x = g.status? x := by
    intro x joined
    obtain ⟨executor, there, named, -⟩ := orderly.joined c caller x known joined
    exact alone.same.statuses x (isSome_phaseFor?_iff.2 ⟨executor, there, named⟩)
  have on : ∀ phase, Goes h (h.moveTo c phase) c { caller with within := none } phase
      (g.status? c) (g.registry.get? caller.key) := by
    intro phase
    rw [← recorded, ← registry]
    exact goes_on phase own
  have idle := alone.isIdleInside own
  clear alone orderly present
  obtain ⟨k, w, q⟩ := caller
  cases turn with
  | register free =>
      exact ⟨h.check c k, step_advance own, goes_register own (registry.trans free)⟩
  | join found =>
      refine ⟨h.check c k, step_advance own, ?_⟩
      rw [← recorded]
      exact goes_join own (registry.trans found)
  | begin => exact ⟨h.moveTo c .running, step_advance own, on .running⟩
  | @finish ending _ =>
      exact ⟨h.moveTo c (.publishing ending), if_pos (idle rfl), on (.publishing ending)⟩
  | @publish ending =>
      refine ⟨(h.publish c ending.status).moveTo c (.retiring ending), step_advance own, ?_⟩
      rw [← recorded, ← registry]
      exact goes_publish (.retiring ending) own
  | @retire ending =>
      refine ⟨(h.retire c k).moveTo c (.reporting ending), step_advance own, ?_⟩
      rw [← recorded, ← registry]
      exact goes_retire (.reporting ending) own
  | @report ending =>
      refine ⟨h.moveTo c (.left .executor ending.answer), ?_, on (.left .executor ending.answer)⟩
      rw [← counted]
      exact step_advance own
  | @announce x => exact ⟨h.moveTo c (.waiting x), step_advance own, on (.waiting x)⟩
  | @wake x answer ready =>
      refine ⟨h.moveTo c (.left (.joiner x) answer), ?_, on (.left (.joiner x) answer)⟩
      rw [← awaited x rfl, status?, Option.bind_map] at ready
      exact (step_advance own).trans (congrArg (Option.map _) ready)

theorem Alone.joins?_eq (alone : Alone key g h) (mine : g.key? move = some key) :
    h.joins? move.unnested = g.joins? move := by
  cases move with
  | advance c =>
      obtain ⟨caller, known, rfl⟩ := Option.map_eq_some_iff.1 mine
      have beside := joins?_advance (alone.known known rfl)
      rw [joins?_advance known, ← alone.same.registry]
      exact beside
  | _ => rfl

theorem Orderly.joinedBy_unknown (orderly : Orderly g) (absent : g.callers.get? c = none) :
    g.joinedBy c = 0 := by
  have missing := Option.map_eq_none_iff.1 (orderly.unknown c absent)
  rw [joinedBy, missing, Option.map_none, Option.getD_none]

theorem Alone.step (alone : Alone key g h) (whole : Orderly g) (orderly : Orderly h)
    (stepped : g.step move = some (g', seen)) (mine : g.key? move = some key) :
    ∃ h', h.step move.unnested = some (h', seen) ∧ Alone key g' h' := by
  have joins := alone.joins?_eq mine
  have counts := fun x => whole.joinedBy_step stepped x
  rcases step_cases stepped with ⟨c, named, within, rfl, absent, inside, rfl, rfl⟩ |
    ⟨c, caller, phase, status, entry, goes, turn⟩
  · obtain rfl := Option.some.inj mine
    have missing := alone.unknown absent
    have made : h.step (.enter c named none) =
        some ({ h with callers := h.callers.insert c { key := named } }, []) := by
      rw [Coalescer.step, if_neg]
      simp [Table.contains, missing]
    have before : ∀ d, d ≠ c → ({ g with callers := g.callers.insert c { key := named, within } } :
        Coalescer V E).phaseFor? named d = g.phaseFor? named d := by
      intro d apart
      rw [phaseFor?_enter absent, if_neg fun both => apart both.1]
    refine ⟨_, made, ⟨alone.same.registry, fun d => ?_, fun d present => ?_, fun d present => ?_⟩,
      fun d own there => ?_⟩
    · rw [phaseFor?_enter absent, phaseFor?_enter missing, alone.same.phases]
    · rcases eq_or_ne d c with rfl | apart
      · exact (orderly.unknown d missing).trans (whole.unknown d absent).symm
      · exact alone.same.statuses d (before d apart ▸ present)
    · rcases eq_or_ne d c with rfl | apart
      · exact (orderly.joinedBy_unknown missing).trans (whole.joinedBy_unknown absent).symm
      · exact alone.same.joined d (before d apart ▸ present)
    · rw [Table.get?_insert] at there
      split at there
      · obtain rfl := Option.some.inj there
        exact ⟨rfl, rfl⟩
      · exact alone.only d own there
  · obtain rfl := Option.some.inj ((turn.key?_eq goes.known).symm.trans mine)
    obtain ⟨h', made, beside⟩ := alone.turn whole goes.known turn
    -- who calls for the key now has called for it before
    have before : ∀ d, (g'.phaseFor? caller.key d).isSome = true →
        (g.phaseFor? caller.key d).isSome = true := by
      intro d present
      rw [goes.phaseFor?] at present
      split at present
      · rename_i both
        exact isSome_phaseFor?_iff.2 ⟨caller, both.1 ▸ goes.known, rfl⟩
      · exact present
    refine ⟨h', made, ⟨?_, fun d => ?_, fun d present => ?_, fun d present => ?_⟩,
      fun d own there => ?_⟩
    · rw [goes.registry, if_pos rfl, beside.registry, if_pos rfl]
    · rw [goes.phaseFor?, beside.phaseFor?, alone.same.phases]
    · rw [goes.status, beside.status, alone.same.statuses d (before d present)]
    · rw [counts, orderly.joinedBy_step made, joins, alone.same.joined d (before d present)]
    · rw [beside.callers] at there
      split at there
      · obtain rfl := Option.some.inj there
        exact ⟨rfl, rfl⟩
      · exact alone.only d own there

theorem Alone.run (alone : Alone key g h) (whole : Orderly g) (orderly : Orderly h)
    (ran : g.run moves = some (g', seen)) :
    ∃ h', h.run (portion key g moves) = some (h', eventsFor key seen) ∧ Alone key g' h' := by
  induction moves generalizing g h seen with
  | nil =>
      obtain ⟨rfl, rfl⟩ := Prod.mk.inj (Option.some.inj ran)
      exact ⟨h, rfl, alone⟩
  | cons move moves ih =>
      obtain ⟨next, new, rest, stepped, later, rfl⟩ := run_cons ran
      rw [portion, stepped, eventsFor_append, events_step stepped]
      by_cases mine : g.key? move = some key
      · obtain ⟨mid, made, beside⟩ := alone.step whole orderly stepped mine
        obtain ⟨h', after, beside⟩ := ih beside (whole.step stepped) (orderly.step made) later
        refine ⟨h', ?_, beside⟩
        simp only [if_pos mine, List.singleton_append, Coalescer.run, made, after, Option.map_some]
      · have same := (whole.sameAt_step stepped mine).symm.trans alone.same
        obtain ⟨h', after, beside⟩ := ih ⟨same, alone.only⟩ (whole.step stepped) orderly later
        refine ⟨h', ?_, beside⟩
        simp only [if_neg mine, List.nil_append, after]

theorem sameAt_of_portion {others : List (Move V E)} {seen' : List Event}
    (ran : run {} moves = some (g, seen)) (went : run {} others = some (g', seen'))
    (order : portion key {} others = portion key {} moves) :
    SameAt key g g' ∧ eventsFor key seen' = eventsFor key seen := by
  obtain ⟨h, made, beside⟩ := (alone_empty key).run orderly_empty orderly_empty ran
  obtain ⟨h', same, beside'⟩ := (alone_empty key).run orderly_empty orderly_empty went
  rw [order, made] at same
  obtain ⟨rfl, events⟩ := Prod.mk.inj (Option.some.inj same)
  exact ⟨beside.same.trans beside'.same.symm, events.symm⟩

theorem keys_do_not_interfere (ran : run {} moves = some (g, seen)) :
    (∀ key, ∃ h, run {} (portion key {} moves) = some (h, eventsFor key seen) ∧
      Alone key g h) ∧
    ∀ others g' seen', run {} others = some (g', seen') →
      (∀ key, portion key {} others = portion key {} moves →
        SameAt key g g' ∧ eventsFor key seen' = eventsFor key seen) ∧
      ∀ c caller, g.callers.get? c = some caller →
        portion caller.key {} others = portion caller.key {} moves →
          g'.phase? c = some caller.phase := by
  refine ⟨fun key => ?_, fun others g' seen' went => ⟨fun key order => ?_, ?_⟩⟩
  · exact (alone_empty key).run orderly_empty orderly_empty ran
  · exact sameAt_of_portion ran went order
  · intro c caller known order
    obtain ⟨same, -⟩ := sameAt_of_portion ran went order
    refine phase?_eq_some_iff.2 ⟨caller.key, ?_⟩
    rw [same.phases, phaseFor?_of_known known]

/-- In one run the call for another key is made and fails inside the operation, in the other one it
is made beside the operation and fails later. -/
theorem keys_do_not_interfere_nested :
    let moves : List (Move Nat String) :=
      [.enter 0 "a" none, .advance 0, .advance 0, .enter 1 "b" (some 0), .advance 1, .advance 1,
        .finish 1 (.raised "inner"), .advance 1, .enter 2 "a" none, .advance 2, .advance 1,
        .advance 1, .finish 0 (.value 5), .advance 2, .advance 0, .advance 0, .advance 0,
        .advance 2]
    let others : List (Move Nat String) :=
      [.enter 1 "b" none, .advance 1, .advance 1, .enter 0 "a" none, .advance 0, .advance 0,
        .enter 2 "a" none, .advance 2, .finish 0 (.value 5), .advance 2, .advance 0, .advance 0,
        .advance 0, .advance 2, .finish 1 (.raised "inner"), .advance 1, .advance 1, .advance 1]
    ∃ g seen g' seen', run {} moves = some (g, seen) ∧ run {} others = some (g', seen') ∧
      portion "a" {} others = portion "a" {} moves ∧
      portion "b" {} others = portion "b" {} moves ∧
      SameAt "a" g g' ∧ eventsFor "a" seen' = eventsFor "a" seen ∧
      eventsFor "a" seen = [.began 0 "a", .joined 2 "a", .finished 0 "a" 1 false] ∧
      g'.phase? 2 = some (.left (.joiner 0) (.ok (.ok 5))) ∧
      g'.phase? 1 = some (.left .executor (.error (.raised "inner"))) := by
  intro moves others
  obtain ⟨⟨g, seen⟩, ran⟩ : ∃ made, run {} moves = some made := ⟨_, rfl⟩
  obtain ⟨⟨g', seen'⟩, went⟩ : ∃ made, run {} others = some made := ⟨_, rfl⟩
  have reads : (run {} moves).map (fun made => (made.1.callers.get? 1, made.1.callers.get? 2,
      eventsFor "a" made.2)) =
        some (some ⟨"b", some 0, .left .executor (.error (.raised "inner"))⟩,
          some ⟨"a", none, .left (.joiner 0) (.ok (.ok 5))⟩,
          [.began 0 "a", .joined 2 "a", .finished 0 "a" 1 false]) := rfl
  rw [ran] at reads
  simp only [Option.map_some, Option.some.injEq, Prod.mk.injEq] at reads
  obtain ⟨inner, joiner, logged⟩ := reads
  obtain ⟨same, points⟩ := (keys_do_not_interfere ran).2 others g' seen' went
  have orders : portion "a" {} others = portion "a" {} moves := rfl
  have inside : portion "b" {} others = portion "b" {} moves := rfl
  exact ⟨g, seen, g', seen', ran, went, orders, inside, (same "a" orders).1, (same "a" orders).2,
    logged, points 2 _ joiner orders, points 1 _ inner inside⟩

end CacheNode.Coalescer
