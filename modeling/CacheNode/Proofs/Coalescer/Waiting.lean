import CacheNode.Proofs.Coalescer.Keys

/-!
# Nobody waits for a dead call

As long as a call has no outcome, its executor has still to publish one. So every caller can go on
by itself, unless it is inside its operation or waits for such an executor.
-/

namespace CacheNode.Coalescer

variable {V : Type u} {E : Type v}

def Phase.isPending : Phase V E → Bool
  | .registered | .running | .publishing _ => true
  | _ => false

def Role.fault (key text : String) : Role → Fault
  | .executor => .raised text
  | .joiner _ => .abandoned key

def Proceeds (g : Coalescer V E) (c : Nat) : Prop := (g.step (.advance c)).isSome = true

/-- A caller for the key that looks for a call now finds none and begins its own operation. -/
def Open (g : Coalescer V E) (key : String) : Prop :=
  ∀ c caller, g.callers.get? c = some caller → caller.key = key → caller.phase = .entering →
    ∃ g' last, g.step (.advance c) = some (g', []) ∧ g'.registry.get? key = some c ∧
      g'.step (.advance c) = some (last, [.began c key]) ∧ last.phase? c = some .running

variable {g g' last : Coalescer V E} {c d x : Nat} {key text : String}
  {caller executor : Caller V E} {move : Move V E} {moves later : List (Move V E)}
  {p phase : Phase V E} {status : Option (Status V E)} {seen new after : List Event} {role : Role}
  {answer : Answer V E} {ending : Ending V E}

/-! ## Calls without an outcome -/

theorem Ending.status_ne_pending (ending : Ending V E) : ending.status ≠ .pending := by
  cases ending <;> exact fun same => nomatch same

theorem Phase.Records.pending_iff (records : p.Records status) :
    status = some .pending ↔ p.isPending = true := by
  have settled : ∀ ending : Ending V E, (some ending.status = some .pending) ↔ false = true :=
    fun ending => by simp [ending.status_ne_pending]
  have absent : ((none : Option (Status V E)) = some .pending) ↔ false = true := by simp
  cases p with
  | registered => exact ⟨fun _ => rfl, fun _ => records⟩
  | running => exact ⟨fun _ => rfl, fun _ => records⟩
  | publishing ending => exact ⟨fun _ => rfl, fun _ => records⟩
  | retiring ending => exact records ▸ settled ending
  | reporting ending => exact records ▸ settled ending
  | entering => exact records ▸ absent
  | announcing y => exact records ▸ absent
  | waiting y => exact records ▸ absent
  | left role answer =>
      cases role with
      | executor =>
          obtain ⟨ending, -, recorded⟩ := records
          exact recorded ▸ settled ending
      | joiner y => exact records ▸ absent

theorem Orderly.pending_iff (h : Orderly g) : g.status? x = some .pending ↔
    ∃ executor, g.callers.get? x = some executor ∧ executor.phase.isPending = true := by
  constructor
  · intro pending
    cases known : g.callers.get? x with
    | none =>
        rw [h.unknown x known] at pending
        cases pending
    | some executor => exact ⟨executor, rfl, (h.records x executor known).pending_iff.1 pending⟩
  · rintro ⟨executor, known, pending⟩
    exact (h.records x executor known).pending_iff.2 pending

/-! ## Who can go on -/

theorem proceeds_of_ready (known : g.callers.get? c = some caller)
    (outside : caller.phase.isRunning = false) (stays : caller.phase.hasLeft = false)
    (ready : ∀ x, caller.phase = .waiting x →
      ((g.status? x).bind (·.answer? caller.key)).isSome = true) : g.Proceeds c := by
  unfold Proceeds
  rw [step_advance known, advance]
  cases point : caller.phase with
  | waiting x =>
      have ready := ready x point
      rw [status?, Option.bind_map] at ready
      exact Option.isSome_map.trans ready
  | running =>
      rw [point] at outside
      cases outside
  | left role answer =>
      rw [point] at stays
      cases stays
  | _ => rfl

theorem Orderly.proceeds_or_waits (h : Orderly g) (known : g.callers.get? c = some caller)
    (outside : caller.phase.isRunning = false) (stays : caller.phase.hasLeft = false) :
    g.Proceeds c ∨ ∃ x executor, caller.phase = .waiting x ∧ g.callers.get? x = some executor ∧
      executor.key = caller.key ∧ executor.phase.isPending = true := by
  by_cases waits : ∃ x, caller.phase = .waiting x ∧ g.status? x = some .pending
  · obtain ⟨x, point, pending⟩ := waits
    obtain ⟨executor, present, named, -⟩ := h.joined c caller x known (by rw [point]; rfl)
    have owes := (h.records x executor present).pending_iff.1 pending
    exact .inr ⟨x, executor, point, present, named, owes⟩
  · refine .inl (proceeds_of_ready known outside stays fun x point => ?_)
    obtain ⟨-, -, -, recorded⟩ := h.joined c caller x known (by rw [point]; rfl)
    obtain ⟨status, found⟩ := Option.isSome_iff_exists.1 recorded
    rw [found, Option.bind_some]
    cases status with
    | pending => exact absurd ⟨x, point, found⟩ waits
    | done result => rfl
    | abandoned => rfl

theorem finishes_or_encloses (inside : g.phase? c = some .running) :
    (∀ ending, (g.step (.finish c ending)).isSome = true) ∨
      ∃ d other, g.callers.get? d = some other ∧ other.within = some c ∧
        other.phase.hasLeft = false := by
  cases idle : g.isIdleInside c with
  | true => exact .inl fun ending => by rw [step, if_pos idle]; rfl
  | false =>
      rw [isIdleInside, inside] at idle
      obtain ⟨⟨d, other⟩, held, calling⟩ := List.all_eq_false.1 idle
      simp only [Bool.or_eq_true, bne_iff_ne, not_or, not_not, Bool.not_eq_true] at calling
      exact .inr ⟨d, other, (Table.get?_eq_some_iff _ _ _).2 held, calling⟩

/-! ## Operations that fail -/

theorem Ending.answer_eq_error_iff (fault : Fault) :
    ending.answer = .error fault ↔ ∃ text, ending = .raised text ∧ fault = .raised text := by
  cases ending with
  | raised text =>
      constructor
      · rintro ⟨⟩
        exact ⟨text, rfl, rfl⟩
      · rintro ⟨_, ⟨⟩, rfl⟩
        rfl
  | _ => simp [Ending.answer]

theorem Ending.answer?_eq_error_iff (received : ending.status.answer? key = some answer)
    (fault : Fault) :
    answer = .error fault ↔ ∃ text, ending = .raised text ∧ fault = .abandoned key := by
  rw [(answer_of_status received).2]
  cases ending <;> simp [Ending.isRaised]

theorem ended_of_answered (ran : run {} moves = some (g, seen))
    (known : g.callers.get? c = some caller) (joined : caller.phase.joined? = some x)
    (answered : (g.status? x).bind (·.answer? caller.key) = some answer) :
    ∃ ending, endings x moves = [ending] ∧ ending.status.answer? caller.key = some answer := by
  have orderly := orderly_run ran
  obtain ⟨executor, present, named, -⟩ := orderly.joined c caller x known joined
  rw [← named] at answered ⊢
  obtain ⟨ending, ended, recorded, -⟩ :=
    ((recorded_run ran).ways x executor present).settled (orderly.records x executor present)
      answered
  rw [recorded] at answered
  exact ⟨ending, ended, answered⟩

theorem fault_iff (ran : run {} moves = some (g, seen))
    (known : g.callers.get? c = some caller) (left : caller.phase = .left role answer)
    (fault : Fault) : answer = .error fault ↔
      ∃ text, endings (role.execution c) moves = [.raised text] ∧
        fault = role.fault caller.key text := by
  cases role with
  | executor =>
      obtain ⟨ending, executed, rfl⟩ := executed_of_left ran known left
      simp [Role.execution, Role.fault, executed.ended, Ending.answer_eq_error_iff]
  | joiner x =>
      obtain ⟨ending, ended, received⟩ := ended_of_answered ran known (by rw [left]; rfl)
        ((orderly_run ran).answered c caller x answer known left)
      simp [Role.execution, Role.fault, ended, Ending.answer?_eq_error_iff received]

theorem told_of_failure (ran : run {} moves = some (g, seen))
    (known : g.callers.get? c = some caller) (point : caller.phase = .waiting x)
    (failed : endings x moves = [.raised text]) (published : g.status? x ≠ some .pending) :
    ∃ g', g.step (.advance c) = some (g', []) ∧
      g'.phase? c = some (.left (.joiner x) (.error (.abandoned caller.key))) := by
  have joined : caller.phase.joined? = some x := by
    rw [point]
    rfl
  obtain ⟨-, -, -, recorded⟩ := (orderly_run ran).joined c caller x known joined
  obtain ⟨status, found⟩ := Option.isSome_iff_exists.1 recorded
  obtain ⟨answer, answered⟩ : ∃ answer, status.answer? caller.key = some answer := by
    cases status with
    | pending => exact absurd found published
    | _ => exact ⟨_, rfl⟩
  have ready : (g.status? x).bind (·.answer? caller.key) = some answer := by
    rw [found, Option.bind_some, answered]
  obtain ⟨ending, ended, received⟩ := ended_of_answered ran known joined ready
  obtain rfl : ending = .raised text := List.singleton_inj.1 (ended.symm.trans failed)
  obtain rfl := Option.some.inj received
  refine ⟨g.moveTo c (.left (.joiner x) (.error (.abandoned caller.key))), ?_, ?_⟩
  · rw [status?, Option.bind_map] at ready
    rw [step_advance known, advance, point]
    exact congrArg (Option.map _) ready
  · rw [phase?, (goes_on _ known).callers, if_pos rfl, Option.map_some]

/-! ## The next caller for the key -/

theorem Orderly.unregistered_step (h : Orderly g) (stepped : g.step move = some (g', new))
    (free : g.registry.get? key = none)
    (unlooked : ∀ c caller, g.callers.get? c = some caller → caller.key = key →
      g.looker? move ≠ some c) : g'.registry.get? key = none := by
  have revised := h.revises stepped key
  generalize g'.registry.get? key = entry at revised ⊢
  rw [free] at revised
  cases revised with
  | kept => rfl
  | registered known named point =>
      refine absurd ?_ (unlooked _ _ known named)
      rw [looker?, phase?, known, Option.map_some, point]
      rfl

theorem Orderly.unregistered_run (h : Orderly g) (ran : g.run moves = some (g', seen))
    (free : g.registry.get? key = none)
    (unlooked : ∀ c caller, g'.callers.get? c = some caller → caller.key = key →
      looks g c moves = []) : g'.registry.get? key = none := by
  induction moves generalizing g seen with
  | nil =>
      obtain ⟨rfl, rfl⟩ := Prod.mk.inj (Option.some.inj ran)
      exact free
  | cons move moves ih =>
      obtain ⟨next, new, rest, stepped, later, rfl⟩ := run_cons ran
      have none : ∀ c caller, g'.callers.get? c = some caller → caller.key = key →
          g.looker? move ≠ some c ∧ looks next c moves = [] := by
        intro c caller known named
        have none := unlooked c caller known named
        simp only [looks, stepped, List.append_eq_nil_iff] at none
        exact ⟨fun looks => by simp [looks] at none, none.2⟩
      refine ih (h.step stepped) later ?_ fun c caller known named => (none c caller known named).2
      refine h.unregistered_step stepped free fun c caller known named => ?_
      obtain ⟨kept, there, same⟩ := known_run ran known
      exact (none c kept there (same.trans named)).1

theorem opens_of_unregistered (free : g.registry.get? key = none) : g.Open key := by
  intro c caller known named point
  subst named
  have goes := goes_register known free
  have there := goes.callers c
  rw [if_pos rfl] at there
  refine ⟨g.check c caller.key, (g.check c caller.key).moveTo c .running, ?_, ?_, ?_, ?_⟩
  · rw [step_advance known, advance, point]
  · rw [goes.registry, if_pos rfl]
  · rw [step_advance there, advance]
  · rw [phase?, (goes_on _ there).callers, if_pos rfl, Option.map_some]

theorem Orderly.opens (h : Orderly g) (known : g.callers.get? x = some executor)
    (point : executor.phase = .retiring ending) (stepped : g.step (.advance x) = some (g', new))
    (ran : g'.run later = some (last, after))
    (unlooked : ∀ c caller, last.callers.get? c = some caller → caller.key = executor.key →
      looks g' c later = []) : last.Open executor.key := by
  have registered := h.registered known (by rw [point]; rfl)
  have orderly := h.step stepped
  rw [step_advance known, advance, point] at stepped
  obtain ⟨rfl, rfl⟩ := Prod.mk.inj (Option.some.inj stepped)
  have goes := goes_retire (.reporting ending) known
  have removed : ((g.retire x executor.key).moveTo x (.reporting ending)).registry.get?
      executor.key = none := by
    rw [goes.registry, if_pos rfl, if_pos registered]
  exact opens_of_unregistered (orderly.unregistered_run ran removed unlooked)

theorem nobody_waits_in_vain (ran : run {} moves = some (g, seen)) :
    (∀ x, g.status? x = some .pending → ∃ executor, g.callers.get? x = some executor ∧
      executor.phase.isPending = true) ∧
    (∀ c caller answer, g.callers.get? c = some caller → caller.phase = .left .executor answer →
      g.status? c ≠ some .pending ∧ ∀ key, g.registry.get? key ≠ some c) ∧
    (∀ c caller, g.callers.get? c = some caller → caller.phase.hasLeft = false →
      g.Proceeds c ∨
      (caller.phase.isRunning = true ∧ ((∀ ending, (g.step (.finish c ending)).isSome = true) ∨
        ∃ d other, g.callers.get? d = some other ∧ other.within = some c ∧
          other.phase.hasLeft = false)) ∨
      ∃ x executor, caller.phase = .waiting x ∧ g.callers.get? x = some executor ∧
        executor.key = caller.key ∧ executor.phase.isPending = true) ∧
    (∀ c caller role answer, g.callers.get? c = some caller → caller.phase = .left role answer →
      ∀ fault, answer = .error fault ↔ ∃ text,
        endings (role.execution c) moves = [.raised text] ∧ fault = role.fault caller.key text) ∧
    (∀ key, (Fault.abandoned key).message =
      "in-flight call for key " ++ Text.quote key ++ " panicked") ∧
    (∀ c caller x text, g.callers.get? c = some caller → caller.phase = .waiting x →
      endings x moves = [.raised text] → g.status? x ≠ some .pending →
        ∃ g', g.step (.advance c) = some (g', []) ∧
          g'.phase? c = some (.left (.joiner x) (.error (.abandoned caller.key)))) ∧
    (∀ move g' new key, g.step move = some (g', new) → g.key? move ≠ some key →
      SameAt key g g' ∧ eventsFor key new = []) ∧
    ∀ x executor ending g' new later last after, g.callers.get? x = some executor →
      executor.phase = .retiring ending → g.step (.advance x) = some (g', new) →
        g'.run later = some (last, after) →
          (∀ c caller, last.callers.get? c = some caller → caller.key = executor.key →
            looks g' c later = []) → last.Open executor.key := by
  have h := orderly_run ran
  refine ⟨fun x => h.pending_iff.1, ?_, ?_, ?_, fun key => rfl, ?_, ?_, ?_⟩
  · intro c caller answer known left
    refine ⟨fun pending => ?_, h.not_registered known (by rw [left]; rfl)⟩
    have owes := (h.records c caller known).pending_iff.1 pending
    rw [left] at owes
    cases owes
  · intro c caller known stays
    cases inside : caller.phase.isRunning with
    | false =>
        rcases h.proceeds_or_waits known inside stays with proceeds | waits
        · exact .inl proceeds
        · exact .inr (.inr waits)
    | true =>
        refine .inr (.inl ⟨rfl, finishes_or_encloses ?_⟩)
        cases point : caller.phase with
        | running => rw [phase?, known, Option.map_some, point]
        | _ =>
            rw [point] at inside
            cases inside
  · intro c caller role answer known left fault
    exact fault_iff ran known left fault
  · intro c caller x text known point failed published
    exact told_of_failure ran known point failed published
  · intro move g' new key stepped elsewhere
    refine ⟨h.sameAt_step stepped elsewhere, ?_⟩
    rw [events_step stepped, if_neg elsewhere]
  · intro x executor ending g' new later last after known point stepped went unlooked
    exact h.opens known point stepped went unlooked

/-- A call that is made inside an operation fails, then the operation itself does. Somebody waits
for it, and the next caller comes when the call has been taken out. -/
theorem nobody_waits_in_vain_nested :
    let moves : List (Move Nat String) :=
      [.enter 0 "a" none, .advance 0, .advance 0, .enter 1 "a" none, .advance 1, .advance 1,
        .enter 2 "b" (some 0), .advance 2, .advance 2, .finish 2 (.raised "inner"), .advance 2,
        .advance 2, .advance 2, .finish 0 (.raised "outer"), .advance 0]
    ∃ g seen, run {} moves = some (g, seen) ∧ g.phase? 1 = some (.waiting 0) ∧
      (∃ g', g.step (.advance 1) = some (g', []) ∧
        g'.phase? 1 = some (.left (.joiner 0) (.error (.abandoned "a")))) ∧
      (∃ text, endings 2 moves = [.raised text] ∧ Fault.raised "inner" = .raised text) ∧
      (g.status? 2 ≠ some .pending ∧ ∀ key, g.registry.get? key ≠ some 2) ∧
      ∃ g', g.step (.advance 0) = some (g', []) ∧ SameAt "b" g g' ∧
        ∃ last, g'.run [.enter 3 "a" none] = some (last, []) ∧ last.Open "a" := by
  intro moves
  obtain ⟨⟨g, seen⟩, ran⟩ : ∃ made, run {} moves = some made := ⟨_, rfl⟩
  have reads : (run {} moves).map (fun made => (made.1.callers.get? 0, made.1.callers.get? 1,
      made.1.callers.get? 2, made.1.status? 0)) =
        some (some ⟨"a", none, .retiring (.raised "outer")⟩, some ⟨"a", none, .waiting 0⟩,
          some ⟨"b", some 0, .left .executor (.error (.raised "inner"))⟩, some .abandoned) := rfl
  have went : (run {} moves).bind (fun made => (made.1.step (.advance 0)).bind fun next =>
      (next.1.run [.enter 3 "a" none]).map fun last => (next.2, last.2)) = some ([], []) := rfl
  rw [ran] at reads went
  simp only [Option.map_some, Option.some.injEq, Prod.mk.injEq] at reads
  obtain ⟨outer, waits, inner, abandoned⟩ := reads
  rw [Option.bind_some] at went
  obtain ⟨⟨g', new⟩, stepped, went⟩ := Option.bind_eq_some_iff.1 went
  obtain ⟨⟨last, after⟩, went, shown⟩ := Option.map_eq_some_iff.1 went
  simp only [Prod.mk.injEq] at shown
  obtain ⟨rfl, rfl⟩ := shown
  obtain ⟨_, settled, _, faults, _, told, untouched, opens⟩ := nobody_waits_in_vain ran
  have published : g.status? 0 ≠ some .pending := by
    rw [abandoned]
    rintro ⟨⟩
  have elsewhere : g.key? (.advance 0) ≠ some "b" := by
    rw [key?, outer]
    decide
  refine ⟨g, seen, ran, ?_, told 1 _ 0 "outer" waits rfl rfl published,
    (faults 2 _ _ _ inner rfl _).1 rfl, settled 2 _ _ inner rfl, g', stepped,
    (untouched _ _ _ "b" stepped elsewhere).1, last, went, opens 0 _ _ g' [] _ last [] outer rfl stepped went ?_⟩
  · rw [phase?, waits, Option.map_some]
  · intro c caller known named
    simp only [looks, looker?]
    split <;> rfl

end CacheNode.Coalescer
