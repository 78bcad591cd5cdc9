import CacheNode.Coalescer.Basic

/-! # What a move of the coalescer can be -/

namespace CacheNode.Coalescer

variable {V : Type u} {E : Type v}

def status? (g : Coalescer V E) (c : Nat) : Option (Status V E) := (g.calls.get? c).map (·.status)

structure Goes (g g' : Coalescer V E) (c : Nat) (caller : Caller V E) (phase : Phase V E)
    (status : Option (Status V E)) (entry : Option Nat) : Prop where
  known : g.callers.get? c = some caller
  callers : ∀ d, g'.callers.get? d = if d = c then some { caller with phase } else g.callers.get? d
  status : ∀ d, g'.status? d = if d = c then status else g.status? d
  registry : ∀ key, g'.registry.get? key =
    if key = caller.key then entry else g.registry.get? key

inductive Turn (g : Coalescer V E) (c : Nat) (key : String) :
    Move V E → Phase V E → Phase V E → Option (Status V E) → Option Nat → List Event → Prop
  | register (free : g.registry.get? key = none) :
      Turn g c key (.advance c) .entering .registered (some .pending) (some c) []
  | join {x : Nat} (found : g.registry.get? key = some x) :
      Turn g c key (.advance c) .entering (.announcing x) (g.status? c) (some x) []
  | begin : Turn g c key (.advance c) .registered .running (g.status? c) (g.registry.get? key)
      [.began c key]
  | finish {ending : Ending V E} (idle : g.isIdleInside c = true) :
      Turn g c key (.finish c ending) .running (.publishing ending) (g.status? c)
        (g.registry.get? key) []
  | publish {ending : Ending V E} :
      Turn g c key (.advance c) (.publishing ending) (.retiring ending)
        ((g.status? c).map fun _ => ending.status) (g.registry.get? key) []
  | retire {ending : Ending V E} :
      Turn g c key (.advance c) (.retiring ending) (.reporting ending) (g.status? c)
        (if g.registry.get? key = some c then none else g.registry.get? key) []
  | report {ending : Ending V E} :
      Turn g c key (.advance c) (.reporting ending) (.left .executor ending.answer) (g.status? c)
        (g.registry.get? key) [.finished c key (g.joinedBy c) ending.isRaised]
  | announce {x : Nat} :
      Turn g c key (.advance c) (.announcing x) (.waiting x) (g.status? c) (g.registry.get? key)
        [.joined c key]
  | wake {x : Nat} {answer : Answer V E}
      (ready : (g.status? x).bind (·.answer? key) = some answer) :
      Turn g c key (.advance c) (.waiting x) (.left (.joiner x) answer) (g.status? c)
        (g.registry.get? key) []

variable {g g' base : Coalescer V E} {c : Nat} {caller : Caller V E} {move : Move V E}
  {seen : List Event}

theorem goes_moveTo {status : Option (Status V E)} {entry : Option Nat} (phase : Phase V E)
    (known : g.callers.get? c = some caller) (same : base.callers = g.callers)
    (statuses : ∀ d, base.status? d = if d = c then status else g.status? d)
    (registry : ∀ key, base.registry.get? key =
      if key = caller.key then entry else g.registry.get? key) :
    Goes g (base.moveTo c phase) c caller phase status entry where
  known := known
  callers d := by
    unfold moveTo
    rw [Table.get?_modify, same]
    split
    · rename_i equal
      rw [equal, known, Option.map_some]
    · rfl
  status := statuses
  registry := registry

theorem eq_ite_self {α : Type u} {β : Type v} [DecidableEq α] (f : α → β) (a b : α) :
    f b = if b = a then f a else f b := by
  split
  · rename_i equal
    rw [equal]
  · rfl

theorem goes_on (phase : Phase V E) (known : g.callers.get? c = some caller) :
    Goes g (g.moveTo c phase) c caller phase (g.status? c) (g.registry.get? caller.key) :=
  goes_moveTo phase known rfl (eq_ite_self g.status? c) (eq_ite_self g.registry.get? caller.key)

theorem goes_register (known : g.callers.get? c = some caller)
    (free : g.registry.get? caller.key = none) :
    Goes g (g.check c caller.key) c caller .registered (some .pending) (some c) := by
  unfold check
  rw [free]
  refine goes_moveTo .registered known ?_ ?_ ?_
  · rfl
  · intro d
    simp only [status?, Table.get?_insert]
    split <;> rfl
  · intro key
    exact Table.get?_insert g.registry caller.key key c

theorem goes_join {x : Nat} (known : g.callers.get? c = some caller)
    (found : g.registry.get? caller.key = some x) :
    Goes g (g.check c caller.key) c caller (.announcing x) (g.status? c) (some x) := by
  unfold check
  rw [found]
  refine goes_moveTo (.announcing x) known ?_ ?_ ?_
  · rfl
  · intro d
    have counted : ({ g with calls := g.calls.modify x fun call =>
        { call with joined := call.joined + 1 } } : Coalescer V E).status? d = g.status? d := by
      simp only [status?, Table.get?_modify]
      split
      · cases g.calls.get? d <;> rfl
      · rfl
    rw [counted]
    exact eq_ite_self g.status? c d
  · rw [← found]
    exact eq_ite_self g.registry.get? caller.key

theorem goes_publish {status : Status V E} (phase : Phase V E)
    (known : g.callers.get? c = some caller) :
    Goes g ((g.publish c status).moveTo c phase) c caller phase ((g.status? c).map fun _ => status)
      (g.registry.get? caller.key) := by
  refine goes_moveTo phase known ?_ ?_ (eq_ite_self g.registry.get? caller.key)
  · rfl
  · intro d
    simp only [publish, status?, Table.get?_modify]
    split
    · rename_i equal
      rw [equal]
      cases g.calls.get? c <;> rfl
    · rfl

theorem goes_retire (phase : Phase V E) (known : g.callers.get? c = some caller) :
    Goes g ((g.retire c caller.key).moveTo c phase) c caller phase (g.status? c)
      (if g.registry.get? caller.key = some c then none else g.registry.get? caller.key) := by
  unfold retire
  split
  · refine goes_moveTo phase known ?_ (eq_ite_self g.status? c) ?_
    · rfl
    · intro key
      exact Table.get?_erase g.registry caller.key key
  · exact goes_on phase known

theorem step_advance (known : g.callers.get? c = some caller) :
    g.step (.advance c) = g.advance c caller := by
  rw [step, known, Option.bind_some]

theorem advance_cases (known : g.callers.get? c = some caller)
    (advanced : g.advance c caller = some (g', seen)) :
    ∃ phase status entry, Goes g g' c caller phase status entry ∧
      Turn g c caller.key (.advance c) caller.phase phase status entry seen := by
  unfold advance at advanced
  cases point : caller.phase with
  | entering =>
      rw [point] at advanced
      obtain ⟨rfl, rfl⟩ := Prod.mk.inj (Option.some.inj advanced)
      cases entry : g.registry.get? caller.key with
      | none => exact ⟨_, _, _, goes_register known entry, .register entry⟩
      | some x => exact ⟨_, _, _, goes_join known entry, .join entry⟩
  | registered =>
      rw [point] at advanced
      obtain ⟨rfl, rfl⟩ := Prod.mk.inj (Option.some.inj advanced)
      exact ⟨_, _, _, goes_on .running known, .begin⟩
  | running =>
      rw [point] at advanced
      cases advanced
  | publishing ending =>
      rw [point] at advanced
      obtain ⟨rfl, rfl⟩ := Prod.mk.inj (Option.some.inj advanced)
      exact ⟨_, _, _, goes_publish (.retiring ending) known, .publish⟩
  | retiring ending =>
      rw [point] at advanced
      obtain ⟨rfl, rfl⟩ := Prod.mk.inj (Option.some.inj advanced)
      exact ⟨_, _, _, goes_retire (.reporting ending) known, .retire⟩
  | reporting ending =>
      rw [point] at advanced
      obtain ⟨rfl, rfl⟩ := Prod.mk.inj (Option.some.inj advanced)
      exact ⟨_, _, _, goes_on (.left .executor ending.answer) known, .report⟩
  | announcing x =>
      rw [point] at advanced
      obtain ⟨rfl, rfl⟩ := Prod.mk.inj (Option.some.inj advanced)
      exact ⟨_, _, _, goes_on (.waiting x) known, .announce⟩
  | waiting x =>
      rw [point] at advanced
      obtain ⟨answer, ready, made⟩ := Option.map_eq_some_iff.1 advanced
      obtain ⟨rfl, rfl⟩ := Prod.mk.inj made
      refine ⟨_, _, _, goes_on (.left (.joiner x) answer) known, .wake ?_⟩
      rw [status?, Option.bind_map]
      exact ready
  | left role answer =>
      rw [point] at advanced
      cases advanced

theorem step_cases (stepped : g.step move = some (g', seen)) :
    (∃ c key within, move = .enter c key within ∧ g.callers.get? c = none ∧
      (∀ p ∈ within, g.isIdleInside p = true) ∧ seen = [] ∧
      g' = { g with callers := g.callers.insert c { key, within } }) ∨
    ∃ c caller phase status entry, Goes g g' c caller phase status entry ∧
      Turn g c caller.key move caller.phase phase status entry seen := by
  cases move with
  | enter c key within =>
      left
      simp only [step] at stepped
      split at stepped
      · cases stepped
      · rename_i possible
        obtain ⟨rfl, rfl⟩ := Prod.mk.inj (Option.some.inj stepped)
        rw [Bool.or_eq_true, not_or] at possible
        refine ⟨c, key, within, rfl, ?_, ?_, rfl, rfl⟩
        · simpa [Table.contains] using possible.1
        · intro p inside
          obtain rfl := Option.mem_def.1 inside
          simpa using possible.2
  | finish c ending =>
      right
      simp only [step] at stepped
      split at stepped
      · rename_i idle
        obtain ⟨rfl, rfl⟩ := Prod.mk.inj (Option.some.inj stepped)
        have running := idle
        unfold isIdleInside phase? at running
        cases known : g.callers.get? c with
        | none => simp [known] at running
        | some caller =>
            refine ⟨c, caller, _, _, _, goes_on (.publishing ending) known, ?_⟩
            cases point : caller.phase with
            | running => exact .finish idle
            | _ => simp [known, point, Phase.isRunning] at running
      · cases stepped
  | advance c =>
      right
      obtain ⟨caller, known, advanced⟩ := Option.bind_eq_some_iff.1 stepped
      obtain ⟨phase, status, entry, goes, turn⟩ := advance_cases known advanced
      exact ⟨c, caller, phase, status, entry, goes, turn⟩

theorem run_append (g : Coalescer V E) (moves later : List (Move V E)) :
    g.run (moves ++ later) = (g.run moves).bind fun (mid, before) =>
      (mid.run later).map fun (last, after) => (last, before ++ after) := by
  induction moves generalizing g with
  | nil => cases made : g.run later <;> simp [run, made]
  | cons move moves ih =>
      simp only [List.cons_append, run]
      cases g.step move with
      | none => rfl
      | some made =>
          obtain ⟨next, new⟩ := made
          simp only [ih]
          cases next.run moves with
          | none => rfl
          | some rest =>
              obtain ⟨mid, before⟩ := rest
              cases made : mid.run later <;> simp [made]

theorem run_cons {moves : List (Move V E)} (ran : g.run (move :: moves) = some (g', seen)) :
    ∃ next new rest, g.step move = some (next, new) ∧ next.run moves = some (g', rest) ∧
      seen = new ++ rest := by
  simp only [run] at ran
  cases stepped : g.step move with
  | none =>
      rw [stepped] at ran
      cases ran
  | some made =>
      obtain ⟨next, new⟩ := made
      rw [stepped] at ran
      obtain ⟨⟨last, rest⟩, later, made⟩ := Option.map_eq_some_iff.1 ran
      obtain ⟨rfl, rfl⟩ := Prod.mk.inj made
      exact ⟨next, new, rest, rfl, later, rfl⟩

theorem run_preserves {P : Coalescer V E → Prop}
    (keeps : ∀ s s' move new, s.step move = some (s', new) → P s → P s')
    {moves : List (Move V E)} (ran : g.run moves = some (g', seen)) (holds : P g) : P g' := by
  induction moves generalizing g seen with
  | nil =>
      obtain ⟨rfl, rfl⟩ := Prod.mk.inj (Option.some.inj ran)
      exact holds
  | cons move moves ih =>
      obtain ⟨next, new, rest, stepped, later, rfl⟩ := run_cons ran
      exact ih later (keeps g next move new stepped holds)

theorem run_concat {moves : List (Move V E)} (ran : g.run (moves ++ [move]) = some (g', seen)) :
    ∃ before past new, g.run moves = some (before, past) ∧ before.step move = some (g', new) ∧
      seen = past ++ new := by
  induction moves generalizing g seen with
  | nil =>
      obtain ⟨next, new, rest, stepped, later, rfl⟩ := run_cons ran
      obtain ⟨rfl, rfl⟩ := Prod.mk.inj (Option.some.inj later)
      exact ⟨g, [], new, rfl, stepped, by simp⟩
  | cons first moves ih =>
      obtain ⟨next, events, rest, stepped, later, rfl⟩ := run_cons ran
      obtain ⟨before, past, new, earlier, final, rfl⟩ := ih later
      refine ⟨before, events ++ past, new, ?_, final, by simp⟩
      simp [run, stepped, earlier]

end CacheNode.Coalescer
