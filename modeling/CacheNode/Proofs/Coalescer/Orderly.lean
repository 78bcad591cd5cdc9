import CacheNode.Proofs.Coalescer.Turns
import Mathlib.Data.List.Induction

/-! # What holds in every state of the coalescer -/

namespace CacheNode.Coalescer

variable {V : Type u} {E : Type v}

def Phase.isRegistered : Phase V E → Bool
  | .registered | .running | .publishing _ | .retiring _ => true
  | _ => false

def Phase.joined? : Phase V E → Option Nat
  | .announcing x | .waiting x | .left (.joiner x) _ => some x
  | _ => none

/-- What the status of a caller's own call is at each point. -/
def Phase.Records : Phase V E → Option (Status V E) → Prop
  | .entering, status => status = none
  | .registered, status | .running, status | .publishing _, status => status = some .pending
  | .retiring ending, status | .reporting ending, status => status = some ending.status
  | .left .executor answer, status =>
      ∃ ending : Ending V E, answer = ending.answer ∧ status = some ending.status
  | .announcing _, status | .waiting _, status | .left (.joiner _) _, status => status = none

structure Orderly (g : Coalescer V E) : Prop where
  registry : ∀ key x, g.registry.get? key = some x ↔
    ∃ caller, g.callers.get? x = some caller ∧ caller.key = key ∧ caller.phase.isRegistered = true
  records : ∀ c caller, g.callers.get? c = some caller → caller.phase.Records (g.status? c)
  unknown : ∀ c, g.callers.get? c = none → g.status? c = none
  joined : ∀ c caller x, g.callers.get? c = some caller → caller.phase.joined? = some x →
    ∃ executor, g.callers.get? x = some executor ∧ executor.key = caller.key ∧
      (g.status? x).isSome = true
  answered : ∀ c caller x answer, g.callers.get? c = some caller →
    caller.phase = .left (.joiner x) answer →
      (g.status? x).bind (·.answer? caller.key) = some answer

theorem orderly_empty : Orderly ({} : Coalescer V E) := by
  constructor <;> simp [status?]

variable {g g' : Coalescer V E} {c x : Nat} {key : String} {caller : Caller V E}
  {move : Move V E} {p phase : Phase V E} {status : Option (Status V E)} {entry : Option Nat}
  {seen : List Event}

theorem Phase.Records.of_isRegistered (records : p.Records status)
    (registered : p.isRegistered = true) : status.isSome = true := by
  cases p with
  | registered => exact records ▸ rfl
  | running => exact records ▸ rfl
  | publishing ending => exact records ▸ rfl
  | retiring ending => exact records ▸ rfl
  | _ => cases registered

theorem Orderly.registered (h : Orderly g) (known : g.callers.get? c = some caller)
    (registered : caller.phase.isRegistered = true) : g.registry.get? caller.key = some c :=
  (h.registry caller.key c).2 ⟨caller, known, rfl, registered⟩

theorem Orderly.not_registered (h : Orderly g) (known : g.callers.get? c = some caller)
    (elsewhere : caller.phase.isRegistered = false) (key : String) :
    g.registry.get? key ≠ some c := by
  intro found
  obtain ⟨other, same, _, registered⟩ := (h.registry key c).1 found
  obtain rfl := Option.some.inj (known.symm.trans same)
  rw [elsewhere] at registered
  cases registered

/-! ## A new caller -/

theorem Orderly.enter {within : Option Nat} (h : Orderly g) (new : g.callers.get? c = none) :
    Orderly { g with callers := g.callers.insert c { key, within } } := by
  have others : ∀ d caller, g.callers.get? d = some caller →
      (g.callers.insert c { key, within }).get? d = some caller := by
    intro d caller known
    rw [Table.get?_insert, if_neg]
    · exact known
    · rintro rfl
      rw [new] at known
      cases known
  have before : ∀ d caller, (g.callers.insert c { key, within }).get? d = some caller →
      d = c ∧ caller = { key, within } ∨ g.callers.get? d = some caller := by
    intro d caller known
    rw [Table.get?_insert] at known
    split at known
    · rename_i equal
      exact .inl ⟨equal, (Option.some.inj known).symm⟩
    · exact .inr known
  refine ⟨?_, ?_, ?_, ?_, ?_⟩
  · intro k x
    refine (h.registry k x).trans ⟨?_, ?_⟩
    · intro given
      obtain ⟨caller, known, named, registered⟩ := given
      exact ⟨caller, others x caller known, named, registered⟩
    · intro given
      obtain ⟨caller, known, named, registered⟩ := given
      rcases before x caller known with ⟨_, rfl⟩ | known
      · cases registered
      · exact ⟨caller, known, named, registered⟩
  · intro d caller known
    rcases before d caller known with ⟨rfl, rfl⟩ | known
    · exact h.unknown d new
    · exact h.records d caller known
  · intro d unknown
    apply h.unknown d
    cases known : g.callers.get? d with
    | none => rfl
    | some caller =>
        have still := others d caller known
        rw [unknown] at still
        cases still
  · intro d caller x known joined
    rcases before d caller known with ⟨_, rfl⟩ | known
    · cases joined
    · obtain ⟨executor, present, rest⟩ := h.joined d caller x known joined
      exact ⟨executor, others x executor present, rest⟩
  · intro d caller x answer known left
    rcases before d caller known with ⟨_, rfl⟩ | known
    · cases left
    · exact h.answered d caller x answer known left

/-! ## A caller that goes on -/

theorem Turn.registered_iff (turn : Turn g c caller.key move caller.phase phase status entry seen)
    (h : Orderly g) (known : g.callers.get? c = some caller) (x : Nat) :
    entry = some x ↔
      if x = c then phase.isRegistered = true else g.registry.get? caller.key = some x := by
  -- at a registered point the entry names the caller already, at the others it cannot
  have present := h.registered known
  have absent := fun elsewhere => h.not_registered known elsewhere caller.key
  obtain ⟨key, within, p⟩ := caller
  cases turn with
  | register free =>
      by_cases same : x = c
      · simp [same, Phase.isRegistered]
      · simpa [same, free] using Ne.symm same
  | join found =>
      by_cases same : x = c
      · have other := absent rfl
        rw [found] at other
        simpa [same, Phase.isRegistered] using other
      · simp only [same, found, if_false]
  | begin =>
      have here := present rfl
      by_cases same : x = c <;> simp [same, here, Phase.isRegistered]
  | finish idle =>
      have here := present rfl
      by_cases same : x = c <;> simp [same, here, Phase.isRegistered]
  | publish =>
      have here := present rfl
      by_cases same : x = c <;> simp [same, here, Phase.isRegistered]
  | retire =>
      have here := present rfl
      by_cases same : x = c
      · simp [same, here, Phase.isRegistered]
      · simpa [same, here] using Ne.symm same
  | report =>
      by_cases same : x = c
      · simpa [same, Phase.isRegistered] using absent rfl
      · simp only [same, if_false]
  | announce =>
      by_cases same : x = c
      · simpa [same, Phase.isRegistered] using absent rfl
      · simp only [same, if_false]
  | wake ready =>
      by_cases same : x = c
      · simpa [same, Phase.isRegistered] using absent rfl
      · simp only [same, if_false]

theorem Turn.records (turn : Turn g c key move p phase status entry seen)
    (before : p.Records (g.status? c)) : phase.Records status := by
  cases turn with
  | register free => rfl
  | join found => exact before
  | begin => exact before
  | finish idle => exact before
  | publish =>
      rw [show g.status? c = some .pending from before]
      rfl
  | retire => exact before
  | report => exact ⟨_, rfl, before⟩
  | announce => exact before
  | wake ready => exact before

theorem Turn.isSome_status (turn : Turn g c key move p phase status entry seen)
    (some : (g.status? c).isSome = true) : status.isSome = true := by
  cases turn with
  | register free => rfl
  | publish => simpa using some
  | _ => exact some

theorem Turn.settled (turn : Turn g c key move p phase status entry seen)
    (before : p.Records (g.status? c)) {k : String} {answer : Answer V E}
    (answered : (g.status? c).bind (·.answer? k) = some answer) :
    status.bind (·.answer? k) = some answer := by
  cases turn with
  | register free =>
      rw [show g.status? c = none from before] at answered
      cases answered
  | publish =>
      rw [show g.status? c = some .pending from before] at answered
      cases answered
  | _ => exact answered

theorem Turn.joined (turn : Turn g c caller.key move caller.phase phase status entry seen)
    (h : Orderly g) (known : g.callers.get? c = some caller) (joins : phase.joined? = some x) :
    ∃ executor, g.callers.get? x = some executor ∧ executor.key = caller.key ∧
      (g.status? x).isSome = true := by
  have before := h.joined c caller x known
  obtain ⟨key, within, p⟩ := caller
  cases turn with
  | join found =>
      obtain rfl := Option.some.inj joins
      obtain ⟨executor, present, named, registered⟩ := (h.registry _ _).1 found
      exact ⟨executor, present, named, (h.records _ _ present).of_isRegistered registered⟩
  | announce => exact before joins
  | wake ready => exact before joins
  | register free => cases joins
  | begin => cases joins
  | finish idle => cases joins
  | publish => cases joins
  | retire => cases joins
  | report => cases joins

theorem Turn.answered {answer : Answer V E}
    (turn : Turn g c key move p phase status entry seen) (left : phase = .left (.joiner x) answer) :
    (g.status? x).bind (·.answer? key) = some answer := by
  cases turn with
  | wake ready =>
      cases left
      exact ready
  | _ => cases left

theorem Orderly.go (h : Orderly g) (goes : Goes g g' c caller phase status entry)
    (turn : Turn g c caller.key move caller.phase phase status entry seen) : Orderly g' := by
  have records := h.records c caller goes.known
  -- What was known of an executor stays known: it keeps its key and has a status still.
  have executes : ∀ x k, (∃ executor, g.callers.get? x = some executor ∧ executor.key = k ∧
      (g.status? x).isSome = true) → ∃ executor, g'.callers.get? x = some executor ∧
        executor.key = k ∧ (g'.status? x).isSome = true := by
    rintro x k ⟨executor, known, named, some⟩
    rw [goes.callers, goes.status]
    by_cases same : x = c
    · subst same
      obtain rfl := Option.some.inj (goes.known.symm.trans known)
      rw [if_pos rfl, if_pos rfl]
      exact ⟨{ caller with phase }, rfl, named, turn.isSome_status some⟩
    · rw [if_neg same, if_neg same]
      exact ⟨executor, known, named, some⟩
  have settled : ∀ x k answer, (g.status? x).bind (·.answer? k) = some answer →
      (g'.status? x).bind (·.answer? k) = some answer := by
    intro x k answer answered
    rw [goes.status]
    split
    · rename_i same
      rw [same] at answered
      exact turn.settled records answered
    · exact answered
  refine ⟨?_, ?_, ?_, ?_, ?_⟩
  · intro k x
    rw [goes.registry, goes.callers]
    have here := turn.registered_iff h goes.known x
    by_cases same : x = c
    · subst same
      simp only [if_true] at here ⊢
      split
      · rename_i named
        rw [here]
        constructor
        · intro registered
          exact ⟨_, rfl, named.symm, registered⟩
        · intro given
          obtain ⟨other, equal, _, registered⟩ := given
          obtain rfl := Option.some.inj equal
          exact registered
      · rename_i elsewhere
        constructor
        · intro found
          obtain ⟨other, known, named, _⟩ := (h.registry k x).1 found
          obtain rfl := Option.some.inj (goes.known.symm.trans known)
          exact absurd named.symm elsewhere
        · intro given
          obtain ⟨other, equal, named, _⟩ := given
          obtain rfl := Option.some.inj equal
          exact absurd named.symm elsewhere
    · simp only [same, if_false] at here ⊢
      rw [← h.registry k x]
      split
      · rename_i named
        rw [here, named]
      · rfl
  · intro d other known
    rw [goes.callers] at known
    rw [goes.status]
    split at known
    · rename_i same
      obtain rfl := Option.some.inj known
      rw [if_pos same]
      exact turn.records records
    · rename_i apart
      rw [if_neg apart]
      exact h.records d other known
  · intro d unknown
    rw [goes.callers] at unknown
    rw [goes.status]
    split at unknown
    · cases unknown
    · rename_i apart
      rw [if_neg apart]
      exact h.unknown d unknown
  · intro d other x known joins
    rw [goes.callers] at known
    apply executes
    split at known
    · obtain rfl := Option.some.inj known
      exact turn.joined h goes.known joins
    · exact h.joined d other x known joins
  · intro d other x answer known left
    rw [goes.callers] at known
    apply settled
    split at known
    · obtain rfl := Option.some.inj known
      exact turn.answered left
    · exact h.answered d other x answer known left

theorem Orderly.step (h : Orderly g) (stepped : g.step move = some (g', seen)) : Orderly g' := by
  rcases step_cases stepped with ⟨c, key, within, rfl, new, inside, rfl, rfl⟩ |
    ⟨c, caller, phase, status, entry, goes, turn⟩
  · exact h.enter new
  · exact h.go goes turn

theorem orderly_run {moves : List (Move V E)} (ran : run {} moves = some (g, seen)) :
    Orderly g := by
  induction moves using List.reverseRecOn generalizing g seen with
  | nil =>
      obtain ⟨rfl, rfl⟩ := Prod.mk.inj (Option.some.inj ran)
      exact orderly_empty
  | append_singleton moves move ih =>
      obtain ⟨before, past, new, earlier, stepped, rfl⟩ := run_concat ran
      exact (ih earlier).step stepped

end CacheNode.Coalescer
