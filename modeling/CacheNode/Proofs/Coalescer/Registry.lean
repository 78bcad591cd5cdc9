import CacheNode.Proofs.Coalescer.Orderly
import Mathlib.Data.List.Nodup
import Mathlib.Data.List.Perm.Basic

/-!
# What the registry holds

An entry changes in two ways only (`Revises`): a caller that finds none puts its own call there, and
an executor takes its own call out.
-/

namespace CacheNode.Coalescer

variable {V : Type u} {E : Type v}

inductive Revises (g : Coalescer V E) (key : String) :
    Move V E → Option Nat → Option Nat → Prop
  | kept {move : Move V E} {entry : Option Nat} : Revises g key move entry entry
  | registered {c : Nat} {caller : Caller V E} (known : g.callers.get? c = some caller)
      (named : caller.key = key) (point : caller.phase = .entering) :
      Revises g key (.advance c) none (some c)
  | removed {c : Nat} {caller : Caller V E} {ending : Ending V E}
      (known : g.callers.get? c = some caller) (named : caller.key = key)
      (point : caller.phase = .retiring ending) : Revises g key (.advance c) (some c) none

variable {g g' : Coalescer V E} {c x : Nat} {key : String} {caller : Caller V E}
  {move : Move V E} {moves : List (Move V E)} {phase : Phase V E}
  {status : Option (Status V E)} {entry : Option Nat} {seen new : List Event}

theorem Turn.revises (turn : Turn g c caller.key move caller.phase phase status entry seen)
    (h : Orderly g) (known : g.callers.get? c = some caller) :
    Revises g caller.key move (g.registry.get? caller.key) entry := by
  have present := h.registered known
  generalize point : caller.phase = p at turn present
  cases turn with
  | register free =>
      rw [free]
      exact .registered known rfl point
  | join found =>
      rw [found]
      exact .kept
  | retire =>
      rw [present rfl, if_pos rfl]
      exact .removed known rfl point
  | _ => exact .kept

theorem Orderly.revises (h : Orderly g) (stepped : g.step move = some (g', new)) (key : String) :
    Revises g key move (g.registry.get? key) (g'.registry.get? key) := by
  rcases step_cases stepped with ⟨c, named, within, rfl, absent, inside, rfl, rfl⟩ |
    ⟨c, caller, phase, status, entry, goes, turn⟩
  · exact .kept
  · rw [goes.registry]
    split
    · rename_i named
      subst named
      exact turn.revises h goes.known
    · exact .kept

theorem Orderly.registered_once (h : Orderly g) : (g.registry.bindings.map (·.2)).Nodup := by
  have distinct := g.registry.distinct
  have entries : g.registry.bindings.Nodup := List.Nodup.of_map _ distinct
  apply entries.map_on
  rintro ⟨key, x⟩ mem ⟨other, y⟩ mem' same
  obtain rfl : x = y := same
  obtain ⟨caller, known, named, _⟩ := (h.registry key x).1 ((Table.get?_eq_some_iff _ _ _).2 mem)
  obtain ⟨caller', known', named', _⟩ :=
    (h.registry other x).1 ((Table.get?_eq_some_iff _ _ _).2 mem')
  obtain rfl := Option.some.inj (known.symm.trans known')
  rw [← named, ← named']

theorem Orderly.inFlight_eq (h : Orderly g) :
    g.inFlight = g.callers.bindings.countP fun b => b.2.phase.isRegistered := by
  have once := h.registered_once
  have executors :
      ((g.callers.bindings.filter fun b => b.2.phase.isRegistered).map (·.1)).Nodup :=
    g.callers.distinct.sublist (List.filter_sublist.map _)
  have same : (g.registry.bindings.map (·.2)).Perm
      ((g.callers.bindings.filter fun b => b.2.phase.isRegistered).map (·.1)) := by
    apply (List.perm_ext_iff_of_nodup once executors).2
    intro x
    constructor
    · intro mem
      obtain ⟨⟨key, x⟩, held, rfl⟩ := List.mem_map.1 mem
      obtain ⟨caller, known, _, registered⟩ :=
        (h.registry key x).1 ((Table.get?_eq_some_iff _ _ _).2 held)
      refine List.mem_map.2 ⟨(x, caller), List.mem_filter.2 ⟨?_, registered⟩, rfl⟩
      exact (Table.get?_eq_some_iff _ _ _).1 known
    · intro mem
      obtain ⟨⟨x, caller⟩, held, rfl⟩ := List.mem_map.1 mem
      obtain ⟨held, registered⟩ := List.mem_filter.1 held
      have found := h.registered ((Table.get?_eq_some_iff _ _ _).2 held) registered
      exact List.mem_map_of_mem ((Table.get?_eq_some_iff _ _ _).1 found)
  have length := same.length_eq
  rw [List.length_map, List.length_map] at length
  unfold inFlight Table.size
  rw [length, List.countP_eq_length_filter]

theorem Phase.isRegistered_of_isRunning (running : phase.isRunning = true) :
    phase.isRegistered = true := by
  cases phase with
  | running => rfl
  | _ => cases running

theorem Phase.not_isRegistered_of_hasLeft (left : phase.hasLeft = true) :
    phase.isRegistered = false := by
  cases phase with
  | left role answer => rfl
  | _ => cases left

theorem registry_exact (ran : run {} moves = some (g, seen)) :
    (∀ c d caller other, g.callers.get? c = some caller → g.callers.get? d = some other →
      caller.phase.isRunning = true → other.phase.isRunning = true → caller.key = other.key →
        c = d) ∧
    (∀ key x, g.registry.get? key = some x ↔ ∃ executor, g.callers.get? x = some executor ∧
      executor.key = key ∧ executor.phase.isRegistered = true) ∧
    (∀ key x, g.registry.get? key = some x → (g.calls.get? x).isSome = true) ∧
    (∀ c caller ending, g.callers.get? c = some caller → caller.phase = .retiring ending →
      g.registry.get? caller.key = some c) ∧
    (∀ move g' new, g.step move = some (g', new) → ∀ key,
      Revises g key move (g.registry.get? key) (g'.registry.get? key)) ∧
    g.inFlight = g.callers.bindings.countP (fun b => b.2.phase.isRegistered) ∧
    ((∀ c caller, g.callers.get? c = some caller → caller.phase.hasLeft = true) →
      g.inFlight = 0) := by
  have h := orderly_run ran
  refine ⟨?_, h.registry, ?_, ?_, fun _ _ _ stepped => h.revises stepped, h.inFlight_eq, ?_⟩
  · intro c d caller other known there running running' same
    have here := h.registered known (Phase.isRegistered_of_isRunning running)
    have found := h.registered there (Phase.isRegistered_of_isRunning running')
    rw [same, found] at here
    exact (Option.some.inj here).symm
  · intro key x found
    obtain ⟨executor, known, _, registered⟩ := (h.registry key x).1 found
    have recorded := (h.records x executor known).of_isRegistered registered
    rwa [status?, Option.isSome_map] at recorded
  · intro c caller ending known point
    apply h.registered known
    rw [point]
    rfl
  · intro left
    rw [h.inFlight_eq, List.countP_eq_zero]
    rintro ⟨c, caller⟩ mem
    have known := (Table.get?_eq_some_iff _ _ _).2 mem
    simp [Phase.not_isRegistered_of_hasLeft (left c caller known)]

/-- While one operation waits to be joined and another, nested in it, has just failed. -/
theorem registry_exact_nested :
    let moves : List (Move Nat String) :=
      [.enter 0 "a" none, .advance 0, .advance 0, .enter 1 "a" none, .advance 1,
        .enter 2 "b" (some 0), .advance 2, .advance 2, .finish 2 (.raised "no"), .advance 2]
    ∃ g seen, run {} moves = some (g, seen) ∧ g.registry.get? "b" = some 2 ∧
      (∃ executor, g.callers.get? 2 = some executor ∧ executor.key = "b" ∧
        executor.phase.isRegistered = true) ∧
      g.callers.bindings.countP (fun b => b.2.phase.isRegistered) = 2 ∧
      ∃ g' new, g.step (.advance 2) = some (g', new) ∧
        Revises g "a" (.advance 2) (some 0) (g'.registry.get? "a") ∧
        g'.registry.get? "b" = none := by
  intro moves
  obtain ⟨⟨g, seen⟩, ran⟩ : ∃ made, run {} moves = some made := ⟨_, rfl⟩
  have reads : (run {} moves).map (fun made => (made.1.inFlight, made.1.registry.get? "a",
      made.1.registry.get? "b", (made.1.step (.advance 2)).map fun next =>
        next.1.registry.get? "b")) = some (2, some 0, some 2, some none) := rfl
  rw [ran, Option.map_some, Option.some.injEq, Prod.mk.injEq, Prod.mk.injEq, Prod.mk.injEq] at reads
  obtain ⟨two, outer, inner, gone⟩ := reads
  obtain ⟨⟨g', new⟩, stepped, gone⟩ := Option.map_eq_some_iff.1 gone
  obtain ⟨_, named, _, _, revises, counted, _⟩ := registry_exact ran
  refine ⟨g, seen, ran, inner, (named "b" 2).1 inner, counted.symm.trans two, g', new, stepped,
    ?_, gone⟩
  rw [← outer]
  exact revises (.advance 2) g' new stepped "a"

end CacheNode.Coalescer
