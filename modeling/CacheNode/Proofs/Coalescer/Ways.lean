import CacheNode.Proofs.Coalescer.Orderly

/-! # The way of each caller through a run -/

namespace CacheNode.Coalescer

variable {V : Type u} {E : Type v}

def Phase.isEntering : Phase V E → Bool
  | .entering => true
  | _ => false

def looker? (g : Coalescer V E) : Move V E → Option Nat
  | .advance c => if (g.phase? c).any Phase.isEntering then some c else none
  | _ => none

/-- The states of a run in which a caller looked at the registry. -/
def looks (g : Coalescer V E) (c : Nat) : List (Move V E) → List (Coalescer V E)
  | [] => []
  | move :: moves =>
      match g.step move with
      | none => []
      | some (g', _) => (if g.looker? move = some c then [g] else []) ++ looks g' c moves

def endingOf? (c : Nat) : Move V E → Option (Ending V E)
  | .finish d ending => if d = c then some ending else none
  | _ => none

def endings (c : Nat) (moves : List (Move V E)) : List (Ending V E) := moves.filterMap (endingOf? c)

def eventsOf (c : Nat) (seen : List Event) : List Event :=
  seen.filter fun event => event.caller == c

def Offers (g : Coalescer V E) (key : String) (x : Nat) : Prop :=
  g.registry.get? key = some x ∧ ∃ executor, g.callers.get? x = some executor ∧
    executor.key = key ∧ executor.phase.hasLeft = false

/-- What a run can say of a caller at each point: where it looked, what was seen of it and how its
operation ended. -/
inductive Way (c : Nat) (key : String) :
    Phase V E → List (Coalescer V E) → List Event → List (Ending V E) → Prop
  | entering : Way c key .entering [] [] []
  | registered {s : Coalescer V E} (free : s.registry.get? key = none) :
      Way c key .registered [s] [] []
  | running {s : Coalescer V E} (free : s.registry.get? key = none) :
      Way c key .running [s] [.began c key] []
  | publishing {s : Coalescer V E} {ending : Ending V E} (free : s.registry.get? key = none) :
      Way c key (.publishing ending) [s] [.began c key] [ending]
  | retiring {s : Coalescer V E} {ending : Ending V E} (free : s.registry.get? key = none) :
      Way c key (.retiring ending) [s] [.began c key] [ending]
  | reporting {s : Coalescer V E} {ending : Ending V E} (free : s.registry.get? key = none) :
      Way c key (.reporting ending) [s] [.began c key] [ending]
  | executed {s : Coalescer V E} {ending : Ending V E} (free : s.registry.get? key = none)
      (duplicates : Nat) :
      Way c key (.left .executor ending.answer) [s]
        [.began c key, .finished c key duplicates ending.isRaised] [ending]
  | announcing {s : Coalescer V E} {x : Nat} (offers : s.Offers key x) :
      Way c key (.announcing x) [s] [] []
  | waiting {s : Coalescer V E} {x : Nat} (offers : s.Offers key x) :
      Way c key (.waiting x) [s] [.joined c key] []
  | joined {s : Coalescer V E} {x : Nat} (offers : s.Offers key x) (answer : Answer V E) :
      Way c key (.left (.joiner x) answer) [s] [.joined c key] []

structure Recorded (moves : List (Move V E)) (seen : List Event) (g : Coalescer V E) : Prop where
  ways : ∀ c caller, g.callers.get? c = some caller →
    Way c caller.key caller.phase (looks {} c moves) (eventsOf c seen) (endings c moves)
  unknown : ∀ c, g.callers.get? c = none →
    looks {} c moves = [] ∧ eventsOf c seen = [] ∧ endings c moves = []

variable {g g' : Coalescer V E} {c d x : Nat} {key : String} {caller : Caller V E}
  {move : Move V E} {moves : List (Move V E)} {p phase : Phase V E}
  {status : Option (Status V E)} {entry : Option Nat} {seen new : List Event}

theorem looks_concat {before : Coalescer V E} (ran : g.run moves = some (before, seen))
    (stepped : before.step move = some (g', new)) (c : Nat) :
    looks g c (moves ++ [move]) =
      looks g c moves ++ if before.looker? move = some c then [before] else [] := by
  induction moves generalizing g seen with
  | nil =>
      obtain ⟨rfl, rfl⟩ := Prod.mk.inj (Option.some.inj ran)
      simp [looks, stepped]
  | cons first moves ih =>
      obtain ⟨next, events, rest, made, later, _⟩ := run_cons ran
      simp only [List.cons_append, looks, made, ih later, List.append_assoc]

theorem endings_concat (c : Nat) (moves : List (Move V E)) (move : Move V E) :
    endings c (moves ++ [move]) = endings c moves ++ (endingOf? c move).toList := by
  simp only [endings, List.filterMap_append, List.filterMap_cons, List.filterMap_nil]
  cases endingOf? c move <;> rfl

theorem eventsOf_append (c : Nat) (seen new : List Event) :
    eventsOf c (seen ++ new) = eventsOf c seen ++ eventsOf c new :=
  List.filter_append seen new

theorem Turn.unrecorded (turn : Turn g c key move p phase status entry seen) (apart : d ≠ c) :
    g.looker? move ≠ some d ∧ endingOf? d move = none ∧ eventsOf d seen = [] := by
  have advancing : g.looker? (.advance c) ≠ some d := by
    simp only [looker?]
    split
    · exact fun same => apart (Option.some.inj same).symm
    · exact (Option.some_ne_none d).symm
  cases turn with
  | finish idle =>
      refine ⟨(Option.some_ne_none d).symm, ?_, rfl⟩
      simp only [endingOf?]
      rw [if_neg (Ne.symm apart)]
  | begin => exact ⟨advancing, rfl, by simp [eventsOf, Event.caller, Ne.symm apart]⟩
  | report => exact ⟨advancing, rfl, by simp [eventsOf, Event.caller, Ne.symm apart]⟩
  | announce => exact ⟨advancing, rfl, by simp [eventsOf, Event.caller, Ne.symm apart]⟩
  | register free => exact ⟨advancing, rfl, rfl⟩
  | join found => exact ⟨advancing, rfl, rfl⟩
  | publish => exact ⟨advancing, rfl, rfl⟩
  | retire => exact ⟨advancing, rfl, rfl⟩
  | wake ready => exact ⟨advancing, rfl, rfl⟩

theorem Orderly.offers (h : Orderly g) (found : g.registry.get? key = some x) :
    g.Offers key x := by
  obtain ⟨executor, known, named, registered⟩ := (h.registry key x).1 found
  refine ⟨found, executor, known, named, ?_⟩
  cases point : executor.phase with
  | left role answer =>
      rw [point] at registered
      cases registered
  | _ => rfl

theorem Turn.way {states : List (Coalescer V E)} {events : List Event} {ended : List (Ending V E)}
    (turn : Turn g c key move p phase status entry seen) (h : Orderly g)
    (point : g.phase? c = some p) (before : Way c key p states events ended) :
    Way c key phase (states ++ if g.looker? move = some c then [g] else [])
      (events ++ eventsOf c seen) (ended ++ (endingOf? c move).toList) := by
  cases turn with
  | register free =>
      cases before with
      | entering =>
          simpa [looker?, point, Phase.isEntering, eventsOf, endingOf?] using .registered free
  | join found =>
      cases before with
      | entering =>
          simpa [looker?, point, Phase.isEntering, eventsOf, endingOf?] using
            .announcing (h.offers found)
  | begin =>
      cases before with
      | registered free =>
          simpa [looker?, point, Phase.isEntering, eventsOf, endingOf?, Event.caller]
            using .running free
  | finish idle =>
      cases before with
      | running free => simpa [looker?, eventsOf, endingOf?] using .publishing free
  | publish =>
      cases before with
      | publishing free =>
          simpa [looker?, point, Phase.isEntering, eventsOf, endingOf?] using .retiring free
  | retire =>
      cases before with
      | retiring free =>
          simpa [looker?, point, Phase.isEntering, eventsOf, endingOf?] using .reporting free
  | report =>
      cases before with
      | reporting free =>
          simpa [looker?, point, Phase.isEntering, eventsOf, endingOf?, Event.caller] using
            .executed free (g.joinedBy c)
  | announce =>
      cases before with
      | announcing offers =>
          simpa [looker?, point, Phase.isEntering, eventsOf, endingOf?, Event.caller] using
            .waiting offers
  | wake ready =>
      cases before with
      | waiting offers =>
          simpa [looker?, point, Phase.isEntering, eventsOf, endingOf?] using .joined offers _

theorem recorded_empty : Recorded [] [] ({} : Coalescer V E) where
  ways _ _ known := nomatch known
  unknown _ _ := ⟨rfl, rfl, rfl⟩

theorem Recorded.step (h : Recorded moves seen g) (orderly : Orderly g)
    (ran : run {} moves = some (g, seen)) (stepped : g.step move = some (g', new)) :
    Recorded (moves ++ [move]) (seen ++ new) g' := by
  have looks_eq := fun c => looks_concat ran stepped c
  rcases step_cases stepped with ⟨c, key, within, rfl, absent, inside, rfl, rfl⟩ |
    ⟨c, caller, phase, status, entry, goes, turn⟩
  · have same : ∀ d, looks {} d (moves ++ [.enter c key within]) = looks {} d moves ∧
        eventsOf d (seen ++ []) = eventsOf d seen ∧
        endings d (moves ++ [.enter c key within]) = endings d moves := by
      intro d
      rw [looks_eq, endings_concat, List.append_nil]
      simp [looker?, endingOf?]
    refine ⟨?_, ?_⟩
    · intro d caller known
      obtain ⟨looked, events, ended⟩ := same d
      rw [looked, events, ended]
      rw [Table.get?_insert] at known
      split at known
      · rename_i equal
        obtain rfl := Option.some.inj known
        obtain ⟨looked, events, ended⟩ := h.unknown d (equal ▸ absent)
        rw [looked, events, ended]
        exact .entering
      · exact h.ways d caller known
    · intro d unknown
      obtain ⟨looked, events, ended⟩ := same d
      rw [looked, events, ended]
      rw [Table.get?_insert] at unknown
      split at unknown
      · cases unknown
      · exact h.unknown d unknown
  · have others : ∀ d, d ≠ c → looks {} d (moves ++ [move]) = looks {} d moves ∧
        eventsOf d (seen ++ new) = eventsOf d seen ∧
        endings d (moves ++ [move]) = endings d moves := by
      intro d apart
      obtain ⟨looker, ending, events⟩ := turn.unrecorded apart
      rw [looks_eq, endings_concat, eventsOf_append, if_neg looker, ending, events]
      simp
    refine ⟨?_, ?_⟩
    · intro d other known
      rw [goes.callers] at known
      split at known
      · rename_i equal
        obtain rfl := Option.some.inj known
        rw [equal, looks_eq, endings_concat, eventsOf_append]
        refine turn.way orderly ?_ (h.ways c caller goes.known)
        rw [phase?, goes.known, Option.map_some]
      · rename_i apart
        obtain ⟨looked, events, ended⟩ := others d apart
        rw [looked, events, ended]
        exact h.ways d other known
    · intro d unknown
      rw [goes.callers] at unknown
      split at unknown
      · cases unknown
      · rename_i apart
        obtain ⟨looked, events, ended⟩ := others d apart
        rw [looked, events, ended]
        exact h.unknown d unknown

theorem recorded_run (ran : run {} moves = some (g, seen)) : Recorded moves seen g := by
  induction moves using List.reverseRecOn generalizing g seen with
  | nil =>
      obtain ⟨rfl, rfl⟩ := Prod.mk.inj (Option.some.inj ran)
      exact recorded_empty
  | append_singleton moves move ih =>
      obtain ⟨before, past, new, earlier, stepped, rfl⟩ := run_concat ran
      exact (ih earlier).step (orderly_run earlier) earlier stepped

end CacheNode.Coalescer
