import CacheNode.Proofs.Coalescer.Joiners

/-! # What belongs to a key -/

namespace CacheNode.Coalescer

variable {V : Type u} {E : Type v}

def Event.key : Event → String
  | .began _ key | .joined _ key | .finished _ key _ _ => key

def eventsFor (key : String) (seen : List Event) : List Event :=
  seen.filter fun event => event.key == key

def key? (g : Coalescer V E) : Move V E → Option String
  | .enter _ key _ => some key
  | .finish c _ | .advance c => (g.callers.get? c).map (·.key)

def phaseFor? (g : Coalescer V E) (key : String) (c : Nat) : Option (Phase V E) :=
  (g.callers.get? c).bind fun caller => if caller.key = key then some caller.phase else none

/-- Two states do not differ in anything that belongs to a key. -/
structure SameAt (key : String) (g h : Coalescer V E) : Prop where
  registry : h.registry.get? key = g.registry.get? key
  phases : ∀ c, h.phaseFor? key c = g.phaseFor? key c
  statuses : ∀ c, (g.phaseFor? key c).isSome = true → h.status? c = g.status? c
  joined : ∀ c, (g.phaseFor? key c).isSome = true → h.joinedBy c = g.joinedBy c

variable {g g' h k : Coalescer V E} {c d x : Nat} {key other : String} {caller : Caller V E}
  {move : Move V E} {p phase : Phase V E} {status : Option (Status V E)} {entry : Option Nat}
  {within : Option Nat} {seen new : List Event}

theorem phaseFor?_eq_some_iff : g.phaseFor? key c = some p ↔
    ∃ caller, g.callers.get? c = some caller ∧ caller.key = key ∧ caller.phase = p := by
  unfold phaseFor?
  cases g.callers.get? c with
  | none => simp
  | some caller => by_cases named : caller.key = key <;> simp [named]

theorem isSome_phaseFor?_iff : (g.phaseFor? key c).isSome = true ↔
    ∃ caller, g.callers.get? c = some caller ∧ caller.key = key := by
  rw [Option.isSome_iff_exists]
  constructor
  · rintro ⟨p, found⟩
    obtain ⟨caller, known, named, -⟩ := phaseFor?_eq_some_iff.1 found
    exact ⟨caller, known, named⟩
  · rintro ⟨caller, known, named⟩
    exact ⟨caller.phase, phaseFor?_eq_some_iff.2 ⟨caller, known, named, rfl⟩⟩

theorem phaseFor?_of_known (known : g.callers.get? c = some caller) :
    g.phaseFor? caller.key c = some caller.phase :=
  phaseFor?_eq_some_iff.2 ⟨caller, known, rfl, rfl⟩

theorem phaseFor?_enter (absent : g.callers.get? c = none) :
    ({ g with callers := g.callers.insert c { key := other, within } } : Coalescer V E).phaseFor?
        key d =
      if d = c ∧ other = key then some .entering else g.phaseFor? key d := by
  unfold phaseFor?
  rw [Table.get?_insert]
  by_cases same : d = c
  · subst same
    by_cases named : other = key <;> simp [named, absent]
  · simp [same]

theorem Goes.phaseFor? (goes : Goes g g' c caller phase status entry) :
    g'.phaseFor? key d =
      if d = c ∧ caller.key = key then some phase else g.phaseFor? key d := by
  unfold Coalescer.phaseFor?
  rw [goes.callers]
  by_cases same : d = c
  · subst same
    by_cases named : caller.key = key <;> simp [named, goes.known]
  · simp [same]

theorem SameAt.refl (key : String) (g : Coalescer V E) : SameAt key g g :=
  ⟨rfl, fun _ => rfl, fun _ _ => rfl, fun _ _ => rfl⟩

theorem SameAt.symm (same : SameAt key g h) : SameAt key h g where
  registry := same.registry.symm
  phases c := (same.phases c).symm
  statuses c present := (same.statuses c (same.phases c ▸ present)).symm
  joined c present := (same.joined c (same.phases c ▸ present)).symm

theorem SameAt.trans (first : SameAt key g h) (second : SameAt key h k) : SameAt key g k where
  registry := second.registry.trans first.registry
  phases c := (second.phases c).trans (first.phases c)
  statuses c present :=
    (second.statuses c ((first.phases c).symm ▸ present)).trans (first.statuses c present)
  joined c present :=
    (second.joined c ((first.phases c).symm ▸ present)).trans (first.joined c present)

theorem Turn.key?_eq (turn : Turn g c caller.key move p phase status entry seen)
    (known : g.callers.get? c = some caller) : g.key? move = some caller.key := by
  rcases turn.move_eq with rfl | ⟨ending, rfl⟩
  · rw [key?, known, Option.map_some]
  · rw [key?, known, Option.map_some]

theorem Turn.key_of_mem (turn : Turn g c key move p phase status entry seen) {event : Event}
    (mem : event ∈ seen) : event.key = key := by
  cases turn with
  | begin => exact congrArg Event.key (List.mem_singleton.1 mem)
  | report => exact congrArg Event.key (List.mem_singleton.1 mem)
  | announce => exact congrArg Event.key (List.mem_singleton.1 mem)
  | _ => cases mem

theorem eventsFor_append (key : String) (seen new : List Event) :
    eventsFor key (seen ++ new) = eventsFor key seen ++ eventsFor key new :=
  List.filter_append seen new

theorem events_step (stepped : g.step move = some (g', seen)) (key : String) :
    eventsFor key seen = if g.key? move = some key then seen else [] := by
  rcases step_cases stepped with ⟨c, named, within, rfl, absent, inside, rfl, rfl⟩ |
    ⟨c, caller, phase, status, entry, goes, turn⟩
  · exact (ite_self []).symm
  · simp only [turn.key?_eq goes.known, Option.some.injEq]
    split
    · rename_i named
      exact List.filter_eq_self.2 fun event mem => by
        rw [turn.key_of_mem mem, named, beq_self_eq_true]
    · rename_i elsewhere
      exact List.filter_eq_nil_iff.2 fun event mem => by
        rwa [turn.key_of_mem mem, beq_iff_eq]

theorem Orderly.key?_of_joins? (h : Orderly g) (joins : g.joins? move = some x)
    (known : g.callers.get? x = some caller) : g.key? move = some caller.key := by
  obtain ⟨c, joiner, rfl, there, -, found⟩ := joins?_eq_some_iff.1 joins
  obtain ⟨executor, present, named, -⟩ := (h.registry joiner.key x).1 found
  obtain rfl := Option.some.inj (known.symm.trans present)
  rw [key?, there, Option.map_some, named]

theorem Orderly.sameAt_step (h : Orderly g) (stepped : g.step move = some (g', seen))
    (elsewhere : g.key? move ≠ some key) : SameAt key g g' := by
  have joined : ∀ x, (g.phaseFor? key x).isSome = true → g'.joinedBy x = g.joinedBy x := by
    intro x present
    obtain ⟨executor, known, rfl⟩ := isSome_phaseFor?_iff.1 present
    rw [h.joinedBy_step stepped, if_neg, Nat.add_zero]
    exact fun joins => elsewhere (h.key?_of_joins? joins known)
  rcases step_cases stepped with ⟨c, named, within, rfl, absent, inside, rfl, rfl⟩ |
    ⟨c, caller, phase, status, entry, goes, turn⟩
  · have apart : named ≠ key := fun same => elsewhere (congrArg some same)
    refine ⟨rfl, fun d => ?_, fun _ _ => rfl, joined⟩
    rw [phaseFor?_enter absent, if_neg fun both => apart both.2]
  · rw [turn.key?_eq goes.known, Ne, Option.some.injEq] at elsewhere
    refine ⟨?_, fun d => ?_, fun d present => ?_, joined⟩
    · rw [goes.registry, if_neg (Ne.symm elsewhere)]
    · rw [goes.phaseFor?, if_neg fun both => elsewhere both.2]
    · obtain ⟨other, known, named⟩ := isSome_phaseFor?_iff.1 present
      rw [goes.status, if_neg]
      rintro rfl
      obtain rfl := Option.some.inj (goes.known.symm.trans known)
      exact elsewhere named

end CacheNode.Coalescer
