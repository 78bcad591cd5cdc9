import CacheNode.Proofs.Coalescer.Freshness

/-! # Those who join a call -/

namespace CacheNode.Coalescer

variable {V : Type u} {E : Type v}

def joiners (g : Coalescer V E) (x : Nat) : List Nat :=
  (g.callers.bindings.filter fun b => b.2.phase.joined? = some x).map (·.1)

def joins? (g : Coalescer V E) : Move V E → Option Nat
  | .advance c => (g.callers.get? c).bind fun caller =>
      if caller.phase.isEntering then g.registry.get? caller.key else none
  | _ => none

variable {g g' : Coalescer V E} {c d x : Nat} {caller : Caller V E} {move : Move V E}
  {later : List (Move V E)} {p phase : Phase V E} {status : Option (Status V E)}
  {entry : Option Nat} {key : String} {seen new after : List Event}

theorem mem_joiners : d ∈ g.joiners x ↔
    ∃ caller, g.callers.get? d = some caller ∧ caller.phase.joined? = some x := by
  unfold joiners
  rw [List.mem_map]
  constructor
  · rintro ⟨⟨c, caller⟩, mem, rfl⟩
    obtain ⟨held, joined⟩ := List.mem_filter.1 mem
    exact ⟨caller, (Table.get?_eq_some_iff _ _ _).2 held, of_decide_eq_true joined⟩
  · rintro ⟨caller, known, joined⟩
    refine ⟨(d, caller), List.mem_filter.2 ⟨?_, decide_eq_true joined⟩, rfl⟩
    exact (Table.get?_eq_some_iff _ _ _).1 known

theorem nodup_joiners (g : Coalescer V E) (x : Nat) : (g.joiners x).Nodup :=
  g.callers.distinct.sublist (List.filter_sublist.map _)

theorem joins?_advance (known : g.callers.get? c = some caller) :
    g.joins? (.advance c) =
      if caller.phase.isEntering then g.registry.get? caller.key else none := by
  rw [joins?, known, Option.bind_some]

theorem joins?_eq_some_iff : g.joins? move = some x ↔ ∃ c caller, move = .advance c ∧
    g.callers.get? c = some caller ∧ caller.phase = .entering ∧
      g.registry.get? caller.key = some x := by
  constructor
  · intro joins
    cases move with
    | advance c =>
        obtain ⟨caller, known, found⟩ := Option.bind_eq_some_iff.1 joins
        split at found
        · rename_i entering
          refine ⟨c, caller, rfl, known, ?_, found⟩
          cases point : caller.phase with
          | entering => rfl
          | _ => simp [point, Phase.isEntering] at entering
        · cases found
    | enter => cases joins
    | finish => cases joins
  · rintro ⟨c, caller, rfl, known, point, found⟩
    rw [joins?_advance known, point]
    exact found

theorem Orderly.not_joined (h : Orderly g) (known : g.callers.get? x = some caller)
    (elsewhere : caller.phase.isRegistered = false) (move : Move V E) :
    g.joins? move ≠ some x := by
  intro joins
  obtain ⟨_, other, _, _, _, found⟩ := joins?_eq_some_iff.1 joins
  exact h.not_registered known elsewhere other.key found

theorem Turn.joined?_iff (turn : Turn g c caller.key move caller.phase phase status entry seen)
    (known : g.callers.get? c = some caller) :
    phase.joined? = some x ↔
      caller.phase.joined? = some x ∨ move = .advance c ∧ g.joins? move = some x := by
  have joins := joins?_advance known
  obtain ⟨key, within, p⟩ := caller
  cases turn with
  | register free => simp [joins, free, Phase.joined?, Phase.isEntering]
  | join found => simp [joins, found, Phase.joined?, Phase.isEntering]
  | finish idle => simp [Phase.joined?]
  | _ => simp [joins, Phase.joined?, Phase.isEntering]

theorem Turn.move_eq (turn : Turn g c key move p phase status entry seen) :
    move = .advance c ∨ ∃ ending, move = .finish c ending := by
  cases turn with
  | finish idle => exact .inr ⟨_, rfl⟩
  | _ => exact .inl rfl

theorem mem_joiners_step (stepped : g.step move = some (g', new)) :
    d ∈ g'.joiners x ↔ d ∈ g.joiners x ∨ move = .advance d ∧ g.joins? move = some x := by
  rw [mem_joiners, mem_joiners]
  rcases step_cases stepped with ⟨c, key, within, rfl, absent, inside, rfl, rfl⟩ |
    ⟨c, caller, phase, status, entry, goes, turn⟩
  · rw [Table.get?_insert]
    by_cases same : d = c
    · subst same
      simp [absent, joins?, Phase.joined?]
    · simp [same, joins?]
  · rw [goes.callers]
    by_cases same : d = c
    · subst same
      simpa [goes.known] using turn.joined?_iff goes.known
    · have other : move ≠ .advance d := by
        intro equal
        rcases turn.move_eq with rfl | ⟨ending, rfl⟩
        · exact same (Move.advance.inj equal).symm
        · cases equal
      simp [same, other]

theorem length_joiners_step (stepped : g.step move = some (g', new)) (x : Nat) :
    (g'.joiners x).length =
      (g.joiners x).length + if g.joins? move = some x then 1 else 0 := by
  by_cases joins : g.joins? move = some x
  · obtain ⟨c, caller, rfl, known, point, _⟩ := joins?_eq_some_iff.1 joins
    -- who has not looked at the registry yet has joined nothing
    have absent : c ∉ g.joiners x := by
      rw [mem_joiners]
      rintro ⟨other, same, joined⟩
      obtain rfl := Option.some.inj (known.symm.trans same)
      rw [point] at joined
      cases joined
    have added : (g'.joiners x).Perm (c :: g.joiners x) := by
      rw [List.perm_ext_iff_of_nodup (nodup_joiners g' x)
        (List.nodup_cons.2 ⟨absent, nodup_joiners g x⟩)]
      intro d
      rw [mem_joiners_step stepped, List.mem_cons, Move.advance.injEq, or_comm, eq_comm (a := d)]
      simp [joins]
    rw [added.length_eq, List.length_cons, if_pos joins]
  · have same : (g'.joiners x).Perm (g.joiners x) := by
      rw [List.perm_ext_iff_of_nodup (nodup_joiners g' x) (nodup_joiners g x)]
      intro d
      simp [mem_joiners_step stepped, joins]
    rw [same.length_eq, if_neg joins, Nat.add_zero]

theorem Orderly.mem_joiners_run (h : Orderly g) (known : g.callers.get? x = some caller)
    (removed : caller.phase.isRegistered = false) (recorded : (g.status? x).isSome = true)
    (ran : g.run later = some (g', after)) : d ∈ g'.joiners x ↔ d ∈ g.joiners x := by
  constructor
  · intro joined
    by_contra absent
    have missed : g.Missed x d := ⟨h, recorded, h.not_registered known removed,
      fun other there joined => absent (mem_joiners.2 ⟨other, there, joined⟩)⟩
    obtain ⟨other, there, joined⟩ := mem_joiners.1 joined
    exact (missed.run ran).apart other there joined
  · refine run_preserves (P := fun s => d ∈ s.joiners x) ?_ ran
    intro s s' move new stepped joined
    exact (mem_joiners_step stepped).2 (.inl joined)

theorem joinedBy_of_calls (same : g'.calls = g.calls) (x : Nat) :
    g'.joinedBy x = g.joinedBy x := by
  rw [joinedBy, joinedBy, same]

theorem Orderly.joinedBy_check (h : Orderly g) (known : g.callers.get? c = some caller)
    (point : caller.phase = .entering) (x : Nat) :
    (g.check c caller.key).joinedBy x =
      g.joinedBy x + if g.registry.get? caller.key = some x then 1 else 0 := by
  unfold check
  cases found : g.registry.get? caller.key with
  | none =>
      -- the call is a new one: whoever has not looked yet has none
      have new : (g.calls.get? c).map (·.status) = none := by
        have records := h.records c caller known
        rw [point] at records
        exact records
      simp only [joinedBy, moveTo, Table.get?_insert, reduceCtorEq, if_false, Nat.add_zero]
      split
      · rename_i same
        rw [same, Option.map_eq_none_iff.1 new]
        rfl
      · rfl
  | some y =>
      obtain ⟨executor, present, _, registered⟩ := (h.registry _ _).1 found
      have recorded := (h.records y executor present).of_isRegistered registered
      rw [status?, Option.isSome_map] at recorded
      obtain ⟨call, called⟩ := Option.isSome_iff_exists.1 recorded
      simp only [joinedBy, moveTo, Table.get?_modify, Option.some.injEq, eq_comm (a := y)]
      split
      · rename_i same
        rw [same, called]
        rfl
      · rfl

theorem joinedBy_publish (g : Coalescer V E) (c : Nat) (status : Status V E) (phase : Phase V E)
    (x : Nat) : ((g.publish c status).moveTo c phase).joinedBy x = g.joinedBy x := by
  simp only [joinedBy, publish, moveTo, Table.get?_modify]
  split
  · cases g.calls.get? x <;> rfl
  · rfl

theorem calls_retire (g : Coalescer V E) (c : Nat) (key : String) (phase : Phase V E) :
    ((g.retire c key).moveTo c phase).calls = g.calls := by
  unfold retire
  split <;> rfl

theorem Orderly.joinedBy_advance (h : Orderly g) (known : g.callers.get? c = some caller)
    (advanced : g.advance c caller = some (g', seen)) (x : Nat) :
    g'.joinedBy x = g.joinedBy x + if g.joins? (.advance c) = some x then 1 else 0 := by
  have joins := joins?_advance known
  unfold advance at advanced
  cases point : caller.phase with
  | entering =>
      rw [point] at advanced joins
      obtain ⟨rfl, rfl⟩ := Prod.mk.inj (Option.some.inj advanced)
      rw [joins]
      exact h.joinedBy_check known point x
  | publishing ending =>
      rw [point] at advanced joins
      obtain ⟨rfl, rfl⟩ := Prod.mk.inj (Option.some.inj advanced)
      rw [joins, joinedBy_publish]
      rfl
  | retiring ending =>
      rw [point] at advanced joins
      obtain ⟨rfl, rfl⟩ := Prod.mk.inj (Option.some.inj advanced)
      rw [joins, joinedBy_of_calls (calls_retire g c caller.key _)]
      rfl
  | waiting y =>
      rw [point] at advanced joins
      obtain ⟨answer, _, made⟩ := Option.map_eq_some_iff.1 advanced
      obtain ⟨rfl, rfl⟩ := Prod.mk.inj made
      rw [joins]
      rfl
  | running =>
      rw [point] at advanced
      cases advanced
  | left role answer =>
      rw [point] at advanced
      cases advanced
  | _ =>
      rw [point] at advanced joins
      obtain ⟨rfl, rfl⟩ := Prod.mk.inj (Option.some.inj advanced)
      rw [joins]
      rfl

theorem Orderly.joinedBy_step (h : Orderly g) (stepped : g.step move = some (g', new)) (x : Nat) :
    g'.joinedBy x = g.joinedBy x + if g.joins? move = some x then 1 else 0 := by
  cases move with
  | enter c key within =>
      simp only [Coalescer.step] at stepped
      split at stepped
      · cases stepped
      · obtain ⟨rfl, rfl⟩ := Prod.mk.inj (Option.some.inj stepped)
        rfl
  | finish c ending =>
      simp only [Coalescer.step] at stepped
      split at stepped
      · obtain ⟨rfl, rfl⟩ := Prod.mk.inj (Option.some.inj stepped)
        rfl
      · cases stepped
  | advance c =>
      obtain ⟨caller, known, advanced⟩ := Option.bind_eq_some_iff.1 stepped
      exact h.joinedBy_advance known advanced x

end CacheNode.Coalescer
