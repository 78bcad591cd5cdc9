import CacheNode.Fault

/-!
What an operation on a state leaves behind. A fault keeps the state and the notes made before it, so
the state stays usable afterwards.
-/

namespace CacheNode

structure Outcome (σ ν α : Type _) where
  state : σ
  notes : List ν := []
  answer : Except Fault α

namespace Outcome

variable {σ τ ν α β ι κ : Type _}

def ok (state : σ) (a : α) : Outcome σ ν α := ⟨state, [], .ok a⟩

def fault (state : σ) (f : Fault) : Outcome σ ν α := ⟨state, [], .error f⟩

def map (f : α → β) (o : Outcome σ ν α) : Outcome σ ν β :=
  { o with answer := o.answer.map f }

def mapState (f : σ → τ) (o : Outcome σ ν α) : Outcome τ ν α :=
  { o with state := f o.state }

/-- Continues from an answer; a fault ends the whole. -/
def andThen (o : Outcome σ ν α) (next : σ → α → Outcome σ ν β) : Outcome σ ν β :=
  match o with
  | ⟨state, notes, .error f⟩ => ⟨state, notes, .error f⟩
  | ⟨state, notes, .ok a⟩ =>
      let rest := next state a
      { rest with notes := notes ++ rest.notes }

/-- Acts on the items in turn and lists the answers; the first fault ends the whole. -/
def inTurn (act : σ → ι → Outcome σ ν α) : σ → List ι → Outcome σ ν (List α)
  | state, [] => ok state []
  | state, item :: items =>
      (act state item).andThen fun state a => (inTurn act state items).map (a :: ·)

@[simp] theorem state_map (f : α → β) (o : Outcome σ ν α) : (o.map f).state = o.state := rfl

@[simp] theorem notes_map (f : α → β) (o : Outcome σ ν α) : (o.map f).notes = o.notes := rfl

@[simp] theorem answer_map (f : α → β) (o : Outcome σ ν α) :
    (o.map f).answer = o.answer.map f := rfl

theorem answer_map_eq_error_iff {o : Outcome σ ν α} {f : α → β} {fault : Fault} :
    (o.map f).answer = .error fault ↔ o.answer = .error fault := by
  rw [answer_map]
  cases o.answer <;> simp [Except.map]

@[simp] theorem state_mapState (f : σ → τ) (o : Outcome σ ν α) :
    (o.mapState f).state = f o.state := rfl

@[simp] theorem notes_mapState (f : σ → τ) (o : Outcome σ ν α) :
    (o.mapState f).notes = o.notes := rfl

@[simp] theorem answer_mapState (f : σ → τ) (o : Outcome σ ν α) :
    (o.mapState f).answer = o.answer := rfl

@[simp] theorem andThen_ok (state : σ) (a : α) (next : σ → α → Outcome σ ν β) :
    (ok state a).andThen next = next state a := rfl

@[simp] theorem andThen_fault (state : σ) (f : Fault) (next : σ → α → Outcome σ ν β) :
    (fault state f : Outcome σ ν α).andThen next = fault state f := rfl

theorem andThen_of_ok {o : Outcome σ ν α} {a : α} (answered : o.answer = .ok a)
    (next : σ → α → Outcome σ ν β) :
    o.andThen next = { next o.state a with notes := o.notes ++ (next o.state a).notes } := by
  obtain ⟨state, notes, answer⟩ := o
  obtain rfl : answer = .ok a := answered
  rfl

theorem andThen_of_error {o : Outcome σ ν α} {f : Fault} (failed : o.answer = .error f)
    (next : σ → α → Outcome σ ν β) : o.andThen next = ⟨o.state, o.notes, .error f⟩ := by
  obtain ⟨state, notes, answer⟩ := o
  obtain rfl : answer = .error f := failed
  rfl

theorem andThen_assoc {γ : Type _} (o : Outcome σ ν α) (next : σ → α → Outcome σ ν β)
    (last : σ → β → Outcome σ ν γ) :
    (o.andThen next).andThen last = o.andThen fun state a => (next state a).andThen last := by
  obtain ⟨state, notes, answer⟩ := o
  cases answer with
  | error f => rfl
  | ok a =>
      simp only [andThen]
      cases next state a with
      | mk state' more answer => cases answer <;> simp

@[simp] theorem inTurn_nil (act : σ → ι → Outcome σ ν α) (state : σ) :
    inTurn act state [] = ok state [] := rfl

theorem inTurn_cons (act : σ → ι → Outcome σ ν α) (state : σ) (item : ι) (items : List ι) :
    inTurn act state (item :: items) =
      (act state item).andThen fun state a => (inTurn act state items).map (a :: ·) := rfl

theorem inTurn_append (act : σ → ι → Outcome σ ν α) (state : σ) (first second : List ι) :
    inTurn act state (first ++ second) =
      (inTurn act state first).andThen fun state as => (inTurn act state second).map (as ++ ·) := by
  induction first generalizing state with
  | nil =>
      rw [List.nil_append, inTurn_nil, andThen_ok]
      cases inTurn act state second with
      | mk last notes answer => cases answer <;> rfl
  | cons item first ih =>
      rw [List.cons_append, inTurn_cons, inTurn_cons]
      cases act state item with
      | mk next notes answer =>
          cases answer with
          | error f => rfl
          | ok a =>
              simp only [andThen, ih]
              cases inTurn act next first with
              | mk last more answers =>
                  cases answers with
                  | error f => rfl
                  | ok as =>
                      simp only [map, Except.map, List.append_assoc]
                      cases (inTurn act last second).answer <;> rfl

theorem inTurn_of_failed {act : σ → ι → Outcome σ ν α} {state : σ} {first : List ι} {item : ι}
    {as : List α} {f : Fault} (answered : (inTurn act state first).answer = .ok as)
    (failed : (act (inTurn act state first).state item).answer = .error f) (second : List ι) :
    inTurn act state (first ++ item :: second) =
      ⟨(act (inTurn act state first).state item).state,
        (inTurn act state first).notes ++ (act (inTurn act state first).state item).notes,
        .error f⟩ := by
  rw [inTurn_append, andThen_of_ok answered, inTurn_cons, andThen_of_error failed]
  rfl

theorem inTurn_map_items (act : σ → ι → Outcome σ ν α) (f : κ → ι) (state : σ) (items : List κ) :
    inTurn act state (items.map f) = inTurn (fun state item => act state (f item)) state items := by
  induction items generalizing state with
  | nil => rfl
  | cons item items ih => simp only [List.map_cons, inTurn_cons, ih]

theorem inTurn_map_answers (act : σ → ι → Outcome σ ν α) (f : α → β) (state : σ)
    (items : List ι) :
    inTurn (fun state item => (act state item).map f) state items =
      (inTurn act state items).map (List.map f) := by
  induction items generalizing state with
  | nil => rfl
  | cons item items ih =>
      simp only [inTurn_cons, ih]
      cases act state item with
      | mk next notes answer =>
          cases answer with
          | error fault => rfl
          | ok a =>
              simp only [map, andThen, Except.map]
              cases (inTurn act next items).answer <;> rfl

theorem inTurn_preserves {P : σ → Prop} {act : σ → ι → Outcome σ ν α}
    (keeps : ∀ state item, P state → P (act state item).state) (items : List ι) {state : σ}
    (holds : P state) : P (inTurn act state items).state := by
  induction items generalizing state with
  | nil => exact holds
  | cons item items ih =>
      have first := keeps state item holds
      rw [inTurn_cons]
      cases made : act state item with
      | mk next notes answer =>
          rw [made] at first
          cases answer with
          | error f => exact first
          | ok a => exact ih first

end Outcome

end CacheNode
