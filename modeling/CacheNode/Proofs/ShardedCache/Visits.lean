import CacheNode.Proofs.ShardedCache.Shards

/-!
# Requests to a cache

A listener may accept an entry now and fail on it later, so a request is a command together with
what the listener does while it is carried out.
-/

namespace CacheNode

variable {K : Type u} {V : Type v} [BEq K] [Hashable K] {n : Nat}

def Shard.hearing (s : Shard K V) (listener : Option (Listener K V)) : Shard K V :=
  { s with entries := { s.entries with onEvict := listener } }

namespace ShardedCache

structure Request (K : Type u) (V : Type v) where
  command : Command K V
  listener : Option (Listener K V)

def hearing (c : ShardedCache K V n) (listener : Option (Listener K V)) : ShardedCache K V n :=
  { c with shards := c.shards.map (·.hearing listener) }

def serve (c : ShardedCache K V n) (request : Request K V) :
    Outcome (ShardedCache K V n) (Lru.Note K V) (Reply V) :=
  (c.hearing request.listener).step request.command

def after (c : ShardedCache K V n) (requests : List (Request K V)) : ShardedCache K V n :=
  requests.foldl (fun c request => (c.serve request).state) c

structure Visit (K : Type u) (V : Type v) [BEq K] [Hashable K] (n : Nat) where
  cache : ShardedCache K V n
  request : Request K V

def Visit.outcome (v : Visit K V n) : Outcome (ShardedCache K V n) (Lru.Note K V) (Reply V) :=
  v.cache.serve v.request

def visits (c : ShardedCache K V n) : List (Request K V) → List (Visit K V n)
  | [] => []
  | request :: requests => ⟨c, request⟩ :: visits (c.serve request).state requests

variable {c : ShardedCache K V n} {listener : Option (Listener K V)}

@[simp] theorem after_nil (c : ShardedCache K V n) : c.after [] = c := rfl

@[simp] theorem after_cons (c : ShardedCache K V n) (request : Request K V)
    (requests : List (Request K V)) :
    c.after (request :: requests) = (c.serve request).state.after requests := rfl

theorem after_concat (c : ShardedCache K V n) (requests : List (Request K V))
    (request : Request K V) :
    c.after (requests ++ [request]) = (Visit.outcome ⟨c.after requests, request⟩).state :=
  List.foldl_concat _ _ _ _

theorem visits_concat (c : ShardedCache K V n) (requests : List (Request K V))
    (request : Request K V) :
    c.visits (requests ++ [request]) = c.visits requests ++ [⟨c.after requests, request⟩] := by
  induction requests generalizing c with
  | nil => rfl
  | cons first requests ih => simp [visits, ih]

theorem hasher_after (c : ShardedCache K V n) (requests : List (Request K V)) :
    (c.after requests).hasher = c.hasher := by
  induction requests generalizing c with
  | nil => rfl
  | cons request requests ih =>
      exact (ih _).trans ((c.hearing request.listener).hasher_step request.command)

theorem request_mem_of_mem_visits {requests : List (Request K V)} {v : Visit K V n}
    (mem : v ∈ c.visits requests) : v.request ∈ requests := by
  induction requests generalizing c with
  | nil => cases mem
  | cons request requests ih =>
      rcases List.mem_cons.1 mem with rfl | mem
      · exact List.mem_cons_self
      · exact List.mem_cons_of_mem _ (ih mem)

theorem sum_hearing {M : Type w} [AddCommMonoid M] (f : Shard K V → M) (c : ShardedCache K V n)
    (same : ∀ s, f (s.hearing listener) = f s) : (c.hearing listener).sum f = c.sum f := by
  rw [hearing, sum_map]
  simp only [same]

@[simp] theorem counted_hearing (c : ShardedCache K V n) :
    (c.hearing listener).counted = c.counted := c.sum_hearing _ fun _ => rfl

@[simp] theorem len_hearing (c : ShardedCache K V n) : (c.hearing listener).len = c.len := by
  rw [len_eq_sum, len_eq_sum]
  exact c.sum_hearing _ fun _ => rfl

theorem shard_hearing (c : ShardedCache K V n) (listener : Option (Listener K V)) (i : Fin n) :
    (c.hearing listener).shard i = (c.shard i).hearing listener := c.shard_map _ i

theorem Sound.hearing {before : Option (Listener K V)} (h : c.Sound before) :
    (c.hearing listener).Sound listener where
  shown i := by
    obtain ⟨l, shows⟩ := h.shown i
    rw [shard_hearing]
    exact ⟨l, shows.hearing listener⟩
  listener i := by
    rw [shard_hearing]
    rfl

theorem Sound.hearing_eq (h : c.Sound listener) : c.hearing listener = c := by
  have same : c.shards.map (·.hearing listener) = c.shards := by
    apply Vector.ext
    intro i inside
    rw [Vector.getElem_map, ← h.listener ⟨i, inside⟩]
    rfl
  rw [ShardedCache.hearing, same]

theorem Sound.serve_eq (h : c.Sound listener) (command : Command K V) :
    c.serve ⟨command, listener⟩ = c.step command := by
  rw [ShardedCache.serve, h.hearing_eq]

variable [EquivBEq K] [LawfulHashable K]

theorem Sound.serve {before : Option (Listener K V)} (h : c.Sound before) (request : Request K V) :
    (c.serve request).state.Sound request.listener := h.hearing.step request.command

theorem Sound.after (h : c.Sound listener) (requests : List (Request K V)) :
    ∃ last ∈ listener :: requests.map (·.listener), (c.after requests).Sound last := by
  induction requests generalizing c listener with
  | nil => exact ⟨listener, List.mem_cons_self, h⟩
  | cons request requests ih =>
      obtain ⟨last, mem, sound⟩ := ih (h.serve request)
      exact ⟨last, List.mem_cons_of_mem _ mem, sound⟩

theorem Sound.of_mem_visits (h : c.Sound listener) {requests : List (Request K V)}
    {v : Visit K V n} (mem : v ∈ c.visits requests) : ∃ before, v.cache.Sound before := by
  induction requests generalizing c listener with
  | nil => cases mem
  | cons request requests ih =>
      rcases List.mem_cons.1 mem with rfl | mem
      · exact ⟨listener, h⟩
      · exact ih (h.serve request) mem

theorem Sound.run_eq_visits (h : c.Sound listener) (commands : List (Command K V)) :
    c.run commands = (c.after (commands.map (⟨·, listener⟩)),
      (c.visits (commands.map (⟨·, listener⟩))).map fun v =>
        (v.outcome.notes, v.outcome.answer)) := by
  induction commands generalizing c with
  | nil => rfl
  | cons command commands ih =>
      have rest := ih (h.step command)
      simp [ShardedCache.run, visits, Visit.outcome, h.serve_eq, rest]

theorem Sound.state_run (h : c.Sound listener) (commands : List (Command K V)) :
    (c.run commands).1 = c.after (commands.map (⟨·, listener⟩)) :=
  congrArg Prod.fst (h.run_eq_visits commands)

theorem Sound.run (h : c.Sound listener) (commands : List (Command K V)) :
    (c.run commands).1.Sound listener := by
  obtain ⟨last, mem, sound⟩ := h.after (commands.map (⟨·, listener⟩))
  obtain rfl : last = listener := by
    rcases List.mem_cons.1 mem with same | later
    · exact same
    · simp only [List.mem_map] at later
      obtain ⟨_, ⟨command, _, rfl⟩, rfl⟩ := later
      rfl
  rwa [h.state_run]

theorem Sound.hasher_run (h : c.Sound listener) (commands : List (Command K V)) :
    (c.run commands).1.hasher = c.hasher := by
  rw [h.state_run, hasher_after]

end ShardedCache

end CacheNode
