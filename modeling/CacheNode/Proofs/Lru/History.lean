import CacheNode.Lru.Command
import Mathlib.Tactic.ByContra

/-! # Histories of a store: the commands of a run with their answers -/

namespace CacheNode.Lru

variable {K : Type u} {V : Type v}

abbrev History (K : Type u) (V : Type v) := List (Command K V × Except Fault (Reply K V))

def touched? : Command K V → Except Fault (Reply K V) → Option K
  | .put key _, _ => some key
  | .get key, .ok (.value? (some _)) => some key
  | _, _ => none

def touches (h : History K V) : List K := h.filterMap fun step => touched? step.1 step.2

theorem touches_snoc (h : History K V) (command : Command K V) (answer : Except Fault (Reply K V)) :
    touches (h ++ [(command, answer)]) = touches h ++ (touched? command answer).toList := by
  simp only [touches, List.filterMap_append, List.filterMap_cons, List.filterMap_nil]
  cases touched? command answer <;> rfl

variable [BEq K]

def recent (h : History K V) : List K := (touches h).reverse.eraseDups

def touchedSince (h : History K V) (key : K) : List K :=
  (touches h).reverse.takeWhile fun other => !(other == key)

def lastTouch? (h : History K V) (key : K) : Option Nat :=
  (h.zipIdx.filter fun step => (touched? step.1.1 step.1.2).any (· == key)).getLast?.map (·.2)

def putUnder? (key : K) : Command K V → Option V
  | .put other value => if other == key then some value else none
  | _ => none

def lastPut? (h : History K V) (key : K) : Option V :=
  (h.filterMap fun step => putUnder? key step.1).getLast?

def WasPut (h : History K V) (key : K) : Prop :=
  ∃ step ∈ h, ∃ other value, step.1 = .put other value ∧ (other == key) = true

def history [Hashable K] (c : Lru K V) : List (Command K V) → History K V
  | [] => []
  | command :: commands =>
      let o := c.step command
      (command, o.answer) :: history o.state commands

theorem lastTouch?_snoc (h : History K V) (command : Command K V)
    (answer : Except Fault (Reply K V)) (key : K) :
    lastTouch? (h ++ [(command, answer)]) key =
      if (touched? command answer).any (· == key) then some h.length else lastTouch? h key := by
  simp only [lastTouch?, List.zipIdx_append, List.filter_append, List.zipIdx_cons, List.zipIdx_nil,
    List.filter_cons, List.filter_nil]
  split <;> simp

theorem lastTouch?_lt (h : History K V) (key : K) : lastTouch? h key < some h.length := by
  unfold lastTouch?
  cases last : (h.zipIdx.filter fun step =>
      (touched? step.1.1 step.1.2).any (· == key)).getLast? with
  | none => trivial
  | some step =>
      have mem := (List.mem_filter.1 (List.mem_of_getLast? last)).1
      exact Option.some_lt_some.2 (List.snd_lt_of_mem_zipIdx mem)

theorem lastPut?_snoc (h : History K V) (command : Command K V)
    (answer : Except Fault (Reply K V)) (key : K) :
    lastPut? (h ++ [(command, answer)]) key = (putUnder? key command).or (lastPut? h key) := by
  simp only [lastPut?, List.filterMap_append, List.filterMap_cons, List.filterMap_nil]
  cases putUnder? key command <;> simp

theorem wasPut_snoc (h : History K V) (command : Command K V) (answer : Except Fault (Reply K V))
    (key : K) :
    WasPut (h ++ [(command, answer)]) key ↔ WasPut h key ∨ (putUnder? key command).isSome := by
  unfold WasPut
  constructor
  · intro given
    obtain ⟨step, mem, other, value, put, same⟩ := given
    rcases List.mem_append.1 mem with mem | mem
    · exact .inl ⟨step, mem, other, value, put, same⟩
    · obtain rfl := List.mem_singleton.1 mem
      obtain rfl : command = .put other value := put
      simp [putUnder?, same]
  · intro given
    rcases given with ⟨step, mem, put⟩ | put
    · exact ⟨step, List.mem_append_left _ mem, put⟩
    · cases command with
      | put other value =>
          refine ⟨(.put other value, answer), by simp, other, value, rfl, ?_⟩
          by_contra apart
          simp [putUnder?, apart] at put
      | _ => simp [putUnder?] at put

/-- Induction along `List.eraseDups`, which goes on with the other keys after each one. -/
theorem eraseDups_induction {motive : List K → Prop} (nil : motive [])
    (cons : ∀ key keys, motive (keys.filter fun b => !b == key) → motive (key :: keys))
    (keys : List K) : motive keys :=
  match keys with
  | [] => nil
  | key :: keys => cons key keys (eraseDups_induction nil cons (keys.filter fun b => !b == key))
termination_by keys.length
decreasing_by exact Nat.lt_succ_of_le (List.length_filter_le _ _)

theorem mem_of_mem_eraseDups {keys : List K} {key : K} (mem : key ∈ keys.eraseDups) :
    key ∈ keys := by
  induction keys using eraseDups_induction with
  | nil => exact mem
  | cons first keys ih =>
      rw [List.eraseDups_cons] at mem
      rcases List.mem_cons.1 mem with rfl | mem
      · exact List.mem_cons_self
      · exact List.mem_cons_of_mem _ (List.mem_filter.1 (ih mem)).1

theorem eraseDups_filter (p : K → Bool) (respects : ∀ a b, (a == b) = true → p a = p b)
    (keys : List K) : (keys.filter p).eraseDups = keys.eraseDups.filter p := by
  induction keys using eraseDups_induction with
  | nil => simp
  | cons key keys ih =>
      rw [List.eraseDups_cons]
      by_cases keep : p key = true
      · rw [List.filter_cons_of_pos keep, List.filter_cons_of_pos keep, List.eraseDups_cons, ← ih,
          List.filter_filter, List.filter_filter]
        simp only [Bool.and_comm]
      · rw [List.filter_cons_of_neg keep, List.filter_cons_of_neg keep, ← ih, List.filter_filter]
        congr 1
        apply List.filter_congr
        intro other _
        by_cases same : (other == key) = true
        · simp [respects other key same, keep]
        · simp [same]

variable [EquivBEq K]

theorem eraseDups_append_cons (newer older : List K) (key : K)
    (apart : ∀ other ∈ newer, (other == key) = false) :
    ∃ rest, (newer ++ key :: older).eraseDups = newer.eraseDups ++ key :: rest := by
  induction newer using eraseDups_induction generalizing older with
  | nil => exact ⟨_, by rw [List.nil_append, List.eraseDups_cons]; rfl⟩
  | cons first newer ih =>
      have kept : (!key == first) = true := by
        rw [BEq.comm, apart first List.mem_cons_self]
        rfl
      obtain ⟨rest, split⟩ := ih (older.filter fun b => !b == first) fun other mem =>
        apart other (List.mem_cons_of_mem _ (List.mem_filter.1 mem).1)
      refine ⟨rest, ?_⟩
      rw [List.cons_append, List.eraseDups_cons, List.filter_append,
        List.filter_cons_of_pos (p := fun b => !b == first) kept, split, List.eraseDups_cons,
        List.cons_append]

theorem not_beq_congr (key : K) (a b : K) (same : (a == b) = true) :
    (!a == key) = (!b == key) := by
  rw [BEq.congr_left same]

theorem eraseDups_distinct (keys : List K) :
    keys.eraseDups.Pairwise fun a b => (a == b) = false := by
  induction keys using eraseDups_induction with
  | nil => exact List.Pairwise.nil
  | cons key keys ih =>
      rw [List.eraseDups_cons, List.pairwise_cons]
      refine ⟨fun other mem => ?_, ih⟩
      rw [eraseDups_filter _ (not_beq_congr key)] at mem
      rw [BEq.comm]
      simpa using (List.mem_filter.1 mem).2

theorem recent_snoc (h : History K V) (command : Command K V) (answer : Except Fault (Reply K V)) :
    recent (h ++ [(command, answer)]) =
      match touched? command answer with
      | none => recent h
      | some key => key :: (recent h).filter fun other => !other == key := by
  unfold recent
  rw [touches_snoc]
  cases touched? command answer with
  | none => simp
  | some key =>
      simp only [Option.toList_some, List.reverse_append, List.reverse_cons, List.reverse_nil,
        List.nil_append, List.singleton_append, List.eraseDups_cons]
      rw [eraseDups_filter _ (not_beq_congr key)]

end CacheNode.Lru
