import CacheNode.HashRing.Basic
import Mathlib.Data.List.Perm.Basic
import Mathlib.Tactic.ByContra
import Mathlib.Tactic.Tauto
import Std.Data.HashMap.Lemmas

/-!
# The placements that a ring is made of

What a ring holds after any additions is told by the list of the placements they made, in order
(`Holds`); additions that were cut short count as far as they went.
-/

namespace CacheNode.HashRing

abbrev Placement := UInt32 × String

def placedAt (hash : RingHash) : List (String × Nat) → List Placement
  | [] => []
  | site :: sites =>
      match hash (label site.1 site.2) with
      | .error _ => []
      | .ok point => (point, site.1) :: placedAt hash sites

def placedBy (hash : RingHash) (replicas : Nat) (nodes : List String) : List Placement :=
  if nodes ≠ [] ∧ ¬ TableFits replicas pointBytes then []
  else placedAt hash (sites replicas nodes)

def placements (hash : RingHash) (replicas : Nat) (batches : List (List String)) : List Placement :=
  batches.flatMap (placedBy hash replicas)

def grown (r : HashRing) : List (List String) → HashRing
  | [] => r
  | nodes :: batches => grown (r.add nodes).state batches

def AllEnd (r : HashRing) : List (List String) → Prop
  | [] => True
  | nodes :: batches => (r.add nodes).answer = .ok () ∧ AllEnd (r.add nodes).state batches

def lastAt (placed : List Placement) (point : UInt32) : Option String :=
  ((placed.filter fun placement => placement.1 = point).getLast?).map (·.2)

structure Holds (r : HashRing) (placed : List Placement) : Prop where
  points : r.points.toList.Perm (placed.map (·.1))
  owners : ∀ point, r.owners[point]? = lastAt placed point

variable {hash : RingHash} {replicas : Nat} {r : HashRing} {placed : List Placement}
  {p : UInt32} {node : String} {nodes : List String} {batches : List (List String)}

theorem holds_empty (replicas : Nat) (hash : RingHash) : (empty replicas hash).Holds [] where
  points := List.Perm.refl []
  owners point := by simp [empty, lastAt]

theorem Holds.len_eq (h : r.Holds placed) : r.len = placed.length := by
  have length := h.points.length_eq
  simpa [len] using length

/-! ## The last one at a point -/

theorem lastAt_concat (placed : List Placement) (point asked : UInt32) (node : String) :
    lastAt (placed ++ [(point, node)]) asked =
      if point = asked then some node else lastAt placed asked := by
  unfold lastAt
  rw [List.filter_append]
  split
  · rename_i same
    simp [same]
  · rename_i apart
    simp [apart]

theorem lastAt_append (placed added : List Placement) (p : UInt32) :
    lastAt (placed ++ added) p = (lastAt added p).or (lastAt placed p) := by
  unfold lastAt
  rw [List.filter_append, List.getLast?_append]
  cases (added.filter fun placement => placement.1 = p).getLast? <;> rfl

theorem lastAt_isSome (mem : p ∈ placed.map (·.1)) : (lastAt placed p).isSome = true := by
  obtain ⟨placement, held, rfl⟩ := List.mem_map.1 mem
  unfold lastAt
  cases last : (placed.filter fun other => other.1 = placement.1).getLast? with
  | none =>
      have none := List.getLast?_eq_none_iff.1 last
      have found : placement ∈ placed.filter fun other => other.1 = placement.1 := by
        simpa using held
      rw [none] at found
      cases found
  | some other => rfl

theorem lastAt_eq_none (missing : p ∉ placed.map (·.1)) : lastAt placed p = none := by
  unfold lastAt
  rw [List.filter_eq_nil_iff.2]
  · rfl
  · intro placement mem same
    rw [decide_eq_true_eq] at same
    exact missing (same ▸ List.mem_map_of_mem mem)

theorem mem_points_iff_lastAt : p ∈ placed.map (·.1) ↔ lastAt placed p ≠ none := by
  constructor
  · intro mem
    exact Option.isSome_iff_ne_none.1 (lastAt_isSome mem)
  · intro last
    by_contra missing
    exact last (lastAt_eq_none missing)

theorem mem_of_lastAt (last : lastAt placed p = some node) : (p, node) ∈ placed := by
  obtain ⟨⟨q, node⟩, found, rfl⟩ := Option.map_eq_some_iff.1 last
  obtain ⟨held, same⟩ := List.mem_filter.1 (List.mem_of_getLast? found)
  rw [decide_eq_true_eq] at same
  obtain rfl : q = p := same
  exact held

theorem lastAt_eq_some_iff (single : ∀ p a b, (p, a) ∈ placed → (p, b) ∈ placed → a = b) :
    lastAt placed p = some node ↔ (p, node) ∈ placed := by
  constructor
  · exact mem_of_lastAt
  · intro held
    obtain ⟨other, last⟩ :=
      Option.isSome_iff_exists.1 (lastAt_isSome (List.mem_map_of_mem held))
    rw [last, single p node other held (mem_of_lastAt last)]

/-! ## Placing -/

theorem Holds.claim (h : r.Holds placed) (point : UInt32) (node : String) :
    (r.claim point node).Holds (placed ++ [(point, node)]) where
  points := by
    simp only [HashRing.claim, Array.toList_push, List.map_append, List.map_cons, List.map_nil]
    exact h.points.append_right [point]
  owners asked := by
    simp only [HashRing.claim, Std.HashMap.getElem?_insert, beq_iff_eq, h.owners, lastAt_concat]

theorem Holds.place (h : r.Holds placed) (sites : List (String × Nat)) :
    (Outcome.inTurn HashRing.place r sites).state.Holds (placed ++ placedAt r.hash sites) := by
  induction sites generalizing r placed with
  | nil => simpa [placedAt, Outcome.ok] using h
  | cons site sites ih =>
      simp only [Outcome.inTurn_cons, HashRing.place, placedAt]
      cases hashed : r.hash (label site.1 site.2) with
      | error f => simpa [Outcome.andThen] using h
      | ok point =>
          have rest := ih (h.claim point site.1)
          rw [List.append_assoc] at rest
          exact rest

theorem settings_place (r : HashRing) (sites : List (String × Nat)) :
    (Outcome.inTurn place r sites).state.hash = r.hash ∧
      (Outcome.inTurn place r sites).state.replicas = r.replicas := by
  induction sites generalizing r with
  | nil => exact ⟨rfl, rfl⟩
  | cons site sites ih =>
      simp only [Outcome.inTurn_cons, place]
      cases r.hash (label site.1 site.2) with
      | error f => exact ⟨rfl, rfl⟩
      | ok point => exact ih (r.claim point site.1)

/-! ## Adding -/

theorem Holds.settle (h : r.Holds placed) : r.settle.Holds placed where
  points := by
    simp only [HashRing.settle, List.toList_toArray]
    exact (List.mergeSort_perm _ _).trans h.points
  owners := h.owners

theorem Holds.add (h : r.Holds placed) (nodes : List String) :
    (r.add nodes).state.Holds (placed ++ placedBy r.hash r.replicas nodes) := by
  unfold HashRing.add placedBy
  split
  · simpa [Outcome.fault] using h
  · have held := h.place (sites r.replicas nodes)
    cases placing : Outcome.inTurn HashRing.place r (sites r.replicas nodes) with
    | mk state notes answer =>
        rw [placing] at held
        cases answer with
        | error f => exact held
        | ok units => exact held.settle

theorem settings_add (r : HashRing) (nodes : List String) :
    (r.add nodes).state.hash = r.hash ∧ (r.add nodes).state.replicas = r.replicas := by
  unfold add
  split
  · exact ⟨rfl, rfl⟩
  · have settings := settings_place r (sites r.replicas nodes)
    cases placing : Outcome.inTurn place r (sites r.replicas nodes) with
    | mk state notes answer =>
        rw [placing] at settings
        cases answer <;> exact settings

theorem Holds.grown (h : r.Holds placed) (batches : List (List String)) :
    (r.grown batches).Holds (placed ++ placements r.hash r.replicas batches) := by
  induction batches generalizing r placed with
  | nil => simpa [HashRing.grown, placements] using h
  | cons nodes batches ih =>
      have later := ih (h.add nodes)
      obtain ⟨kept, same⟩ := settings_add r nodes
      rw [kept, same, List.append_assoc] at later
      exact later

theorem hash_grown (r : HashRing) (batches : List (List String)) :
    (r.grown batches).hash = r.hash := by
  induction batches generalizing r with
  | nil => rfl
  | cons nodes batches ih => exact (ih (r.add nodes).state).trans (settings_add r nodes).1

theorem grown_concat (r : HashRing) (batches : List (List String)) (nodes : List String) :
    r.grown (batches ++ [nodes]) = ((r.grown batches).add nodes).state := by
  induction batches generalizing r with
  | nil => rfl
  | cons first batches ih => exact ih (r.add first).state

theorem placements_concat (hash : RingHash) (replicas : Nat) (batches : List (List String))
    (nodes : List String) :
    placements hash replicas (batches ++ [nodes]) =
      placements hash replicas batches ++ placedBy hash replicas nodes := by
  simp [placements]

/-! ## Additions that end well -/

def Hashed (hash : RingHash) (site : String × Nat) : Prop :=
  ∃ point, hash (label site.1 site.2) = .ok point

def PointOf (hash : RingHash) (replicas : Nat) (node : String) (p : UInt32) : Prop :=
  ∃ replica < replicas, hash (label node replica) = .ok p

theorem mem_sites {replica : Nat} :
    (node, replica) ∈ sites replicas nodes ↔ node ∈ nodes ∧ replica < replicas := by
  simp [sites]

theorem sites_append (replicas : Nat) (nodes others : List String) :
    sites replicas (nodes ++ others) = sites replicas nodes ++ sites replicas others :=
  List.flatMap_append

theorem length_sites (replicas : Nat) (nodes : List String) :
    (sites replicas nodes).length = replicas * nodes.length := by
  simp [sites, Nat.mul_comm]

theorem ended_place_iff (r : HashRing) (sites : List (String × Nat)) :
    (∃ units, (Outcome.inTurn place r sites).answer = .ok units) ↔
      ∀ site ∈ sites, Hashed r.hash site := by
  induction sites generalizing r with
  | nil => simp [Outcome.ok]
  | cons site sites ih =>
      simp only [Outcome.inTurn_cons, place, List.forall_mem_cons, Hashed]
      cases hashed : r.hash (label site.1 site.2) with
      | error f => simp [Outcome.andThen]
      | ok point =>
          have rest : (∃ units, (Outcome.inTurn place (r.claim point site.1) sites).answer =
              .ok units) ↔ ∀ site ∈ sites, Hashed r.hash site := ih (r.claim point site.1)
          have head : ∃ q, (Except.ok point : Except Fault UInt32) = .ok q := ⟨point, rfl⟩
          rw [iff_true_intro head, true_and]
          refine Iff.trans ?_ rest
          simp only [Outcome.andThen, Outcome.answer_map]
          cases (Outcome.inTurn place (r.claim point site.1) sites).answer with
          | error f => simp [Except.map]
          | ok units => simp [Except.map]

theorem ended_add_iff (r : HashRing) (nodes : List String) :
    (r.add nodes).answer = .ok () ↔
      (nodes = [] ∨ TableFits r.replicas pointBytes) ∧
        ∀ site ∈ sites r.replicas nodes, Hashed r.hash site := by
  rw [← ended_place_iff r]
  unfold add
  split
  · rename_i overflow
    simp [Outcome.fault, overflow.1, overflow.2]
  · rename_i fits
    have room : nodes = [] ∨ TableFits r.replicas pointBytes := by
      by_contra neither
      rw [not_or] at neither
      exact fits neither
    rw [iff_true_intro room, true_and]
    cases placing : Outcome.inTurn place r (sites r.replicas nodes) with
    | mk state notes answer => cases answer <;> simp [Outcome.andThen]

theorem allEnd_iff (r : HashRing) (batches : List (List String)) :
    r.AllEnd batches ↔
      (batches.flatten = [] ∨ TableFits r.replicas pointBytes) ∧
        ∀ site ∈ sites r.replicas batches.flatten, Hashed r.hash site := by
  induction batches generalizing r with
  | nil => simp [AllEnd, sites]
  | cons nodes batches ih =>
      obtain ⟨kept, same⟩ := settings_add r nodes
      unfold AllEnd
      rw [ended_add_iff, ih, kept, same, List.flatten_cons, sites_append, List.forall_mem_append]
      simp only [List.append_eq_nil_iff]
      tauto

theorem placedBy_of_ended (ended : (r.add nodes).answer = .ok ()) :
    placedBy r.hash r.replicas nodes = placedAt r.hash (sites r.replicas nodes) := by
  have room := ((ended_add_iff r nodes).1 ended).1
  unfold placedBy
  rw [if_neg]
  rintro ⟨any, overflow⟩
  exact room.elim any overflow

theorem placedAt_append {firsts : List (String × Nat)}
    (hashed : ∀ site ∈ firsts, Hashed hash site) (rest : List (String × Nat)) :
    placedAt hash (firsts ++ rest) = placedAt hash firsts ++ placedAt hash rest := by
  induction firsts with
  | nil => rfl
  | cons site firsts ih =>
      rw [List.forall_mem_cons] at hashed
      obtain ⟨⟨point, first⟩, hashed⟩ := hashed
      simp only [List.cons_append, placedAt, first, ih hashed]

theorem AllEnd.placements_eq (all : r.AllEnd batches) :
    placements r.hash r.replicas batches = placedAt r.hash (sites r.replicas batches.flatten) := by
  induction batches generalizing r with
  | nil => rfl
  | cons nodes batches ih =>
      obtain ⟨ended, all⟩ := all
      have rest := ih all
      obtain ⟨kept, same⟩ := settings_add r nodes
      rw [kept, same] at rest
      rw [List.flatten_cons, sites_append, placedAt_append ((ended_add_iff r nodes).1 ended).2,
        ← placedBy_of_ended ended, ← rest]
      rfl

theorem AllEnd.holds (all : (empty replicas hash).AllEnd batches) :
    ((empty replicas hash).grown batches).Holds
      (placedAt hash (sites replicas batches.flatten)) := by
  have grown : ((empty replicas hash).grown batches).Holds (placements hash replicas batches) :=
    (holds_empty replicas hash).grown batches
  have placed : placements hash replicas batches =
      placedAt hash (sites replicas batches.flatten) := all.placements_eq
  rwa [placed] at grown

theorem map_placedAt {sites : List (String × Nat)} (hashed : ∀ site ∈ sites, Hashed hash site) :
    (placedAt hash sites).map (fun placement => (Except.ok placement.1, placement.2)) =
      sites.map fun site => (hash (label site.1 site.2), site.1) := by
  induction sites with
  | nil => rfl
  | cons site sites ih =>
      rw [List.forall_mem_cons] at hashed
      obtain ⟨⟨point, first⟩, hashed⟩ := hashed
      simp only [placedAt, first, List.map_cons, ih hashed]

theorem placedAt_eq_nil_iff (hashed : ∀ site ∈ sites replicas nodes, Hashed hash site) :
    placedAt hash (sites replicas nodes) = [] ↔ replicas = 0 ∨ nodes = [] := by
  have length := congrArg List.length (map_placedAt hashed)
  rw [List.length_map, List.length_map, length_sites] at length
  rw [← List.length_eq_zero_iff, length, Nat.mul_eq_zero, List.length_eq_zero_iff]

theorem mem_placedAt {sites : List (String × Nat)} (hashed : ∀ site ∈ sites, Hashed hash site) :
    (p, node) ∈ placedAt hash sites ↔
      ∃ replica, (node, replica) ∈ sites ∧ hash (label node replica) = .ok p := by
  have made : (p, node) ∈ placedAt hash sites ↔ ((.ok p : Except Fault UInt32), node) ∈
      (placedAt hash sites).map fun placement => (Except.ok placement.1, placement.2) := by
    simp
  rw [made, map_placedAt hashed]
  simp only [List.mem_map, Prod.mk.injEq, Prod.exists]
  constructor
  · rintro ⟨_, replica, held, here, rfl⟩
    exact ⟨replica, held, here⟩
  · rintro ⟨replica, held, here⟩
    exact ⟨node, replica, held, here, rfl⟩

theorem mem_placedAt_sites (hashed : ∀ site ∈ sites replicas nodes, Hashed hash site) :
    (p, node) ∈ placedAt hash (sites replicas nodes) ↔
      node ∈ nodes ∧ PointOf hash replicas node p := by
  rw [mem_placedAt hashed]
  simp only [mem_sites, PointOf]
  constructor
  · rintro ⟨replica, ⟨added, within⟩, here⟩
    exact ⟨added, replica, within, here⟩
  · rintro ⟨added, replica, within, here⟩
    exact ⟨replica, ⟨added, within⟩, here⟩

end CacheNode.HashRing
