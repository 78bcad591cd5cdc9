import CacheNode.HashRing.Digest
import CacheNode.Proofs.HashRing.Placements
import CacheNode.Proofs.HashRing.Search
import Mathlib.Tactic.ByContra

/-!
# Looking up keys by the placements

Only the last addition has to end well, because it puts the points in order, whatever they were
before: `get_eq_lastAt_nearest`.
-/

namespace CacheNode.HashRing

variable {r : HashRing} {placed : List Placement} {key : List UInt8} {h p : UInt32}
  {node : String} {nodes : List String} {batches : List (List String)}

theorem ascending_empty (replicas : Nat) (hash : RingHash) :
    Ascending (empty replicas hash).points := List.Pairwise.nil

theorem ascending_settle (r : HashRing) : Ascending r.settle.points := by
  have sorted : (r.points.toList.mergeSort fun p q => p ≤ q).Pairwise
      fun p q => decide (p ≤ q) = true := by
    apply List.pairwise_mergeSort
    · intro p q s first second
      rw [decide_eq_true_eq] at *
      exact UInt32.le_trans first second
    · intro p q
      simpa using UInt32.le_total p q
  unfold Ascending settle
  rw [List.toList_toArray]
  exact sorted.imp of_decide_eq_true

theorem ascending_add (ended : (r.add nodes).answer = .ok ()) :
    Ascending (r.add nodes).state.points := by
  unfold add at ended ⊢
  -- only the way that ends well sorts the points; both others leave a fault
  split
  · rename_i overflow
    rw [if_pos overflow] at ended
    cases ended
  · rename_i fits
    rw [if_neg fits] at ended
    cases placing : Outcome.inTurn place r (sites r.replicas nodes) with
    | mk state notes answer =>
        rw [placing] at ended
        cases answer with
        | error f => cases ended
        | ok units => exact ascending_settle state

theorem AllEnd.ascending (all : r.AllEnd batches) (ascending : Ascending r.points) :
    Ascending (r.grown batches).points := by
  induction batches generalizing r with
  | nil => exact ascending
  | cons nodes batches ih => exact ih all.2 (ascending_add all.1)

theorem Holds.isEmpty_iff (held : r.Holds placed) : r.isEmpty = true ↔ placed = [] := by
  have length := held.len_eq
  unfold len at length
  unfold isEmpty
  rw [Array.isEmpty_iff_size_eq_zero, length, List.length_eq_zero_iff]

theorem Holds.get_nil (held : r.Holds []) (key : List UInt8) : r.get key = .ok r none := by
  unfold get
  rw [if_pos (held.isEmpty_iff.2 rfl)]

theorem Holds.get_cons (held : r.Holds placed) (any : placed ≠ []) (key : List UInt8) :
    r.get key = ⟨r, [.hashed key], (r.hash key).map r.ownerAt⟩ := by
  unfold get
  rw [if_neg fun none => any (held.isEmpty_iff.1 none)]

theorem Holds.owner (held : r.Holds placed) (ascending : Ascending r.points) (any : placed ≠ [])
    (h : UInt32) :
    ∃ p node, Nearest (placed.map (·.1)) h p ∧ lastAt placed p = some node ∧
      r.ownerAt h = some node := by
  have size : r.points.size ≠ 0 := by
    have length := held.len_eq
    unfold len at length
    rw [length]
    exact fun none => any (List.length_eq_zero_iff.1 none)
  obtain ⟨p, found, mem, least⟩ := successor_nearest ascending size h
  have nearest : Nearest (placed.map (·.1)) h p :=
    Nearest.congr ⟨mem, least⟩ fun q => held.points.mem_iff.symm
  obtain ⟨node, last⟩ := Option.isSome_iff_exists.1 (lastAt_isSome nearest.1)
  refine ⟨p, node, nearest, last, ?_⟩
  unfold ownerAt
  rw [found, Option.bind_some, held.owners, last]

theorem Holds.get_returns (held : r.Holds placed) (ascending : Ascending r.points)
    (hashed : r.hash key = .ok h) :
    ∃ owner, (r.get key).answer = .ok owner ∧ (owner = none ↔ placed = []) ∧
      ∀ node, owner = some node → ∃ p, (p, node) ∈ placed := by
  by_cases any : placed = []
  · subst any
    rw [held.get_nil]
    exact ⟨none, rfl, by simp, nofun⟩
  · obtain ⟨p, node, near, last, owner⟩ := held.owner ascending any h
    rw [held.get_cons any, hashed]
    refine ⟨some node, congrArg Except.ok owner, by simp [any], ?_⟩
    rintro node ⟨⟩
    exact ⟨p, mem_of_lastAt last⟩

theorem Holds.get_eq (held : r.Holds placed) (ascending : Ascending r.points)
    (hashed : r.hash key = .ok h) (near : Nearest (placed.map (·.1)) h p)
    (last : lastAt placed p = some node) : (r.get key).answer = .ok (some node) := by
  have any : placed ≠ [] := by
    rintro rfl
    cases near.1
  obtain ⟨q, other, near', last', owner⟩ := held.owner ascending any h
  obtain rfl := near.unique near'
  obtain rfl : node = other := Option.some.inj (last.symm.trans last')
  rw [held.get_cons any, hashed]
  simp only [Except.map, owner]

theorem Holds.answer_congr_of_lastAt {r' : HashRing} {placed' : List Placement}
    (held : r.Holds placed) (ascending : Ascending r.points)
    (held' : r'.Holds placed') (ascending' : Ascending r'.points) (same : r'.hash = r.hash)
    (lasts : ∀ p, lastAt placed' p = lastAt placed p) (key : List UInt8) :
    (r'.get key).answer = (r.get key).answer := by
  have points : ∀ p, p ∈ placed'.map (·.1) ↔ p ∈ placed.map (·.1) := fun p => by
    rw [mem_points_iff_lastAt, mem_points_iff_lastAt, lasts]
  have none : placed'.map (·.1) = [] ↔ placed.map (·.1) = [] := by
    simp only [List.eq_nil_iff_forall_not_mem, points]
  rw [List.map_eq_nil_iff, List.map_eq_nil_iff] at none
  by_cases any : placed = []
  · obtain rfl := none.2 any
    subst any
    rw [held.get_nil, held'.get_nil]
    rfl
  · have any' : placed' ≠ [] := mt none.1 any
    rw [held.get_cons any, held'.get_cons any', same]
    cases hashed : r.hash key with
    | error f => rfl
    | ok h =>
        obtain ⟨p, node, nearest, last, owner⟩ := held.owner ascending any h
        obtain ⟨p', node', nearest', last', owner'⟩ := held'.owner ascending' any' h
        obtain rfl := nearest.unique (nearest'.congr fun q => (points q).symm)
        have equal : some node = some node' := (last.symm.trans (lasts p).symm).trans last'
        simp only [Except.map, owner, owner', equal]

theorem Holds.answer_congr {r' : HashRing} (held : r.Holds placed) (ascending : Ascending r.points)
    (held' : r'.Holds placed) (ascending' : Ascending r'.points) (same : r'.hash = r.hash)
    (key : List UInt8) : (r'.get key).answer = (r.get key).answer :=
  held.answer_congr_of_lastAt ascending held' ascending' same (fun _ => rfl) key

theorem get_eq_lastAt_nearest (hash : RingHash) (replicas : Nat) (batches : List (List String))
    (last : List String)
    (ended : (((empty replicas hash).grown batches).add last).answer = .ok ()) :
    let r := (empty replicas hash).grown (batches ++ [last])
    let placed := placements hash replicas (batches ++ [last])
    r.len = placed.length ∧
      (∀ key, (r.get key).answer = .ok none ↔ placed = []) ∧
      (placed = [] → ∀ key, r.get key = .ok r none) ∧
      (placed ≠ [] → ∀ key h, hash key = .ok h →
        ∃ p node, Nearest (placed.map (·.1)) h p ∧ (∀ q, Nearest (placed.map (·.1)) h q → q = p) ∧
          lastAt placed p = some node ∧ (r.get key).answer = .ok (some node)) ∧
      (∀ batches' last',
        (((empty replicas hash).grown batches').add last').answer = .ok () →
          placements hash replicas (batches' ++ [last']) = placed →
            ∀ key, (((empty replicas hash).grown (batches' ++ [last'])).get key).answer =
              (r.get key).answer) ∧
      ((empty replicas hash).AllEnd (batches ++ [last]) →
        ∀ batches', (empty replicas hash).AllEnd batches' →
          batches'.flatten = (batches ++ [last]).flatten →
            ∀ key, (((empty replicas hash).grown batches').get key).answer =
              (r.get key).answer) := by
  intro r placed
  have grown_holds : ∀ batches, ((empty replicas hash).grown batches).Holds
      (placements hash replicas batches) := (holds_empty replicas hash).grown
  have grown_hash : ∀ batches, ((empty replicas hash).grown batches).hash = hash :=
    hash_grown (empty replicas hash)
  have held : r.Holds placed := grown_holds (batches ++ [last])
  have hashes : r.hash = hash := grown_hash (batches ++ [last])
  have ascending : Ascending r.points := by
    show Ascending ((empty replicas hash).grown (batches ++ [last])).points
    rw [grown_concat]
    exact ascending_add ended
  refine ⟨held.len_eq, ?_, ?_, ?_, ?_, ?_⟩
  · intro key
    constructor
    · intro none
      by_contra any
      rw [held.get_cons any, hashes] at none
      cases hashed : hash key with
      | error f =>
          rw [hashed] at none
          cases none
      | ok h =>
          obtain ⟨p, node, _, _, owner⟩ := held.owner ascending any h
          rw [hashed] at none
          simp [Except.map, owner] at none
    · intro nothing
      rw [nothing] at held
      rw [held.get_nil]
      rfl
  · intro nothing key
    rw [nothing] at held
    exact held.get_nil key
  · intro any key h hashed
    obtain ⟨p, node, nearest, lastly, owner⟩ := held.owner ascending any h
    refine ⟨p, node, nearest, fun q other => other.unique nearest, lastly, ?_⟩
    rw [held.get_cons any, hashes, hashed]
    simp only [Except.map, owner]
  · intro batches' last' ended' same key
    have held' := grown_holds (batches' ++ [last'])
    rw [same] at held'
    refine held.answer_congr ascending held' ?_ ((grown_hash _).trans hashes.symm) key
    rw [grown_concat]
    exact ascending_add ended'
  · intro all batches' all' same key
    have held' := grown_holds batches'
    have equal : placements hash replicas batches' = placed := by
      have here := all.placements_eq
      have there := all'.placements_eq
      rw [same] at there
      exact there.trans here.symm
    rw [equal] at held'
    exact held.answer_congr ascending held' (all'.ascending (ascending_empty replicas hash))
      ((grown_hash _).trans hashes.symm) key

/-- An addition is cut short at its second point; a key past the largest point goes around. -/
theorem get_eq_lastAt_nearest_around :
    let hash := Digest.len.failingOn "1bb" "no"
    let batches := [["bb"]]
    let r := (empty 2 hash).grown (batches ++ [["a"]])
    (((empty 2 hash).grown batches).add ["a"]).answer = .ok () ∧
      placements hash 2 (batches ++ [["a"]]) = [(3, "bb"), (2, "a"), (2, "a")] ∧ r.len = 3 ∧
      (r.get [7, 8, 9]).answer = .ok (some "bb") ∧ (r.get [7, 8, 9, 9]).answer = .ok (some "a") ∧
      ∀ key, (((empty 2 Digest.len.total).grown [["a"], ["bb"]]).get key).answer =
        (((empty 2 Digest.len.total).grown [["a", "bb"]]).get key).answer := by
  intro hash batches r
  have ended : (((empty 2 hash).grown batches).add ["a"]).answer = .ok () := rfl
  obtain ⟨len, _, _, owner, _, _⟩ := get_eq_lastAt_nearest hash 2 batches ["a"] ended
  have any : placements hash 2 (batches ++ [["a"]]) ≠ [] := List.cons_ne_nil _ _
  refine ⟨ended, rfl, len, ?_, ?_, ?_⟩
  · obtain ⟨p, node, _, unique, last, answer⟩ := owner any [7, 8, 9] 3 rfl
    have nearest : Nearest [3, 2, 2] 3 3 := by simp [Nearest]
    obtain rfl := unique 3 nearest
    obtain rfl : "bb" = node := Option.some.inj last
    exact answer
  · obtain ⟨p, node, _, unique, last, answer⟩ := owner any [7, 8, 9, 9] 4 rfl
    have nearest : Nearest [3, 2, 2] 4 2 := by simp [Nearest]
    obtain rfl := unique 2 nearest
    obtain rfl : "a" = node := Option.some.inj last
    exact answer
  · obtain ⟨_, _, _, _, _, divided⟩ :=
      get_eq_lastAt_nearest Digest.len.total 2 [] ["a", "bb"] rfl
    exact divided ⟨rfl, trivial⟩ [["a"], ["bb"]] ⟨rfl, rfl, trivial⟩ rfl

end CacheNode.HashRing
