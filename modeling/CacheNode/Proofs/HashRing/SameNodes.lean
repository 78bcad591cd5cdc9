import CacheNode.Proofs.HashRing.Lookup
import Mathlib.Tactic.Tauto

/-! # Rings of the same nodes -/

namespace CacheNode.HashRing

variable {hash : RingHash} {replicas : Nat} {nodes nodes' : List String}

theorem lastAt_eq_of_same_nodes (hashed : ∀ site ∈ sites replicas nodes, Hashed hash site)
    (hashed' : ∀ site ∈ sites replicas nodes', Hashed hash site)
    (same : ∀ node, node ∈ nodes' ↔ node ∈ nodes)
    (apart : ∀ a ∈ nodes, ∀ b ∈ nodes, ∀ p,
      PointOf hash replicas a p → PointOf hash replicas b p → a = b) (p : UInt32) :
    lastAt (placedAt hash (sites replicas nodes')) p =
      lastAt (placedAt hash (sites replicas nodes)) p := by
  have mem : ∀ p node, (p, node) ∈ placedAt hash (sites replicas nodes) ↔
      node ∈ nodes ∧ PointOf hash replicas node p := fun _ _ => mem_placedAt_sites hashed
  have mem' : ∀ p node, (p, node) ∈ placedAt hash (sites replicas nodes') ↔
      node ∈ nodes ∧ PointOf hash replicas node p := fun p node => by
    rw [mem_placedAt_sites hashed', same]
  -- where a point is the node's alone, how often and when it was placed there does not show
  have single : ∀ p a b, (a ∈ nodes ∧ PointOf hash replicas a p) →
      (b ∈ nodes ∧ PointOf hash replicas b p) → a = b := by
    intro p a b first second
    exact apart a first.1 b second.1 p first.2 second.2
  apply Option.ext
  intro node
  rw [lastAt_eq_some_iff, lastAt_eq_some_iff, mem, mem']
  · simpa only [mem] using single
  · simpa only [mem'] using single

theorem owners_agree_of_same_nodes (hash : RingHash) (replicas : Nat)
    (batches batches' : List (List String)) (all : (empty replicas hash).AllEnd batches)
    (all' : (empty replicas hash).AllEnd batches')
    (same : ∀ node, node ∈ batches'.flatten ↔ node ∈ batches.flatten)
    (apart : ∀ a ∈ batches.flatten, ∀ b ∈ batches.flatten, ∀ p,
      PointOf hash replicas a p → PointOf hash replicas b p → a = b) (key : List UInt8) :
    let r := (empty replicas hash).grown batches
    let r' := (empty replicas hash).grown batches'
    (r'.get key).answer = (r.get key).answer ∧
      ∀ h, hash key = .ok h →
        ∃ owner, (r.get key).answer = .ok owner ∧ (r'.get key).answer = .ok owner ∧
          (owner = none ↔ replicas = 0 ∨ batches.flatten = []) ∧
          ∀ node, owner = some node → node ∈ batches.flatten := by
  intro r r'
  have hashes : r.hash = hash := hash_grown (empty replicas hash) batches
  have hashes' : r'.hash = hash := hash_grown (empty replicas hash) batches'
  have sited : ∀ site ∈ sites replicas batches.flatten, Hashed hash site :=
    ((allEnd_iff _ batches).1 all).2
  have ascending : Ascending r.points := all.ascending (ascending_empty replicas hash)
  have lasts := lastAt_eq_of_same_nodes sited ((allEnd_iff _ batches').1 all').2 same apart
  have equal : (r'.get key).answer = (r.get key).answer :=
    all.holds.answer_congr_of_lastAt ascending all'.holds
      (all'.ascending (ascending_empty replicas hash)) (hashes'.trans hashes.symm) lasts key
  refine ⟨equal, ?_⟩
  intro h hashed
  rw [← hashes] at hashed
  obtain ⟨owner, answer, none, some⟩ := all.holds.get_returns ascending hashed
  refine ⟨owner, answer, equal.trans answer, none.trans (placedAt_eq_nil_iff sited), ?_⟩
  intro node owned
  obtain ⟨p, placed⟩ := some node owned
  exact ((mem_placedAt_sites sited).1 placed).1

/-- Added together, and in turn, the other way round and twice, with as many points again. -/
theorem owners_agree_of_same_nodes_added_twice :
    let hash := Digest.len.total
    let r := (empty 2 hash).grown [["a", "bb"]]
    let r' := (empty 2 hash).grown [["bb"], ["a", "bb"], ["a"]]
    r.len = 4 ∧ r'.len = 8 ∧ (∀ key, (r'.get key).answer = (r.get key).answer) ∧
      ∃ node ∈ ["a", "bb"],
        (r.get [7]).answer = .ok (some node) ∧ (r'.get [7]).answer = .ok (some node) := by
  intro hash r r'
  have all : ∀ batches, (empty 2 hash).AllEnd batches := fun batches =>
    (allEnd_iff (empty 2 hash) batches).2 ⟨.inr (by decide), fun _ _ => ⟨_, rfl⟩⟩
  have same : ∀ node, node ∈ [["bb"], ["a", "bb"], ["a"]].flatten ↔
      node ∈ [["a", "bb"]].flatten := by
    intro node
    simp only [List.flatten_cons, List.flatten_nil, List.mem_append, List.mem_cons,
      List.not_mem_nil, or_false]
    tauto
  have labels : ∀ a ∈ ["a", "bb"], ∀ b ∈ ["a", "bb"], ∀ i < 2, ∀ j < 2,
      Digest.len.apply (label a i) = Digest.len.apply (label b j) → a = b := by decide
  have apart : ∀ a ∈ [["a", "bb"]].flatten, ∀ b ∈ [["a", "bb"]].flatten, ∀ p,
      PointOf hash 2 a p → PointOf hash 2 b p → a = b := by
    rintro a first b second p ⟨i, within, here⟩ ⟨j, within', here'⟩
    exact labels a first b second i within j within' (Except.ok.inj (here.trans here'.symm))
  have len : r.len = 4 := (all [["a", "bb"]]).holds.len_eq
  have len' : r'.len = 8 := (all [["bb"], ["a", "bb"], ["a"]]).holds.len_eq
  have agree := owners_agree_of_same_nodes hash 2 _ _ (all _) (all _) same apart
  obtain ⟨owner, answer, answer', none, some⟩ := (agree [7]).2 1 rfl
  cases owner with
  | none => simp at none
  | some node =>
      exact ⟨len, len', fun key => (agree key).1, node, some node rfl, answer, answer'⟩

end CacheNode.HashRing
