import CacheNode.Proofs.HashRing.Lookup
import Mathlib.Data.ENat.Basic

/-! # Adding nodes to a ring -/

namespace CacheNode.HashRing

/-- How far it is from a value up, and around, to the first of some points; `⊤` without points. -/
def distance (points : List UInt32) (h : UInt32) : ℕ∞ :=
  (points.map fun p => (p - h).toNat).min?.elim ⊤ (↑·)

variable {r r' : HashRing} {placed added : List Placement} {key : List UInt8} {h p : UInt32}
  {points : List UInt32} {sites : List (String × Nat)} {hash : RingHash} {replicas : Nat}
  {node : String} {nodes : List String}

theorem exists_nearest (any : points ≠ []) (h : UInt32) :
    ∃ p, Nearest points h p ∧ distance points h = (p - h).toNat := by
  obtain ⟨d, least⟩ : ∃ d, (points.map fun p => (p - h).toNat).min? = some d := by
    rw [← Option.isSome_iff_exists, List.isSome_min?_iff, ne_eq, List.map_eq_nil_iff]
    exact any
  obtain ⟨mem, below⟩ := List.min?_eq_some_iff.1 least
  obtain ⟨p, held, rfl⟩ := List.mem_map.1 mem
  refine ⟨p, ⟨held, ?_⟩, ?_⟩
  · intro other mem
    exact UInt32.le_iff_toNat_le.2 (below _ (List.mem_map_of_mem mem))
  · rw [distance, least]
    rfl

theorem distance_eq_top_iff : distance points h = ⊤ ↔ points = [] := by
  constructor
  · intro infinite
    by_contra any
    obtain ⟨p, _, finite⟩ := exists_nearest any h
    rw [infinite] at finite
    exact ENat.top_ne_natCast _ finite
  · rintro rfl
    rfl

theorem Nearest.distance_eq (near : Nearest points h p) : distance points h = (p - h).toNat := by
  obtain ⟨q, near', apart⟩ := exists_nearest (List.ne_nil_of_mem near.1) h
  rw [apart, near.unique near']

theorem mem_sites_of_placedAt (mem : (p, node) ∈ placedAt hash sites) :
    node ∈ sites.map (·.1) := by
  induction sites with
  | nil => cases mem
  | cons site sites ih =>
      simp only [placedAt] at mem
      split at mem
      · cases mem
      · rcases List.mem_cons.1 mem with same | mem
        · simp [(Prod.mk.inj same).2]
        · exact List.mem_cons_of_mem _ (ih mem)

theorem mem_nodes_of_placedBy (mem : (p, node) ∈ placedBy hash replicas nodes) : node ∈ nodes := by
  unfold placedBy at mem
  split at mem
  · cases mem
  · obtain ⟨site, held, rfl⟩ := List.mem_map.1 (mem_sites_of_placedAt mem)
    obtain ⟨node, among, held⟩ := List.mem_flatMap.1 held
    obtain ⟨replica, _, rfl⟩ := List.mem_map.1 held
    exact among

theorem Holds.distance_eq (held : r.Holds placed) (h : UInt32) :
    distance r.points.toList h = distance (placed.map (·.1)) h := by
  have same : ∀ q, q ∈ r.points.toList ↔ q ∈ placed.map (·.1) := fun q => held.points.mem_iff
  by_cases any : placed.map (·.1) = []
  · have none : r.points.toList = [] := List.eq_nil_iff_forall_not_mem.2 fun q mem => by
      rw [same, any] at mem
      cases mem
    rw [any, none]
  · obtain ⟨p, ⟨mem, least⟩, apart⟩ := exists_nearest any h
    rw [apart]
    exact Nearest.distance_eq ⟨(same p).2 mem, fun q held => least q ((same q).1 held)⟩

theorem nearest_append_left (near : Nearest (placed.map (·.1)) h p)
    (closer : distance (placed.map (·.1)) h < distance (added.map (·.1)) h) :
    Nearest ((placed ++ added).map (·.1)) h p ∧ p ∉ added.map (·.1) := by
  rw [near.distance_eq] at closer
  have far : ∀ q ∈ added.map (·.1), p - h < q - h := by
    intro q mem
    obtain ⟨new, near', apart⟩ := exists_nearest (List.ne_nil_of_mem mem) h
    rw [apart] at closer
    exact UInt32.lt_of_lt_of_le (UInt32.lt_iff_toNat_lt.2 (Nat.cast_lt.1 closer)) (near'.2 q mem)
  refine ⟨⟨by simpa using .inl (by simpa using near.1), ?_⟩, ?_⟩
  · intro q mem
    rw [List.map_append, List.mem_append] at mem
    rcases mem with mem | mem
    · exact near.2 q mem
    · exact UInt32.le_of_lt (far q mem)
  · intro mem
    exact UInt32.lt_irrefl _ (far p mem)

theorem nearest_append_right (near : Nearest (added.map (·.1)) h p)
    (closer : ¬ distance (placed.map (·.1)) h < distance (added.map (·.1)) h) :
    Nearest ((placed ++ added).map (·.1)) h p := by
  rw [near.distance_eq] at closer
  refine ⟨by simpa using .inr (by simpa using near.1), ?_⟩
  intro q mem
  rw [List.map_append, List.mem_append] at mem
  rcases mem with mem | mem
  · obtain ⟨old, near', apart⟩ := exists_nearest (List.ne_nil_of_mem mem) h
    rw [apart, Nat.cast_lt, ← UInt32.lt_iff_toNat_lt] at closer
    exact UInt32.le_trans (UInt32.not_lt.1 closer) (near'.2 q mem)
  · exact near.2 q mem

theorem owner_after_add (hash : RingHash) (replicas : Nat) (batches : List (List String))
    (nodes : List String) (reached : (empty replicas hash).AllEnd batches)
    (ended : (((empty replicas hash).grown batches).add nodes).answer = .ok ())
    (key : List UInt8) (h : UInt32) (hashed : hash key = .ok h) :
    let r := (empty replicas hash).grown batches
    let r' := (r.add nodes).state
    let added := placedBy hash replicas nodes
    let old := distance r.points.toList h
    let new := distance (added.map (·.1)) h
    (new = ⊤ ∨ old < new → (r'.get key).answer = (r.get key).answer) ∧
      (new ≠ ⊤ → ¬ old < new → ∃ p node, p ∈ added.map (·.1) ∧ ((p - h).toNat : ℕ∞) = new ∧
        lastAt added p = some node ∧ (r'.get key).answer = .ok (some node)) ∧
      ((r'.get key).answer ≠ (r.get key).answer →
        ∃ node ∈ nodes, (r'.get key).answer = .ok (some node)) := by
  intro r r' added old new
  have held : r.Holds (placements hash replicas batches) :=
    (holds_empty replicas hash).grown batches
  have held' : r'.Holds (placements hash replicas batches ++ added) := by
    have grown : ((empty replicas hash).grown (batches ++ [nodes])).Holds
        (placements hash replicas (batches ++ [nodes])) := (holds_empty replicas hash).grown _
    rwa [grown_concat, placements_concat] at grown
  generalize placements hash replicas batches = placed at held held'
  have hashes : r.hash = hash := hash_grown (empty replicas hash) batches
  have hashes' : r'.hash = hash := (settings_add r nodes).1.trans hashes
  have ascending : Ascending r.points := reached.ascending (ascending_empty replicas hash)
  have ascending' : Ascending r'.points := ascending_add ended
  have old_eq : old = distance (placed.map (·.1)) h := held.distance_eq h
  have stays : new = ⊤ ∨ old < new → (r'.get key).answer = (r.get key).answer := by
    rintro (infinite | closer)
    · have none : added = [] := List.map_eq_nil_iff.1 (distance_eq_top_iff.1 infinite)
      rw [none, List.append_nil] at held'
      exact held.answer_congr ascending held' ascending' (hashes'.trans hashes.symm) key
    · rw [old_eq] at closer
      have any : placed.map (·.1) ≠ [] := by
        intro none
        rw [none] at closer
        exact not_top_lt closer
      obtain ⟨p, near, _⟩ := exists_nearest any h
      obtain ⟨near', missing⟩ := nearest_append_left near closer
      obtain ⟨node, last⟩ := Option.isSome_iff_exists.1 (lastAt_isSome near.1)
      have last' : lastAt (placed ++ added) p = some node := by
        rw [lastAt_append, lastAt_eq_none missing, Option.none_or, last]
      rw [held.get_eq ascending (by rw [hashes, hashed]) near last,
        held'.get_eq ascending' (by rw [hashes', hashed]) near' last']
  have moves : new ≠ ⊤ → ¬ old < new → ∃ p node, p ∈ added.map (·.1) ∧
      ((p - h).toNat : ℕ∞) = new ∧ lastAt added p = some node ∧
        (r'.get key).answer = .ok (some node) := by
    intro finite closer
    rw [old_eq] at closer
    obtain ⟨p, near, apart⟩ := exists_nearest (fun none => finite (distance_eq_top_iff.2 none)) h
    obtain ⟨node, last⟩ := Option.isSome_iff_exists.1 (lastAt_isSome near.1)
    have last' : lastAt (placed ++ added) p = some node := by
      rw [lastAt_append, last, Option.some_or]
    exact ⟨p, node, near.1, apart.symm, last,
      held'.get_eq ascending' (by rw [hashes', hashed]) (nearest_append_right near closer) last'⟩
  refine ⟨stays, moves, ?_⟩
  intro changed
  obtain ⟨p, node, _, _, last, answer⟩ := moves (fun infinite => changed (stays (.inl infinite)))
    fun closer => changed (stays (.inr closer))
  exact ⟨node, mem_nodes_of_placedBy (mem_of_lastAt last), answer⟩

theorem owner_after_add_colliding :
    let hash := Digest.len.total
    let r := (empty 2 hash).grown [["bb"]]
    (r.add ["a", "cc"]).answer = .ok () ∧ (r.add ["dddd"]).answer = .ok () ∧
      distance r.points.toList 1 = 2 ∧ distance r.points.toList 3 = 0 ∧
      ((r.add ["a", "cc"]).state.get [7]).answer = .ok (some "a") ∧
      ((r.add ["a", "cc"]).state.get [7, 8, 9]).answer = .ok (some "cc") ∧
      ((r.add ["dddd"]).state.get [7, 8, 9]).answer = (r.get [7, 8, 9]).answer := by
  intro hash r
  have held : r.Holds [(3, "bb"), (3, "bb")] := (holds_empty 2 hash).grown [["bb"]]
  have before : distance r.points.toList 1 = 2 := held.distance_eq 1
  have on : distance r.points.toList 3 = 0 := held.distance_eq 3
  have ended : (r.add ["a", "cc"]).answer = .ok () := rfl
  have ended' : (r.add ["dddd"]).answer = .ok () := rfl
  obtain ⟨_, closer, _⟩ :=
    owner_after_add hash 2 [["bb"]] ["a", "cc"] ⟨rfl, trivial⟩ ended [7] 1 rfl
  obtain ⟨_, same, _⟩ :=
    owner_after_add hash 2 [["bb"]] ["a", "cc"] ⟨rfl, trivial⟩ ended [7, 8, 9] 3 rfl
  obtain ⟨farther, _, _⟩ :=
    owner_after_add hash 2 [["bb"]] ["dddd"] ⟨rfl, trivial⟩ ended' [7, 8, 9] 3 rfl
  have new₁ : distance ((placedBy hash 2 ["a", "cc"]).map (·.1)) 1 = 1 := rfl
  have new₃ : distance ((placedBy hash 2 ["a", "cc"]).map (·.1)) 3 = 0 := rfl
  have new₅ : distance ((placedBy hash 2 ["dddd"]).map (·.1)) 3 = 2 := rfl
  refine ⟨ended, ended', before, on, ?_, ?_, ?_⟩
  · obtain ⟨p, node, _, apart, last, answer⟩ := closer (by rw [new₁]; decide)
      (by rw [new₁, before]; decide)
    rw [new₁] at apart
    have one : p - 1 = 1 := UInt32.toNat_inj.1 (Nat.cast_inj.1 apart)
    obtain rfl : p = 2 := (UInt32.sub_add_cancel p 1).symm.trans (congrArg (· + 1) one)
    obtain rfl : "a" = node := Option.some.inj last
    exact answer
  · obtain ⟨p, node, _, apart, last, answer⟩ := same (by rw [new₃]; decide)
      (by rw [new₃, on]; decide)
    rw [new₃] at apart
    have zero : p - 3 = 0 := UInt32.toNat_inj.1 (Nat.cast_inj.1 apart)
    obtain rfl : p = 3 := (UInt32.sub_add_cancel p 3).symm.trans (congrArg (· + 3) zero)
    obtain rfl : "cc" = node := Option.some.inj last
    exact answer
  · apply farther
    rw [new₅, on]
    exact .inr (by decide)

end CacheNode.HashRing
