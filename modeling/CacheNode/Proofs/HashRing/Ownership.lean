import CacheNode.HashRing.Digest
import CacheNode.Proofs.HashRing.Labels
import CacheNode.Proofs.HashRing.Lookup
import Mathlib.Data.Fintype.Card

/-! # Nodes and the points of their labels -/

namespace CacheNode.HashRing

def HasLabel (replicas : Nat) (node : String) (bytes : List UInt8) : Prop :=
  ∃ i < replicas, label node i = bytes

structure Separates (hash : RingHash) (replicas : Nat) (nodes : List String) : Prop where
  hashed : ∀ site ∈ sites replicas nodes, Hashed hash site
  apart : ∀ site ∈ sites replicas nodes, ∀ other ∈ sites replicas nodes,
    hash (label site.1 site.2) = hash (label other.1 other.2) →
      label site.1 site.2 = label other.1 other.2

variable {hash : RingHash} {replicas i : Nat} {r : HashRing} {nodes : List String}
  {batches : List (List String)} {node owner : String} {p : UInt32} {key : List UInt8}
  {placed : List Placement}

theorem Separates.room (separates : Separates hash replicas nodes) :
    nodes = [] ∨ TableFits replicas pointBytes := by
  cases nodes with
  | nil => exact .inl rfl
  | cons node nodes =>
      have site : ∀ i : Fin replicas, (node, i.val) ∈ sites replicas (node :: nodes) := fun i =>
        mem_sites.2 ⟨List.mem_cons_self, i.isLt⟩
      -- the labels of one node all have points of their own, of which there are `2 ^ 32`
      choose point placed using fun i => separates.hashed _ (site i)
      have injective : Function.Injective fun i => (point i).toFin := by
        intro i j same
        have equal : point i = point j := UInt32.toFin_inj.1 same
        have labels := separates.apart _ (site i) _ (site j) (by rw [placed, placed, equal])
        exact Fin.ext (label_inj labels)
      have few := Fintype.card_le_of_injective _ injective
      simp only [Fintype.card_fin] at few
      have limit : UInt32.size = 4294967296 := rfl
      have bytes : Nat.pow 2 63 = 9223372036854775808 := rfl
      right
      unfold TableFits pointBytes
      omega

theorem Separates.pointOf_iff (separates : Separates hash replicas nodes)
    (added : node ∈ nodes) (within : i < replicas) (here : hash (label node i) = .ok p)
    {other : String} (among : other ∈ nodes) :
    PointOf hash replicas other p ↔ HasLabel replicas other (label node i) := by
  constructor
  · rintro ⟨j, bound, there⟩
    exact ⟨j, bound, separates.apart (other, j) (mem_sites.2 ⟨among, bound⟩) (node, i)
      (mem_sites.2 ⟨added, within⟩) (there.trans here.symm)⟩
  · rintro ⟨j, bound, same⟩
    exact ⟨j, bound, by rw [same, here]⟩

theorem split_of_lastAt (hashed : ∀ site ∈ sites replicas nodes, Hashed hash site)
    (last : lastAt (placedAt hash (sites replicas nodes)) p = some owner) :
    ∃ before after, nodes = before ++ owner :: after ∧ PointOf hash replicas owner p ∧
      ∀ later ∈ after, ¬ PointOf hash replicas later p := by
  induction nodes using List.reverseRecOn with
  | nil => cases last
  | append_singleton nodes latest ih =>
      rw [sites_append, List.forall_mem_append] at hashed
      rw [sites_append, placedAt_append hashed.1, lastAt_append] at last
      cases newest : lastAt (placedAt hash (sites replicas [latest])) p with
      | some node =>
          rw [newest, Option.some_or] at last
          obtain ⟨mem, point⟩ := (mem_placedAt_sites hashed.2).1 (mem_of_lastAt newest)
          obtain rfl := List.mem_singleton.1 mem
          obtain rfl : node = owner := Option.some.inj last
          exact ⟨nodes, [], rfl, point, fun _ none => absurd none List.not_mem_nil⟩
      | none =>
          rw [newest, Option.none_or] at last
          obtain ⟨before, after, rfl, point, without⟩ := ih hashed.1 last
          refine ⟨before, after ++ [latest], by simp, point, ?_⟩
          intro later mem asks
          rcases List.mem_append.1 mem with mem | mem
          · exact without later mem asks
          · have placed := (mem_placedAt_sites hashed.2).2 ⟨mem, asks⟩
            exact mem_points_iff_lastAt.1 (List.mem_map_of_mem placed) newest

theorem nearest_self {points : List UInt32} (mem : p ∈ points) : Nearest points p p :=
  ⟨mem, fun q _ => by simp⟩

theorem Separates.get_label (separates : Separates hash replicas nodes)
    (held : r.Holds (placedAt hash (sites replicas nodes))) (ascending : Ascending r.points)
    (same : r.hash = hash) (added : node ∈ nodes) (within : i < replicas) :
    ∃ before owner after, nodes = before ++ owner :: after ∧
      HasLabel replicas owner (label node i) ∧
        (∀ later ∈ after, ¬ HasLabel replicas later (label node i)) ∧
          (r.get (label node i)).answer = .ok (some owner) := by
  obtain ⟨p, here⟩ := separates.hashed (node, i) (mem_sites.2 ⟨added, within⟩)
  have placed : (p, node) ∈ placedAt hash (sites replicas nodes) :=
    (mem_placedAt_sites separates.hashed).2 ⟨added, i, within, here⟩
  have point : p ∈ (placedAt hash (sites replicas nodes)).map (·.1) := List.mem_map_of_mem placed
  obtain ⟨owner, last⟩ := Option.isSome_iff_exists.1 (lastAt_isSome point)
  obtain ⟨before, after, split, asks, without⟩ := split_of_lastAt separates.hashed last
  have labels : ∀ other ∈ nodes,
      (PointOf hash replicas other p ↔ HasLabel replicas other (label node i)) :=
    fun other among => separates.pointOf_iff added within here among
  refine ⟨before, owner, after, split, ?_, ?_, ?_⟩
  · exact (labels owner (by simp [split])).1 asks
  · intro later mem has
    exact without later mem ((labels later (by simp [split, mem])).2 has)
  · exact held.get_eq ascending (by rw [same, here]) (nearest_self point) last

theorem own_labels_iff
    (lasts : ∀ node ∈ nodes, ∀ i < replicas, ∃ before owner after,
      nodes = before ++ owner :: after ∧ HasLabel replicas owner (label node i) ∧
        (∀ later ∈ after, ¬ HasLabel replicas later (label node i)) ∧
          (r.get (label node i)).answer = .ok (some owner)) :
    (∀ node ∈ nodes, ∀ i < replicas, (r.get (label node i)).answer = .ok (some node)) ↔
      ∀ a ∈ nodes, ∀ b ∈ nodes, ¬ Extends replicas a b := by
  constructor
  · intro own a first b second longer
    obtain ⟨i, hi, j, hj, same⟩ := longer.exists_label_eq
    have equal := (own a first i hi).symm.trans (same ▸ own b second j hj)
    exact longer.ne (Option.some.inj (Except.ok.inj equal))
  · intro none node added i within
    obtain ⟨before, owner, after, split, ⟨j, bound, same⟩, _, answers⟩ := lasts node added i within
    have among : owner ∈ nodes := by simp [split]
    by_cases equal : owner = node
    · rw [answers, equal]
    · rcases (exists_label_eq_iff equal).1 ⟨j, bound, i, within, same⟩ with longer | longer
      · exact absurd longer (none owner among node added)
      · exact absurd longer (none node added owner among)

theorem Separates.nodup_points_iff (separates : Separates hash replicas nodes)
    (different : nodes.Nodup) :
    ((placedAt hash (sites replicas nodes)).map (·.1)).Nodup ↔
      ∀ a ∈ nodes, ∀ b ∈ nodes, ¬ Extends replicas a b := by
  have hashes : ((placedAt hash (sites replicas nodes)).map (·.1)).map Except.ok =
      ((sites replicas nodes).map fun site => label site.1 site.2).map hash := by
    have points := congrArg (List.map Prod.fst) (map_placedAt separates.hashed)
    simpa only [List.map_map, Function.comp_def] using points
  have one : Function.Injective (Except.ok : UInt32 → Except Fault UInt32) :=
    fun p q same => Except.ok.inj same
  rw [← List.nodup_map_iff one, hashes, ← nodup_labels_iff different]
  constructor
  · exact List.Nodup.of_map hash
  · intro labels
    refine labels.map_on ?_
    intro bytes mem bytes' mem' same
    obtain ⟨site, asked, rfl⟩ := List.mem_map.1 mem
    obtain ⟨other, asked', rfl⟩ := List.mem_map.1 mem'
    exact separates.apart site asked other asked' same

theorem owner_of_every_label (hash : RingHash) (replicas : Nat) (batches : List (List String))
    (different : batches.flatten.Nodup) (separates : Separates hash replicas batches.flatten) :
    let nodes := batches.flatten
    let r := (empty replicas hash).grown batches
    (empty replicas hash).AllEnd batches ∧ r.len = replicas * nodes.length ∧
      (∀ node ∈ nodes, ∀ i < replicas, ∃ before owner after, nodes = before ++ owner :: after ∧
        HasLabel replicas owner (label node i) ∧
          (∀ later ∈ after, ¬ HasLabel replicas later (label node i)) ∧
            (r.get (label node i)).answer = .ok (some owner)) ∧
      ((∀ node ∈ nodes, ∀ i < replicas, (r.get (label node i)).answer = .ok (some node)) ↔
        ∀ a ∈ nodes, ∀ b ∈ nodes, ¬ Extends replicas a b) ∧
      (r.points.toList.Nodup ↔ ∀ a ∈ nodes, ∀ b ∈ nodes, ¬ Extends replicas a b) := by
  intro nodes r
  have all : (empty replicas hash).AllEnd batches :=
    (allEnd_iff _ batches).2 ⟨separates.room, separates.hashed⟩
  have held : r.Holds (placedAt hash (sites replicas nodes)) := all.holds
  have lasts := fun node (added : node ∈ nodes) i (within : i < replicas) =>
    separates.get_label held (all.ascending (ascending_empty replicas hash))
      (hash_grown (empty replicas hash) batches) added within
  refine ⟨all, ?_, lasts, ?_, ?_⟩
  · have made := congrArg List.length (map_placedAt separates.hashed)
    rw [List.length_map, List.length_map, length_sites] at made
    exact held.len_eq.trans made
  · exact own_labels_iff lasts
  · rw [held.points.nodup_iff]
    exact separates.nodup_points_iff different

theorem separates_total {digest : Digest}
    (apart : ∀ site ∈ sites replicas nodes, ∀ other ∈ sites replicas nodes,
      digest.apply (label site.1 site.2) = digest.apply (label other.1 other.2) →
        label site.1 site.2 = label other.1 other.2) :
    Separates digest.total replicas nodes where
  hashed _ _ := ⟨_, rfl⟩
  apart site asked other asked' same := apart site asked other asked' (Except.ok.inj same)

/-- With few points a node keeps its labels although it is another one after a digit. -/
theorem owner_of_every_label_few_points :
    let hash := Digest.mul.total
    let nodes := ["1a", "b", "a"]
    let r := (empty 2 hash).grown [["1a", "b"], ["a"]]
    r.len = 6 ∧ r.points.toList.Nodup ∧
      ∀ node ∈ nodes, ∀ i < 2, (r.get (label node i)).answer = .ok (some node) := by
  intro hash nodes r
  have separates : Separates hash 2 nodes := separates_total (by decide +kernel)
  have none : ∀ a ∈ nodes, ∀ b ∈ nodes, ¬ Extends 2 a b := by
    intro a _ b _ longer
    exact absurd longer.ten_lt (by decide)
  obtain ⟨_, len, _, own, distinct⟩ :=
    owner_of_every_label hash 2 [["1a", "b"], ["a"]] (by decide) separates
  exact ⟨len, distinct.2 none, own.2 none⟩

/-- Label 10 of one node is label 1 of another, which was added later and takes it. -/
theorem label_taken_by_extension :
    let hash := Digest.mul.total
    let nodes := ["x", "0x"]
    let r := (empty 11 hash).grown [nodes]
    nodes.Nodup ∧ Separates hash 11 nodes ∧ (empty 11 hash).AllEnd [nodes] ∧
      label "x" 10 = label "0x" 1 ∧ (r.get (label "x" 10)).answer = .ok (some "0x") ∧
      ¬ r.points.toList.Nodup := by
  intro hash nodes r
  have different : nodes.Nodup := by decide
  have separates : Separates hash 11 nodes := separates_total (by decide +kernel)
  have all : (empty 11 hash).AllEnd [nodes] :=
    (allEnd_iff _ _).2 ⟨separates.room, separates.hashed⟩
  have held : r.Holds (placedAt hash (sites 11 nodes)) := all.holds
  have longer : Extends 11 "0x" "x" :=
    ⟨['0'], List.cons_ne_nil _ _, List.forall_mem_singleton.2 rfl, by decide, rfl⟩
  refine ⟨different, separates, all, by decide, ?_, ?_⟩
  · have point : (48697 : UInt32) ∈ (placedAt hash (sites 11 nodes)).map (·.1) := by decide +kernel
    exact held.get_eq (all.ascending (ascending_empty 11 hash)) rfl (nearest_self point) rfl
  · rw [held.points.nodup_iff, separates.nodup_points_iff different]
    intro none
    exact none "0x" (by decide) "x" (by decide) longer

end CacheNode.HashRing
