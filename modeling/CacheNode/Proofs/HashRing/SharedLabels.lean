import CacheNode.HashRing.Digest
import CacheNode.Proofs.HashRing.Labels

/-! # Labels that two nodes share -/

namespace CacheNode.HashRing

def hashedIn (notes : List Note) : List (List UInt8) := notes.filterMap Note.hashed?

def labels (replicas : Nat) (node : String) : List (List UInt8) :=
  (List.range replicas).map (label node)

def StartsWithDigit (node : String) : Prop :=
  ∃ c rest, node.toList = c :: rest ∧ c.isDigit = true

variable {replicas : Nat} {a b : String} {bytes : List UInt8}

theorem mem_labels : bytes ∈ labels replicas a ↔ ∃ i < replicas, label a i = bytes := by
  simp [labels]

theorem nodup_labels (replicas : Nat) (node : String) : (labels replicas node).Nodup :=
  List.nodup_range.map fun _ _ same => label_inj same

theorem flatMap_labels (replicas : Nat) (nodes : List String) :
    nodes.flatMap (labels replicas) =
      (sites replicas nodes).map fun site => label site.1 site.2 := by
  unfold sites labels
  rw [List.map_flatMap]
  simp only [List.map_map, Function.comp_def]

theorem hashedIn_place (r : HashRing) (sites : List (String × Nat)) :
    hashedIn (Outcome.inTurn place r sites).notes <+:
        (sites.map fun site => label site.1 site.2) ∧
      ∀ units, (Outcome.inTurn place r sites).answer = .ok units →
        hashedIn (Outcome.inTurn place r sites).notes =
          sites.map fun site => label site.1 site.2 := by
  induction sites generalizing r with
  | nil => exact ⟨List.prefix_rfl, fun _ _ => rfl⟩
  | cons site sites ih =>
      simp only [Outcome.inTurn_cons, place, List.map_cons]
      cases r.hash (label site.1 site.2) with
      | error f =>
          refine ⟨?_, fun units ended => by cases ended⟩
          exact List.prefix_append [label site.1 site.2] _
      | ok point =>
          obtain ⟨begun, whole⟩ := ih (r.claim point site.1)
          refine ⟨(List.prefix_cons_inj _).2 begun, fun units ended => ?_⟩
          change (Outcome.inTurn place (r.claim point site.1) sites).answer.map _ = _ at ended
          cases answer : (Outcome.inTurn place (r.claim point site.1) sites).answer with
          | error f =>
              rw [answer] at ended
              cases ended
          | ok later => exact congrArg (label site.1 site.2 :: ·) (whole later answer)

theorem hashedIn_add (r : HashRing) (nodes : List String) :
    hashedIn (r.add nodes).notes <+: nodes.flatMap (labels r.replicas) ∧
      ((r.add nodes).answer = .ok () →
        hashedIn (r.add nodes).notes = nodes.flatMap (labels r.replicas)) := by
  rw [flatMap_labels]
  unfold add
  split
  · exact ⟨List.nil_prefix, fun ended => by cases ended⟩
  · obtain ⟨begun, whole⟩ := hashedIn_place r (sites r.replicas nodes)
    cases placing : Outcome.inTurn place r (sites r.replicas nodes) with
    | mk state notes answer =>
        rw [placing] at begun whole
        cases answer with
        | error f => exact ⟨begun, fun ended => by cases ended⟩
        | ok units =>
            -- the note of the addition itself tells of no bytes
            have noted : hashedIn (notes ++ [.added nodes.length state.settle.len]) =
                hashedIn notes := by
              simp [hashedIn, Note.hashed?]
            have placed := noted.trans (whole units rfl)
            exact ⟨placed ▸ List.prefix_rfl, fun _ => placed⟩

theorem Extends.startsWithDigit (longer : Extends replicas a b) : StartsWithDigit a := by
  obtain ⟨digits, any, all, _, rest⟩ := longer
  cases digits with
  | nil => exact absurd rfl any
  | cons c digits => exact ⟨c, digits ++ b.toList, rest, all c List.mem_cons_self⟩

theorem exists_mem_labels_iff (apart : a ≠ b) :
    (∃ bytes ∈ labels replicas a, bytes ∈ labels replicas b) ↔
      Extends replicas a b ∨ Extends replicas b a := by
  rw [← exists_label_eq_iff apart]
  simp only [mem_labels]
  constructor
  · rintro ⟨bytes, ⟨i, hi, rfl⟩, j, hj, same⟩
    exact ⟨i, hi, j, hj, same.symm⟩
  · rintro ⟨i, hi, j, hj, same⟩
    exact ⟨label a i, ⟨i, hi, rfl⟩, j, hj, same.symm⟩

theorem labels_meet_iff :
    (∀ (r : HashRing) (nodes : List String),
      hashedIn (r.add nodes).notes <+: nodes.flatMap (labels r.replicas) ∧
        ((r.add nodes).answer = .ok () →
          hashedIn (r.add nodes).notes = nodes.flatMap (labels r.replicas))) ∧
    ∀ (replicas : Nat) (a b : String),
      (labels replicas a).length = replicas ∧ (labels replicas a).Nodup ∧
        (a ≠ b →
          ((∃ bytes ∈ labels replicas a, bytes ∈ labels replicas b) ↔
            Extends replicas a b ∨ Extends replicas b a) ∧
          (¬ StartsWithDigit a → ¬ StartsWithDigit b →
            ∀ bytes ∈ labels replicas a, bytes ∉ labels replicas b)) := by
  refine ⟨hashedIn_add, fun replicas a b => ⟨?_, nodup_labels replicas a, fun apart => ?_⟩⟩
  · rw [labels, List.length_map, List.length_range]
  · refine ⟨exists_mem_labels_iff apart, fun plain plain' bytes here there => ?_⟩
    rcases (exists_mem_labels_iff apart).1 ⟨bytes, here, there⟩ with longer | longer
    · exact plain longer.startsWithDigit
    · exact plain' longer.startsWithDigit

/-- With eleven points label 10 of one node is label 1 of the other; with ten points they have no
label in common. Two nodes that start with letters never have one. -/
theorem labels_meet_at_eleven_points :
    let r := empty 11 Digest.mul.total
    (r.add ["x", "0x"]).answer = .ok () ∧
      hashedIn (r.add ["x", "0x"]).notes = labels 11 "x" ++ labels 11 "0x" ∧
      (∃ bytes ∈ labels 11 "x", bytes ∈ labels 11 "0x") ∧
      (¬ ∃ bytes ∈ labels 10 "x", bytes ∈ labels 10 "0x") ∧
      ¬ StartsWithDigit "x" ∧ ¬ StartsWithDigit "y" ∧
      ∀ bytes ∈ labels 11 "x", bytes ∉ labels 11 "y" := by
  intro r
  obtain ⟨additions, pairs⟩ := labels_meet_iff
  have ended : (r.add ["x", "0x"]).answer = .ok () :=
    (ended_add_iff r _).2 ⟨.inr (by decide), fun _ _ => ⟨_, rfl⟩⟩
  have longer : Extends 11 "0x" "x" :=
    ⟨['0'], List.cons_ne_nil _ _, List.forall_mem_singleton.2 rfl, by decide, rfl⟩
  have plain : ∀ node ∈ ["x", "y"], ¬ StartsWithDigit node := by
    rintro node mem ⟨c, rest, first, digit⟩
    simp only [List.mem_cons, List.not_mem_nil, or_false] at mem
    rcases mem with rfl | rfl
    · obtain ⟨rfl, _⟩ := List.cons.inj first
      cases digit
    · obtain ⟨rfl, _⟩ := List.cons.inj first
      cases digit
  have few : ¬ ∃ bytes ∈ labels 10 "x", bytes ∈ labels 10 "0x" := by
    intro meet
    rcases ((pairs 10 "x" "0x").2.2 (by decide)).1.1 meet with longer | longer
    · exact absurd longer.ten_lt (by decide)
    · exact absurd longer.ten_lt (by decide)
  refine ⟨ended, ?_, ((pairs 11 "x" "0x").2.2 (by decide)).1.2 (.inr longer), few,
    plain "x" (by decide), plain "y" (by decide), ?_⟩
  · have hashed := (additions r ["x", "0x"]).2 ended
    rw [List.flatMap_cons, List.flatMap_singleton] at hashed
    exact hashed
  · exact ((pairs 11 "x" "y").2.2 (by decide)).2 (plain "x" (by decide)) (plain "y" (by decide))

end CacheNode.HashRing
