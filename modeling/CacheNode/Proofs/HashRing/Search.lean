import CacheNode.HashRing.Basic

/-! # Searching an ascending array of points -/

namespace CacheNode.HashRing

def Ascending (points : Array UInt32) : Prop := points.toList.Pairwise (· ≤ ·)

structure Parts (points : Array UInt32) (h : UInt32) (lo hi : Nat) : Prop where
  below : ∀ j, (inside : j < points.size) → j < lo → points[j] < h
  above : ∀ j, (inside : j < points.size) → hi ≤ j → h ≤ points[j]

/-- A point of the array that is met first on the way up from a value, around past the largest. -/
def Nearest (points : List UInt32) (h p : UInt32) : Prop :=
  p ∈ points ∧ ∀ q ∈ points, p - h ≤ q - h

variable {points : Array UInt32} {h p q : UInt32} {lo hi i j : Nat}

theorem Ascending.le (ascending : Ascending points) (order : i ≤ j) (inside : j < points.size) :
    points[i] ≤ points[j] := by
  rcases Nat.lt_or_eq_of_le order with less | rfl
  · exact List.pairwise_iff_getElem.1 ascending i j (by simpa using Nat.lt_trans less inside)
      (by simpa using inside) less
  · exact UInt32.le_refl _

theorem lowerBound_le (points : Array UInt32) (h : UInt32) (lo hi : Nat)
    (bound : hi ≤ points.size) (order : lo ≤ hi) :
    lowerBound points h lo hi bound ≤ hi := by
  fun_induction lowerBound points h lo hi bound with
  | case1 lo hi bound less mid below ih => exact ih (by omega)
  | case2 lo hi bound less mid above ih => exact Nat.le_trans (ih (by omega)) (by omega)
  | case3 lo hi bound done => exact order

theorem lowerBound_parts (ascending : Ascending points) (bound : hi ≤ points.size)
    (parts : Parts points h lo hi) (order : lo ≤ hi) :
    Parts points h (lowerBound points h lo hi bound) (lowerBound points h lo hi bound) := by
  fun_induction lowerBound points h lo hi bound with
  | case1 lo hi bound less mid below ih =>
      refine ih ⟨?_, parts.above⟩ (by omega)
      intro j inside before
      have upTo : points[j] ≤ points[mid] := ascending.le (by omega) (by omega)
      exact UInt32.lt_of_le_of_lt upTo below
  | case2 lo hi bound less mid above ih =>
      refine ih ⟨parts.below, ?_⟩ (by omega)
      intro j inside after
      exact UInt32.le_trans (UInt32.not_lt.1 above) (ascending.le after inside)
  | case3 lo hi bound done =>
      obtain rfl : lo = hi := by omega
      exact parts

theorem sub_le_sub_of_le (below : h ≤ p) (order : p ≤ q) : p - h ≤ q - h := by
  rw [UInt32.le_iff_toNat_le] at *
  rw [UInt32.toNat_sub, UInt32.toNat_sub]
  have small := q.toNat_lt
  omega

theorem sub_le_sub_of_lt (above : h ≤ p) (below : q < h) : p - h ≤ q - h := by
  rw [UInt32.le_iff_toNat_le] at *
  rw [UInt32.lt_iff_toNat_lt] at below
  rw [UInt32.toNat_sub, UInt32.toNat_sub]
  have small := p.toNat_lt
  omega

theorem sub_le_sub_of_both_lt (order : p ≤ q) (below : q < h) : p - h ≤ q - h := by
  rw [UInt32.le_iff_toNat_le] at *
  rw [UInt32.lt_iff_toNat_lt] at below
  rw [UInt32.toNat_sub, UInt32.toNat_sub]
  have small := h.toNat_lt
  omega

theorem Nearest.unique {points : List UInt32} (first : Nearest points h p)
    (second : Nearest points h q) : p = q := by
  have equal : p - h = q - h := UInt32.le_antisymm (first.2 q second.1) (second.2 p first.1)
  simpa using congrArg (· + h) equal

theorem Nearest.congr {points others : List UInt32} (near : Nearest points h p)
    (same : ∀ q, q ∈ others ↔ q ∈ points) : Nearest others h p :=
  ⟨(same p).2 near.1, fun q mem => near.2 q ((same q).1 mem)⟩

theorem successor_nearest (ascending : Ascending points) (some : points.size ≠ 0) (h : UInt32) :
    ∃ p, points[successor points h]? = Option.some p ∧ Nearest points.toList h p := by
  have start : Parts points h 0 points.size := by
    constructor
    · intro j _ before
      omega
    · intro j inside after
      omega
  have parts := lowerBound_parts ascending (Nat.le_refl _) start (Nat.zero_le _)
  have bound := lowerBound_le points h 0 points.size (Nat.le_refl _) (Nat.zero_le _)
  -- past the last point all points are below `h`, and the first of them is the least
  unfold successor
  generalize lowerBound points h 0 points.size (Nat.le_refl _) = i at parts bound
  simp only
  split
  · rename_i past
    refine ⟨points[0], Array.getElem?_eq_getElem (by omega), by simp, ?_⟩
    intro q mem
    obtain ⟨j, inside, rfl⟩ := List.getElem_of_mem mem
    rw [Array.length_toList] at inside
    rw [Array.getElem_toList]
    exact sub_le_sub_of_both_lt (ascending.le (Nat.zero_le j) inside)
      (parts.below j inside (by omega))
  · rename_i within
    have inside : i < points.size := by omega
    refine ⟨points[i], Array.getElem?_eq_getElem inside, by simp, ?_⟩
    intro q mem
    obtain ⟨j, inside', rfl⟩ := List.getElem_of_mem mem
    rw [Array.length_toList] at inside'
    rw [Array.getElem_toList]
    have here := parts.above i inside (Nat.le_refl i)
    by_cases before : j < i
    · exact sub_le_sub_of_lt here (parts.below j inside' before)
    · exact sub_le_sub_of_le here (ascending.le (by omega) inside')

end CacheNode.HashRing
