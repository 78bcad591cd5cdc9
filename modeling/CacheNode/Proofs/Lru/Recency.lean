import CacheNode.Lru.Command
import Mathlib.Data.List.Induction

/-! # A store as a plain list of its entries, the most recently used one first -/

namespace CacheNode.Lru

abbrev Recency (K : Type u) (V : Type v) := List (K × V)

/-- The same entry, its key perhaps written in another way. -/
def SameEntry {K : Type u} {V : Type v} [BEq K] (entry other : K × V) : Prop :=
  (entry.1 == other.1) = true ∧ entry.2 = other.2

structure Change (K : Type u) (V : Type v) (A : Type w) where
  entries : Recency K V
  leaver : Option (K × V) := none
  answer : A

namespace Recency

variable {K : Type u} {V : Type v} [BEq K]

def entry? (l : Recency K V) (key : K) : Option (K × V) := l.find? fun entry => entry.1 == key

def without (l : Recency K V) (key : K) : Recency K V := l.eraseP fun entry => entry.1 == key

def put (limit : Nat) (l : Recency K V) (key : K) (value : V) : Change K V (Option V) :=
  match l.entry? key with
  | some (written, old) => { entries := (written, value) :: l.without key, answer := some old }
  | none =>
      let l := (key, value) :: l
      if limit ≠ 0 ∧ limit < l.length then
        { entries := l.dropLast, leaver := l.getLast?, answer := none }
      else { entries := l, answer := none }

def get (l : Recency K V) (key : K) : Change K V (Option V) :=
  match l.entry? key with
  | some entry => { entries := entry :: l.without key, answer := some entry.2 }
  | none => { entries := l, answer := none }

def remove (l : Recency K V) (key : K) : Change K V (Option V) :=
  match l.entry? key with
  | some entry => { entries := l.without key, leaver := some entry, answer := some entry.2 }
  | none => { entries := l, answer := none }

def removeOldest (l : Recency K V) : Change K V (Option (K × V)) :=
  { entries := l.dropLast, leaver := l.getLast?, answer := l.getLast? }

def putAll (limit : Nat) : Recency K V → List (K × V) → Recency K V × List (K × V)
  | l, [] => (l, [])
  | l, pair :: pairs =>
      let d := put limit l pair.1 pair.2
      let (l, leavers) := putAll limit d.entries pairs
      (l, d.leaver.toList ++ leavers)

def step (limit : Nat) (l : Recency K V) : Command K V → Recency K V × List (K × V) × Reply K V
  | .put key value =>
      let d := put limit l key value
      (d.entries, d.leaver.toList, .value? d.answer)
  | .get key =>
      let d := get l key
      (d.entries, [], .value? d.answer)
  | .peek key => (l, [], .value? ((l.entry? key).map (·.2)))
  | .contains key => (l, [], .flag (l.entry? key).isSome)
  | .remove key =>
      let d := remove l key
      (d.entries, d.leaver.toList, .value? d.answer)
  | .removeOldest =>
      let d := removeOldest l
      (d.entries, d.leaver.toList, .oldest d.answer)
  | .len => (l, [], .count l.length)
  | .isEmpty => (l, [], .flag l.isEmpty)
  | .iter => (l, [], .entries l)
  | .clear => ([], l, .done)
  | .extend pairs =>
      let (l, leavers) := putAll limit l pairs
      (l, leavers, .done)

def run (limit : Nat) (l : Recency K V) :
    List (Command K V) → Recency K V × List (List (K × V) × Reply K V)
  | [] => (l, [])
  | command :: commands =>
      let (l, reported, reply) := step limit l command
      let (l, rest) := run limit l commands
      (l, (reported, reply) :: rest)

abbrev Distinct (l : Recency K V) : Prop := (l.map (·.1)).Pairwise fun a b => (a == b) = false

theorem split_of_entry? {l : Recency K V} {key : K} {entry : K × V}
    (found : l.entry? key = some entry) :
    (entry.1 == key) = true ∧ ∃ before after, l = before ++ entry :: after ∧
      l.without key = before ++ after := by
  obtain ⟨same, before, after, rfl, missed⟩ := List.find?_eq_some_iff_append.1 found
  refine ⟨same, before, after, rfl, ?_⟩
  have first : ∀ other ∈ before, ¬ (other.1 == key) = true := by
    intro other mem
    simpa using missed other mem
  rw [without, List.eraseP_append_right _ first, List.eraseP_cons_of_pos (by exact same)]

theorem key_ne_of_entry? {l : Recency K V} {key : K} (absent : l.entry? key = none)
    {entry : K × V} (mem : entry ∈ l) : (entry.1 == key) = false := by
  simpa using List.find?_eq_none.1 absent entry mem

theorem put_present {limit : Nat} {l : Recency K V} {key written : K} {old : V}
    (found : l.entry? key = some (written, old)) (value : V) :
    l.put limit key value =
      { entries := (written, value) :: l.without key, answer := some old } := by
  simp only [put, found]

theorem put_absent {l : Recency K V} {key : K} (absent : l.entry? key = none) (limit : Nat)
    (value : V) :
    l.put limit key value = { entries := (key, value) :: l, answer := none } ∨
      ∃ rest last, l = rest ++ [last] ∧ l.put limit key value =
        { entries := (key, value) :: rest, leaver := some last, answer := none } := by
  simp only [put, absent]
  split
  · rename_i exceeds
    right
    cases l using List.reverseRecOn with
    | nil =>
        obtain ⟨some, exceeds⟩ := exceeds
        simp at exceeds
        omega
    | append_singleton rest last =>
        refine ⟨rest, last, rfl, ?_⟩
        rw [← List.cons_append, List.dropLast_concat, List.getLast?_concat]
  · exact .inl rfl

theorem entries_put_absent {l : Recency K V} {key : K} (absent : l.entry? key = none) (limit : Nat)
    (value : V) :
    (l.put limit key value).entries =
      if limit ≠ 0 ∧ limit < ((key, value) :: l).length then ((key, value) :: l).dropLast
      else (key, value) :: l := by
  simp only [put, absent]
  split <;> rfl

theorem leaver_put_present {limit : Nat} {l : Recency K V} {key : K} {value old : V}
    (present : (l.put limit key value).answer = some old) :
    (l.put limit key value).leaver = none := by
  cases found : l.entry? key with
  | some entry => rw [put_present found]
  | none =>
      rcases put_absent found limit value with stays | ⟨rest, last, rfl, leaves⟩
      · rw [stays]
      · rw [leaves] at present
        cases present

theorem leaver_put_ne {limit : Nat} {l : Recency K V} {key : K} {value : V} {entry : K × V}
    (left : (l.put limit key value).leaver = some entry) : (entry.1 == key) = false := by
  cases found : l.entry? key with
  | some present =>
      rw [put_present found] at left
      cases left
  | none =>
      rcases put_absent found limit value with stays | ⟨rest, last, rfl, leaves⟩
      · rw [stays] at left
        cases left
      · rw [leaves] at left
        cases left
        exact key_ne_of_entry? found (by simp)

theorem isSome_leaver_put (limit : Nat) (l : Recency K V) (key : K) (value : V) :
    (l.put limit key value).leaver.isSome =
      (limit != 0 && decide (limit ≤ l.length) && !(l.entry? key).isSome) := by
  unfold put
  cases l.entry? key with
  | some entry => simp
  | none =>
      simp only [List.length_cons, ← Nat.succ_le_iff, Nat.succ_le_succ_iff]
      split
      · rename_i exceeds
        obtain ⟨limited, exceeds⟩ := exceeds
        simp [limited, exceeds, List.getLast?_cons]
      · rename_i room
        by_cases limited : limit = 0
        · simp [limited]
        · simpa [limited] using room

theorem length_put (limit : Nat) (l : Recency K V) (key : K) (value : V) :
    (l.put limit key value).entries.length + (l.put limit key value).leaver.toList.length =
      l.length + (l.put limit key value).answer.isNone.toNat := by
  cases found : l.entry? key with
  | some entry =>
      obtain ⟨same, before, after, rfl, rest⟩ := split_of_entry? found
      simp [put_present found, rest, Nat.add_assoc]
  | none =>
      rcases put_absent found limit value with stays | ⟨rest, last, rfl, leaves⟩
      · simp [stays]
      · simp [leaves]

theorem length_remove (l : Recency K V) (key : K) :
    (l.remove key).entries.length + (l.remove key).answer.isSome.toNat = l.length := by
  unfold remove
  cases found : l.entry? key with
  | some entry =>
      obtain ⟨same, before, after, rfl, rest⟩ := split_of_entry? found
      simp [rest, Nat.add_assoc]
  | none => simp

theorem leaver_get (l : Recency K V) (key : K) : (l.get key).leaver = none := by
  unfold get
  cases l.entry? key <;> rfl

theorem length_get (l : Recency K V) (key : K) : (l.get key).entries.length = l.length := by
  unfold get
  cases found : l.entry? key with
  | some entry =>
      obtain ⟨same, before, after, rfl, rest⟩ := split_of_entry? found
      simp [rest, Nat.add_assoc]
  | none => rfl

end Recency

variable {K : Type u} {V : Type v} [BEq K] [EquivBEq K]

theorem beq_false_of_distinct {before after : List K} {key other : K}
    (distinct : (before ++ key :: after).Pairwise fun a b => (a == b) = false)
    (mem : other ∈ before ++ after) : (other == key) = false := by
  rw [List.pairwise_append, List.pairwise_cons] at distinct
  rcases List.mem_append.1 mem with mem | mem
  · exact distinct.2.2 other mem key List.mem_cons_self
  · rw [BEq.comm]
    exact distinct.2.1.1 other mem

theorem key_ne_of_distinct {before after : Recency K V} {entry : K × V} {key : K}
    (distinct : Recency.Distinct (before ++ entry :: after)) (same : (entry.1 == key) = true)
    {other : K × V} (mem : other ∈ before ++ after) : (other.1 == key) = false := by
  rw [← BEq.congr_right same]
  rw [Recency.Distinct, List.map_append, List.map_cons] at distinct
  apply beq_false_of_distinct distinct
  rw [← List.map_append]
  exact List.mem_map_of_mem mem

end CacheNode.Lru
