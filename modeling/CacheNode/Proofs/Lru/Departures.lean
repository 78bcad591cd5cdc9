import CacheNode.Proofs.Lru.History
import CacheNode.Proofs.Lru.Refinement

/-! # The order in which entries leave -/

namespace CacheNode.Lru

variable {K : Type u} {V : Type v} [BEq K]

def Command.dropsOldest : Command K V → Bool
  | .put _ _ | .removeOldest => true
  | _ => false

def Command.isExtend : Command K V → Bool
  | .extend _ => true
  | _ => false

/-- The entries that leave with a command for being the oldest. -/
def dropped [Hashable K] (c : Lru K V) (command : Command K V) : List (K × V) :=
  if command.dropsOldest then c.toList.filter fun entry => !(c.step command).state.contains entry.1
  else []

def departures [Hashable K] (c : Lru K V) (past : History K V) :
    List (Command K V) → List (Option Nat)
  | [] => []
  | command :: commands =>
      let o := c.step command
      ((c.dropped command).map fun entry => lastTouch? past entry.1) ++
        departures o.state (past ++ [(command, o.answer)]) commands

/-! ## Entries in the order of their last touches -/

structure Ordered (past : History K V) (l : Recency K V) (gone : List (Option Nat)) : Prop where
  touched : ∀ entry ∈ l, (lastTouch? past entry.1).isSome
  shown : (l.map fun entry => lastTouch? past entry.1).Pairwise (· > ·)
  known : ∀ time ∈ gone, time.isSome
  left : gone.Pairwise (· < ·)
  older : ∀ time ∈ gone, ∀ entry ∈ l, time < lastTouch? past entry.1
  before : ∀ time ∈ gone, time < some past.length

variable {past : History K V} {l rest : Recency K V} {gone : List (Option Nat)} {limit : Nat}
  {command : Command K V} {answer : Except Fault (Reply K V)}

theorem ordered_nil : Ordered ([] : History K V) [] [] := by
  constructor <;> simp

theorem Ordered.sublist (h : Ordered past l gone) (part : rest.Sublist l) :
    Ordered past rest gone where
  touched entry mem := h.touched entry (part.subset mem)
  shown := h.shown.sublist (part.map _)
  known := h.known
  left := h.left
  older time mem entry held := h.older time mem entry (part.subset held)
  before := h.before

theorem Ordered.leave {entry : K × V} (h : Ordered past (l ++ [entry]) gone) :
    Ordered past l (gone ++ [lastTouch? past entry.1]) := by
  have last : entry ∈ l ++ [entry] := by simp
  have shown := h.shown
  simp only [List.map_append, List.map_cons, List.map_nil, List.pairwise_append] at shown
  refine ⟨?_, shown.1, ?_, ?_, ?_, ?_⟩
  · intro other mem
    exact h.touched other (List.mem_append_left _ mem)
  · intro time mem
    rcases List.mem_append.1 mem with mem | mem
    · exact h.known time mem
    · obtain rfl := List.mem_singleton.1 mem
      exact h.touched entry last
  · refine List.pairwise_append.2 ⟨h.left, List.pairwise_singleton _ _, ?_⟩
    intro time mem time' mem'
    obtain rfl := List.mem_singleton.1 mem'
    exact h.older time mem entry last
  · intro time mem other held
    rcases List.mem_append.1 mem with mem | mem
    · exact h.older time mem other (List.mem_append_left _ held)
    · obtain rfl := List.mem_singleton.1 mem
      exact shown.2.2 _ (List.mem_map_of_mem held) _ (by simp)
  · intro time mem
    rcases List.mem_append.1 mem with mem | mem
    · exact h.before time mem
    · obtain rfl := List.mem_singleton.1 mem
      exact lastTouch?_lt past entry.1

theorem Ordered.later (h : Ordered past l gone)
    (same : ∀ entry ∈ l,
      lastTouch? (past ++ [(command, answer)]) entry.1 = lastTouch? past entry.1) :
    Ordered (past ++ [(command, answer)]) l gone := by
  refine ⟨?_, ?_, h.known, h.left, ?_, ?_⟩
  · intro entry mem
    rw [same entry mem]
    exact h.touched entry mem
  · rw [List.map_congr_left same]
    exact h.shown
  · intro time mem entry held
    rw [same entry held]
    exact h.older time mem entry held
  · intro time mem
    have before := h.before time mem
    cases time with
    | none => trivial
    | some time =>
        rw [Option.some_lt_some] at before ⊢
        rw [List.length_append]
        omega

theorem Ordered.untouched (h : Ordered past l gone) (quiet : touched? command answer = none) :
    Ordered (past ++ [(command, answer)]) l gone := by
  apply h.later
  intro entry _
  rw [lastTouch?_snoc, quiet]
  rfl

theorem Ordered.front [EquivBEq K] {key : K} {entry : K × V} (h : Ordered past rest gone)
    (touched : touched? command answer = some key) (same : (entry.1 == key) = true)
    (apart : ∀ other ∈ rest, (other.1 == key) = false) :
    Ordered (past ++ [(command, answer)]) (entry :: rest) gone := by
  have now : lastTouch? (past ++ [(command, answer)]) entry.1 = some past.length := by
    rw [lastTouch?_snoc, touched]
    simp [PartialEquivBEq.symm same]
  have kept : Ordered (past ++ [(command, answer)]) rest gone := by
    apply h.later
    intro other mem
    have differs : (key == other.1) = false := by
      rw [BEq.comm]
      exact apart other mem
    rw [lastTouch?_snoc, touched]
    simp [differs]
  refine ⟨?_, ?_, h.known, h.left, ?_, kept.before⟩
  · intro other mem
    rcases List.mem_cons.1 mem with rfl | mem
    · rw [now]
      rfl
    · exact kept.touched other mem
  · rw [List.map_cons, List.pairwise_cons]
    refine ⟨?_, kept.shown⟩
    intro time mem
    obtain ⟨other, held, rfl⟩ := List.mem_map.1 mem
    have differs : (key == other.1) = false := by
      rw [BEq.comm]
      exact apart other held
    rw [now, lastTouch?_snoc, touched]
    simp only [Option.any_some, differs]
    exact lastTouch?_lt past other.1
  · intro time mem other held
    rcases List.mem_cons.1 held with rfl | held
    · rw [now]
      exact h.before time mem
    · exact kept.older time mem other held

/-! ## Entries that are missing later -/

def Recency.missing (l l' : Recency K V) : List (K × V) :=
  l.filter fun entry => !(l'.entry? entry.1).isSome

theorem missing_eq_nil {l' : Recency K V}
    (kept : ∀ entry ∈ l, ∃ other ∈ l', (other.1 == entry.1) = true) : l.missing l' = [] := by
  apply List.filter_eq_nil_iff.2
  intro entry mem
  have held : (l'.entry? entry.1).isSome := List.find?_isSome.2 (kept entry mem)
  simp [held]

theorem missing_middle {before after l' : Recency K V} {entry : K × V}
    (kept : ∀ other ∈ before ++ after, ∃ another ∈ l', (another.1 == other.1) = true)
    (left : ∀ other ∈ l', (other.1 == entry.1) = false) :
    Recency.missing (before ++ entry :: after) l' = [entry] := by
  have absent : l'.entry? entry.1 = none := by
    apply List.find?_eq_none.2
    intro other mem
    simp [left other mem]
  have first := missing_eq_nil fun other mem => kept other (List.mem_append_left after mem)
  have last := missing_eq_nil fun other mem => kept other (List.mem_append_right before mem)
  unfold Recency.missing at first last ⊢
  rw [List.filter_append, List.filter_cons, first, last]
  simp [absent]

/-! ## One command -/

def Recency.dropped (limit : Nat) (l : Recency K V) (command : Command K V) : List (K × V) :=
  if command.dropsOldest then (l.step limit command).2.1 else []

theorem Ordered.removeOldest (h : Ordered past l gone) (quiet : touched? command answer = none) :
    Ordered (past ++ [(command, answer)]) l.removeOldest.entries
      (gone ++ l.removeOldest.leaver.toList.map fun entry => lastTouch? past entry.1) := by
  unfold Recency.removeOldest
  cases l using List.reverseRecOn with
  | nil =>
      have same := h.untouched quiet
      simpa using same
  | append_singleton l last =>
      rw [List.dropLast_concat, List.getLast?_concat]
      exact h.leave.untouched quiet

theorem Ordered.remove {key : K} (h : Ordered past l gone)
    (quiet : touched? command answer = none) :
    Ordered (past ++ [(command, answer)]) (l.remove key).entries gone := by
  unfold Recency.remove
  split
  · exact (h.sublist List.eraseP_sublist).untouched quiet
  · exact h.untouched quiet

variable [EquivBEq K]

theorem Ordered.promote {key written : K} {old value : V} (h : Ordered past l gone)
    (distinct : l.Distinct) (found : l.entry? key = some (written, old))
    (touched : touched? command answer = some key) :
    Ordered (past ++ [(command, answer)]) ((written, value) :: l.without key) gone := by
  obtain ⟨same, before, after, rfl, rest⟩ := Recency.split_of_entry? found
  rw [rest]
  have others : Ordered past (before ++ after) gone :=
    h.sublist ((List.sublist_cons_self _ after).append_left before)
  exact others.front touched same fun other mem => key_ne_of_distinct distinct same mem

theorem Ordered.put {key : K} {value : V} (h : Ordered past l gone) (distinct : l.Distinct) :
    Ordered (past ++ [(.put key value, answer)]) (l.put limit key value).entries
      (gone ++ (l.put limit key value).leaver.toList.map fun entry => lastTouch? past entry.1) := by
  cases found : l.entry? key with
  | some entry =>
      rw [Recency.put_present found, Option.toList_none, List.map_nil, List.append_nil]
      exact h.promote distinct found rfl
  | none =>
      have apart : ∀ other ∈ l, (other.1 == key) = false := fun other mem =>
        Recency.key_ne_of_entry? found mem
      rcases Recency.put_absent found limit value with stays | ⟨rest, last, rfl, leaves⟩
      · rw [stays, Option.toList_none, List.map_nil, List.append_nil]
        exact h.front rfl BEq.rfl apart
      · rw [leaves]
        exact h.leave.front rfl BEq.rfl fun other mem => apart other (List.mem_append_left _ mem)

theorem Ordered.step (h : Ordered past l gone) (distinct : l.Distinct)
    (single : command.isExtend = false)
    (touched : touched? command answer = touched? command (.ok (l.step limit command).2.2)) :
    Ordered (past ++ [(command, answer)]) (l.step limit command).1
      (gone ++ (l.dropped limit command).map fun entry => lastTouch? past entry.1) := by
  have reading : touched? command answer = none →
      Ordered (past ++ [(command, answer)]) l (gone ++ []) := by
    intro quiet
    rw [List.append_nil]
    exact h.untouched quiet
  cases command with
  | put key value => exact h.put distinct
  | get key =>
      simp only [Recency.step, Recency.get] at touched ⊢
      cases found : l.entry? key with
      | none =>
          rw [found] at touched
          exact reading touched
      | some entry =>
          obtain ⟨written, old⟩ := entry
          rw [found] at touched
          have promoted :
              Ordered (past ++ [(.get key, answer)]) ((written, old) :: l.without key) gone :=
            h.promote distinct found touched
          simpa [Recency.dropped, Command.dropsOldest] using promoted
  | removeOldest => exact h.removeOldest rfl
  | remove key =>
      have removed : Ordered (past ++ [(.remove key, answer)]) (l.remove key).entries gone :=
        h.remove rfl
      simpa [Recency.step, Recency.dropped, Command.dropsOldest] using removed
  | clear =>
      have cleared : Ordered (past ++ [(.clear, answer)]) [] gone :=
        (h.sublist (List.nil_sublist l)).untouched rfl
      simpa [Recency.step, Recency.dropped, Command.dropsOldest] using cleared
  | peek key => exact reading rfl
  | contains key => exact reading rfl
  | len => exact reading rfl
  | isEmpty => exact reading rfl
  | iter => exact reading rfl
  | extend pairs => cases single

/-! ## Which entries leave -/

theorem Recency.kept_front {key : K} {entry front : K × V} (found : l.entry? key = some entry)
    (same : (front.1 == entry.1) = true) :
    ∀ other ∈ l, ∃ another ∈ front :: l.without key, (another.1 == other.1) = true := by
  obtain ⟨_, before, after, rfl, rest⟩ := split_of_entry? found
  intro other mem
  rw [rest]
  rcases List.mem_append.1 mem with mem | mem
  · exact ⟨other, by simp [mem], BEq.rfl⟩
  · rcases List.mem_cons.1 mem with rfl | mem
    · exact ⟨front, List.mem_cons_self, same⟩
    · exact ⟨other, by simp [mem], BEq.rfl⟩

theorem missing_put {key : K} {value : V} (distinct : l.Distinct) :
    l.missing (l.put limit key value).entries = (l.put limit key value).leaver.toList := by
  cases found : l.entry? key with
  | some entry =>
      rw [Recency.put_present found]
      exact missing_eq_nil (Recency.kept_front found BEq.rfl)
  | none =>
      rcases Recency.put_absent found limit value with stays | ⟨rest, last, rfl, leaves⟩
      · rw [stays]
        apply missing_eq_nil
        intro other mem
        exact ⟨other, List.mem_cons_of_mem _ mem, BEq.rfl⟩
      · rw [leaves]
        apply missing_middle
        · intro other mem
          rw [List.append_nil] at mem
          exact ⟨other, List.mem_cons_of_mem _ mem, BEq.rfl⟩
        · intro other mem
          rcases List.mem_cons.1 mem with rfl | mem
          · rw [BEq.comm]
            exact Recency.key_ne_of_entry? found (List.mem_append_right rest (by simp))
          · exact key_ne_of_distinct distinct BEq.rfl (by simpa using mem)

theorem missing_removeOldest (distinct : l.Distinct) :
    l.missing l.removeOldest.entries = l.removeOldest.leaver.toList := by
  unfold Recency.removeOldest
  cases l using List.reverseRecOn with
  | nil => rfl
  | append_singleton l last =>
      rw [List.dropLast_concat, List.getLast?_concat]
      apply missing_middle
      · intro other mem
        rw [List.append_nil] at mem
        exact ⟨other, mem, BEq.rfl⟩
      · intro other mem
        exact key_ne_of_distinct distinct BEq.rfl (by simpa using mem)

theorem missing_remove (distinct : l.Distinct) (key : K) :
    l.missing (l.remove key).entries = (l.remove key).leaver.toList := by
  unfold Recency.remove
  cases found : l.entry? key with
  | none => exact missing_eq_nil fun other mem => ⟨other, mem, BEq.rfl⟩
  | some entry =>
      obtain ⟨same, before, after, rfl, rest⟩ := Recency.split_of_entry? found
      simp only [rest]
      apply missing_middle
      · intro other mem
        exact ⟨other, mem, BEq.rfl⟩
      · intro other mem
        exact key_ne_of_distinct distinct BEq.rfl mem

theorem missing_get (l : Recency K V) (key : K) : l.missing (l.get key).entries = [] := by
  unfold Recency.get
  cases found : l.entry? key with
  | none => exact missing_eq_nil fun other mem => ⟨other, mem, BEq.rfl⟩
  | some entry => exact missing_eq_nil (Recency.kept_front found BEq.rfl)

theorem Shows.missing_eq [Hashable K] [LawfulHashable K] {c c' : Lru K V} {l' : Recency K V}
    (h : c.Shows l) (after : c'.Shows l') :
    c.toList.filter (fun entry => !c'.contains entry.1) = l.missing l' := by
  rw [h.toList_eq]
  unfold Recency.missing
  congr 1
  funext entry
  rw [after.contains_eq]

theorem Shows.dropped_eq [Hashable K] [LawfulHashable K] {c : Lru K V} (h : c.Shows l)
    (after : (c.step command).state.Shows (l.step c.limit command).1) :
    c.dropped command = l.dropped c.limit command := by
  unfold Lru.dropped Recency.dropped
  split
  · rename_i drops
    rw [h.missing_eq after]
    cases command with
    | put key value => exact missing_put h.distinct
    | removeOldest => exact missing_removeOldest h.distinct
    | _ => cases drops
  · rfl

end CacheNode.Lru
