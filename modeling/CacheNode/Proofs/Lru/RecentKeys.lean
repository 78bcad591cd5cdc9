import CacheNode.Proofs.Lru.History
import CacheNode.Proofs.Lru.Recency
import Mathlib.Data.List.Forall2
import Mathlib.Data.List.TakeWhile

/-! # The list of a store and the recently touched keys -/

namespace CacheNode.Lru

/-- The first so many of a list; all of it if there is no limit. -/
def upTo {α : Type u} (limit : Nat) (xs : List α) : List α :=
  if limit = 0 then xs else xs.take limit

structure Fills {α : Type u} (limit : Nat) (xs rest : List α) : Prop where
  unlimited : limit = 0 → rest = []
  bounded : limit ≠ 0 → xs.length ≤ limit
  full : xs.length < limit → rest = []

section
variable {α : Type u} {limit : Nat} {xs rest : List α}

theorem exists_fills (limit : Nat) (xs : List α) :
    ∃ rest, xs = upTo limit xs ++ rest ∧ Fills limit (upTo limit xs) rest := by
  unfold upTo
  split
  · rename_i none
    exact ⟨[], by simp, fun _ => rfl, fun some => absurd none some, fun _ => rfl⟩
  · rename_i some
    refine ⟨xs.drop limit, (List.take_append_drop limit xs).symm, fun none => absurd none some,
      ?_, ?_⟩
    · intro _
      exact List.length_take_le limit xs
    · intro short
      rw [List.length_take] at short
      exact List.drop_eq_nil_of_le (by omega)

theorem Fills.upTo_append (h : Fills limit xs rest) : upTo limit (xs ++ rest) = xs := by
  unfold upTo
  split
  · rename_i none
    rw [h.unlimited none, List.append_nil]
  · rename_i some
    have bounded := h.bounded some
    by_cases short : xs.length < limit
    · rw [h.full short, List.append_nil, List.take_of_length_le bounded]
    · rw [List.take_append_of_le_length (by omega), List.take_of_length_le bounded]

theorem Fills.of_length_eq {ys : List α} (h : Fills limit xs rest) (len : ys.length = xs.length) :
    Fills limit ys rest :=
  ⟨h.unlimited, fun some => len ▸ h.bounded some, fun short => h.full (len ▸ short)⟩

theorem Fills.upTo_cons {rest' : List α} (h : Fills limit xs rest) (nil : rest = [] → rest' = [])
    (a : α) :
    upTo limit (a :: (xs ++ rest')) =
      if limit ≠ 0 ∧ limit < (a :: xs).length then (a :: xs).dropLast else a :: xs := by
  split
  · rename_i exceeds
    obtain ⟨some, exceeds⟩ := exceeds
    have bounded := h.bounded some
    rw [List.length_cons] at exceeds
    rw [upTo, if_neg some, ← List.cons_append, List.take_append_of_le_length (by simp; omega),
      List.dropLast_eq_take]
    congr 1
    simp
    omega
  · rename_i fits
    have filled : Fills limit (a :: xs) rest' := by
      refine ⟨fun none => nil (h.unlimited none), fun some => ?_, fun short => ?_⟩
      · exact Nat.le_of_not_lt fun exceeds => fits ⟨some, exceeds⟩
      · rw [List.length_cons] at short
        exact nil (h.full (by omega))
    exact filled.upTo_append

end

section
variable {α : Type u} {β : Type v} {R S : α → β → Prop}

theorem forall₂_split {xs : List α} {before after : List β} {b : β}
    (h : List.Forall₂ R xs (before ++ b :: after)) :
    ∃ ys a zs, xs = ys ++ a :: zs ∧ List.Forall₂ R ys before ∧ R a b ∧ List.Forall₂ R zs after := by
  induction before generalizing xs with
  | nil =>
      cases h with
      | cons here rest => exact ⟨[], _, _, rfl, .nil, here, rest⟩
  | cons first before ih =>
      cases h with
      | cons here rest =>
          obtain ⟨ys, a, zs, rfl, left, middle, right⟩ := ih rest
          exact ⟨_ :: ys, a, zs, rfl, .cons here left, middle, right⟩

theorem exists_of_forall₂ {xs : List α} {ys : List β} (h : List.Forall₂ R xs ys) {a : α}
    (mem : a ∈ xs) : ∃ b ∈ ys, R a b := by
  induction h with
  | nil => cases mem
  | cons here rest ih =>
      rcases List.mem_cons.1 mem with rfl | mem
      · exact ⟨_, List.mem_cons_self, here⟩
      · obtain ⟨b, held, related⟩ := ih mem
        exact ⟨b, List.mem_cons_of_mem _ held, related⟩

theorem forall₂_of_mem {xs : List α} {ys : List β} (h : List.Forall₂ R xs ys)
    (imp : ∀ a ∈ xs, ∀ b, R a b → S a b) : List.Forall₂ S xs ys := by
  induction h with
  | nil => exact .nil
  | cons here rest ih =>
      exact .cons (imp _ List.mem_cons_self _ here)
        (ih fun a mem => imp a (List.mem_cons_of_mem _ mem))

theorem forall₂_dropLast {xs : List α} {ys : List β} (h : List.Forall₂ R xs ys) :
    List.Forall₂ R xs.dropLast ys.dropLast := by
  rw [List.dropLast_eq_take, List.dropLast_eq_take, h.length_eq]
  exact List.forall₂_take _ h

end

/-! ## Keys and entries together -/

variable {K : Type u} {V : Type v} [BEq K] {past : History K V} {limit : Nat} {l : Recency K V}

def Latest (past : History K V) (key : K) (entry : K × V) : Prop :=
  (entry.1 == key) = true ∧ lastPut? past key = some entry.2

theorem Latest.later {command : Command K V} {answer : Except Fault (Reply K V)} {key : K}
    {entry : K × V} (latest : Latest past key entry) (unput : putUnder? key command = none) :
    Latest (past ++ [(command, answer)]) key entry := by
  refine ⟨latest.1, ?_⟩
  rw [lastPut?_snoc, unput, Option.none_or]
  exact latest.2

structure Mirrors (past : History K V) (limit : Nat) (l : Recency K V) : Prop where
  latest : List.Forall₂ (Latest past) (upTo limit (recent past)) l
  put : ∀ key, (∃ other ∈ recent past, (other == key) = true) ↔ WasPut past key

theorem mirrors_nil (limit : Nat) : Mirrors ([] : History K V) limit [] where
  latest := by
    unfold upTo
    split <;> simp [recent, touches]
  put key := by simp [recent, touches, WasPut]

def Command.uses : Command K V → Bool
  | .put _ _ | .get _ | .peek _ | .contains _ | .len | .isEmpty | .iter => true
  | .remove _ | .removeOldest | .clear | .extend _ => false

theorem filter_apart {keys : List K} {key : K} (apart : ∀ other ∈ keys, (other == key) = false) :
    (keys.filter fun other => !other == key) = keys := by
  rw [List.filter_eq_self]
  intro other mem
  simp [apart other mem]

variable [EquivBEq K]

theorem lastPut?_congr {key other : K} (same : (key == other) = true) :
    lastPut? past key = lastPut? past other := by
  have under : putUnder? (V := V) key = putUnder? other := by
    funext command
    cases command <;> simp [putUnder?, BEq.congr_right same]
  unfold lastPut?
  rw [under]

theorem mem_key_front (keys : List K) (key asked : K) :
    (∃ other ∈ key :: keys.filter fun other => !other == key, (other == asked) = true) ↔
      (key == asked) = true ∨ ∃ other ∈ keys, (other == asked) = true := by
  constructor
  · intro given
    obtain ⟨other, mem, same⟩ := given
    rcases List.mem_cons.1 mem with rfl | mem
    · exact .inl same
    · exact .inr ⟨other, (List.mem_filter.1 mem).1, same⟩
  · intro given
    rcases given with same | ⟨other, mem, same⟩
    · exact ⟨key, List.mem_cons_self, same⟩
    · by_cases equal : (other == key) = true
      · exact ⟨key, List.mem_cons_self, PartialEquivBEq.trans (PartialEquivBEq.symm equal) same⟩
      · exact ⟨other, List.mem_cons_of_mem _ (List.mem_filter.2 ⟨mem, by simp [equal]⟩), same⟩

theorem Mirrors.promote {command : Command K V} {answer : Except Fault (Reply K V)} {key written : K}
    {old : V} (h : Mirrors past limit l) (touched : touched? command answer = some key)
    (found : l.entry? key = some (written, old))
    (others : ∀ other, (key == other) = false → putUnder? (V := V) other command = none) :
    Mirrors (past ++ [(command, answer)]) limit
      ((written, (putUnder? key command).getD old) :: l.without key) := by
  obtain ⟨same, before, after, rfl, rest⟩ := Recency.split_of_entry? found
  obtain ⟨newer, j, older, split, left, ⟨same_j, value_j⟩, right⟩ := forall₂_split h.latest
  have key_j : (j == key) = true := PartialEquivBEq.trans (PartialEquivBEq.symm same_j) same
  obtain ⟨beyond, whole, fills⟩ := exists_fills limit (recent past)
  rw [split] at whole fills
  -- no other key of the list is equal to the one that moves
  have distinct : (recent past).Pairwise fun a b => (a == b) = false :=
    eraseDups_distinct (touches past).reverse
  rw [whole, List.append_assoc, List.cons_append] at distinct
  have apart : ∀ other ∈ newer ++ (older ++ beyond), (other == key) = false := by
    intro other mem
    rw [← BEq.congr_right key_j]
    exact beq_false_of_distinct distinct mem
  have kept : (recent past).filter (fun other => !other == key) = newer ++ older ++ beyond := by
    rw [whole, List.append_assoc, List.filter_append, List.cons_append,
      List.filter_cons_of_neg (p := fun other => !other == key) (by simp [key_j]),
      ← List.filter_append, filter_apart apart, List.append_assoc]
  have unchanged : ∀ other ∈ newer ++ older, ∀ entry, Latest past other entry →
      Latest (past ++ [(command, answer)]) other entry := by
    intro other mem entry latest
    apply latest.later
    apply others
    rw [BEq.comm]
    apply apart
    rw [← List.append_assoc]
    exact List.mem_append_left beyond mem
  have recent_eq : recent (past ++ [(command, answer)]) = key :: (newer ++ older ++ beyond) := by
    rw [recent_snoc, touched]
    simp only [kept]
  refine ⟨?_, fun asked => ?_⟩
  · have filled : Fills limit (key :: (newer ++ older)) beyond :=
      fills.of_length_eq (by simp [Nat.add_assoc])
    have first : upTo limit (key :: (newer ++ older ++ beyond)) = key :: (newer ++ older) :=
      filled.upTo_append
    rw [recent_eq, first, rest]
    refine .cons ⟨same, ?_⟩ (forall₂_of_mem (List.rel_append left right) unchanged)
    rw [lastPut?_snoc, ← lastPut?_congr key_j, value_j]
    cases putUnder? key command <;> rfl
  · rw [recent_snoc, touched, mem_key_front, h.put, wasPut_snoc]
    constructor
    · intro given
      rcases given with equal | was
      · refine .inl ((h.put asked).1 ⟨j, ?_, PartialEquivBEq.trans key_j equal⟩)
        rw [whole]
        simp
      · exact .inl was
    · intro given
      rcases given with was | under
      · exact .inr was
      · left
        by_contra differs
        rw [others asked (by simpa using differs)] at under
        cases under

theorem Mirrors.add {answer : Except Fault (Reply K V)} {key : K} {value : V}
    (h : Mirrors past limit l) (absent : l.entry? key = none) :
    Mirrors (past ++ [(.put key value, answer)]) limit (l.put limit key value).entries := by
  have apart : ∀ other ∈ upTo limit (recent past), (other == key) = false := by
    intro other mem
    obtain ⟨entry, held, equal, _⟩ := exists_of_forall₂ h.latest mem
    rw [← BEq.congr_left equal]
    exact Recency.key_ne_of_entry? absent held
  have put : ∀ other,
      putUnder? other (.put key value) = if key == other then some value else none :=
    fun _ => rfl
  obtain ⟨beyond, whole, fills⟩ := exists_fills limit (recent past)
  have kept : (recent past).filter (fun other => !other == key) =
      upTo limit (recent past) ++ beyond.filter fun other => !other == key := by
    conv_lhs => rw [whole]
    rw [List.filter_append, filter_apart apart]
  have unchanged : ∀ other ∈ upTo limit (recent past), ∀ entry, Latest past other entry →
      Latest (past ++ [(.put key value, answer)]) other entry := by
    intro other mem entry latest
    apply latest.later
    rw [put, BEq.comm, apart other mem]
    rfl
  have shown : List.Forall₂ (Latest (past ++ [(.put key value, answer)]))
      (key :: upTo limit (recent past)) ((key, value) :: l) := by
    refine .cons ⟨BEq.rfl, ?_⟩ (forall₂_of_mem h.latest unchanged)
    rw [lastPut?_snoc, put, if_pos BEq.rfl]
    rfl
  have recent_eq : recent (past ++ [(.put key value, answer)]) =
      key :: (upTo limit (recent past) ++ beyond.filter fun other => !other == key) := by
    rw [recent_snoc]
    simp only [touched?, kept]
  refine ⟨?_, fun asked => ?_⟩
  · rw [recent_eq, fills.upTo_cons (fun nil => by rw [nil, List.filter_nil]), shown.length_eq]
    simp only [Recency.put, absent]
    split
    · exact forall₂_dropLast shown
    · exact shown
  · rw [recent_snoc]
    simp only [touched?]
    rw [mem_key_front, h.put, wasPut_snoc, put, or_comm]
    cases key == asked <;> simp

theorem Mirrors.step {command : Command K V} {answer : Except Fault (Reply K V)}
    (h : Mirrors past limit l) (uses : command.uses = true)
    (touched : touched? command answer = touched? command (.ok (l.step limit command).2.2)) :
    Mirrors (past ++ [(command, answer)]) limit (l.step limit command).1 := by
  have reading : touched? command answer = none → (∀ key, putUnder? (V := V) key command = none) →
      Mirrors (past ++ [(command, answer)]) limit l := by
    intro untouched unput
    refine ⟨?_, fun asked => ?_⟩
    · rw [recent_snoc, untouched]
      exact forall₂_of_mem h.latest fun other _ _ latest => latest.later (unput other)
    · rw [recent_snoc, untouched, wasPut_snoc, unput, h.put]
      simp
  cases command with
  | put key value =>
      cases found : l.entry? key with
      | none => exact h.add found
      | some entry =>
          obtain ⟨written, old⟩ := entry
          have moved : Mirrors (past ++ [(.put key value, answer)]) limit _ :=
            h.promote rfl found fun other apart => by simp [putUnder?, apart]
          simpa [Recency.step, Recency.put, found, putUnder?] using moved
  | get key =>
      simp only [Recency.step, Recency.get] at touched ⊢
      cases found : l.entry? key with
      | none =>
          rw [found] at touched
          exact reading touched fun _ => rfl
      | some entry =>
          obtain ⟨written, old⟩ := entry
          rw [found] at touched
          exact h.promote touched found fun _ _ => rfl
  | peek key => exact reading rfl fun _ => rfl
  | contains key => exact reading rfl fun _ => rfl
  | len => exact reading rfl fun _ => rfl
  | isEmpty => exact reading rfl fun _ => rfl
  | iter => exact reading rfl fun _ => rfl
  | remove key => cases uses
  | removeOldest => cases uses
  | clear => cases uses
  | extend pairs => cases uses

theorem Mirrors.isSome_entry? (h : Mirrors past limit l) (key : K) :
    (l.entry? key).isSome ↔ ∃ other ∈ upTo limit (recent past), (other == key) = true := by
  rw [Recency.entry?, List.find?_isSome]
  constructor
  · intro given
    obtain ⟨entry, held, same⟩ := given
    obtain ⟨other, mem, equal, _⟩ := exists_of_forall₂ h.latest.flip held
    exact ⟨other, mem, PartialEquivBEq.trans (PartialEquivBEq.symm equal) same⟩
  · intro given
    obtain ⟨other, mem, same⟩ := given
    obtain ⟨entry, held, equal, _⟩ := exists_of_forall₂ h.latest mem
    exact ⟨entry, held, PartialEquivBEq.trans equal same⟩

theorem recent_split {key : K} (mem : ∃ other ∈ recent past, (other == key) = true) :
    ∃ last rest, (last == key) = true ∧
      recent past = (touchedSince past key).eraseDups ++ last :: rest := by
  obtain ⟨other, mem, same⟩ := mem
  have touched := mem_of_mem_eraseDups mem
  have parts := List.takeWhile_append_dropWhile (p := fun other => !other == key)
    (l := (touches past).reverse)
  cases older : (touches past).reverse.dropWhile fun other => !other == key with
  | nil =>
      rw [older, List.append_nil] at parts
      rw [← parts] at touched
      have apart := List.mem_takeWhile_imp touched
      simp [same] at apart
  | cons last older' =>
      have found : (last == key) = true := by
        have first := List.head?_dropWhile_not (fun other => !other == key) (touches past).reverse
        simpa [older] using first
      have apart : ∀ other ∈ touchedSince past key, (other == last) = false := by
        intro other mem
        rw [BEq.congr_right found]
        simpa using List.mem_takeWhile_imp mem
      obtain ⟨rest, split⟩ := eraseDups_append_cons _ older' last apart
      refine ⟨last, rest, found, ?_⟩
      rw [← split, touchedSince, ← older, parts]
      rfl

theorem Mirrors.isSome_entry?_iff (h : Mirrors past limit l) (limited : limit ≠ 0) {key : K}
    (put : WasPut past key) :
    (l.entry? key).isSome ↔ (touchedSince past key).eraseDups.length < limit := by
  obtain ⟨last, rest, found, split⟩ := recent_split ((h.put key).2 put)
  rw [h.isSome_entry?, upTo, if_neg limited, split]
  constructor
  · intro given
    obtain ⟨other, mem, same⟩ := given
    by_contra exceeds
    rw [List.take_append_of_le_length (by omega)] at mem
    have since := mem_of_mem_eraseDups (List.mem_of_mem_take mem)
    have apart := List.mem_takeWhile_imp since
    simp [same] at apart
  · intro room
    obtain ⟨n, more⟩ := Nat.exists_eq_add_of_lt room
    refine ⟨last, ?_, found⟩
    rw [more, Nat.add_assoc, List.take_length_add_append]
    simp

end CacheNode.Lru
