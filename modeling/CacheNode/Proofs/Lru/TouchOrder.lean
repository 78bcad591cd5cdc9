import CacheNode.Key
import CacheNode.Proofs.Lru.Departures
import CacheNode.Proofs.Lru.RecentKeys

/-! # Least recently used, in terms of the history -/

namespace CacheNode.Lru

variable {K : Type u} {V : Type v} [BEq K] [EquivBEq K] [Hashable K] [LawfulHashable K]
  {c : Lru K V} {l : Recency K V} {past : History K V} {gone : List (Option Nat)}

/-- Whether the listener fails makes no difference to what is shown, nor to what is touched. -/
theorem Shows.step_of_uses (h : c.Shows l) {command : Command K V} (uses : command.uses = true) :
    (c.step command).state.Shows (l.step c.limit command).1 ∧
      (c.step command).state.limit = c.limit ∧
      touched? command (c.step command).answer =
        touched? command (.ok (l.step c.limit command).2.2) := by
  cases command with
  | put key value =>
      have follows := h.put key value
      exact ⟨follows.shows, follows.limit, rfl⟩
  | get key =>
      obtain ⟨shows, limit, onEvict, answer⟩ := h.get key
      refine ⟨shows, limit, ?_⟩
      show touched? (.get key) (.ok (.value? (c.get key).2)) = _
      rw [answer]
      rfl
  | peek key => exact ⟨h, rfl, rfl⟩
  | contains key => exact ⟨h, rfl, rfl⟩
  | len => exact ⟨h, rfl, rfl⟩
  | isEmpty => exact ⟨h, rfl, rfl⟩
  | iter => exact ⟨h, rfl, rfl⟩
  | remove key => cases uses
  | removeOldest => cases uses
  | clear => cases uses
  | extend pairs => cases uses

theorem Mirrors.run (h : Mirrors past c.limit l) (shows : c.Shows l)
    (commands : List (Command K V)) (uses : ∀ command ∈ commands, command.uses = true) :
    ∃ l', (c.run commands).1.Shows l' ∧ Mirrors (past ++ history c commands) c.limit l' := by
  induction commands generalizing c l past with
  | nil =>
      refine ⟨l, shows, ?_⟩
      simpa [history] using h
  | cons command commands ih =>
      have used := uses command List.mem_cons_self
      obtain ⟨later, limit, touched⟩ := shows.step_of_uses used
      have first : Mirrors (past ++ [(command, (c.step command).answer)])
          (c.step command).state.limit (l.step c.limit command).1 := by
        rw [limit]
        exact h.step used touched
      obtain ⟨l', last, mirrors⟩ := ih first later fun other mem =>
        uses other (List.mem_cons_of_mem _ mem)
      refine ⟨l', last, ?_⟩
      rw [limit, List.append_assoc] at mirrors
      exact mirrors

theorem Ordered.run (h : Ordered past l gone) (shows : c.Shows l) (accepts : Accepts c.onEvict)
    (commands : List (Command K V)) (single : ∀ command ∈ commands, command.isExtend = false) :
    ∃ l', (c.run commands).1.Shows l' ∧
      Ordered (past ++ history c commands) l' (gone ++ c.departures past commands) := by
  induction commands generalizing c l past gone with
  | nil =>
      refine ⟨l, shows, ?_⟩
      simpa [history, departures] using h
  | cons command commands ih =>
      have tracks := shows.step accepts command
      have touched : touched? command (c.step command).answer =
          touched? command (.ok (l.step c.limit command).2.2) := by
        rw [tracks.answer]
      have first := h.step shows.distinct (single command List.mem_cons_self) touched
      rw [← shows.dropped_eq tracks.shows] at first
      obtain ⟨l', last, ordered⟩ := ih first tracks.shows (tracks.onEvict ▸ accepts) fun other mem =>
        single other (List.mem_cons_of_mem _ mem)
      refine ⟨l', last, ?_⟩
      rw [List.append_assoc, List.append_assoc] at ordered
      exact ordered

theorem Shows.history_eq (h : c.Shows l) (accepts : Accepts c.onEvict)
    (commands : List (Command K V)) :
    history c commands = commands.zip ((l.run c.limit commands).2.map fun step => .ok step.2) := by
  induction commands generalizing c l with
  | nil => rfl
  | cons command commands ih =>
      have first := h.step accepts command
      have rest := ih first.shows (first.onEvict ▸ accepts)
      rw [first.limit] at rest
      rw [history, first.answer, rest]
      rfl

theorem mirrors_and_orders_every_run (limit : Nat) (onEvict : Option (Listener K V))
    (commands : List (Command K V)) :
    let c := ((empty limit onEvict).run commands).1
    let h := history (empty limit onEvict) commands
    ((∀ command ∈ commands, command.uses = true) →
      List.Forall₂ (Latest h) (upTo limit (recent h)) c.toList ∧
        (∀ key, (∃ other ∈ recent h, (other == key) = true) ↔ WasPut h key) ∧
        (limit ≠ 0 → ∀ key, WasPut h key →
          (c.contains key = true ↔ (touchedSince h key).eraseDups.length < limit))) ∧
      (Accepts onEvict → (∀ command ∈ commands, command.isExtend = false) →
        (∀ entry ∈ c.toList, (lastTouch? h entry.1).isSome) ∧
          (c.toList.map fun entry => lastTouch? h entry.1).Pairwise (· > ·) ∧
          (∀ time ∈ (empty limit onEvict).departures [] commands, time.isSome) ∧
          ((empty limit onEvict).departures [] commands).Pairwise (· < ·)) := by
  intro c h
  -- the first half needs nothing of the listener, since an entry leaves before it is told
  constructor
  · intro uses
    obtain ⟨l, shows, mirrors⟩ := (mirrors_nil limit).run (shows_empty limit onEvict) commands uses
    rw [List.nil_append] at mirrors
    change Mirrors h limit l at mirrors
    refine ⟨?_, mirrors.put, fun limited key put => ?_⟩
    · rw [shows.toList_eq]
      exact mirrors.latest
    · rw [shows.contains_eq]
      exact mirrors.isSome_entry?_iff limited put
  · intro accepts single
    obtain ⟨l, shows, ordered⟩ :=
      ordered_nil.run (shows_empty limit onEvict) accepts commands single
    rw [List.nil_append, List.nil_append] at ordered
    rw [shows.toList_eq]
    exact ⟨ordered.touched, ordered.shown, ordered.known, ordered.left⟩

theorem mirrors_and_orders_number_keys :
    let busy : List (Command (Key true) Nat) :=
      [.put ⟨.int 1⟩ 10, .put ⟨.int 2⟩ 20, .get ⟨.int 1⟩, .put ⟨.int 3⟩ 30, .get ⟨.int 2⟩,
        .put ⟨.int 1⟩ 11]
    let shrinking := busy ++ [.put ⟨.int 4⟩ 40, .remove ⟨.int 1⟩, .put ⟨.int 5⟩ 50, .removeOldest,
      .put ⟨.int 6⟩ 60, .get ⟨.int 5⟩]
    (∀ command ∈ busy, command.uses = true) ∧
      recent (history (empty 2 none) busy) = [⟨.int 1⟩, ⟨.int 3⟩, ⟨.int 2⟩] ∧
      List.Forall₂ (Latest (history (empty 2 none) busy)) [⟨.int 1⟩, ⟨.int 3⟩]
        [(⟨.int 1⟩, 11), (⟨.int 3⟩, 30)] ∧
      ¬ ((empty 2 none).run busy).1.contains ⟨.int 2⟩ = true ∧
      (∀ command ∈ shrinking, command.isExtend = false) ∧
      [lastTouch? (history (empty 2 none) shrinking) ⟨.int 5⟩,
        lastTouch? (history (empty 2 none) shrinking) ⟨.int 6⟩].Pairwise (· > ·) ∧
      ((empty 2 none).departures [] shrinking).Pairwise (· < ·) := by
  intro busy shrinking
  have uses : ∀ command ∈ busy, command.uses = true := by
    simp [busy, Command.uses]
  have single : ∀ command ∈ shrinking, command.isExtend = false := by
    simp [shrinking, busy, Command.isExtend]
  have accepts : Accepts (none : Option (Listener (Key true) Nat)) := by simp [Accepts]
  have start := shows_empty (K := Key true) (V := Nat) 2 none
  have recently : recent (history (empty 2 none) busy) = [⟨.int 1⟩, ⟨.int 3⟩, ⟨.int 2⟩] := by
    rw [start.history_eq accepts busy]
    rfl
  obtain ⟨shown, put, present⟩ := (mirrors_and_orders_every_run 2 none busy).1 uses
  obtain ⟨touched, listed, known, left⟩ :=
    (mirrors_and_orders_every_run 2 none shrinking).2 accepts single
  rw [recently, (start.agreesOn accepts busy).1] at shown
  rw [(start.agreesOn accepts shrinking).1] at listed
  refine ⟨uses, recently, shown, ?_, single, listed, left⟩
  have was : WasPut (history (empty 2 none) busy) ⟨.int 2⟩ := by
    apply (put ⟨.int 2⟩).1
    rw [recently]
    exact ⟨⟨.int 2⟩, by simp, rfl⟩
  rw [present (by decide) ⟨.int 2⟩ was, start.history_eq accepts busy]
  exact Nat.lt_irrefl 2

end CacheNode.Lru
