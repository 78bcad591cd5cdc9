import CacheNode.Proofs.Lru.TouchOrder
import Mathlib.Data.Multiset.AddSub

/-! # What becomes of every entry -/

namespace CacheNode.Lru

variable {K : Type u} {V : Type v}

def Command.parts : Command K V → List (Command K V)
  | .extend pairs => pairs.map fun pair => .put pair.1 pair.2
  | command => [command]

def Command.passed : Command K V → List (K × V)
  | .put key value => [(key, value)]
  | .extend pairs => pairs
  | _ => []

def replaced? : Command K V → Except Fault (Reply K V) → Option (K × V)
  | .put key _, .ok (.value? (some old)) => some (key, old)
  | _, _ => none

def replaced (h : History K V) : List (K × V) := h.filterMap fun step => replaced? step.1 step.2

def noted (trace : List (List (Note K V) × Except Fault (Reply K V))) : List (Note K V) :=
  trace.flatMap (·.1)

def reported (notes : List (Note K V)) : List (K × V) := notes.filterMap Note.told?

theorem reported_told (l : List (K × V)) :
    reported (l.map fun entry => .told entry.1 entry.2) = l := by
  simp [reported, Note.told?, List.filterMap_map, Function.comp_def]

theorem isExtend_of_mem_parts {command : Command K V} (whole : Command K V)
    (mem : command ∈ whole.parts) :
    command.isExtend = false := by
  cases whole with
  | extend pairs =>
      obtain ⟨pair, _, rfl⟩ := List.mem_map.1 mem
      rfl
  | _ =>
      obtain rfl := List.mem_singleton.1 mem
      rfl

theorem flatMap_passed_parts (commands : List (Command K V)) :
    (commands.flatMap Command.parts).flatMap Command.passed =
      commands.flatMap Command.passed := by
  rw [List.flatMap_assoc]
  congr 1
  funext command
  cases command with
  | extend pairs =>
      induction pairs with
      | nil => rfl
      | cons pair pairs ih => exact congrArg (pair :: ·) ih
  | put key value => rfl
  | _ => rfl

def SameEntries [BEq K] (xs ys : List (K × V)) : Prop :=
  Multiset.Rel SameEntry (xs : Multiset (K × V)) (ys : Multiset (K × V))

variable [BEq K] {xs ys zs xs' ys' : List (K × V)} {l l' : Recency K V} {limit : Nat} {key : K}
  {value : V} {entry : K × V} {command : Command K V}

/-! ## Runs -/

section
variable [Hashable K]

theorem run_append (c : Lru K V) (first second : List (Command K V)) :
    c.run (first ++ second) = (((c.run first).1.run second).1,
      (c.run first).2 ++ ((c.run first).1.run second).2) := by
  induction first generalizing c with
  | nil => rfl
  | cons command first ih => simp only [List.cons_append, run, ih]

theorem noted_cons (c : Lru K V) (command : Command K V) (commands : List (Command K V)) :
    noted (c.run (command :: commands)).2 =
      (c.step command).notes ++ noted ((c.step command).state.run commands).2 := rfl

theorem noted_run_append (c : Lru K V) (first second : List (Command K V)) :
    noted (c.run (first ++ second)).2 =
      noted (c.run first).2 ++ noted ((c.run first).1.run second).2 := by
  rw [run_append, noted, List.flatMap_append]
  rfl

omit [BEq K] [Hashable K] in
theorem reported_noted (trace : List (List (Note K V) × Except Fault (Reply K V))) :
    reported (noted trace) = (heardAndAnswered trace).flatMap (·.1) := by
  simp only [reported, noted, heardAndAnswered, List.filterMap_flatMap, List.flatMap_map]

theorem replaced_history_cons (c : Lru K V) (command : Command K V)
    (commands : List (Command K V)) :
    replaced (history c (command :: commands)) =
      (replaced? command (c.step command).answer).toList ++
        replaced (history (c.step command).state commands) := by
  unfold replaced
  rw [history, List.filterMap_cons]
  cases replaced? command (c.step command).answer <;> rfl

end

/-! ## Balances -/

theorem SameEntries.append (first : SameEntries xs ys) (second : SameEntries xs' ys') :
    SameEntries (xs ++ xs') (ys ++ ys') := by
  unfold SameEntries at *
  rw [← Multiset.coe_add, ← Multiset.coe_add]
  exact first.add second

section
variable [EquivBEq K]

instance : IsTrans (K × V) SameEntry where
  trans _ _ _ first second :=
    ⟨PartialEquivBEq.trans first.1 second.1, first.2.trans second.2⟩

theorem SameEntries.of_perm (perm : xs.Perm ys) : SameEntries xs ys := by
  unfold SameEntries
  rw [Multiset.coe_eq_coe.2 perm]
  exact Multiset.rel_refl_of_refl_on fun entry _ => ⟨BEq.rfl, rfl⟩

theorem SameEntries.trans (first : SameEntries xs ys) (second : SameEntries ys zs) :
    SameEntries xs zs := Multiset.Rel.trans SameEntry first second

theorem SameEntries.chain {put put' told told' replaced replaced' l'' : List (K × V)}
    (first : SameEntries (put ++ l) (told ++ replaced ++ l'))
    (second : SameEntries (put' ++ l') (told' ++ replaced' ++ l'')) :
    SameEntries ((put ++ put') ++ l) ((told ++ told') ++ (replaced ++ replaced') ++ l'') := by
  have regroup : ((put ++ put') ++ l).Perm (put' ++ (put ++ l)) := by
    rw [← List.append_assoc]
    exact List.perm_append_comm.append_right l
  have exchange : (put' ++ (told ++ replaced ++ l')).Perm (told ++ replaced ++ (put' ++ l')) := by
    rw [← List.append_assoc, ← List.append_assoc (told ++ replaced)]
    exact List.perm_append_comm.append_right l'
  have collect : (told ++ replaced ++ (told' ++ replaced' ++ l'')).Perm
      ((told ++ told') ++ (replaced ++ replaced') ++ l'') := by
    simp only [List.append_assoc]
    exact (List.perm_append_comm_assoc replaced told' _).append_left told
  have left := (SameEntries.of_perm regroup).trans
    ((SameEntries.of_perm (List.Perm.refl put')).append first)
  have right := (SameEntries.of_perm (List.Perm.refl (told ++ replaced))).append second
  exact (left.trans (SameEntries.of_perm exchange)).trans
    (right.trans (SameEntries.of_perm collect))

end

/-! ## One command -/

theorem Recency.perm_without (found : l.entry? key = some entry) :
    l.Perm (entry :: l.without key) := by
  obtain ⟨_, before, after, rfl, rest⟩ := split_of_entry? found
  rw [rest]
  exact List.perm_middle

variable [EquivBEq K]

theorem Recency.balance_put (limit : Nat) (l : Recency K V) (key : K) (value : V) :
    SameEntries ((key, value) :: l) ((l.put limit key value).leaver.toList ++
      ((l.put limit key value).answer.map fun old => (key, old)).toList ++
        (l.put limit key value).entries) := by
  cases found : l.entry? key with
  | some entry =>
      obtain ⟨written, old⟩ := entry
      have same : (written == key) = true := (Recency.split_of_entry? found).1
      rw [put_present found]
      -- the old value stands under the key that was put, the new one under the key first written
      have exchanged : SameEntries [(key, value), (written, old)] [(key, old), (written, value)] :=
        (SameEntries.of_perm (List.Perm.swap _ _ _)).trans
          (.cons ⟨same, rfl⟩ (.cons ⟨PartialEquivBEq.symm same, rfl⟩ .zero))
      exact (SameEntries.of_perm ((perm_without found).cons (key, value))).trans
        (exchanged.append (SameEntries.of_perm (List.Perm.refl (l.without key))))
  | none =>
      apply SameEntries.of_perm
      rcases put_absent found limit value with stays | ⟨rest, last, rfl, leaves⟩
      · rw [stays]
        exact List.Perm.refl _
      · rw [leaves]
        show ((key, value) :: rest ++ [last]).Perm ([last] ++ (key, value) :: rest)
        exact List.perm_append_comm

theorem Recency.balance_step (limit : Nat) (l : Recency K V)
    (single : command.isExtend = false) :
    SameEntries (command.passed ++ l) ((l.step limit command).2.1 ++
      (replaced? command (.ok (l.step limit command).2.2)).toList ++
        (l.step limit command).1) := by
  have unchanged : SameEntries l l := SameEntries.of_perm (List.Perm.refl l)
  cases command with
  | put key value =>
      have balance := balance_put limit l key value
      simp only [step]
      cases answer : (l.put limit key value).answer with
      | none =>
          rw [answer] at balance
          exact balance
      | some old =>
          rw [answer] at balance
          exact balance
  | get key =>
      apply SameEntries.of_perm
      simp only [step, get]
      cases found : l.entry? key with
      | none => exact List.Perm.refl l
      | some entry => exact perm_without found
  | remove key =>
      apply SameEntries.of_perm
      simp only [step, remove]
      cases found : l.entry? key with
      | none => exact List.Perm.refl l
      | some entry => exact perm_without found
  | removeOldest =>
      apply SameEntries.of_perm
      simp only [step, removeOldest]
      cases l using List.reverseRecOn with
      | nil => exact List.Perm.refl []
      | append_singleton rest last =>
          rw [List.dropLast_concat, List.getLast?_concat]
          show (rest ++ [last]).Perm ([last] ++ rest)
          exact List.perm_append_comm
  | clear =>
      simp only [step, Command.passed, replaced?, Option.toList_none, List.append_nil]
      exact unchanged
  | peek key => exact unchanged
  | contains key => exact unchanged
  | len => exact unchanged
  | isEmpty => exact unchanged
  | iter => exact unchanged
  | extend pairs => cases single

/-! ## Extensions -/

variable [Hashable K] [LawfulHashable K] {c : Lru K V} {tell : Listener K V}

theorem Shows.run_extend (h : c.Shows l) (accepts : Accepts c.onEvict) (pairs : List (K × V)) :
    (c.run (Command.extend pairs).parts).1 = (c.extend pairs).state ∧
      noted (c.run (Command.extend pairs).parts).2 = (c.extend pairs).notes := by
  induction pairs generalizing c l with
  | nil => exact ⟨rfl, rfl⟩
  | cons pair pairs ih =>
      have first := (h.put pair.1 pair.2).tracks accepts
      obtain ⟨state, notes⟩ := ih first.shows (first.onEvict ▸ accepts)
      rw [extend_cons, Outcome.andThen_of_ok first.answer]
      exact ⟨state, congrArg ((c.put pair.1 pair.2).notes ++ ·) notes⟩

theorem Shows.run_parts (h : c.Shows l) (accepts : Accepts c.onEvict) (command : Command K V) :
    (c.run command.parts).1 = (c.step command).state ∧
      noted (c.run command.parts).2 = (c.step command).notes := by
  cases command with
  | extend pairs => exact h.run_extend accepts pairs
  | _ => exact ⟨rfl, List.append_nil _⟩

theorem Shows.run_all_parts (h : c.Shows l) (accepts : Accepts c.onEvict)
    (commands : List (Command K V)) :
    (c.run (commands.flatMap Command.parts)).1 = (c.run commands).1 ∧
      noted (c.run (commands.flatMap Command.parts)).2 = noted (c.run commands).2 := by
  induction commands generalizing c l with
  | nil => exact ⟨rfl, rfl⟩
  | cons command commands ih =>
      obtain ⟨state, notes⟩ := h.run_parts accepts command
      have first := h.step accepts command
      obtain ⟨state', notes'⟩ := ih first.shows (first.onEvict ▸ accepts)
      rw [List.flatMap_cons, noted_run_append, run_append, noted_cons, state, notes]
      exact ⟨state', congrArg ((c.step command).notes ++ ·) notes'⟩

/-! ## Whole runs -/

theorem Shows.balance (h : c.Shows l) (listens : c.onEvict = some tell)
    (accepts : Accepts c.onEvict) (commands : List (Command K V))
    (single : ∀ command ∈ commands, command.isExtend = false) :
    SameEntries (commands.flatMap Command.passed ++ l)
      (reported (noted (c.run commands).2) ++ replaced (history c commands) ++
        (c.run commands).1.toList) := by
  induction commands generalizing c l with
  | nil =>
      show SameEntries l c.toList
      rw [h.toList_eq]
      exact SameEntries.of_perm (List.Perm.refl l)
  | cons command commands ih =>
      have first := h.step accepts command
      have later := ih first.shows (first.onEvict.trans listens) (first.onEvict ▸ accepts)
        fun other mem => single other (List.mem_cons_of_mem _ mem)
      have now := Recency.balance_step c.limit l (single command List.mem_cons_self)
      have told : reported (c.step command).notes = (l.step c.limit command).2.1 := by
        rw [reported, first.told, listens]
        rfl
      rw [← told, ← first.answer] at now
      rw [List.flatMap_cons, noted_cons, replaced_history_cons, reported, List.filterMap_append]
      exact now.chain later

/-! ## Entries that leave -/

def departed (c : Lru K V) (command : Command K V) : List (K × V) :=
  c.toList.filter fun entry => !(c.step command).state.contains entry.1

def Reports (c : Lru K V) : Command K V → Prop
  | .clear =>
      c.departed .clear = c.toList ∧
        c.clear.notes = (c.toList.map fun entry => .told entry.1 entry.2) ++ [.cleared c.len]
  | .extend pairs =>
      (c.run (Command.extend pairs).parts).1 = (c.extend pairs).state ∧
        noted (c.run (Command.extend pairs).parts).2 = (c.extend pairs).notes
  | command =>
      (c.departed command).length ≤ 1 ∧
        (c.step command).notes = (c.departed command).flatMap fun entry =>
          [.left (c.step command).state.len, .told entry.1 entry.2]

theorem Follows.reports {A : Type w} {o : Outcome (Lru K V) (Note K V) A} {d : Change K V A}
    (follows : c.Follows o d) (h : c.Shows l) (listens : c.onEvict = some tell)
    (missing : l.missing d.entries = d.leaver.toList) :
    (c.toList.filter fun entry => !o.state.contains entry.1).length ≤ 1 ∧
      o.notes = (c.toList.filter fun entry => !o.state.contains entry.1).flatMap fun entry =>
        [.left o.state.len, .told entry.1 entry.2] := by
  rw [h.missing_eq follows.shows, missing, follows.notes, listens, follows.shows.len_eq]
  cases d.leaver with
  | none => exact ⟨Nat.zero_le 1, rfl⟩
  | some entry => exact ⟨Nat.le_refl 1, rfl⟩

theorem Shows.reports (h : c.Shows l) (listens : c.onEvict = some tell)
    (accepts : Accepts c.onEvict) (command : Command K V) : c.Reports command := by
  have reads := (Follows.ok (c := c) h rfl rfl ()).reports h listens
    (missing_eq_nil fun entry mem => ⟨entry, mem, BEq.rfl⟩)
  cases command with
  | put key value => exact (h.put key value).reports h listens (missing_put h.distinct)
  | remove key => exact (h.remove key).reports h listens (missing_remove h.distinct key)
  | removeOldest => exact h.removeOldest.reports h listens (missing_removeOldest h.distinct)
  | get key =>
      obtain ⟨shows, limit, onEvict, _⟩ := h.get key
      exact (Follows.ok (c := c) shows limit onEvict (Reply.value? (c.get key).2)).reports h listens
        (missing_get l key)
  | extend pairs => exact h.run_extend accepts pairs
  | clear =>
      refine ⟨?_, ?_⟩
      · have emptied : (c.step .clear).state.Shows [] := (h.clear accepts).shows
        rw [departed, h.missing_eq emptied, h.toList_eq]
        simp [Recency.missing, Recency.entry?]
      · unfold Lru.clear
        rw [announce_of_accepts accepts, listens]
        rfl
  | peek key => exact reads
  | contains key => exact reads
  | len => exact reads
  | isEmpty => exact reads
  | iter => exact reads

theorem accounted_every_run (limit : Nat) (tell : Listener K V) (accepts : Accepts (some tell))
    (commands : List (Command K V)) :
    let start := empty limit (some tell)
    let c := (start.run commands).1
    let parts := commands.flatMap Command.parts
    ((start.run parts).1 = c ∧ noted (start.run parts).2 = noted (start.run commands).2 ∧
      SameEntries (commands.flatMap Command.passed)
        (reported (noted (start.run commands).2) ++ replaced (history start parts) ++ c.toList)) ∧
      (∀ command, c.Reports command) ∧
      (∀ n, (Note.left n : Note K V).notice? =
        some ⟨.trace, "entry left lru cache", [("remaining", .count n)]⟩) ∧
      ∀ n, (Note.cleared n : Note K V).notice? =
        some ⟨.trace, "cleared lru cache", [("removed", .count n)]⟩ := by
  intro start c parts
  have shown := shows_empty limit (some tell)
  obtain ⟨state, notes⟩ := shown.run_all_parts accepts commands
  have single : ∀ command ∈ parts, command.isExtend = false := by
    intro command mem
    obtain ⟨whole, _, part⟩ := List.mem_flatMap.1 mem
    exact isExtend_of_mem_parts whole part
  have balance := shown.balance rfl accepts parts single
  rw [flatMap_passed_parts, List.append_nil, state, notes] at balance
  obtain ⟨shows, _⟩ := shown.run accepts commands
  have listens : c.onEvict = some tell := (shown.settings_run accepts commands).2
  have hears : Accepts c.onEvict := by
    rw [listens]
    exact accepts
  exact ⟨⟨state, notes, balance⟩, shows.reports listens hears, fun _ => rfl, fun _ => rfl⟩

/-- One key leaves for capacity and comes back; the other one is put again before it is removed. -/
theorem accounted_with_extension :
    let tell : Listener (Key true) Nat := fun _ _ => .ok ()
    let commands : List (Command (Key true) Nat) :=
      [.extend [(⟨.int 1⟩, 10), (⟨.int 2⟩, 20)], .put ⟨.int 2⟩ 21, .remove ⟨.int 2⟩,
        .put ⟨.int 1⟩ 11]
    let c := ((empty 1 (some tell)).run commands).1
    Accepts (some tell) ∧
      SameEntries (commands.flatMap Command.passed)
        ([(⟨.int 1⟩, 10), (⟨.int 2⟩, 21)] ++ [(⟨.int 2⟩, 20)] ++ [(⟨.int 1⟩, 11)]) ∧
      c.clear.notes = [.told ⟨.int 1⟩ 11, .cleared 1] := by
  intro tell commands c
  have accepts : Accepts (some tell) := by simp [Accepts, tell]
  have shown := shows_empty (K := Key true) (V := Nat) 1 (some tell)
  have shows : c.Shows [(⟨.int 1⟩, 11)] := (shown.run accepts commands).1
  have first : reported (noted ((empty 1 (some tell)).run commands).2) =
      [(⟨.int 1⟩, 10), (⟨.int 2⟩, 21)] := by
    rw [reported_noted, (shown.run accepts commands).2]
    rfl
  have second : replaced (history (empty 1 (some tell)) (commands.flatMap Command.parts)) =
      [(⟨.int 2⟩, 20)] := by
    rw [shown.history_eq accepts]
    rfl
  obtain ⟨⟨_, _, balance⟩, reports, _⟩ := accounted_every_run 1 tell accepts commands
  rw [first, second, shows.toList_eq] at balance
  refine ⟨accepts, balance, ?_⟩
  rw [(reports .clear).2, shows.toList_eq, shows.len_eq]
  rfl

end CacheNode.Lru
