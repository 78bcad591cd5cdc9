import CacheNode.Proofs.Lru.Accounting
import CacheNode.Proofs.Lru.Consistency

/-! # Putting the entries of a store into an empty one -/

namespace CacheNode.Lru

def beyond {α : Type u} (limit : Nat) (xs : List α) : List α :=
  if limit = 0 then [] else xs.drop limit

theorem upTo_append_beyond {α : Type u} (limit : Nat) (xs : List α) :
    upTo limit xs ++ beyond limit xs = xs := by
  unfold upTo beyond
  split
  · exact List.append_nil xs
  · exact List.take_append_drop limit xs

theorem length_upTo {α : Type u} {limit : Nat} {xs : List α} {a : α} (mem : a ∈ beyond limit xs) :
    limit ≠ 0 ∧ (upTo limit xs).length = limit := by
  unfold beyond at mem
  unfold upTo
  split at mem
  · cases mem
  · rename_i limited
    have len := List.length_pos_of_mem mem
    rw [List.length_drop] at len
    rw [if_neg limited, List.length_take]
    exact ⟨limited, by omega⟩

variable {K : Type u} {V : Type v}

/-- The entries of a list are put, the last one first, and the listener refuses the one that the
first of the kept ones drives out; so the newer ones are not put. -/
structure CutShort [BEq K] [Hashable K] (limit : Nat) (listener : Option (Listener K V))
    (l : Recency K V) (o : Outcome (Lru K V) (Note K V) Unit) (fault : Fault)
    (newer kept older : Recency K V) (entry : K × V) : Prop where
  parts : l = newer ++ kept ++ entry :: older
  limited : limit ≠ 0
  full : kept.length = limit
  accepted : ∀ other ∈ older, verdict listener (some other) = .ok ()
  refused : verdict listener (some entry) = .error fault
  answer : o.answer = .error fault
  shown : o.state.toList = kept
  told : reported o.notes = older.reverse ++ [entry]

structure Replays [BEq K] [Hashable K] (limit : Nat) (listener : Option (Listener K V))
    (l : Recency K V) (o : Outcome (Lru K V) (Note K V) Unit) : Prop where
  returns : o.answer = .ok () ↔ ∀ entry ∈ beyond limit l, verdict listener (some entry) = .ok ()
  rebuilt : o.answer = .ok () → o.state.toList = upTo limit l ∧
    reported o.notes = heard listener (beyond limit l).reverse
  refused : ∀ fault, o.answer = .error fault →
    ∃ newer kept older entry, CutShort limit listener l o fault newer kept older entry

variable [BEq K] [Hashable K] {l newer kept older : Recency K V} {entry refused : K × V}
  {limit : Nat} {listener : Option (Listener K V)} {fault : Fault}
  {o : Outcome (Lru K V) (Note K V) Unit}

theorem CutShort.mem_beyond (h : CutShort limit listener l o fault newer kept older entry) :
    entry ∈ beyond limit l := by
  have before : limit ≤ (newer ++ kept).length := by
    rw [List.length_append, h.full]
    exact Nat.le_add_left limit newer.length
  rw [h.parts, beyond, if_neg h.limited, List.drop_append_of_le_length before]
  exact List.mem_append_right _ List.mem_cons_self

omit [Hashable K] in
theorem Recency.put_upTo (absent : l.entry? entry.1 = none) (limit : Nat) :
    (put limit (upTo limit l) entry.1 entry.2).entries = upTo limit (entry :: l) ∧
      (put limit (upTo limit l) entry.1 entry.2).leaver.toList ++ beyond limit l =
        beyond limit (entry :: l) := by
  obtain ⟨rest, whole, fills⟩ := exists_fills limit l
  have missing : Recency.entry? (upTo limit l) entry.1 = none := by
    rw [whole, Recency.entry?, List.find?_append] at absent
    exact (Option.or_eq_none_iff.1 absent).1
  have entries : (put limit (upTo limit l) entry.1 entry.2).entries = upTo limit (entry :: l) := by
    have front := fills.upTo_cons id entry
    rw [← whole] at front
    rw [entries_put_absent missing, front]
  have parts : (put limit (upTo limit l) entry.1 entry.2).entries ++
      (put limit (upTo limit l) entry.1 entry.2).leaver.toList = entry :: upTo limit l := by
    rcases put_absent missing limit entry.2 with stays | ⟨rest, last, same, leaves⟩
    · simp [stays]
    · rw [leaves, same]
      simp
  rw [entries] at parts
  have joined : upTo limit (entry :: l) ++
      ((put limit (upTo limit l) entry.1 entry.2).leaver.toList ++ beyond limit l) =
        upTo limit (entry :: l) ++ beyond limit (entry :: l) := by
    rw [← List.append_assoc, parts, List.cons_append, upTo_append_beyond, upTo_append_beyond]
  exact ⟨entries, List.append_cancel_left joined⟩

theorem extend_singleton (c : Lru K V) (pair : K × V) :
    c.extend [pair] = (c.put pair.1 pair.2).map fun _ => () := by
  rw [extend_cons]
  cases c.put pair.1 pair.2 with
  | mk state notes answer =>
      cases answer with
      | error f => rfl
      | ok old => simp [Outcome.andThen, Outcome.map, extend, Outcome.ok, Except.map]

theorem extend_reverse_cons (c : Lru K V) (entry : K × V) (l : Recency K V) :
    c.extend (entry :: l).reverse = (c.extend l.reverse).andThen fun c _ =>
      (c.put entry.1 entry.2).map fun _ => () := by
  rw [List.reverse_cons, extend_append]
  congr 1
  funext c done
  exact c.extend_singleton entry

theorem CutShort.cons (h : CutShort limit listener l o fault newer kept older entry)
    (other : K × V) (next : Lru K V → Unit → Outcome (Lru K V) (Note K V) Unit) :
    CutShort limit listener (other :: l) (o.andThen next) fault (other :: newer) kept older
      entry := by
  rw [Outcome.andThen_of_error h.answer]
  exact ⟨by rw [h.parts]; rfl, h.limited, h.full, h.accepted, h.refused, rfl, h.shown, h.told⟩

theorem Tracks.put_upTo [EquivBEq K] [LawfulHashable K] {told : List (K × V)}
    (first : (empty limit listener).Tracks o (upTo limit l) told ())
    (absent : l.entry? entry.1 = none) :
    ∃ leaver, leaver.toList ++ beyond limit l = beyond limit (entry :: l) ∧
      o.state.Follows ((o.state.put entry.1 entry.2).map fun _ => ())
        ⟨upTo limit (entry :: l), leaver, ()⟩ := by
  obtain ⟨entries, leaves⟩ := Recency.put_upTo absent limit
  have kept : o.state.limit = limit := first.limit
  have follows := (first.shows.put entry.1 entry.2).map fun _ => ()
  rw [kept, entries] at follows
  exact ⟨_, leaves, follows⟩

theorem Tracks.cutShort
    (first : (empty limit listener).Tracks o (upTo limit l) (beyond limit l).reverse ())
    (last : o.state.Follows ((o.state.put entry.1 entry.2).map fun _ => ())
      ⟨upTo limit (entry :: l), some refused, ()⟩)
    (leaves : refused :: beyond limit l = beyond limit (entry :: l))
    (accepted : ∀ other ∈ beyond limit l, verdict listener (some other) = .ok ())
    (judged : verdict listener (some refused) = .error fault) :
    CutShort limit listener (entry :: l)
      (o.andThen fun c _ => (c.put entry.1 entry.2).map fun _ => ()) fault []
      (upTo limit (entry :: l)) (beyond limit l) refused := by
  have mem : refused ∈ beyond limit (entry :: l) := by simp [← leaves]
  obtain ⟨limited, full⟩ := length_upTo mem
  have listens : o.state.onEvict = listener := first.onEvict
  rw [Outcome.andThen_of_ok first.answer]
  refine ⟨?_, limited, full, accepted, judged, ?_, last.shows.toList_eq, ?_⟩
  · rw [List.nil_append, leaves, upTo_append_beyond]
  · have answer := last.answer
    rw [listens] at answer
    change _ = (verdict listener (some refused)).map _ at answer
    rw [answer, judged]
    rfl
  · have hears : listener.isSome = true := by
      cases listener with
      | none => cases judged
      | some tell => rfl
    have told : reported o.notes = heard listener (beyond limit l).reverse := first.told
    have later : reported (o.state.put entry.1 entry.2).notes = heard listener [refused] := by
      rw [reported, ← Outcome.notes_map, last.notes, told_farewell, listens]
      rfl
    rw [heard, if_pos hears] at told later
    show reported (o.notes ++ (o.state.put entry.1 entry.2).notes) = _
    rw [reported, List.filterMap_append, ← reported, ← reported, told, later]

theorem tracks_or_cutShort [EquivBEq K] [LawfulHashable K] (distinct : Recency.Distinct l)
    (limit : Nat) (listener : Option (Listener K V)) :
    ((∀ entry ∈ beyond limit l, verdict listener (some entry) = .ok ()) ∧
      (empty limit listener).Tracks ((empty limit listener).extend l.reverse) (upTo limit l)
        (beyond limit l).reverse ()) ∨
      ∃ fault newer kept older entry, CutShort limit listener l
        ((empty limit listener).extend l.reverse) fault newer kept older entry := by
  -- the first entry is put last, after all that the rest of the list has come to
  induction l with
  | nil =>
      have nothing : upTo limit ([] : Recency K V) = [] ∧ beyond limit ([] : Recency K V) = [] :=
        List.append_eq_nil_iff.1 (upTo_append_beyond limit [])
      left
      rw [nothing.1, nothing.2]
      exact ⟨by simp, Tracks.ok (shows_empty limit listener) rfl rfl rfl⟩
  | cons entry l ih =>
      have front : Recency.Distinct ([] ++ entry :: l) := distinct
      have absent : Recency.entry? l entry.1 = none := by
        apply List.find?_eq_none.2
        intro other mem
        simp [key_ne_of_distinct front BEq.rfl mem]
      rw [extend_reverse_cons]
      rcases ih (List.pairwise_cons.1 distinct).2 with
        ⟨accepted, first⟩ | ⟨fault, newer, kept, older, refused, cut⟩
      · obtain ⟨leaver, leaves, last⟩ := first.put_upTo absent
        cases judged : verdict listener leaver with
        | ok done =>
            have told : (leaver.toList ++ beyond limit l).reverse =
                (beyond limit l).reverse ++ leaver.toList := by
              cases leaver <;> simp
            left
            rw [← leaves, told]
            constructor
            · intro other mem
              rcases List.mem_append.1 mem with left | left
              · rw [Option.mem_toList] at left
                rw [← left, judged]
              · exact accepted other left
            · exact first.andThen (last.tracks_of_verdict (by rw [first.onEvict]; exact judged))
        | error fault =>
            right
            cases leaver with
            | none =>
                rw [verdict_none] at judged
                cases judged
            | some refused =>
                have cut := first.cutShort last leaves accepted judged
                exact ⟨fault, [], _, _, refused, cut⟩
      · right
        exact ⟨fault, entry :: newer, kept, older, refused, cut.cons entry _⟩

theorem replays_extend [EquivBEq K] [LawfulHashable K] (distinct : Recency.Distinct l) (limit : Nat)
    (listener : Option (Listener K V)) :
    Replays limit listener l ((empty limit listener).extend l.reverse) := by
  rcases tracks_or_cutShort distinct limit listener with
    ⟨accepted, tracks⟩ | ⟨fault, newer, kept, older, entry, cut⟩
  · constructor
    · simp only [tracks.answer, true_iff]
      exact accepted
    · intro _
      exact ⟨tracks.shows.toList_eq, tracks.told⟩
    · intro fault failed
      rw [tracks.answer] at failed
      cases failed
  · constructor
    · constructor
      · intro returned
        rw [cut.answer] at returned
        cases returned
      · intro accepted
        have verdict := accepted entry cut.mem_beyond
        rw [cut.refused] at verdict
        cases verdict
    · intro returned
      rw [cut.answer] at returned
      cases returned
    · intro other failed
      obtain rfl : fault = other := Except.error.inj (cut.answer.symm.trans failed)
      exact ⟨newer, kept, older, entry, cut⟩

theorem replays_every_run [EquivBEq K] [LawfulHashable K] (config : LruConfig)
    (onEvict : Option (Listener K V)) (requests : List (Request K V)) (limit : Nat)
    (listener : Option (Listener K V)) :
    let l := ((ofConfig config onEvict).after requests).toList
    Replays limit listener l ((empty limit listener).extend l.reverse) ∧
      (extend (empty 0 none) l.reverse).answer = .ok () ∧ (ofPairs l.reverse).toList = l := by
  intro l
  obtain ⟨⟨shown, shows⟩, -⟩ := (shows_empty config.maxEntries onEvict).after requests
  rw [← shows.toList_eq] at shows
  have distinct : Recency.Distinct l := shows.distinct
  have collected := replays_extend distinct 0 none
  have returned := collected.returns.2 (by simp [beyond])
  exact ⟨replays_extend distinct limit listener, returned, (collected.rebuilt returned).1⟩

/-- The slots of the first store are not in the order of its entries. The one listener hears of the
entry that there is no room for; the other one refuses it, and the last entry is not put. -/
theorem replays_reused_slots :
    let requests : List (Request Nat Nat) :=
      [⟨.extend [(1, 10), (2, 20), (3, 30)], none⟩, ⟨.remove 2, none⟩, ⟨.put 4 40, none⟩,
        ⟨.put 5 50, some (.failingOn 1 "refused")⟩]
    let l := ((ofConfig ⟨3⟩ none).after requests).toList
    let calm : Option (Listener Nat Nat) := some fun _ _ => .ok ()
    let fails : Option (Listener Nat Nat) := some (.failingOn 3 "refused")
    l = [(5, 50), (4, 40), (3, 30)] ∧
      ((empty 2 calm).extend l.reverse).state.toList = [(5, 50), (4, 40)] ∧
      reported ((empty 2 calm).extend l.reverse).notes = [(3, 30)] ∧
      (∃ newer kept older entry, CutShort 1 fails l ((empty 1 fails).extend l.reverse)
        (.raised "refused") newer kept older entry) ∧
      (ofPairs l.reverse).toList = l := by
  intro requests l calm fails
  have entries : ((ofConfig ⟨3⟩ none).after requests).toList = [(5, 50), (4, 40), (3, 30)] := by cbv
  have refused : ((empty 1 fails).extend [(3, 30), (4, 40), (5, 50)]).answer =
      .error (.raised "refused") := by cbv
  obtain ⟨replay, -, collected⟩ := replays_every_run ⟨3⟩ none requests 2 calm
  obtain ⟨shown, told⟩ := replay.rebuilt (replay.returns.2 fun _ _ => rfl)
  have cut := (replays_every_run ⟨3⟩ none requests 1 fails).1.refused (.raised "refused")
  subst l
  rw [entries] at shown told cut collected ⊢
  exact ⟨rfl, shown, told, cut refused, collected⟩

end CacheNode.Lru
