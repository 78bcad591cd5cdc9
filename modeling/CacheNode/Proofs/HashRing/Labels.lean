import CacheNode.Proofs.HashRing.Placements
import Mathlib.Data.List.Nodup

/-!
# Labels of points

A label joins the decimal number of a point and the node, with nothing in between, so that two nodes
can share one.
-/

namespace CacheNode.HashRing

/-- The first node is the second one after some digits, and the number written by a one and these
digits is that of a point. -/
def Extends (replicas : Nat) (a b : String) : Prop :=
  ∃ digits : List Char, digits ≠ [] ∧ (∀ c ∈ digits, c.isDigit = true) ∧
    Nat.ofDigitChars 10 ('1' :: digits) 0 < replicas ∧ a.toList = digits ++ b.toList

variable {replicas i j m n : Nat} {a b node : String} {nodes : List String} {digits : List Char}
  {c : Char}

theorem digitChar_of_isDigit (digit : c.isDigit = true) :
    c.toNat - '0'.toNat < 10 ∧ (c.toNat - '0'.toNat).digitChar = c := by
  have range : 48 ≤ c.toNat ∧ c.toNat ≤ 57 := by
    simpa [Char.isDigit, UInt32.le_iff_toNat_le] using digit
  have zero : '0'.toNat = 48 := rfl
  have small : c.toNat - '0'.toNat < 10 := by omega
  refine ⟨small, ?_⟩
  apply Char.toNat_inj.1
  rw [Nat.toNat_digitChar_of_lt_ten small]
  omega

theorem toDigits_append (pos : 0 < n) (all : ∀ c ∈ digits, c.isDigit = true) :
    Nat.toDigits 10 n ++ digits = Nat.toDigits 10 (Nat.ofDigitChars 10 digits n) := by
  induction digits generalizing n with
  | nil => simp
  | cons c digits ih =>
      rw [List.forall_mem_cons] at all
      obtain ⟨digit, all⟩ := all
      obtain ⟨small, char⟩ := digitChar_of_isDigit digit
      have next : Nat.toDigits 10 n ++ [c] =
          Nat.toDigits 10 (10 * n + (c.toNat - '0'.toNat)) := by
        rw [← Nat.toDigits_append_toDigits (by decide) pos small, Nat.toDigits_of_lt_base small,
          char]
      rw [Nat.ofDigitChars_cons, ← ih (by omega) all, ← next, List.append_assoc]
      rfl

theorem toDigits_ne_zero_cons (any : digits ≠ []) (n : Nat) :
    Nat.toDigits 10 n ≠ '0' :: digits := by
  induction n using Nat.strongRecOn generalizing digits with
  | ind n ih =>
      intro same
      rw [Nat.toDigits_eq_if (by decide)] at same
      split at same
      · exact any (List.cons.inj same).2.symm
      · rename_i large
        -- the digits of `n / 10` start with a zero too, so they are this zero alone
        rcases List.append_eq_cons_iff.1 same with ⟨none, _⟩ | ⟨rest, front, _⟩
        · exact Nat.toDigits_ne_nil none
        · cases rest with
          | nil =>
              have value := Nat.ofDigitChars_ten_toDigits (n := n / 10)
              rw [front] at value
              have zero : Nat.ofDigitChars 10 ['0'] 0 = 0 := rfl
              omega
          | cons d rest => exact ih (n / 10) (by omega) (List.cons_ne_nil d rest) front

theorem toDigits_inj (same : Nat.toDigits 10 m = Nat.toDigits 10 n) : m = n := by
  rw [← Nat.ofDigitChars_ten_toDigits (n := m), same, Nat.ofDigitChars_ten_toDigits]

theorem toDigits_eq_append_iff (any : digits ≠ []) :
    Nat.toDigits 10 n = Nat.toDigits 10 m ++ digits ↔
      0 < m ∧ (∀ c ∈ digits, c.isDigit = true) ∧ Nat.ofDigitChars 10 digits m = n := by
  constructor
  · intro same
    -- the decimal of zero is the only one that starts with a zero
    have pos : 0 < m := by
      rcases Nat.eq_zero_or_pos m with rfl | pos
      · exact absurd same (toDigits_ne_zero_cons any n)
      · exact pos
    have all : ∀ c ∈ digits, c.isDigit = true := by
      intro c mem
      apply Nat.isDigit_of_mem_toDigits (b := 10) (n := n) (by decide) (by decide)
      rw [same]
      exact List.mem_append_right _ mem
    rw [toDigits_append pos all] at same
    exact ⟨pos, all, (toDigits_inj same).symm⟩
  · rintro ⟨pos, all, rfl⟩
    exact (toDigits_append pos all).symm

theorem ofDigitChars_one (digits : List Char) :
    Nat.ofDigitChars 10 ('1' :: digits) 0 = Nat.ofDigitChars 10 digits 1 := by
  rw [Nat.ofDigitChars_cons]
  rfl

theorem ofDigitChars_one_le (pos : 0 < m) (digits : List Char) :
    Nat.ofDigitChars 10 ('1' :: digits) 0 ≤ Nat.ofDigitChars 10 digits m := by
  have value : ∀ init, Nat.ofDigitChars 10 digits init =
      10 ^ digits.length * init + Nat.ofDigitChars 10 digits 0 :=
    fun _ => Nat.ofDigitChars_eq_ofDigitChars_zero
  rw [ofDigitChars_one, value, value m]
  exact Nat.add_le_add_right (Nat.mul_le_mul_left _ pos) _

theorem ten_le_ofDigitChars_one (any : digits ≠ []) :
    10 ≤ Nat.ofDigitChars 10 ('1' :: digits) 0 := by
  have power : 10 ^ 1 ≤ 10 ^ digits.length :=
    Nat.pow_le_pow_right (by decide) (List.length_pos_iff.2 any)
  rw [ofDigitChars_one, Nat.ofDigitChars_eq_ofDigitChars_zero]
  omega

theorem label_eq_iff :
    label a i = label b j ↔
      Nat.toDigits 10 i ++ a.toList = Nat.toDigits 10 j ++ b.toList := by
  unfold label
  rw [Text.utf8_inj, ← String.toList_inj, String.toList_append, String.toList_append,
    Nat.toString_eq_ofList_toDigits, Nat.toString_eq_ofList_toDigits, String.toList_ofList,
    String.toList_ofList]

theorem label_inj (same : label node i = label node j) : i = j :=
  toDigits_inj (List.append_cancel_right (label_eq_iff.1 same))

theorem extends_of_toDigits_eq (apart : a ≠ b) (within : j < replicas)
    (longer : Nat.toDigits 10 j = Nat.toDigits 10 i ++ digits)
    (rest : a.toList = digits ++ b.toList) : Extends replicas a b := by
  have any : digits ≠ [] := by
    rintro rfl
    exact apart (String.toList_inj.1 rest)
  obtain ⟨pos, all, value⟩ := (toDigits_eq_append_iff any).1 longer
  have least := ofDigitChars_one_le pos digits
  exact ⟨digits, any, all, by omega, rest⟩

theorem Extends.ten_lt (longer : Extends replicas a b) : 10 < replicas := by
  obtain ⟨digits, any, _, within, _⟩ := longer
  exact Nat.lt_of_le_of_lt (ten_le_ofDigitChars_one any) within

theorem Extends.ne (longer : Extends replicas a b) : a ≠ b := by
  obtain ⟨digits, any, _, _, rest⟩ := longer
  rintro rfl
  exact any (List.self_eq_append_left.1 rest)

theorem Extends.exists_label_eq (longer : Extends replicas a b) :
    ∃ i < replicas, ∃ j < replicas, label a i = label b j := by
  have many := longer.ten_lt
  obtain ⟨digits, any, all, within, rest⟩ := longer
  have joined : Nat.toDigits 10 1 ++ digits =
      Nat.toDigits 10 (Nat.ofDigitChars 10 ('1' :: digits) 0) := by
    rw [ofDigitChars_one, toDigits_append Nat.one_pos all]
  refine ⟨1, by omega, _, within, ?_⟩
  rw [label_eq_iff, rest, ← List.append_assoc, joined]

theorem exists_label_eq_iff (apart : a ≠ b) :
    (∃ i < replicas, ∃ j < replicas, label a i = label b j) ↔
      Extends replicas a b ∨ Extends replicas b a := by
  constructor
  · rintro ⟨i, hi, j, hj, same⟩
    rcases List.append_eq_append_iff.1 (label_eq_iff.1 same) with
      ⟨digits, longer, rest⟩ | ⟨digits, longer, rest⟩
    · exact .inl (extends_of_toDigits_eq apart hj longer rest)
    · exact .inr (extends_of_toDigits_eq apart.symm hi longer rest)
  · rintro (longer | longer)
    · exact longer.exists_label_eq
    · obtain ⟨i, hi, j, hj, same⟩ := longer.exists_label_eq
      exact ⟨j, hj, i, hi, same.symm⟩

theorem nodup_sites (replicas : Nat) (different : nodes.Nodup) :
    (sites replicas nodes).Nodup := by
  unfold sites
  rw [List.nodup_flatMap]
  constructor
  · intro node _
    exact List.nodup_range.map fun i j same => (Prod.mk.inj same).2
  · refine different.imp ?_
    intro a b apart site first second
    obtain ⟨i, _, rfl⟩ := List.mem_map.1 first
    obtain ⟨j, _, same⟩ := List.mem_map.1 second
    exact apart (Prod.mk.inj same).1.symm

theorem nodup_labels_iff (different : nodes.Nodup) :
    ((sites replicas nodes).map fun site => label site.1 site.2).Nodup ↔
      ∀ a ∈ nodes, ∀ b ∈ nodes, ¬ Extends replicas a b := by
  rw [List.nodup_map_iff_inj_on (nodup_sites replicas different)]
  constructor
  · intro injective a first b second longer
    obtain ⟨i, hi, j, hj, same⟩ := longer.exists_label_eq
    have equal := injective (a, i) (mem_sites.2 ⟨first, hi⟩) (b, j) (mem_sites.2 ⟨second, hj⟩) same
    exact longer.ne (Prod.mk.inj equal).1
  · rintro none ⟨a, i⟩ first ⟨b, j⟩ second same
    obtain ⟨first, hi⟩ := mem_sites.1 first
    obtain ⟨second, hj⟩ := mem_sites.1 second
    by_cases equal : a = b
    · subst equal
      obtain rfl := label_inj same
      rfl
    · rcases (exists_label_eq_iff equal).1 ⟨i, hi, j, hj, same⟩ with longer | longer
      · exact absurd longer (none a first b second)
      · exact absurd longer (none b second a first)

end CacheNode.HashRing
