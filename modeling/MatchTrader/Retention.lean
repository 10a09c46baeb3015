import Mathlib.Algebra.GroupWithZero.Nat
import Mathlib.Data.List.Infix
import Mathlib.Algebra.BigOperators.Group.List.Basic

/-! What is kept of a history that may not grow: the longest of its suffixes that a bound allows. -/

namespace Retention

variable {α : Type} {p : List α → Prop} {l s t : List α}

structure Longest (p : List α → Prop) (l s : List α) : Prop where
  suffix : s <:+ l
  holds : p s
  greatest : ∀ t, t <:+ l → p t → t <:+ s

/-- What a list has, its suffixes have too. -/
def Hereditary (p : List α → Prop) : Prop := ∀ s t, s <:+ t → p t → p s

theorem longest_self (h : p l) : Longest p l l := ⟨List.suffix_rfl, h, fun _ ht _ => ht⟩

/-- A suffix with the property is the longest one when the element before it breaks the property. -/
theorem longest_of_cut (hp : Hereditary p) {older : List α} {x : α} (hs : p s) (hx : ¬ p (x :: s)) :
    Longest p (older ++ x :: s) s where
  suffix := ((List.suffix_cons x s).trans (List.suffix_append older (x :: s)))
  holds := hs
  greatest t ht h := by
    have hl : x :: s <:+ older ++ x :: s := List.suffix_append _ _
    rcases List.suffix_or_suffix_of_suffix ht hl with hh | hh
    · rcases List.suffix_cons_iff.mp hh with rfl | hh
      · exact absurd h hx
      · exact hh
    · exact absurd (hp _ _ hh h) hx

theorem Longest.eq (h : Longest p l s) (hh : Longest p l t) : s = t :=
  (hh.greatest s h.suffix h.holds).eq_of_length_le (h.greatest t hh.suffix hh.holds).length_le

/-- Of a history that grows at its end, what is kept of what was kept before is the longest. -/
theorem Longest.snoc (hp : ∀ t x, p (t ++ [x]) → p t) (h : Longest p l s) {x : α} (ht : Longest p (s ++ [x]) t) : Longest p (l ++ [x]) t where
  suffix := by
    obtain ⟨older, rfl⟩ := h.suffix
    exact ht.suffix.trans ⟨older, (List.append_assoc ..).symm⟩
  holds := ht.holds
  greatest u hu hpu := by
    rcases List.eq_nil_or_concat u with rfl | ⟨u, y, rfl⟩
    · exact List.nil_suffix
    · rw [List.concat_eq_append] at hu hpu ⊢
      obtain ⟨older, he⟩ := hu
      rw [← List.append_assoc] at he
      obtain ⟨hl, hy⟩ := List.append_inj' he rfl
      obtain rfl := List.singleton_inj.mp hy
      obtain ⟨between, hs⟩ := h.greatest u ⟨older, hl⟩ (hp u y hpu)
      exact ht.greatest _ ⟨between, by rw [← List.append_assoc, hs]⟩ hpu

variable {size : α → Nat} {count bytes : Nat}

/-- A bound on the number of elements and one on their sizes together. -/
def Within (size : α → Nat) (count bytes : Nat) (l : List α) : Prop := l.length ≤ count ∧ (l.map size).sum ≤ bytes

theorem within_hereditary : Hereditary (Within size count bytes) := by
  rintro s t ⟨older, rfl⟩ ⟨hc, hb⟩
  rw [List.length_append] at hc
  rw [List.map_append, List.sum_append] at hb
  exact ⟨by omega, by omega⟩

theorem within_snoc (x : α) (h : Within size count bytes (l ++ [x])) : Within size count bytes l := by
  obtain ⟨hc, hb⟩ := h
  rw [List.length_append] at hc
  rw [List.map_append, List.sum_append] at hb
  exact ⟨by omega, by omega⟩

theorem within_cons {x : α} : Within size count bytes (x :: l) ↔ l.length < count ∧ size x + (l.map size).sum ≤ bytes := by
  simp only [Within, List.length_cons, List.map_cons, List.sum_cons, Nat.lt_iff_add_one_le]

end Retention
