import Mathlib.Data.List.Basic
import Mathlib.Data.List.Count

/-! Segments that lie one after the other. A list of segments tiles an interval when each one
begins where the one before it ends; what the segments carry is then read off in one piece. -/

namespace Tiling

variable {α β : Type} {start size : α → Nat} {l m : List α} {x : α} {a b c p : Nat}

/-- The segments lie side by side from one place to another. -/
def Tiles (start size : α → Nat) : List α → Nat → Nat → Prop
  | [], a, b => a = b
  | x :: rest, a, b => start x = a ∧ Tiles start size rest (a + size x) b

/-- The segment lies over a place. -/
def covers (start size : α → Nat) (p : Nat) (x : α) : Bool := start x ≤ p && p < start x + size x

theorem Tiles.le (h : Tiles start size l a b) : a ≤ b := by
  induction l generalizing a with
  | nil => exact Nat.le_of_eq h
  | cons x rest ih =>
    have hrest := ih h.2
    omega

theorem tiles_append : Tiles start size (l ++ m) a b ↔ ∃ c, Tiles start size l a c ∧ Tiles start size m c b := by
  induction l generalizing a with
  | nil => simp [Tiles]
  | cons x rest ih => simp only [List.cons_append, Tiles, ih, and_assoc, exists_and_left]

/-- A segment that begins where the others end may follow them. -/
theorem Tiles.concat (h : Tiles start size l a b) (hx : start x = b) : Tiles start size (l ++ [x]) a (b + size x) :=
  tiles_append.mpr ⟨b, h, hx, rfl⟩

theorem Tiles.mem (h : Tiles start size l a b) (hx : x ∈ l) : a ≤ start x ∧ start x + size x ≤ b := by
  obtain ⟨pre, post, rfl⟩ := List.append_of_mem hx
  obtain ⟨c, hpre, hstart, hpost⟩ := tiles_append.mp h
  have h₁ := hpre.le
  have h₂ := hpost.le
  omega

/-- Every place of the interval lies under exactly one segment, and no other place does. -/
theorem Tiles.countP (h : Tiles start size l a b) : l.countP (covers start size p) = if a ≤ p ∧ p < b then 1 else 0 := by
  induction l generalizing a with
  | nil =>
    have hab : a = b := h
    rw [if_neg (by omega)]
    rfl
  | cons x rest ih =>
    have hrest := ih h.2
    have hle := h.2.le
    have hs := h.1
    rw [List.countP_cons, hrest]
    by_cases hx : covers start size p x = true
    · have hc := hx
      simp only [covers, Bool.and_eq_true, decide_eq_true_eq] at hc
      rw [if_neg (by omega), if_pos hx, if_pos (by omega)]
    · have hc := hx
      simp only [covers, Bool.and_eq_true, decide_eq_true_eq] at hc
      rw [if_neg hx, Nat.add_zero]
      congr 1
      rw [eq_iff_iff]
      omega

theorem Tiles.length_flatMap (h : Tiles start size l a b) {content : α → List β}
    (hc : ∀ x ∈ l, (content x).length = size x) : a + (l.flatMap content).length = b := by
  induction l generalizing a with
  | nil => exact h
  | cons x rest ih =>
    have hrest := ih h.2 fun y hy => hc y (List.mem_cons_of_mem _ hy)
    rw [List.flatMap_cons, List.length_append, hc x List.mem_cons_self]
    omega

end Tiling
