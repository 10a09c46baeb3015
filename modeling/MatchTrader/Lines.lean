import Mathlib.Data.List.DropRight
import Mathlib.Data.List.Infix

/-! Texts cut at a separator: the lines that it has ended, and what still waits for it. Text that is
added behind only ends what waits, and cutting a line short at its front commutes with adding. -/

namespace Lines

variable {α : Type} [BEq α] [LawfulBEq α] {sep : α} {l line r x y : List α} {n : Nat}

/-- The lines that have ended, without their separators. -/
def complete (sep : α) (l : List α) : List (List α) := (l.splitOn sep).dropLast

/-- What follows the last separator. -/
def rest (sep : α) (l : List α) : List α := (l.splitOn sep).getLast (List.splitOn_ne_nil sep l)

/-- Everything up to the first separator, and with it. -/
def readline (sep : α) : List α → List α
  | [] => []
  | a :: l => if a == sep then [a] else a :: readline sep l

/-- Lines with where each begins, when the first begins there. -/
def numbered : Nat → List (List α) → List (Nat × List α)
  | _, [] => []
  | n, line :: lines => (n, line) :: numbered (n + line.length + 1) lines

omit [LawfulBEq α] in
theorem complete_concat_rest : complete sep l ++ [rest sep l] = l.splitOn sep := List.dropLast_append_getLast _

theorem complete_of_not_mem (h : sep ∉ l) : complete sep l = [] := by
  unfold complete
  rw [List.splitOn_eq_singleton h]
  rfl

theorem rest_of_not_mem (h : sep ∉ l) : rest sep l = l := by
  simp only [rest, List.splitOn_eq_singleton h, List.getLast_singleton]

theorem complete_line (h : sep ∉ line) : complete sep (line ++ sep :: l) = line :: complete sep l := by
  unfold complete
  rw [List.splitOn_append_cons_self_of_not_mem h, List.dropLast_cons_of_ne_nil (List.splitOn_ne_nil sep l)]

theorem rest_line (h : sep ∉ line) : rest sep (line ++ sep :: l) = rest sep l := by
  simp only [rest, List.splitOn_append_cons_self_of_not_mem h, List.getLast_cons (List.splitOn_ne_nil sep l)]

theorem readline_of_not_mem (h : sep ∉ l) : readline sep l = l := by
  induction l with
  | nil => rfl
  | cons a l ih =>
    have ha : (a == sep) = false := beq_false_of_ne fun he => h (he ▸ List.mem_cons_self)
    rw [readline, ha, ih fun hm => h (List.mem_cons_of_mem a hm)]
    rfl

theorem readline_line (h : sep ∉ line) : readline sep (line ++ sep :: l) = line ++ [sep] := by
  induction line with
  | nil => simp [readline]
  | cons a line ih =>
    have ha : (a == sep) = false := beq_false_of_ne fun he => h (he ▸ List.mem_cons_self)
    rw [List.cons_append, readline, ha, ih fun hm => h (List.mem_cons_of_mem a hm)]
    rfl

/-- A text without a separator, or a line in front of a text. -/
@[elab_as_elim]
theorem induction {s : α} {motive : List α → Prop} (last : ∀ l, s ∉ l → motive l)
    (step : ∀ line l, s ∉ line → motive l → motive (line ++ s :: l)) (l : List α) : motive l := by
  induction hn : l.length using Nat.strong_induction_on generalizing l with
  | _ n ih =>
    by_cases h : s ∈ l
    · obtain ⟨line, tail, rfl, hline⟩ := List.eq_append_cons_of_mem h
      refine step line tail hline (ih _ ?_ tail rfl)
      rw [← hn, List.length_append, List.length_cons]
      omega
    · exact last l h

theorem not_mem_rest : sep ∉ rest sep l := by
  induction l using Lines.induction (s := sep) with
  | last l h => rwa [rest_of_not_mem h]
  | step line l h ih => rwa [rest_line h]

/-- What is added behind only meets what has not ended. -/
theorem complete_append : complete sep (x ++ y) = complete sep x ++ complete sep (rest sep x ++ y) := by
  induction x using Lines.induction (s := sep) with
  | last x h => rw [complete_of_not_mem h, rest_of_not_mem h, List.nil_append]
  | step line x h ih => rw [List.append_assoc, List.cons_append, complete_line h, complete_line h, rest_line h, ih, List.cons_append]

theorem rest_append : rest sep (x ++ y) = rest sep (rest sep x ++ y) := by
  induction x using Lines.induction (s := sep) with
  | last x h => rw [rest_of_not_mem h]
  | step line x h ih => rw [List.append_assoc, List.cons_append, rest_line h, rest_line h, ih]

omit [BEq α] [LawfulBEq α] in
theorem rtake_append : (x.rtake n ++ y).rtake n = (x ++ y).rtake n := by
  simp only [List.rtake_eq_reverse_take_reverse, List.reverse_append, List.reverse_reverse, List.take_append, List.take_take]
  rw [min_eq_left (Nat.sub_le _ _)]

omit [BEq α] [LawfulBEq α] in
theorem numbered_prefix {ls ms : List (List α)} (h : ls <+: ms) : numbered n ls <+: numbered n ms := by
  induction ls generalizing n ms with
  | nil => exact List.nil_prefix
  | cons line ls ih =>
    cases ms with
    | nil => exact absurd (List.prefix_nil.mp h) (List.cons_ne_nil line ls)
    | cons line' ms =>
      obtain ⟨rfl, hls⟩ := List.cons_prefix_cons.mp h
      exact List.cons_prefix_cons.mpr ⟨rfl, ih hls⟩

omit [BEq α] [LawfulBEq α] in
theorem le_of_mem_numbered {ls : List (List α)} {p : Nat × List α} (h : p ∈ numbered n ls) : n ≤ p.1 := by
  induction ls generalizing n with
  | nil => exact absurd h List.not_mem_nil
  | cons line ls ih =>
    rcases List.mem_cons.mp h with rfl | h
    · exact Nat.le_refl n
    · have hle := ih h
      omega

omit [BEq α] [LawfulBEq α] in
theorem lt_of_mem_drop_numbered {ls : List (List α)} {p : Nat × List α} (h : p ∈ (numbered n ls).drop 1) : n < p.1 := by
  cases ls with
  | nil => exact absurd h List.not_mem_nil
  | cons line ls =>
    have hle := le_of_mem_numbered (n := n + line.length + 1) h
    omega

/-- The lines from a place begin there, or behind a separator. -/
theorem mem_numbered_complete {p : Nat × List α} (h : p ∈ numbered n (complete sep (l.drop n))) :
    n ≤ p.1 ∧ (p.1 = n ∨ (l.take p.1).getLast? = some sep) := by
  refine ⟨le_of_mem_numbered h, ?_⟩
  induction hd : l.drop n using Lines.induction (s := sep) generalizing n with
  | last r hr =>
    rw [hd, complete_of_not_mem hr] at h
    exact absurd h List.not_mem_nil
  | step line tail hline ih =>
    rw [hd, complete_line hline] at h
    have htail : l.drop (n + line.length + 1) = tail := by
      rw [Nat.add_assoc, ← List.drop_drop, hd, List.append_cons]
      exact List.drop_left' (by simp)
    rcases List.mem_cons.mp h with rfl | h
    · exact Or.inl rfl
    · rw [← htail] at h
      rcases ih h htail with heq | hlast
      · refine Or.inr ?_
        have htake : l.take (n + (line.length + 1)) = l.take n ++ (line ++ [sep]) := by
          rw [List.take_add, hd, List.append_cons, List.take_left' (by simp)]
        rw [heq, Nat.add_assoc, htake, ← List.append_assoc, List.getLast?_concat]
      · exact Or.inr hlast

theorem length_le_of_mem_splitOn (h : line ∈ l.splitOn sep) : line.length ≤ l.length := by
  induction l using Lines.induction (s := sep) with
  | last l hl =>
    rw [List.splitOn_eq_singleton hl] at h
    rw [List.mem_singleton.mp h]
  | step first l hl ih =>
    rw [List.splitOn_append_cons_self_of_not_mem hl] at h
    rw [List.length_append, List.length_cons]
    rcases List.mem_cons.mp h with rfl | h
    · omega
    · have hle := ih h
      omega

/-- Of lines that are cut to their last elements, the front of a waiting line may be dropped early. -/
theorem complete_rtake (h : sep ∉ r) :
    (complete sep (r.rtake n ++ y)).map (List.rtake · n) = (complete sep (r ++ y)).map (List.rtake · n) := by
  have hr : sep ∉ r.rtake n := fun hm => h (List.mem_of_mem_drop hm)
  induction y using Lines.induction (s := sep) with
  | last y hy =>
    rw [complete_of_not_mem (List.not_mem_append hr hy), complete_of_not_mem (List.not_mem_append h hy)]
  | step line y hl _ =>
    rw [← List.append_assoc, ← List.append_assoc, complete_line (List.not_mem_append hr hl),
      complete_line (List.not_mem_append h hl), List.map_cons, List.map_cons, rtake_append]

theorem rest_rtake (h : sep ∉ r) : (rest sep (r.rtake n ++ y)).rtake n = (rest sep (r ++ y)).rtake n := by
  have hr : sep ∉ r.rtake n := fun hm => h (List.mem_of_mem_drop hm)
  induction y using Lines.induction (s := sep) with
  | last y hy =>
    rw [rest_of_not_mem (List.not_mem_append hr hy), rest_of_not_mem (List.not_mem_append h hy), rtake_append]
  | step line y hl _ =>
    rw [← List.append_assoc, ← List.append_assoc, rest_line (List.not_mem_append hr hl), rest_line (List.not_mem_append h hl)]

end Lines
