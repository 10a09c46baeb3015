import Mathlib.Algebra.Order.Group.Defs
import Mathlib.Algebra.Order.Group.Unbundled.Basic
import Mathlib.Data.List.Count
import Mathlib.Data.List.TakeWhile

/-! A budget over a sliding window of time. The times of what was granted are kept in order, those
that have left the window are dropped from the front, and a request is granted while few enough are
left; then no window, wherever it lies, holds more than that many grants. -/

namespace SlidingWindow

variable {τ : Type} [AddCommGroup τ] [LinearOrder τ] [IsOrderedAddMonoid τ] {limit : Nat} {window now now' t : τ}
  {times log more : List τ}

/-- Drop what has left the window by now. -/
def prune (window now : τ) (times : List τ) : List τ := times.dropWhile fun c => c ≤ now - window

/-- The window that ends at a time, without its first instant. -/
def within (window t c : τ) : Bool := t - window < c && c ≤ t

/-- No window holds more than the limit. -/
def Bounded (limit : Nat) (window : τ) (log : List τ) : Prop := ∀ t, log.countP (within window t) ≤ limit

/-- What is kept of a log: only grants that have left the window were dropped. -/
def Keeps (window now : τ) (times log : List τ) : Prop :=
  ∃ old, log = old ++ times ∧ (∀ c ∈ old, c ≤ now - window) ∧ ∀ c ∈ log, c ≤ now

omit [IsOrderedAddMonoid τ] in
theorem Bounded.sublist (h : Bounded limit window log) (hs : more.Sublist log) : Bounded limit window more :=
  fun t => (hs.countP_le).trans (h t)

theorem Keeps.later (h : Keeps window now times log) (hl : now ≤ now') : Keeps window now' times log := by
  obtain ⟨old, hlog, hold, hall⟩ := h
  exact ⟨old, hlog, fun c hc => (hold c hc).trans (sub_le_sub_right hl window), fun c hc => (hall c hc).trans hl⟩

omit [IsOrderedAddMonoid τ] in
theorem Keeps.prune (h : Keeps window now times log) : Keeps window now (prune window now times) log := by
  obtain ⟨old, hlog, hold, hall⟩ := h
  refine ⟨old ++ times.takeWhile fun c => c ≤ now - window, ?_, fun c hc => ?_, hall⟩
  · rw [hlog, List.append_assoc, SlidingWindow.prune, List.takeWhile_append_dropWhile]
  · rcases List.mem_append.mp hc with hc | hc
    · exact hold c hc
    · simpa using List.mem_takeWhile_imp hc

omit [IsOrderedAddMonoid τ] in
theorem Keeps.grant (h : Keeps window now times log) : Keeps window now (times ++ [now]) (log ++ [now]) := by
  obtain ⟨old, hlog, hold, hall⟩ := h
  refine ⟨old, by rw [hlog, List.append_assoc], hold, fun c hc => ?_⟩
  rcases List.mem_append.mp hc with hc | hc
  · exact hall c hc
  · exact (List.mem_singleton.mp hc).le

/-- A grant made while fewer than the limit are kept leaves every window within the limit: a window
that reaches now holds nothing of what was dropped. -/
theorem Bounded.grant (h : Bounded limit window log) (hk : Keeps window now times log) (hroom : times.length < limit) :
    Bounded limit window (log ++ [now]) := by
  intro t
  rw [List.countP_append]
  by_cases ht : now ≤ t
  · obtain ⟨old, hlog, hold, _⟩ := hk
    have hout : old.countP (within window t) = 0 := by
      rw [List.countP_eq_zero]
      intro c hc hin
      simp only [within, Bool.and_eq_true, decide_eq_true_eq] at hin
      have hle : c ≤ t - window := (hold c hc).trans (sub_le_sub_right ht window)
      exact absurd hin.1 (not_lt.mpr hle)
    have hkept : times.countP (within window t) ≤ times.length := List.countP_le_length
    have hone : [now].countP (within window t) ≤ 1 := List.countP_le_length
    rw [hlog, List.countP_append, hout]
    omega
  · have hzero : [now].countP (within window t) = 0 := by simp [within, ht]
    have hlog := h t
    omega

end SlidingWindow
