import Mathlib.Data.String.Basic
import Mathlib.Tactic.IntervalCases

/-! Points in time with microsecond resolution, as civil fields in UTC, and their
ISO text. Fields are padded to a fixed width and a fraction is left out when it is
zero, so comparing texts compares times. -/

def isLeap (year : Nat) : Bool := year % 4 = 0 ∧ (year % 100 ≠ 0 ∨ year % 400 = 0)

def daysIn (year month : Nat) : Nat :=
  if month = 2 then (if isLeap year then 29 else 28)
  else if month = 4 ∨ month = 6 ∨ month = 9 ∨ month = 11 then 30 else 31

structure Instant where
  year : Nat
  month : Nat
  day : Nat
  hour : Nat
  minute : Nat
  second : Nat
  micro : Nat
  year_pos : 1 ≤ year := by decide
  year_le : year ≤ 9999 := by decide
  month_pos : 1 ≤ month := by decide
  month_le : month ≤ 12 := by decide
  day_pos : 1 ≤ day := by decide
  day_le : day ≤ daysIn year month := by decide
  hour_lt : hour < 24 := by decide
  minute_lt : minute < 60 := by decide
  second_lt : second < 60 := by decide
  micro_lt : micro < 1000000 := by decide
deriving DecidableEq

namespace Instant

theorem hour_zero : 0 < 24 := by decide

theorem minute_zero : 0 < 60 := by decide

theorem micro_zero : 0 < 1000000 := by decide

def fields (t : Instant) : List Nat := [t.year, t.month, t.day, t.hour, t.minute, t.second, t.micro]

instance : LE Instant := ⟨fun t u => ¬ u.fields < t.fields⟩
instance : LT Instant := ⟨fun t u => t.fields < u.fields⟩
instance (t u : Instant) : Decidable (t < u) := inferInstanceAs (Decidable (t.fields < u.fields))
instance (t u : Instant) : Decidable (t ≤ u) := inferInstanceAs (Decidable (¬ u.fields < t.fields))

/-- Days before the first of January of a year, counted from year one. -/
def daysBeforeYear (year : Nat) : Nat := (year - 1) * 365 + (year - 1) / 4 - (year - 1) / 100 + (year - 1) / 400

def daysBeforeMonth (year month : Nat) : Nat := ((List.range (month - 1)).map fun m => daysIn year (m + 1)).sum

def ordinal (t : Instant) : Nat := daysBeforeYear t.year + daysBeforeMonth t.year t.month + t.day

def micros (t : Instant) : Int :=
  (((t.ordinal * 24 + t.hour) * 60 + t.minute) * 60 + t.second) * 1000000 + t.micro

/-- Microseconds from the second time to the first. -/
def since (t u : Instant) : Int := t.micros - u.micros

/-- Microseconds since the first of January 1970. -/
def timestampMicros (t : Instant) : Int := t.micros - 719163 * 86400 * 1000000

def digit (n : Nat) : Char := Char.ofNat (48 + n % 10)

/-- The last `k` decimal digits. -/
def padded : Nat → Nat → List Char
  | 0, _ => []
  | k + 1, n => padded k (n / 10) ++ [digit n]

def isoChars (t : Instant) : List Char :=
  padded 4 t.year ++ '-' :: padded 2 t.month ++ '-' :: padded 2 t.day ++ 'T' :: padded 2 t.hour
    ++ ':' :: padded 2 t.minute ++ ':' :: padded 2 t.second
    ++ (if t.micro = 0 then [] else '.' :: padded 6 t.micro) ++ "+00:00".toList

def isoformat (t : Instant) : String := String.ofList t.isoChars

theorem digit_lt_iff {m n : Nat} (hm : m < 10) (hn : n < 10) : digit m < digit n ↔ m < n := by
  interval_cases m <;> interval_cases n <;> decide

theorem digit_inj {m n : Nat} (hm : m < 10) (hn : n < 10) (h : digit m = digit n) : m = n := by
  rcases Nat.lt_trichotomy m n with hh | hh | hh
  · exact absurd ((digit_lt_iff hm hn).mpr hh) (by rw [h]; exact lt_irrefl _)
  · exact hh
  · exact absurd ((digit_lt_iff hn hm).mpr hh) (by rw [h]; exact lt_irrefl _)

@[simp] theorem digit_mod (n : Nat) : digit (n % 10) = digit n := by simp [digit]

@[simp] theorem length_padded (k n : Nat) : (padded k n).length = k := by
  induction k generalizing n with
  | zero => rfl
  | succ k ih => simp [padded, ih]

/-- Texts of one length compare like their first difference; what follows them
matters only when they agree. -/
theorem append_lt_append_iff {α : Type} [LinearOrder α] {a b x y : List α} (h : a.length = b.length) :
    a ++ x < b ++ y ↔ a < b ∨ (a = b ∧ x < y) := by
  induction a generalizing b with
  | nil =>
    cases b with
    | nil => simp
    | cons c b => simp at h
  | cons c a ih =>
    cases b with
    | nil => simp at h
    | cons d b =>
      have hh := ih (b := b) (by simpa using h)
      simp only [List.cons_append, List.cons_lt_cons_iff, hh, List.cons.injEq]
      tauto

theorem padded_inj {k m n : Nat} (hm : m < 10 ^ k) (hn : n < 10 ^ k) (h : padded k m = padded k n) : m = n := by
  induction k generalizing m n with
  | zero => simp at hm hn; omega
  | succ k ih =>
    simp only [padded] at h
    have hl := List.append_inj h (by simp)
    have hq := ih (m := m / 10) (n := n / 10) (by omega) (by omega) hl.1
    have hd : digit m = digit n := by simpa using hl.2
    have hr := digit_inj (m := m % 10) (n := n % 10) (by omega) (by omega) (by simpa using hd)
    omega

theorem padded_lt_iff {k m n : Nat} (hm : m < 10 ^ k) (hn : n < 10 ^ k) :
    padded k m < padded k n ↔ m < n := by
  induction k generalizing m n with
  | zero => simp at hm hn; simp [padded]; omega
  | succ k ih =>
    have hq := ih (m := m / 10) (n := n / 10) (by omega) (by omega)
    have hd := digit_lt_iff (m := m % 10) (n := n % 10) (by omega) (by omega)
    simp only [padded, append_lt_append_iff (show (padded k (m / 10)).length = (padded k (n / 10)).length by simp), hq]
    have hs : [digit m] < [digit n] ↔ m % 10 < n % 10 := by
      rw [← hd]; simp [List.cons_lt_cons_iff]
    rw [hs]
    constructor
    · rintro (hh | ⟨hh, hr⟩)
      · omega
      · have := padded_inj (by omega) (by omega) hh
        omega
    · intro hh
      by_cases hc : m / 10 < n / 10
      · exact Or.inl hc
      · have : m / 10 = n / 10 := by omega
        exact Or.inr ⟨by rw [this], by omega⟩

theorem micro_tail_lt_iff {m n : Nat} (hm : m < 1000000) (hn : n < 1000000) :
    (if m = 0 then [] else '.' :: padded 6 m) ++ "+00:00".toList
      < (if n = 0 then [] else '.' :: padded 6 n) ++ "+00:00".toList ↔ m < n := by
  have hc : ¬ '.' < '+' := by decide
  have hd : '+' < '.' := by decide
  have hp := padded_lt_iff (k := 6) (m := m) (n := n) (by omega) (by omega)
  have hi := padded_inj (k := 6) (m := m) (n := n) (by omega) (by omega)
  have ht : "+00:00".toList = '+' :: "00:00".toList := rfl
  by_cases h : m = 0 <;> by_cases h' : n = 0
  · simp [h, h']
  · simp only [h, h', if_true, if_false, List.nil_append, List.cons_append, ht, List.cons_lt_cons_iff]
    simp [hd, Nat.pos_of_ne_zero h']
  · simp only [h, h', if_true, if_false, List.nil_append, List.cons_append, ht, List.cons_lt_cons_iff]
    simp [hc]
  · simp only [h, h', if_false, List.cons_append, List.cons_lt_cons_iff, lt_irrefl, true_and, false_or]
    rw [append_lt_append_iff (by simp), hp]
    simp

/-- Comparing the texts of two times compares the times. -/
theorem isoformat_lt_iff (t u : Instant) : t.isoformat < u.isoformat ↔ t < u := by
  have hy := padded_lt_iff (k := 4) (m := t.year) (n := u.year) (by have := t.year_le; omega)
    (by have := u.year_le; omega)
  have hyi := padded_inj (k := 4) (m := t.year) (n := u.year) (by have := t.year_le; omega)
    (by have := u.year_le; omega)
  have two : ∀ {m n : Nat}, m < 100 → n < 100 →
      (padded 2 m < padded 2 n ↔ m < n) ∧ (padded 2 m = padded 2 n ↔ m = n) := fun hm hn =>
    ⟨padded_lt_iff (by omega) (by omega), fun h => padded_inj (by omega) (by omega) h, fun h => by rw [h]⟩
  have day_lt : ∀ v : Instant, v.day < 100 := fun v => by
    have := v.day_le
    unfold daysIn at this
    split at this <;> (try split at this) <;> omega
  have hmo := two (m := t.month) (n := u.month) (by have := t.month_le; omega) (by have := u.month_le; omega)
  have hda := two (day_lt t) (day_lt u)
  have hho := two (m := t.hour) (n := u.hour) (by have := t.hour_lt; omega) (by have := u.hour_lt; omega)
  have hmi := two (m := t.minute) (n := u.minute) (by have := t.minute_lt; omega) (by have := u.minute_lt; omega)
  have hse := two (m := t.second) (n := u.second) (by have := t.second_lt; omega) (by have := u.second_lt; omega)
  have hyq : padded 4 t.year = padded 4 u.year ↔ t.year = u.year := ⟨hyi, fun h => by rw [h]⟩
  change t.isoformat < u.isoformat ↔ t.fields < u.fields
  rw [String.lt_iff_toList_lt]
  simp only [isoformat, String.toList_ofList, isoChars, List.append_assoc, List.cons_append]
  simp only [append_lt_append_iff, length_padded, List.cons_lt_cons_iff, lt_irrefl, true_and, false_or,
    hy, hyq, hmo, hda, hho, hmi, hse, micro_tail_lt_iff t.micro_lt u.micro_lt, fields]
  simp

theorem isoformat_le_iff (t u : Instant) : t.isoformat ≤ u.isoformat ↔ t ≤ u := by
  rw [← not_lt, isoformat_lt_iff]
  exact Iff.rfl

theorem daysBeforeYear_succ {y : Nat} (hy : 1 ≤ y) :
    daysBeforeYear (y + 1) = daysBeforeYear y + if isLeap y then 366 else 365 := by
  obtain ⟨n, rfl⟩ : ∃ n, y = n + 1 := ⟨y - 1, by omega⟩
  simp only [daysBeforeYear, isLeap, Nat.add_sub_cancel, Nat.succ_div, decide_eq_true_eq]
  split_ifs <;> omega

theorem daysBeforeYear_lt {y z : Nat} (hy : 1 ≤ y) (h : y < z) :
    daysBeforeYear y + (if isLeap y then 366 else 365) ≤ daysBeforeYear z := by
  rw [← daysBeforeYear_succ hy]
  induction z, h using Nat.le_induction with
  | base => exact Nat.le_refl _
  | succ z hz ih => exact ih.trans (by rw [daysBeforeYear_succ (by omega)]; omega)

theorem daysBeforeMonth_lt {y m k : Nat} (hm : 1 ≤ m) (h : m < k) :
    daysBeforeMonth y m + daysIn y m ≤ daysBeforeMonth y k := by
  have hnext {n : Nat} (hn : 1 ≤ n) : daysBeforeMonth y (n + 1) = daysBeforeMonth y n + daysIn y n := by
    obtain ⟨i, rfl⟩ : ∃ i, n = i + 1 := ⟨n - 1, by omega⟩
    simp [daysBeforeMonth, List.range_succ]
  rw [← hnext hm]
  induction k, h using Nat.le_induction with
  | base => exact Nat.le_refl _
  | succ k hk ih => exact ih.trans (by rw [hnext (by omega)]; omega)

theorem dayOfYear_le (t : Instant) : daysBeforeMonth t.year t.month + t.day ≤ if isLeap t.year then 366 else 365 := by
  have hday := t.day_le
  have hmonth : daysBeforeMonth t.year t.month + daysIn t.year t.month ≤ daysBeforeMonth t.year 13 :=
    daysBeforeMonth_lt t.month_pos (Nat.lt_succ_of_le t.month_le)
  have hyear : daysBeforeMonth t.year 13 = if isLeap t.year then 366 else 365 := by
    cases h : isLeap t.year <;> simp [daysBeforeMonth, daysIn, h, List.range_succ]
  omega

/-- A later time is more microseconds from the beginning. -/
theorem micros_lt {t u : Instant} (h : t < u) : t.micros < u.micros := by
  have hord : t.ordinal < u.ordinal ∨ t.ordinal = u.ordinal
      ∧ [t.hour, t.minute, t.second, t.micro] < [u.hour, u.minute, u.second, u.micro] := by
    have hlt : t.fields < u.fields := h
    simp only [fields, List.cons_lt_cons_iff] at hlt
    rcases hlt with hyear | ⟨hyear, hmonth | ⟨hmonth, hday | ⟨hday, hrest⟩⟩⟩
    · have hlast := t.dayOfYear_le
      have hstep := daysBeforeYear_lt t.year_pos hyear
      have hfirst := u.day_pos
      unfold ordinal
      omega
    · have hstep := daysBeforeMonth_lt (y := u.year) t.month_pos hmonth
      have hday := t.day_le
      have hfirst := u.day_pos
      unfold ordinal
      rw [hyear] at hday ⊢
      omega
    · unfold ordinal
      rw [hyear, hmonth]
      omega
    · unfold ordinal
      rw [hyear, hmonth, hday]
      exact Or.inr ⟨rfl, by simpa only [List.cons_lt_cons_iff] using hrest⟩
  have hm := t.minute_lt
  have hs := t.second_lt
  have hu := t.micro_lt
  have hh := t.hour_lt
  unfold micros
  rcases hord with hord | ⟨hord, hrest⟩
  · omega
  · simp only [List.cons_lt_cons_iff, List.not_lt_nil, and_false, or_false] at hrest
    omega

theorem le_of_micros_le {t u : Instant} (h : t.micros ≤ u.micros) : t ≤ u :=
  fun hlt => absurd (micros_lt hlt) (by omega)

end Instant
