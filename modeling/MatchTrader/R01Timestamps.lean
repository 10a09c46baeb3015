import MatchTrader.Controller
import MatchTrader.IsoTimes

/-! The times of the rows of R01. The digits of the fraction are counted over all that follows the
point, and the digits of a zone count with them. -/

namespace MatchTrader

open IsoTime Controller

namespace IsoTime.Timestamp

variable (s : Timestamp)

def text : String := String.ofList s.chars

/-- The fraction with six digits. -/
def six (digits : List Char) : List Char := digits.take 6 ++ List.replicate (6 - digits.length) '0'

theorem digits_six {digits : List Char} (h : Decimal.Digits digits) : Decimal.Digits (six digits) :=
  Decimal.digits_append.mpr ⟨fun c hc => h c (List.mem_of_mem_take hc), Decimal.digits_zeros _⟩

theorem length_six (digits : List Char) : (six digits).length = 6 := by
  rw [six, List.length_append, List.length_take, List.length_replicate]
  omega

theorem six_ne (digits : List Char) : six digits ≠ [] := List.ne_nil_of_length_pos (by rw [length_six]; decide)

theorem microsOf_six {digits : List Char} (h : Decimal.Digits digits) (hne : digits ≠ []) : microsOf (six digits) = microsOf digits := by
  have hall : digits.all Char.isDigit := List.all_eq_true.mpr h
  have hsix : (digits ++ List.replicate 6 '0').take 6 = six digits := by
    rw [List.take_append, List.take_replicate, six]
    congr 2
    omega
  have hread := readFraction_digits h hne
  rw [readFraction, if_pos ⟨hne, hall⟩, hsix] at hread
  rw [← Option.some.inj hread, microsOf, length_six]
  exact Nat.mul_div_cancel _ (by decide)

theorem point_not_mem_head : '.' ∉ s.head := by
  have hp : ∀ k n, '.' ∉ Instant.padded k n := fun k n h => (digits_padded k n).ne (rfl : '.'.isDigit = false) _ h rfl
  have hd : ∀ n, '.' ≠ Instant.digit n := fun n => (digit_ne n rfl).symm
  have hdate : '.' ∉ s.date.chars := by
    cases s.date with
    | month dashed y m d => cases dashed <;> simp [Date.chars, hp]
    | week dashed y w d => cases d <;> cases dashed <;> simp [Date.chars, hp, hd]
  have hclock : '.' ∉ s.clockChars := by
    unfold clockChars
    split <;> simp [hp]
  simp [head, hdate, hclock]

/-- The same time of day with another fraction. -/
def withFraction (digits : List Char) (h : Decimal.Digits digits) (hne : digits ≠ []) : Timestamp :=
  { s with fraction := digits, digits := h, nonempty := hne }

theorem withFraction_zoned {digits : List Char} (h : Decimal.Digits digits) (hne : digits ≠ [])
    (hm : microsOf digits = microsOf s.fraction) : (s.withFraction digits h hne).zoned = s.zoned := by
  have hlocal : (s.withFraction digits h hne).local_ = s.local_ := by
    have hf : microsOf (s.withFraction digits h hne).fraction = microsOf s.fraction := hm
    simp only [local_, hf]
    rfl
  have hzone : (s.withFraction digits h hne).zone = s.zone := rfl
  simp only [zoned, hlocal, hzone]

theorem zone_digits [Host] (hk : ∀ text, Decimal.Digits text → text.filter Host.isDigit = text)
    (hno : Host.isDigit '+' = false ∧ Host.isDigit '-' = false ∧ Host.isDigit ':' = false) (z : Offset) :
    z.chars.filter Host.isDigit = Instant.padded 2 z.hour ++ Instant.padded 2 z.minute := by
  obtain ⟨hplus, hminus, hcolon⟩ := hno
  have hsign : Host.isDigit (if z.negative then '-' else '+') = false := by
    split
    · exact hminus
    · exact hplus
  rw [Offset.chars, List.filter_cons_of_neg (by rw [hsign]; decide), List.filter_append, List.filter_cons_of_neg (by rw [hcolon]; decide),
    hk _ (digits_padded 2 _), hk _ (digits_padded 2 _)]

end IsoTime.Timestamp

section Reads

variable [Host]

/-- The host tells the digits among the characters of ASCII. -/
def KnowsDigits : Prop := ∀ c : Char, c.toNat < 128 → Host.isDigit c = c.isDigit

theorem isDigit_of_digits (hk : KnowsDigits) {text : List Char} (h : Decimal.Digits text) : text.filter Host.isDigit = text := by
  apply List.filter_eq_self.mpr
  intro c hc
  have hd := h c hc
  have hascii : c.toNat < 128 := by
    simp only [Char.isDigit, Bool.and_eq_true, decide_eq_true_eq, UInt32.le_iff_toNat_le] at hd
    have hle : c.toNat ≤ 57 := hd.2
    omega
  rw [hk c hascii, hd]

/-- What becomes of a text with one point. -/
theorem r01Timestamp_point {head tail : List Char} (hh : '.' ∉ head) :
    (r01Timestamp (some (String.ofList (head ++ '.' :: tail)))).toList
      = head ++ '.' :: (Timestamp.six (tail.filter Host.isDigit) ++ tail.drop (tail.filter Host.isDigit).length) := by
  have hmem : '.' ∈ head ++ '.' :: tail := List.mem_append_right _ List.mem_cons_self
  have hne : ∀ x ∈ head, x ≠ '.' := by
    rintro x hx rfl
    exact hh hx
  obtain ⟨htake, hdrop⟩ := Decimal.takeWhile_append_of_ne hne (Or.inr ⟨tail, rfl⟩)
  simp only [r01Timestamp, Option.getD_some, String.toList_ofList, if_pos hmem, htake, hdrop]
  simp [Timestamp.six]

theorem r01Timestamp_no_point {text : List Char} (h : '.' ∉ text) : r01Timestamp (some (String.ofList text)) = String.ofList text := by
  simp only [r01Timestamp, Option.getD_some, String.toList_ofList, if_neg h]

/-- With `Z` the digits are those of the fraction, and six of them are kept. -/
theorem r01Timestamp_z (hk : KnowsDigits) {s : Timestamp} (hmark : s.mark = '.') (hzone : s.zone = none) :
    fromisoformat (r01Timestamp (some s.text)).toList = some (.inr s.zoned) := by
  have hz : s.zoneChars = ['Z'] := by rw [Timestamp.zoneChars, hzone]; rfl
  have hkeep : (s.fraction ++ s.zoneChars).filter Host.isDigit = s.fraction := by
    have hno : Host.isDigit 'Z' = false := hk 'Z' (by decide)
    rw [hz, List.filter_append, isDigit_of_digits hk s.digits, List.filter_singleton, hno]
    exact List.append_nil _
  have hsix := Timestamp.digits_six s.digits
  have hne := Timestamp.six_ne s.fraction
  have hchars : (s.withFraction _ hsix hne).chars = s.head ++ '.' :: (Timestamp.six s.fraction ++ s.zoneChars) :=
    congrArg (fun c => s.head ++ c :: (Timestamp.six s.fraction ++ s.zoneChars)) hmark
  rw [Timestamp.text, Timestamp.chars, hmark, r01Timestamp_point s.point_not_mem_head, hkeep, List.drop_left, ← hchars,
    Timestamp.fromisoformat_chars, s.withFraction_zoned hsix hne (Timestamp.microsOf_six s.digits s.nonempty)]

/-- The digits of an offset are dropped as if the fraction had them: its minutes are left, behind the
fraction, and the text names no zone. -/
theorem r01Timestamp_offset (hk : KnowsDigits) {s : Timestamp} {z : Offset} (hmark : s.mark = '.') (hzone : s.zone = some z) :
    ∃ t, fromisoformat (r01Timestamp (some s.text)).toList = some (.inl t) := by
  have hz : s.zoneChars = z.chars := by rw [Timestamp.zoneChars, hzone]; rfl
  let digits := s.fraction ++ (Instant.padded 2 z.hour ++ Instant.padded 2 z.minute)
  have hkeep : (s.fraction ++ s.zoneChars).filter Host.isDigit = digits := by
    have hno : Host.isDigit '+' = false ∧ Host.isDigit '-' = false ∧ Host.isDigit ':' = false :=
      ⟨hk '+' (by decide), hk '-' (by decide), hk ':' (by decide)⟩
    rw [hz, List.filter_append, isDigit_of_digits hk s.digits, Timestamp.zone_digits (fun text => isDigit_of_digits hk) hno]
  have hdigits : Decimal.Digits digits :=
    Decimal.digits_append.mpr ⟨s.digits, Decimal.digits_append.mpr ⟨digits_padded 2 _, digits_padded 2 _⟩⟩
  have hrest : (s.fraction ++ s.zoneChars).drop digits.length = Instant.padded 2 z.minute := by
    have hlen : digits.length = s.fraction.length + 4 := by simp [digits]
    rw [hlen, hz, ← List.drop_drop, List.drop_left]
    rfl
  have hmore : Decimal.Digits (Timestamp.six digits ++ Instant.padded 2 z.minute) :=
    Decimal.digits_append.mpr ⟨Timestamp.digits_six hdigits, digits_padded 2 _⟩
  have hne : Timestamp.six digits ++ Instant.padded 2 z.minute ≠ [] := List.append_ne_nil_of_left_ne_nil (Timestamp.six_ne _) _
  have hread := @Timestamp.fromisoformat_head (s.withFraction _ hmore hne) [] fun c hc => by cases hc
  have hhead : (s.withFraction _ hmore hne).head = s.head := rfl
  have hm : (s.withFraction _ hmore hne).mark = '.' := hmark
  have hf : (s.withFraction _ hmore hne).fraction = Timestamp.six digits ++ Instant.padded 2 z.minute := rfl
  rw [hhead, hm, hf, List.append_nil] at hread
  rw [Timestamp.text, Timestamp.chars, hmark, r01Timestamp_point s.point_not_mem_head, hkeep, hrest, hread]
  exact ⟨_, rfl⟩

theorem r01Timestamp_comma {s : Timestamp} (hmark : s.mark = ',') : r01Timestamp (some s.text) = s.text := by
  have hp : ∀ k n, '.' ∉ Instant.padded k n := fun k n h => (digits_padded k n).ne (rfl : '.'.isDigit = false) _ h rfl
  have hfraction : '.' ∉ s.fraction := fun h => s.digits.ne (rfl : '.'.isDigit = false) _ h rfl
  have hzone : '.' ∉ s.zoneChars := by
    unfold Timestamp.zoneChars
    cases s.zone with
    | none => simp
    | some z => cases hn : z.negative <;> simp [Offset.chars, hn, hp]
  apply r01Timestamp_no_point
  simp [Timestamp.chars, s.point_not_mem_head, hmark, hfraction, hzone]

/-- A time of R01 keeps its instant exactly when its zone is `Z`, or when a comma marks its fraction
and the text is left as it is. -/
theorem r01Timestamp_keeps_instant_iff (hk : KnowsDigits) (s : Timestamp) :
    (∃ u, fromisoformat (r01Timestamp (some s.text)).toList = some (.inr u) ∧ u.instant = s.zoned.instant)
      ↔ s.zone = none ∨ s.mark = ',' := by
  rcases s.mark_mem with hmark | hmark
  · cases hzone : s.zone with
    | none => exact ⟨fun _ => Or.inl rfl, fun _ => ⟨s.zoned, r01Timestamp_z hk hmark hzone, rfl⟩⟩
    | some z =>
      obtain ⟨t, ht⟩ := r01Timestamp_offset hk hmark hzone
      rw [ht, hmark]
      constructor
      · rintro ⟨u, hu, _⟩
        cases hu
      · rintro (h | h)
        · cases h
        · exact absurd h (by decide)
  · rw [r01Timestamp_comma hmark, Timestamp.text, String.toList_ofList, s.fromisoformat_chars]
    exact ⟨fun _ => Or.inr hmark, fun _ => ⟨s.zoned, rfl, rfl⟩⟩

end Reads

attribute [local instance] sampleHost

/-- Twenty seconds past noon, with seven digits. -/
def sevenDigits (zone : Option Offset) : Timestamp where
  date := .month true 2026 1 2
  day := { noon 0 with hour := 0, hour_lt := Instant.hour_zero }
  parted := true
  hour := 12
  minute := 0
  second := 20
  hour_lt := (noon 0).hour_lt
  minute_lt := Instant.minute_zero
  mark := '.'
  fraction := "1234567".toList
  digits := List.all_eq_true.mp (by decide)
  zone := zone

theorem r01Timestamp_keeps_sample : (∃ u, fromisoformat (r01Timestamp (some (sevenDigits none).text)).toList = some (.inr u)
    ∧ u.instant = (sevenDigits none).zoned.instant) ↔ (sevenDigits none).zone = none ∨ (sevenDigits none).mark = ',' :=
  r01Timestamp_keeps_instant_iff (fun _ _ => rfl) (sevenDigits none)

/-- Two hours ahead of UTC: what is written for the signal has eight digits and no zone. -/
theorem r01Timestamp_loses_offset :
    (fromisoformat "2026-01-02T12:00:20.1234567+02:00".toList).map Sum.isRight = some true
    ∧ r01Timestamp (some "2026-01-02T12:00:20.1234567+02:00") = "2026-01-02T12:00:20.12345600"
    ∧ ¬ ∃ u, fromisoformat (r01Timestamp (some "2026-01-02T12:00:20.1234567+02:00")).toList = some (.inr u) := by
  refine ⟨by decide, by decide, ?_⟩
  rintro ⟨u, hu⟩
  have hleft : (fromisoformat (r01Timestamp (some "2026-01-02T12:00:20.1234567+02:00")).toList).map Sum.isLeft = some true := by decide
  rw [hu] at hleft
  cases hleft

end MatchTrader
