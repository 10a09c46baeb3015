import MatchTrader.P01Log
import MatchTrader.Spellings

/-! The ISO texts that the standard library reads as times: a date, a time of day, a fraction of which
it takes six digits, and a zone. -/

namespace MatchTrader

namespace IsoTime

/-- `int(text)` of a run of digits. -/
def readDigits (text : List Char) : Option Nat :=
  if text ≠ [] ∧ text.all Char.isDigit then some (Nat.ofDigitChars 10 text 0) else none

/-- The first instant of a day that the calendar has. -/
def midnight (year month day : Nat) : Option Instant :=
  if h : (1 ≤ year ∧ year ≤ 9999) ∧ (1 ≤ month ∧ month ≤ 12) ∧ 1 ≤ day ∧ day ≤ daysIn year month then
    some { year, month, day, hour := 0, minute := 0, second := 0, micro := 0, year_pos := h.1.1, year_le := h.1.2
           month_pos := h.2.1.1, month_le := h.2.1.2, day_pos := h.2.2.1, day_le := h.2.2.2
           hour_lt := Instant.hour_zero, minute_lt := Instant.minute_zero, second_lt := Instant.minute_zero
           micro_lt := Instant.micro_zero }
  else none

def firstDay (year : Nat) : Nat := Instant.daysBeforeYear year + 1

/-- The ordinal of the Monday of a year's first week: the week of its first Thursday. -/
def firstMonday (year : Nat) : Nat :=
  let weekday := (firstDay year + 6) % 7
  firstDay year - weekday + (if 3 < weekday then 7 else 0)

/-- A year has a week 53 when it begins on a Thursday, or on a Wednesday and is a leap year. -/
def hasWeek (year week : Nat) : Bool :=
  let weekday := (firstDay year + 6) % 7
  1 ≤ week ∧ (week ≤ 52 ∨ week = 53 ∧ (weekday = 3 ∨ weekday = 2 ∧ isLeap year))

def weekDay (year week day : Nat) : Option Instant :=
  if 1 ≤ year ∧ hasWeek year week ∧ 1 ≤ day ∧ day ≤ 7 then
    let ordinal := firstMonday year + (week - 1) * 7 + (day - 1)
    let days := [year - 1, year, year + 1].flatMap fun y =>
      (List.range 12).flatMap fun m => (List.range 31).filterMap fun d => midnight y (m + 1) (d + 1)
    days.find? fun t => t.ordinal = ordinal
  else none

def twoDigits (text : List Char) : Option (Nat × List Char) :=
  if text.length < 2 then none else (readDigits (text.take 2)).map fun n => (n, text.drop 2)

/-- `YYYY-MM-DD`, `YYYYMMDD`, `YYYY-Www[-D]` or `YYYYWww[D]`. -/
def readDate (text : List Char) : Option Instant := do
  let year ← readDigits (text.take 4)
  let dashed : Bool := text[4]? = some '-'
  let skip := if dashed then 1 else 0
  let rest := text.drop (4 + skip)
  if rest.head? = some 'W' then
    let (week, rest) ← twoDigits (rest.drop 1)
    if rest = [] then weekDay year week 1
    else if (rest.head? = some '-') ≠ dashed then none
    else
      let day ← readDigits (rest.drop skip)
      weekDay year week day
  else
    let (month, rest) ← twoDigits rest
    if (rest.head? = some '-') ≠ dashed then none
    else
      let (day, rest) ← twoDigits (rest.drop skip)
      if rest = [] then midnight year month day else none

/-- Where the date ends. -/
def separator (text : List Char) : Nat :=
  if text.length = 7 then 7
  else if text[4]? = some '-' then
    if text[5]? = some 'W' then
      if text[8]? = some '-' then if (text[10]?.map Char.isDigit).getD false then 8 else 10 else 8
    else 10
  else if text[4]? = some 'W' then
    let digits := 7 + ((text.drop 7).takeWhile Char.isDigit).length
    if digits < 9 then digits else if digits % 2 = 0 then 7 else 8
  else 8

structure Clock where
  hour : Nat
  minute : Nat := 0
  second : Nat := 0
  micro : Nat := 0
deriving DecidableEq

/-- The first six digits of a fraction; the others are read over. -/
def readFraction (text : List Char) : Option Nat :=
  if text ≠ [] ∧ text.all Char.isDigit then some (Nat.ofDigitChars 10 ((text ++ List.replicate 6 '0').take 6) 0) else none

/-- `HH[[:]MM[[:]SS[.ffffff]]]`, where the decimal mark may be a comma. -/
def readClock (text : List Char) : Option Clock := do
  let (hour, rest) ← twoDigits text
  if rest = [] then return { hour }
  let parted : Bool := rest.head? = some ':'
  let skip := if parted then 1 else 0
  let (minute, rest) ← twoDigits (rest.drop skip)
  if rest = [] then return { hour, minute }
  if parted ∧ rest.head? ≠ some ':' then none
  let (second, rest) ← twoDigits (rest.drop skip)
  if rest = [] then return { hour, minute, second }
  if rest.head? ≠ some '.' ∧ rest.head? ≠ some ',' then none
  let micro ← readFraction (rest.drop 1)
  return { hour, minute, second, micro }

def Clock.valid (c : Clock) : Prop := c.hour < 24 ∧ c.minute < 60 ∧ c.second < 60 ∧ c.micro < 1000000

instance (c : Clock) : Decidable c.valid := inferInstanceAs (Decidable (_ ∧ _))

def at_ (day : Instant) (c : Clock) : Option Instant :=
  if h : c.valid then
    some { day with hour := c.hour, minute := c.minute, second := c.second, micro := c.micro
                    hour_lt := h.1, minute_lt := h.2.1, second_lt := h.2.2.1, micro_lt := h.2.2.2 }
  else none

def Clock.micros (c : Clock) : Int := (((c.hour * 60 + c.minute) * 60 + c.second) * 1000000 + c.micro : Nat)

/-- The zone after a time of day: none, `Z`, or an offset. -/
def readZone (t : Instant) (text : List Char) : Option (Instant ⊕ ZonedTime) :=
  match text with
  | [] => some (.inl t)
  | sign :: zone =>
    if sign = 'Z' then if zone = [] then some (.inr ⟨t, 0, ZonedTime.utc_lt⟩) else none
    else do
      let c ← readClock zone
      let offset := if sign = '-' then -c.micros else c.micros
      if h : offset.natAbs < 86400000000 then return .inr ⟨t, offset, h⟩ else none

def startsZone (c : Char) : Bool := c = '+' ∨ c = '-' ∨ c = 'Z'

/-- `datetime.fromisoformat`. -/
def fromisoformat (text : List Char) : Option (Instant ⊕ ZonedTime) :=
  if text.length < 7 then none
  else do
    let date := text.take (separator text)
    let day ← readDate date
    if text.length = separator text then return .inl day
    let time := text.drop (separator text + 1)
    let clock := time.takeWhile fun c => !startsZone c
    let c ← readClock clock
    let t ← at_ day c
    readZone t (time.drop clock.length)

/-- A date as it may be written: by the day of the month or by the week. -/
inductive Date where
  | month (dashed : Bool) (year month day : Nat)
  | week (dashed : Bool) (year week : Nat) (day : Option Nat)

def Date.chars : Date → List Char
  | month dashed y m d =>
    if dashed then Instant.padded 4 y ++ '-' :: (Instant.padded 2 m ++ '-' :: Instant.padded 2 d)
    else Instant.padded 4 y ++ (Instant.padded 2 m ++ Instant.padded 2 d)
  | week dashed y w d =>
    if dashed then Instant.padded 4 y ++ '-' :: 'W' :: (Instant.padded 2 w ++ (d.map fun d => ['-', Instant.digit d]).getD [])
    else Instant.padded 4 y ++ 'W' :: (Instant.padded 2 w ++ (d.map fun d => [Instant.digit d]).getD [])

theorem isDigit_digit (n : Nat) : (Instant.digit n).isDigit = true := by
  have h : n % 10 < 10 := Nat.mod_lt n (by decide)
  rw [← Instant.digit_mod]
  interval_cases n % 10 <;> decide

theorem digit_ne (n : Nat) {c : Char} (hc : c.isDigit = false) : Instant.digit n ≠ c := by
  rintro rfl
  rw [isDigit_digit] at hc
  cases hc

theorem digits_padded (k n : Nat) : Decimal.Digits (Instant.padded k n) := by
  induction k generalizing n with
  | zero => exact fun _ h => absurd h List.not_mem_nil
  | succ k ih => exact Decimal.digits_append.mpr ⟨ih _, fun c hc => by rw [List.mem_singleton.mp hc]; exact isDigit_digit n⟩

theorem separator_date (d : Date) (rest : List Char) : separator (d.chars ++ 'T' :: rest) = d.chars.length := by
  have hdash : ∀ n, Instant.digit n ≠ '-' := fun n => digit_ne n rfl
  have hw : ∀ n, Instant.digit n ≠ 'W' := fun n => digit_ne n rfl
  cases d with
  | month dashed y m d => cases dashed <;> simp [Date.chars, separator, Instant.padded, hdash, hw]
  | week dashed y w d => cases d <;> cases dashed <;> simp [Date.chars, separator, Instant.padded, isDigit_digit]

theorem ofDigitChars_padded (k n : Nat) : Nat.ofDigitChars 10 (Instant.padded k n) 0 = n % 10 ^ k := by
  induction k generalizing n with
  | zero => simp [Instant.padded, Nat.mod_one]
  | succ k ih =>
    have hdigit : (Instant.digit n).toNat - '0'.toNat = n % 10 := by
      have h : n % 10 < 10 := Nat.mod_lt n (by decide)
      rw [← Instant.digit_mod]
      interval_cases n % 10 <;> decide
    rw [Instant.padded, Nat.ofDigitChars_append, ih, Nat.ofDigitChars_cons, Nat.ofDigitChars_nil, hdigit, pow_succ, Nat.mul_comm (10 ^ k),
      Nat.mod_mul]
    omega

theorem twoDigits_padded {n : Nat} (h : n < 100) (rest : List Char) : twoDigits (Instant.padded 2 n ++ rest) = some (n, rest) := by
  have hlen : (Instant.padded 2 n).length = 2 := Instant.length_padded 2 n
  have hread : readDigits (Instant.padded 2 n) = some n := by
    have hall : (Instant.padded 2 n).all Char.isDigit := List.all_eq_true.mpr (digits_padded 2 n)
    have hne : Instant.padded 2 n ≠ [] := by simp [Instant.padded]
    rw [readDigits, if_pos ⟨hne, hall⟩, ofDigitChars_padded, Nat.mod_eq_of_lt (show n < 10 ^ 2 by omega)]
  have hlong : ¬ (Instant.padded 2 n ++ rest).length < 2 := by
    rw [List.length_append, hlen]
    omega
  rw [twoDigits, if_neg hlong, List.take_left' hlen, List.drop_left' hlen, hread]
  rfl

/-- What a fraction of a second is in microseconds, cut off. -/
def microsOf (fraction : List Char) : Nat := Nat.ofDigitChars 10 fraction 0 * 10 ^ 6 / 10 ^ fraction.length

theorem ofDigitChars_lt {text : List Char} (h : Decimal.Digits text) : Nat.ofDigitChars 10 text 0 < 10 ^ text.length := by
  induction text with
  | nil => simp
  | cons c text ih =>
    have hc : c.toNat - '0'.toNat < 10 := by
      have hd := h c List.mem_cons_self
      simp only [Char.isDigit, Bool.and_eq_true, decide_eq_true_eq, UInt32.le_iff_toNat_le] at hd
      have hle : c.toNat ≤ 57 := hd.2
      have hzero : '0'.toNat = 48 := rfl
      omega
    have hrest := ih fun d hd => h d (List.mem_cons_of_mem c hd)
    rw [Nat.ofDigitChars_cons, Nat.ofDigitChars_eq_ofDigitChars_zero, List.length_cons, pow_succ]
    nlinarith

theorem ofDigitChars_take {text : List Char} (h : Decimal.Digits text) (k : Nat) :
    Nat.ofDigitChars 10 (text.take k) 0 = Nat.ofDigitChars 10 text 0 / 10 ^ (text.length - k) := by
  have hrest : Decimal.Digits (text.drop k) := fun c hc => h c (List.mem_of_mem_drop hc)
  have hlow := ofDigitChars_lt hrest
  have hsplit : Nat.ofDigitChars 10 text 0
      = 10 ^ (text.drop k).length * Nat.ofDigitChars 10 (text.take k) 0 + Nat.ofDigitChars 10 (text.drop k) 0 := by
    rw [← Nat.ofDigitChars_eq_ofDigitChars_zero, ← Nat.ofDigitChars_append, List.take_append_drop]
  rw [List.length_drop] at hsplit hlow
  rw [hsplit, Nat.mul_add_div (Nat.pow_pos (by decide)), Nat.div_eq_of_lt hlow, Nat.add_zero]

theorem readFraction_digits {fraction : List Char} (h : Decimal.Digits fraction) (hne : fraction ≠ []) :
    readFraction fraction = some (microsOf fraction) := by
  have hall : fraction.all Char.isDigit := List.all_eq_true.mpr h
  rw [readFraction, if_pos ⟨hne, hall⟩]
  congr 1
  rw [ofDigitChars_take (Decimal.digits_append.mpr ⟨h, Decimal.digits_zeros 6⟩) 6]
  rw [Nat.ofDigitChars_append, Nat.ofDigitChars_replicate_zero, List.length_append, List.length_replicate, Nat.add_sub_cancel, microsOf,
    Nat.mul_comm]

theorem microsOf_lt {fraction : List Char} (h : Decimal.Digits fraction) : microsOf fraction < 1000000 := by
  have hlt := ofDigitChars_lt h
  rw [microsOf, Nat.div_lt_iff_lt_mul (Nat.pow_pos (by decide))]
  omega

theorem date_length (d : Date) : 7 ≤ d.chars.length := by
  cases d with
  | month dashed y m d => cases dashed <;> simp [Date.chars]
  | week dashed y w d => cases dashed <;> simp [Date.chars] <;> omega

/-- A numeric offset from UTC. -/
structure Offset where
  negative : Bool
  hour : Nat
  minute : Nat
  hour_lt : hour < 24 := by decide
  minute_lt : minute < 60 := by decide

def Offset.chars (z : Offset) : List Char :=
  (if z.negative then '-' else '+') :: (Instant.padded 2 z.hour ++ ':' :: Instant.padded 2 z.minute)

def Offset.micros (z : Offset) : Int :=
  let size : Int := ((z.hour * 60 + z.minute) * 60 * 1000000 : Nat)
  if z.negative then -size else size

theorem Offset.micros_lt (z : Offset) : z.micros.natAbs < 86400000000 := by
  have hh := z.hour_lt
  have hm := z.minute_lt
  unfold Offset.micros
  dsimp only
  split <;> omega

theorem Offset.readClock_chars (z : Offset) :
    readClock (Instant.padded 2 z.hour ++ ':' :: Instant.padded 2 z.minute) = some { hour := z.hour, minute := z.minute } := by
  have hh : z.hour < 100 := by have := z.hour_lt; omega
  have hm : z.minute < 100 := by have := z.minute_lt; omega
  have hminute := twoDigits_padded hm []
  rw [List.append_nil] at hminute
  unfold readClock
  rw [twoDigits_padded hh]
  simp [hminute]

theorem readZone_offset {sign : Char} {zone : List Char} {c : Clock} {t : Instant} {offset : Int} (hs : sign ≠ 'Z')
    (hc : readClock zone = some c) (ho : (if sign = '-' then -c.micros else c.micros) = offset) (hlt : offset.natAbs < 86400000000) :
    readZone t (sign :: zone) = some (.inr ⟨t, offset, hlt⟩) := by
  subst ho
  simp only [readZone, if_neg hs, hc, Option.bind_eq_bind, Option.bind_some, dif_pos hlt]
  rfl

theorem Offset.readZone_chars (z : Offset) (t : Instant) : readZone t z.chars = some (.inr ⟨t, z.micros, z.micros_lt⟩) := by
  have hclock : Clock.micros { hour := z.hour, minute := z.minute } = ((z.hour * 60 + z.minute) * 60 * 1000000 : Nat) := by
    simp [Clock.micros]
  unfold Offset.chars
  cases hn : z.negative with
  | true =>
    have hmicros : -Clock.micros { hour := z.hour, minute := z.minute } = z.micros := by
      rw [hclock, Offset.micros, hn, if_pos rfl]
    exact readZone_offset (by decide) z.readClock_chars ((if_pos rfl).trans hmicros) z.micros_lt
  | false =>
    have hmicros : Clock.micros { hour := z.hour, minute := z.minute } = z.micros := by
      rw [hclock, Offset.micros, hn, if_neg Bool.false_ne_true]
    exact readZone_offset (by decide) z.readClock_chars ((if_neg (by decide)).trans hmicros) z.micros_lt

/-- A timestamp: a day, a time of day with a fraction of its seconds, and `Z` or an offset. -/
structure Timestamp where
  date : Date
  day : Instant
  reads : readDate date.chars = some day := by decide
  /-- Colons stand in the time of day. -/
  parted : Bool
  hour : Nat
  minute : Nat
  second : Nat
  hour_lt : hour < 24 := by decide
  minute_lt : minute < 60 := by decide
  second_lt : second < 60 := by decide
  mark : Char
  mark_mem : mark = '.' ∨ mark = ',' := by decide
  fraction : List Char
  digits : Decimal.Digits fraction
  nonempty : fraction ≠ [] := by decide
  zone : Option Offset

namespace Timestamp

variable (s : Timestamp)

def clockChars : List Char :=
  if s.parted then Instant.padded 2 s.hour ++ ':' :: (Instant.padded 2 s.minute ++ ':' :: Instant.padded 2 s.second)
  else Instant.padded 2 s.hour ++ (Instant.padded 2 s.minute ++ Instant.padded 2 s.second)

def head : List Char := s.date.chars ++ 'T' :: s.clockChars

def zoneChars : List Char := (s.zone.map Offset.chars).getD ['Z']

def chars : List Char := s.head ++ s.mark :: (s.fraction ++ s.zoneChars)

/-- The time of day that is meant, to the microsecond. -/
def local_ : Instant :=
  { s.day with hour := s.hour, minute := s.minute, second := s.second, micro := microsOf s.fraction, hour_lt := s.hour_lt
               minute_lt := s.minute_lt, second_lt := s.second_lt, micro_lt := microsOf_lt s.digits }

def zoned : ZonedTime :=
  match s.zone with
  | none => ⟨s.local_, 0, ZonedTime.utc_lt⟩
  | some z => ⟨s.local_, z.micros, z.micros_lt⟩

theorem readClock_chars : readClock (s.clockChars ++ s.mark :: s.fraction)
    = some { hour := s.hour, minute := s.minute, second := s.second, micro := microsOf s.fraction } := by
  have hh : s.hour < 100 := by have := s.hour_lt; omega
  have hm : s.minute < 100 := by have := s.minute_lt; omega
  have hs : s.second < 100 := by have := s.second_lt; omega
  have hmark : ¬ (s.mark ≠ '.' ∧ s.mark ≠ ',') := by
    have := s.mark_mem
    tauto
  have hfraction := readFraction_digits s.digits s.nonempty
  unfold clockChars readClock
  split
  · simp only [List.append_assoc, List.cons_append, twoDigits_padded hh]
    simp [twoDigits_padded hm, twoDigits_padded hs, hmark, hfraction]
  · have hnext : ∀ n c, (Instant.padded 2 n).head?.getD c ≠ ':' := by
      intro n c
      simp [Instant.padded, digit_ne (n / 10) (rfl : ':'.isDigit = false)]
    simp only [List.append_assoc, twoDigits_padded hh]
    simp [hnext, twoDigits_padded hm, twoDigits_padded hs, hmark, hfraction]

theorem clock_not_zone : ∀ c ∈ s.clockChars ++ s.mark :: s.fraction, (!startsZone c) = true := by
  have hdigit : ∀ c : Char, c.isDigit = true → (!startsZone c) = true := by
    intro c hc
    by_contra h
    have hz : startsZone c = true := by simpa using h
    rcases of_decide_eq_true hz with rfl | rfl | rfl <;> cases hc
  have hp : ∀ n, ∀ c ∈ Instant.padded 2 n, (!startsZone c) = true := fun n c hc => hdigit c (digits_padded 2 n c hc)
  have hmark : (!startsZone s.mark) = true := by
    rcases s.mark_mem with h | h <;> rw [h] <;> rfl
  have hcolon : (!startsZone ':') = true := rfl
  have hclock : ∀ c ∈ s.clockChars, (!startsZone c) = true := by
    unfold clockChars
    split
    · exact List.forall_mem_append.mpr ⟨hp _, List.forall_mem_cons.mpr ⟨hcolon, List.forall_mem_append.mpr
        ⟨hp _, List.forall_mem_cons.mpr ⟨hcolon, hp _⟩⟩⟩⟩
    · exact List.forall_mem_append.mpr ⟨hp _, List.forall_mem_append.mpr ⟨hp _, hp _⟩⟩
  exact List.forall_mem_append.mpr ⟨hclock, List.forall_mem_cons.mpr ⟨hmark, fun c hc => hdigit c (s.digits c hc)⟩⟩

theorem fromisoformat_head {zone : List Char} (hz : ∀ c, zone.head? = some c → startsZone c = true) :
    fromisoformat (s.head ++ s.mark :: (s.fraction ++ zone)) = readZone s.local_ zone := by
  have htext : s.head ++ s.mark :: (s.fraction ++ zone) = s.date.chars ++ 'T' :: ((s.clockChars ++ s.mark :: s.fraction) ++ zone) := by
    simp [head]
  have hsep := separator_date s.date ((s.clockChars ++ s.mark :: s.fraction) ++ zone)
  have htake : ((s.clockChars ++ s.mark :: s.fraction) ++ zone).takeWhile (fun c => !startsZone c) = s.clockChars ++ s.mark :: s.fraction := by
    rw [List.takeWhile_append_of_pos s.clock_not_zone]
    cases zone with
    | nil => simp
    | cons c rest =>
      have hc := hz c rfl
      simp [hc]
  have hpos : 7 ≤ s.date.chars.length := date_length s.date
  have hlong : ¬ (s.date.chars ++ 'T' :: ((s.clockChars ++ s.mark :: s.fraction) ++ zone)).length < 7 := by
    rw [List.length_append]
    omega
  have hmore : (s.date.chars ++ 'T' :: ((s.clockChars ++ s.mark :: s.fraction) ++ zone)).length ≠ s.date.chars.length := by
    rw [List.length_append, List.length_cons]
    omega
  have hafter : (s.date.chars ++ 'T' :: ((s.clockChars ++ s.mark :: s.fraction) ++ zone)).drop (s.date.chars.length + 1)
      = (s.clockChars ++ s.mark :: s.fraction) ++ zone := by
    simp
  have hat : at_ s.day ⟨s.hour, s.minute, s.second, microsOf s.fraction⟩ = some s.local_ :=
    dif_pos ⟨s.hour_lt, s.minute_lt, s.second_lt, microsOf_lt s.digits⟩
  unfold fromisoformat
  rw [htext, if_neg hlong, hsep, hafter]
  dsimp only
  rw [List.take_left, htake, List.drop_left, s.reads, s.readClock_chars]
  simp only [Option.bind_eq_bind, Option.bind_some, if_neg hmore, hat]

/-- The library reads the time that a timestamp means. -/
theorem fromisoformat_chars : fromisoformat s.chars = some (.inr s.zoned) := by
  have hz : ∀ c, s.zoneChars.head? = some c → startsZone c = true := by
    unfold zoneChars
    cases s.zone with
    | none =>
      intro c hc
      obtain rfl := Option.some.inj hc
      rfl
    | some z =>
      intro c hc
      obtain rfl := Option.some.inj hc
      cases z.negative <;> rfl
  rw [chars, s.fromisoformat_head hz, zoneChars, zoned]
  cases s.zone with
  | none => rfl
  | some z => exact z.readZone_chars s.local_

end Timestamp

end IsoTime

end MatchTrader
