import MatchTrader.Rows
import MatchTrader.Spellings

/-! JSON texts: what the interpreter writes for a value, with every character outside the printable ASCII escaped, and what a
browser reads. -/

namespace MatchTrader.Json

/-! Strings, which a browser holds as units of UTF-16. -/

def hex4 (n : Nat) : List Char := [n / 4096, n / 256 % 16, n / 16 % 16, n % 16].map Nat.digitChar

def unicode (n : Nat) : List Char := '\\' :: 'u' :: hex4 n

def units (c : Char) : List Nat :=
  if c.toNat < 0x10000 then [c.toNat] else [0xd800 + (c.toNat - 0x10000) / 0x400, 0xdc00 + (c.toNat - 0x10000) % 0x400]

/-- The escape of a character in a string that `json.dumps` writes. -/
def escape (c : Char) : List Char :=
  if c = '"' ∨ c = '\\' then ['\\', c]
  else if c = '\n' then ['\\', 'n']
  else if c = '\r' then ['\\', 'r']
  else if c = '\t' then ['\\', 't']
  else if c.toNat = 8 then ['\\', 'b']
  else if c.toNat = 12 then ['\\', 'f']
  else if 32 ≤ c.toNat ∧ c.toNat < 127 then [c]
  else (units c).flatMap unicode

def quote (s : String) : List Char := '"' :: (s.toList.flatMap escape ++ ['"'])

def hexValue (c : Char) : Option Nat :=
  if '0' ≤ c ∧ c ≤ '9' then some (c.toNat - 48)
  else if 'a' ≤ c ∧ c ≤ 'f' then some (c.toNat - 87)
  else if 'A' ≤ c ∧ c ≤ 'F' then some (c.toNat - 55)
  else none

def unescape (c : Char) : Option Nat :=
  if c = '"' ∨ c = '\\' ∨ c = '/' then some c.toNat
  else if c = 'b' then some 8
  else if c = 'f' then some 12
  else if c = 'n' then some 10
  else if c = 'r' then some 13
  else if c = 't' then some 9
  else none

/-- The units of a string up to its closing quote, and what follows. -/
def readUnits : List Char → Option (List Nat × List Char)
  | [] => none
  | '"' :: rest => some ([], rest)
  | '\\' :: 'u' :: a :: b :: c :: d :: rest => do
    let n := (← hexValue a) * 4096 + (← hexValue b) * 256 + (← hexValue c) * 16 + (← hexValue d)
    (readUnits rest).map fun r => (n :: r.1, r.2)
  | '\\' :: c :: rest => do
    let n ← unescape c
    (readUnits rest).map fun r => (n :: r.1, r.2)
  | c :: rest => if c.toNat < 32 then none else (readUnits rest).map fun r => (units c ++ r.1, r.2)

/-- The characters of a string of units. One with a surrogate on its own is no text here. -/
def ofUnits : List Nat → Option (List Char)
  | [] => some []
  | [u] => if u < 0xd800 ∨ 0xdfff < u then some [Char.ofNat u] else none
  | u :: l :: rest =>
    if u < 0xd800 ∨ 0xdfff < u then (ofUnits (l :: rest)).map (Char.ofNat u :: ·)
    else if u < 0xdc00 ∧ 0xdc00 ≤ l ∧ l ≤ 0xdfff then
      (ofUnits rest).map (Char.ofNat (0x10000 + (u - 0xd800) * 0x400 + (l - 0xdc00)) :: ·)
    else none

def readString (text : List Char) : Option (String × List Char) := do
  let (us, rest) ← readUnits text
  let cs ← ofUnits us
  return (String.ofList cs, rest)

example : readString ((quote "a\n" ++ quote "b").drop 1) = some ("a\n", quote "b") := by decide +kernel

section Strings

variable {c : Char} {rest : List Char}

theorem hexValue_digitChar {d : Nat} (h : d < 16) : hexValue (Nat.digitChar d) = some d := by
  interval_cases d <;> rfl

theorem readUnits_unicode {n : Nat} (h : n < 65536) :
    readUnits (unicode n ++ rest) = (readUnits rest).map fun r => (n :: r.1, r.2) := by
  have h₁ := hexValue_digitChar (d := n / 4096) (by omega)
  have h₂ := hexValue_digitChar (d := n / 256 % 16) (by omega)
  have h₃ := hexValue_digitChar (d := n / 16 % 16) (by omega)
  have h₄ := hexValue_digitChar (d := n % 16) (by omega)
  have hn : n / 4096 * 4096 + n / 256 % 16 * 256 + n / 16 % 16 * 16 + n % 16 = n := by omega
  simp only [unicode, hex4, List.map_cons, List.map_nil, List.cons_append, List.nil_append, readUnits, h₁, h₂, h₃, h₄, Option.bind_eq_bind,
    Option.bind_some, hn]

theorem readUnits_plain (hq : c ≠ '"') (hb : c ≠ '\\') (h : 32 ≤ c.toNat) :
    readUnits (c :: rest) = (readUnits rest).map fun r => (units c ++ r.1, r.2) := by
  rw [readUnits.eq_5 c rest hq (fun _ _ _ _ _ he _ => hb he) (fun _ _ he _ => hb he)]
  exact if_neg (not_lt.mpr h)

theorem readUnits_escaped {n : Nat} (hu : c ≠ 'u') (h : unescape c = some n) :
    readUnits ('\\' :: c :: rest) = (readUnits rest).map fun r => (n :: r.1, r.2) := by
  rw [readUnits.eq_4 c rest (fun _ _ _ _ _ he _ => hu he), h]
  rfl

theorem units_of_lt (h : c.toNat < 0x10000) : units c = [c.toNat] := if_pos h

/-- A character is read from its escape. -/
theorem readUnits_escape : readUnits (escape c ++ rest) = (readUnits rest).map fun r => (units c ++ r.1, r.2) := by
  have hvalid : c.toNat.isValidChar := c.valid
  unfold Nat.isValidChar at hvalid
  unfold escape
  split
  · next h =>
    obtain rfl | rfl := h
    · exact readUnits_escaped (by decide) rfl
    · exact readUnits_escaped (by decide) rfl
  split
  · next h => exact h ▸ readUnits_escaped (by decide) rfl
  split
  · next h => exact h ▸ readUnits_escaped (by decide) rfl
  split
  · next h => exact h ▸ readUnits_escaped (by decide) rfl
  split
  · next h =>
    rw [units_of_lt (by omega), h]
    exact readUnits_escaped (by decide) rfl
  split
  · next h =>
    rw [units_of_lt (by omega), h]
    exact readUnits_escaped (by decide) rfl
  split
  · next hq _ _ _ _ _ h =>
    obtain ⟨hquote, hback⟩ := not_or.mp hq
    exact readUnits_plain hquote hback h.1
  · unfold units
    split
    · next h =>
      rw [List.flatMap_cons, List.flatMap_nil, List.append_nil, readUnits_unicode h]
      rfl
    · simp only [List.flatMap_cons, List.flatMap_nil, List.append_nil, List.append_assoc]
      rw [readUnits_unicode (by omega), readUnits_unicode (by omega), Option.map_map]
      rfl

theorem readUnits_quoted (cs : List Char) : readUnits (cs.flatMap escape ++ '"' :: rest) = some (cs.flatMap units, rest) := by
  induction cs with
  | nil => rfl
  | cons c cs ih =>
    rw [List.flatMap_cons, List.append_assoc, readUnits_escape, ih]
    rfl

theorem ofUnits_units {us : List Nat} : ofUnits (units c ++ us) = (ofUnits us).map (c :: ·) := by
  have hvalid : c.toNat.isValidChar := c.valid
  unfold Nat.isValidChar at hvalid
  unfold units
  split
  · next h =>
    have hself : c.toNat < 0xd800 ∨ 0xdfff < c.toNat := by omega
    cases us with
    | nil => simp [ofUnits, hself]
    | cons l us => simp [ofUnits, hself]
  · next h =>
    have hlead : ¬ (0xd800 + (c.toNat - 0x10000) / 0x400 < 0xd800 ∨ 0xdfff < 0xd800 + (c.toNat - 0x10000) / 0x400) := by omega
    have hpair : 0xd800 + (c.toNat - 0x10000) / 0x400 < 0xdc00 ∧ 0xdc00 ≤ 0xdc00 + (c.toNat - 0x10000) % 0x400
        ∧ 0xdc00 + (c.toNat - 0x10000) % 0x400 ≤ 0xdfff := by omega
    have hsum : 0x10000 + (0xd800 + (c.toNat - 0x10000) / 0x400 - 0xd800) * 0x400 + (0xdc00 + (c.toNat - 0x10000) % 0x400 - 0xdc00)
        = c.toNat := by omega
    rw [List.cons_append, List.cons_append, List.nil_append, ofUnits, if_neg hlead, if_pos hpair, hsum, Char.ofNat_toNat]

theorem ofUnits_flatMap (cs : List Char) : ofUnits (cs.flatMap units) = some cs := by
  induction cs with
  | nil => rfl
  | cons c cs ih =>
    rw [List.flatMap_cons, ofUnits_units, ih]
    rfl

/-- A string is read from its quotation. -/
theorem readString_quote (s : String) : readString (s.toList.flatMap escape ++ '"' :: rest) = some (s, rest) := by
  unfold readString
  simp [readUnits_quoted, ofUnits_flatMap]

end Strings

/-! Numbers, which stand for what their digits write. -/

/-- The fraction of a number, which has a digit if it has a point. -/
def readFraction : List Char → Option (List Char × List Char)
  | '.' :: rest =>
    let digits := rest.takeWhile Char.isDigit
    if digits = [] then none else some (digits, rest.dropWhile Char.isDigit)
  | rest => some ([], rest)

def readExponent : List Char → Option (Int × List Char)
  | c :: rest =>
    if c = 'e' ∨ c = 'E' then
      let negative := rest.head? = some '-'
      let rest := if rest.head? = some '-' ∨ rest.head? = some '+' then rest.tail else rest
      let digits := rest.takeWhile Char.isDigit
      if digits = [] then none
      else some ((if negative then -1 else 1) * Nat.ofDigitChars 10 digits 0, rest.dropWhile Char.isDigit)
    else some (0, c :: rest)
  | [] => some (0, [])

def readNumber (text : List Char) : Option (Decimal × List Char) := do
  let negative := text.head? = some '-'
  let text := if negative then text.tail else text
  let whole := text.takeWhile Char.isDigit
  if whole = [] ∨ (whole.head? = some '0' ∧ whole ≠ ['0']) then none
  else
    let (fraction, rest) ← readFraction (text.dropWhile Char.isDigit)
    let (power, rest) ← readExponent rest
    return (⟨negative, Nat.ofDigitChars 10 (whole ++ fraction) 0, power - fraction.length⟩, rest)

/-- What may follow a number. -/
def Ends (rest : List Char) : Prop := ∀ c ∈ rest.head?, ¬ c.isDigit ∧ c ≠ '.' ∧ c ≠ 'e' ∧ c ≠ 'E'

section Numbers

variable {rest : List Char}

theorem takeWhile_digits {digits : List Char} (hd : Decimal.Digits digits) (hr : ∀ c ∈ rest.head?, ¬ c.isDigit) :
    (digits ++ rest).takeWhile Char.isDigit = digits ∧ (digits ++ rest).dropWhile Char.isDigit = rest := by
  rw [List.takeWhile_append_of_pos hd, List.dropWhile_append_of_pos hd]
  cases rest with
  | nil => simp
  | cons c rest =>
    have hc := hr c rfl
    rw [List.takeWhile_cons_of_neg hc, List.dropWhile_cons_of_neg hc, List.append_nil]
    exact ⟨rfl, rfl⟩

theorem readFraction_spelled {fraction : List Char} (hf : Decimal.Digits fraction) (hr : ∀ c ∈ rest.head?, ¬ c.isDigit ∧ c ≠ '.') :
    readFraction ((if fraction = [] then [] else '.' :: fraction) ++ rest) = some (fraction, rest) := by
  by_cases hne : fraction = []
  · subst hne
    rw [if_pos rfl, List.nil_append]
    cases rest with
    | nil => rfl
    | cons c rest => exact readFraction.eq_2 _ fun t ht => (hr c rfl).2 (List.cons.inj ht).1
  · obtain ⟨htake, hdrop⟩ := takeWhile_digits hf fun c hc => (hr c hc).1
    rw [if_neg hne, List.cons_append, readFraction, htake, hdrop, if_neg hne]

theorem readExponent_spelled {power : Int} (hr : Ends rest) :
    readExponent ((if power = 0 then [] else 'E' :: (if power < 0 then '-' else '+') :: Nat.toDigits 10 power.natAbs) ++ rest)
      = some (power, rest) := by
  by_cases hz : power = 0
  · rw [if_pos hz, List.nil_append, hz]
    cases rest with
    | nil => rfl
    | cons c rest =>
      obtain ⟨-, -, he, hE⟩ := hr c rfl
      exact if_neg (not_or.mpr ⟨he, hE⟩)
  · obtain ⟨htake, hdrop⟩ := takeWhile_digits (Decimal.digits_repr power.natAbs) fun c hc => (hr c hc).1
    have hne : Nat.toDigits 10 power.natAbs ≠ [] := Nat.toDigits_ne_nil
    rw [if_neg hz, List.cons_append, List.cons_append, readExponent, if_pos (Or.inr rfl)]
    by_cases hneg : power < 0
    · simp only [if_pos hneg, List.head?_cons, List.tail_cons, true_or, if_true, htake, hdrop, if_neg hne, Nat.ofDigitChars_ten_toDigits]
      rw [show -1 * (power.natAbs : Int) = power by omega]
    · have hplus : ¬ (some '+' = some '-') := by decide
      simp only [if_neg hneg, List.head?_cons, List.tail_cons, or_true, if_true, hplus, if_false, htake, hdrop, if_neg hne,
        Nat.ofDigitChars_ten_toDigits]
      rw [show 1 * (power.natAbs : Int) = power by omega]

/-- A number is read from its text. -/
theorem readNumber_toString (d : Decimal) (hr : Ends rest) : readNumber (d.toString.toList ++ rest) = some (d, rest) := by
  obtain ⟨whole, fraction, power, hw, hf, hne, hzero, ht, hc, he⟩ := Decimal.toString_spelled d
  let exponent := if power = 0 then [] else 'E' :: (if power < 0 then '-' else '+') :: Nat.toDigits 10 power.natAbs
  let tail := (if fraction = [] then [] else '.' :: fraction) ++ (exponent ++ rest)
  have hexponent : ∀ c ∈ (exponent ++ rest).head?, ¬ c.isDigit ∧ c ≠ '.' := by
    intro c hc
    unfold exponent at hc
    split at hc
    · exact ⟨(hr c hc).1, (hr c hc).2.1⟩
    · cases hc
      decide
  have htail : ∀ c ∈ tail.head?, ¬ c.isDigit := by
    intro c hc
    unfold tail at hc
    split at hc
    · exact (hexponent c hc).1
    · cases hc
      decide
  have hsign : d.toString.toList ++ rest = if d.neg then '-' :: (whole ++ tail) else whole ++ tail := by
    rw [ht]
    cases d.neg <;> simp [Decimal.spell, tail, exponent]
  have hneg : (d.toString.toList ++ rest).head? = some '-' ↔ d.neg = true := by
    rw [hsign]
    cases hn : d.neg with
    | true => simp
    | false =>
      obtain ⟨c, t, rfl⟩ := List.exists_cons_of_ne_nil hne
      have hminus : c ≠ '-' := hw.ne (by decide) c List.mem_cons_self
      simpa using hminus
  have hbody : (if d.neg = true then (d.toString.toList ++ rest).tail else d.toString.toList ++ rest) = whole ++ tail := by
    rw [hsign]
    cases d.neg <;> rfl
  obtain ⟨htake, hdrop⟩ := takeWhile_digits hw htail
  have hlead : ¬ (whole = [] ∨ (whole.head? = some '0' ∧ whole ≠ ['0'])) := by
    rintro (h | ⟨h, hn⟩)
    · exact hne h
    · exact hn (hzero h)
  unfold readNumber
  simp only [hneg, hbody, htake, hdrop, if_neg hlead, Bool.decide_eq_true]
  unfold tail
  rw [readFraction_spelled hf hexponent]
  unfold exponent
  simp only [Option.bind_eq_bind, Option.bind_some, readExponent_spelled hr, hc, he]
  rfl

end Numbers

mutual

/-- `json.dumps`. -/
def dumps : Json → List Char
  | null => "null".toList
  | bool b => if b then "true".toList else "false".toList
  | num d => d.toString.toList
  | nonfinite => "NaN".toList
  | str s => quote s
  | arr [] => "[]".toList
  | arr (v :: rest) => '[' :: (v.dumps ++ dumpsItems rest)
  | obj [] => ['{', '}']
  | obj (f :: rest) => '{' :: (quote f.1 ++ ':' :: ' ' :: (f.2.dumps ++ dumpsFields rest))

/-- What follows an item. -/
def dumpsItems : List Json → List Char
  | [] => [']']
  | v :: rest => ',' :: ' ' :: (v.dumps ++ dumpsItems rest)

/-- What follows a member. -/
def dumpsFields : List (String × Json) → List Char
  | [] => ['}']
  | f :: rest => ',' :: ' ' :: (quote f.1 ++ ':' :: ' ' :: (f.2.dumps ++ dumpsFields rest))

end

def skip (text : List Char) : List Char := text.dropWhile fun c => c = ' ' || c = '\t' || c = '\n' || c = '\r'

/-- The members of an object, of which a later one of the same name takes the place of an earlier one. -/
def collect (fields : List (String × Json)) : List (String × Json) := fields.foldl (fun o f => Rows.setItem f o) []

mutual

/-- A value and what follows it, in a text that is no longer than the bound. -/
def readValue : Nat → List Char → Option (Json × List Char)
  | 0, _ => none
  | n + 1, text =>
    match skip text with
    | [] => none
    | c :: rest =>
      if c = '"' then (readString rest).map fun r => (str r.1, r.2)
      else if c = '[' then
        if (skip rest).head? = some ']' then some (arr [], (skip rest).tail)
        else
          (readValue n rest).bind fun v => (readItems n v.2).map fun vs => (arr (v.1 :: vs.1), vs.2)
      else if c = '{' then
        if (skip rest).head? = some '}' then some (obj [], (skip rest).tail)
        else (readField n rest).bind fun f => (readFields n f.2).map fun fs => (obj (collect (f.1 :: fs.1)), fs.2)
      else if "null".toList <+: c :: rest then some (null, rest.drop 3)
      else if "true".toList <+: c :: rest then some (bool true, rest.drop 3)
      else if "false".toList <+: c :: rest then some (bool false, rest.drop 4)
      else (readNumber (c :: rest)).map fun r => (num r.1, r.2)

def readItems : Nat → List Char → Option (List Json × List Char)
  | 0, _ => none
  | n + 1, text =>
    match skip text with
    | [] => none
    | c :: rest =>
      if c = ']' then some ([], rest)
      else if c = ',' then (readValue n rest).bind fun v => (readItems n v.2).map fun vs => (v.1 :: vs.1, vs.2)
      else none

def readField : Nat → List Char → Option ((String × Json) × List Char)
  | 0, _ => none
  | n + 1, text =>
    match skip text with
    | [] => none
    | c :: rest =>
      if c = '"' then
        (readString rest).bind fun k =>
          if (skip k.2).head? = some ':' then (readValue n (skip k.2).tail).map fun v => ((k.1, v.1), v.2) else none
      else none

def readFields : Nat → List Char → Option (List (String × Json) × List Char)
  | 0, _ => none
  | n + 1, text =>
    match skip text with
    | [] => none
    | c :: rest =>
      if c = '}' then some ([], rest)
      else if c = ',' then (readField n rest).bind fun f => (readFields n f.2).map fun fs => (f.1 :: fs.1, fs.2)
      else none

end

/-- `JSON.parse`, up to the rounding of numbers. -/
def parse (text : List Char) : Option Json :=
  match readValue (text.length + 1) text with
  | some (v, rest) => if skip rest = [] then some v else none
  | none => none

mutual

/-- What can be written as JSON and read again: no number is infinite or none, and the keys of an object differ, as those of a
dictionary do. -/
def writable : Json → Bool
  | nonfinite => false
  | arr items => writableItems items
  | obj fields => (fields.map Prod.fst).Nodup && writableFields fields
  | _ => true

def writableItems : List Json → Bool
  | [] => true
  | v :: rest => v.writable && writableItems rest

def writableFields : List (String × Json) → Bool
  | [] => true
  | f :: rest => f.2.writable && writableFields rest

end

example : (parse "\x7b\"a\" : [1,-2.50, true], \"b\": \x7b\x7d, \"a\":null\x7d".toList).map dumps
    = some "\x7b\"a\": null, \"b\": \x7b\x7d\x7d".toList := by decide +kernel

section Values

variable {rest : List Char}

theorem skip_cons {c : Char} (h : ¬ (c = ' ' ∨ c = '\t' ∨ c = '\n' ∨ c = '\r')) : skip (c :: rest) = c :: rest := by
  refine List.dropWhile_cons_of_neg ?_
  simpa [not_or, and_assoc] using h

theorem skip_space : skip (' ' :: rest) = skip rest := rfl

theorem readValue_space {n : Nat} : readValue n (' ' :: rest) = readValue n rest := by
  cases n with
  | zero => rfl
  | succ n => rw [readValue, readValue, skip_space]

theorem readField_space {n : Nat} : readField n (' ' :: rest) = readField n rest := by
  cases n with
  | zero => rfl
  | succ n => rw [readField, readField, skip_space]

theorem collect_eq {fields : List (String × Json)} (h : (fields.map Prod.fst).Nodup) : collect fields = fields := by
  have hput : fields.foldl (fun o f => Rows.put Prod.fst f o) [] = [] ++ fields := Rows.foldl_put h
  rwa [List.nil_append] at hput

/-- The first character of a number. -/
theorem head_number (d : Decimal) : ∃ c t, d.toString.toList = c :: t ∧ (c = '-' ∨ c.isDigit = true) := by
  obtain ⟨whole, fraction, power, hw, -, hne, -, ht, -, -⟩ := Decimal.toString_spelled d
  obtain ⟨c, t, rfl⟩ := List.exists_cons_of_ne_nil hne
  cases hn : d.neg with
  | true => exact ⟨'-', _, by rw [ht, hn]; rfl, Or.inl rfl⟩
  | false => exact ⟨c, _, by rw [ht, hn]; rfl, Or.inr (hw c List.mem_cons_self)⟩

theorem ends_items (vs : List Json) : Ends (dumpsItems vs ++ rest) := by
  cases vs with
  | nil => exact fun c hc => by cases hc; decide
  | cons v vs => exact fun c hc => by cases hc; decide

theorem ends_fields (fs : List (String × Json)) : Ends (dumpsFields fs ++ rest) := by
  cases fs with
  | nil => exact fun c hc => by cases hc; decide
  | cons f fs => exact fun c hc => by cases hc; decide

/-- The first character of a value that is not an array's end. -/
theorem head_dumps (v : Json) : ∃ c t, v.dumps = c :: t ∧ ¬ (c = ' ' ∨ c = '\t' ∨ c = '\n' ∨ c = '\r') ∧ c ≠ ']' := by
  cases v with
  | null => exact ⟨'n', _, rfl, by decide, by decide⟩
  | bool b => cases b <;> exact ⟨_, _, rfl, by decide, by decide⟩
  | num d =>
    obtain ⟨c, t, ht, hc⟩ := head_number d
    refine ⟨c, t, ht, ?_, ?_⟩
    · rintro (rfl | rfl | rfl | rfl) <;> revert hc <;> decide
    · rintro rfl
      revert hc
      decide
  | nonfinite => exact ⟨'N', _, rfl, by decide, by decide⟩
  | str s => exact ⟨'"', _, rfl, by decide, by decide⟩
  | arr items => cases items <;> exact ⟨'[', _, rfl, by decide, by decide⟩
  | obj fields => cases fields <;> exact ⟨'{', _, rfl, by decide, by decide⟩

theorem readNumber_value {c : Char} {t : List Char} (h : c = '-' ∨ c.isDigit = true) (n : Nat) :
    readValue (n + 1) (c :: t) = (readNumber (c :: t)).map fun r => (num r.1, r.2) := by
  have hne : ∀ x, x ≠ '-' → x.isDigit = false → c ≠ x := by
    rintro x hx hd rfl
    exact h.elim hx fun hc => Bool.false_ne_true (hd.symm.trans hc)
  have hskip : skip (c :: t) = c :: t := skip_cons fun hc => by
    rcases hc with hc | hc | hc | hc <;> exact absurd hc (hne _ (by decide) (by decide))
  have hword : ∀ (x : Char) (w : List Char), x ≠ '-' → x.isDigit = false → ¬ (x :: w) <+: c :: t := fun x w hx hd hp =>
    hne x hx hd (List.cons_prefix_cons.mp hp).1.symm
  rw [readValue, hskip]
  simp only [if_neg (hne '"' (by decide) (by decide)), if_neg (hne '[' (by decide) (by decide)), if_neg (hne '{' (by decide) (by decide))]
  have hnull : ¬ "null".toList <+: c :: t := hword 'n' ['u', 'l', 'l'] (by decide) (by decide)
  have htrue : ¬ "true".toList <+: c :: t := hword 't' ['r', 'u', 'e'] (by decide) (by decide)
  have hfalse : ¬ "false".toList <+: c :: t := hword 'f' ['a', 'l', 's', 'e'] (by decide) (by decide)
  rw [if_neg hnull, if_neg htrue, if_neg hfalse]

mutual

/-- A value is read from its text. -/
theorem readValue_dumps (v : Json) {n : Nat} {rest : List Char} (hw : v.writable = true) (hn : v.dumps.length ≤ n) (hr : Ends rest) :
    readValue n (v.dumps ++ rest) = some (v, rest) := by
  cases n with
  | zero =>
    obtain ⟨c, t, ht, -⟩ := head_dumps v
    rw [ht] at hn
    exact absurd hn (Nat.not_succ_le_zero _)
  | succ n =>
    cases v with
    | null => rfl
    | bool b => cases b <;> rfl
    | num d =>
      obtain ⟨c, t, ht, hc⟩ := head_number d
      have hnumber := readNumber_toString d hr
      rw [dumps, ht, List.cons_append, readNumber_value hc, ← List.cons_append, ← ht, hnumber]
      rfl
    | nonfinite => exact absurd hw Bool.false_ne_true
    | str s =>
      have hskip : skip ('"' :: (s.toList.flatMap escape ++ ['"'] ++ rest)) = _ := skip_cons (by decide)
      rw [dumps, quote, List.cons_append, readValue, hskip]
      simp [readString_quote]
    | arr items =>
      cases items with
      | nil => rfl
      | cons v vs =>
        obtain ⟨hv, hvs⟩ := Bool.and_eq_true_iff.mp hw
        obtain ⟨c, t, ht, hspace, hend⟩ := head_dumps v
        simp only [dumps, List.length_cons, List.length_append] at hn
        have hskip : skip ('[' :: (v.dumps ++ (dumpsItems vs ++ rest))) = _ := skip_cons (by decide)
        have hno : ¬ (skip (v.dumps ++ (dumpsItems vs ++ rest))).head? = some ']' := by
          rw [ht, List.cons_append, skip_cons hspace]
          simpa using hend
        have hvalue := @readValue_dumps v n (dumpsItems vs ++ rest) hv (by omega) (ends_items vs)
        have hitems := @readItems_dumps vs n rest hvs (by omega)
        rw [dumps, List.cons_append, List.append_assoc, readValue, hskip]
        change (if (skip (v.dumps ++ (dumpsItems vs ++ rest))).head? = some ']' then _ else _) = _
        rw [if_neg hno, hvalue, Option.bind_some, hitems]
        rfl
    | obj fields =>
      cases fields with
      | nil => rfl
      | cons f fs =>
        obtain ⟨hkeys, hall⟩ := Bool.and_eq_true_iff.mp hw
        obtain ⟨hf, hfs⟩ := Bool.and_eq_true_iff.mp hall
        simp only [dumps, quote, List.length_cons, List.length_append] at hn
        have hskip : skip ('{' :: (quote f.1 ++ ':' :: ' ' :: (f.2.dumps ++ (dumpsFields fs ++ rest)))) = _ := skip_cons (by decide)
        have hfield := @readField_dumps f n (dumpsFields fs ++ rest) hf (by omega) (ends_fields fs)
        have hfields := @readFields_dumps fs n rest hfs (by omega)
        have htext : dumps (obj (f :: fs)) ++ rest = '{' :: (quote f.1 ++ ':' :: ' ' :: (f.2.dumps ++ (dumpsFields fs ++ rest))) := by
          rw [dumps]
          simp only [List.cons_append, List.append_assoc]
        rw [htext, readValue, hskip]
        change (readField n _).bind _ = _
        rw [hfield, Option.bind_some, hfields, Option.map_some, collect_eq (of_decide_eq_true hkeys)]

/-- A member is read from its text. -/
theorem readField_dumps (f : String × Json) {n : Nat} {rest : List Char} (hw : f.2.writable = true) (hn : f.2.dumps.length < n)
    (hr : Ends rest) : readField n (quote f.1 ++ ':' :: ' ' :: (f.2.dumps ++ rest)) = some (f, rest) := by
  cases n with
  | zero => exact absurd hn (Nat.not_lt_zero _)
  | succ n =>
    have hvalue := readValue_dumps f.2 (n := n) hw (by omega) hr
    have hcolon : skip (':' :: ' ' :: (f.2.dumps ++ rest)) = _ := skip_cons (by decide)
    have htext : quote f.1 ++ ':' :: ' ' :: (f.2.dumps ++ rest)
        = '"' :: (f.1.toList.flatMap escape ++ '"' :: (':' :: ' ' :: (f.2.dumps ++ rest))) := by
      rw [quote]
      simp only [List.cons_append, List.append_assoc, List.nil_append]
    have hskip : skip ('"' :: (f.1.toList.flatMap escape ++ '"' :: (':' :: ' ' :: (f.2.dumps ++ rest)))) = _ := skip_cons (by decide)
    rw [htext, readField, hskip]
    change (readString _).bind _ = _
    rw [readString_quote, Option.bind_some]
    simp only [hcolon, List.head?_cons, if_true, List.tail_cons, readValue_space, hvalue, Option.map_some]

theorem readItems_dumps (vs : List Json) {n : Nat} {rest : List Char} (hw : writableItems vs = true) (hn : (dumpsItems vs).length ≤ n) :
    readItems n (dumpsItems vs ++ rest) = some (vs, rest) := by
  cases n with
  | zero => cases vs <;> exact absurd hn (Nat.not_succ_le_zero _)
  | succ n =>
    cases vs with
    | nil => rfl
    | cons v vs =>
      obtain ⟨hv, hvs⟩ := Bool.and_eq_true_iff.mp hw
      simp only [dumpsItems, List.length_cons, List.length_append] at hn
      have hskip : skip (',' :: ' ' :: (v.dumps ++ (dumpsItems vs ++ rest))) = _ := skip_cons (by decide)
      have hvalue := @readValue_dumps v n (dumpsItems vs ++ rest) hv (by omega) (ends_items vs)
      have hitems := @readItems_dumps vs n rest hvs (by omega)
      rw [dumpsItems, List.cons_append, List.cons_append, List.append_assoc, readItems, hskip]
      change (readValue n _).bind _ = _
      rw [readValue_space, hvalue, Option.bind_some, hitems]
      rfl

theorem readFields_dumps (fs : List (String × Json)) {n : Nat} {rest : List Char} (hw : writableFields fs = true)
    (hn : (dumpsFields fs).length ≤ n) : readFields n (dumpsFields fs ++ rest) = some (fs, rest) := by
  cases n with
  | zero => cases fs <;> exact absurd hn (Nat.not_succ_le_zero _)
  | succ n =>
    cases fs with
    | nil => rfl
    | cons f fs =>
      obtain ⟨hf, hfs⟩ := Bool.and_eq_true_iff.mp hw
      simp only [dumpsFields, quote, List.length_cons, List.length_append] at hn
      have htext : dumpsFields (f :: fs) ++ rest = ',' :: ' ' :: (quote f.1 ++ ':' :: ' ' :: (f.2.dumps ++ (dumpsFields fs ++ rest))) := by
        rw [dumpsFields]
        simp only [List.cons_append, List.append_assoc]
      have hskip : skip (',' :: ' ' :: (quote f.1 ++ ':' :: ' ' :: (f.2.dumps ++ (dumpsFields fs ++ rest)))) = _ := skip_cons (by decide)
      have hfield := @readField_dumps f n (dumpsFields fs ++ rest) hf (by omega) (ends_fields fs)
      have hfields := @readFields_dumps fs n rest hfs (by omega)
      rw [htext, readFields, hskip]
      change (readField n _).bind _ = _
      rw [readField_space, hfield, Option.bind_some, hfields]
      rfl

end

theorem parse_dumps {v : Json} (hw : v.writable = true) : parse v.dumps = some v := by
  have hend : Ends [] := nofun
  have hvalue := readValue_dumps v hw (Nat.le_succ v.dumps.length) hend
  rw [List.append_nil] at hvalue
  unfold parse
  rw [hvalue]
  rfl

/-- What can be written has a text of its own. -/
theorem dumps_inj {v w : Json} (hv : v.writable = true) (hw : w.writable = true) (h : v.dumps = w.dumps) : v = w := by
  have hparse := parse_dumps hv
  rw [h, parse_dumps hw] at hparse
  exact (Option.some.inj hparse).symm

/-! A text is printed on one line, in ASCII. -/

def Printable (text : List Char) : Prop := ∀ c ∈ text, 32 ≤ c.toNat ∧ c.toNat < 127

instance (text : List Char) : Decidable (Printable text) := List.decidableBAll _ text

theorem printable_cons {c : Char} : Printable (c :: rest) ↔ (32 ≤ c.toNat ∧ c.toNat < 127) ∧ Printable rest := List.forall_mem_cons

theorem printable_append {text : List Char} : Printable (text ++ rest) ↔ Printable text ∧ Printable rest := List.forall_mem_append

theorem printable_digits {text : List Char} (h : Decimal.Digits text) : Printable text := by
  intro c hc
  have hd := h c hc
  simp only [Char.isDigit, Bool.and_eq_true, decide_eq_true_eq] at hd
  obtain ⟨hlow, hhigh⟩ := hd
  have hl : 48 ≤ c.toNat := hlow
  have hh : c.toNat ≤ 57 := hhigh
  omega

theorem printable_toString (d : Decimal) : Printable d.toString.toList := by
  obtain ⟨whole, fraction, power, hw, hf, -, -, ht, -, -⟩ := Decimal.toString_spelled d
  have hpower := printable_digits (Decimal.digits_repr power.natAbs)
  rw [ht]
  unfold Decimal.spell
  refine printable_append.mpr ⟨printable_append.mpr ⟨?_, printable_append.mpr ⟨printable_digits hw, ?_⟩⟩, ?_⟩
  · cases d.neg with
    | true => exact printable_cons.mpr ⟨by decide, nofun⟩
    | false => exact nofun
  · split
    · exact nofun
    · exact printable_cons.mpr ⟨by decide, printable_digits hf⟩
  · split
    · exact nofun
    · refine printable_cons.mpr ⟨by decide, printable_cons.mpr ⟨?_, hpower⟩⟩
      split <;> decide

theorem printable_unicode {n : Nat} (h : n < 65536) : Printable (unicode n) := by
  have hdigit : ∀ d < 16, 32 ≤ (Nat.digitChar d).toNat ∧ (Nat.digitChar d).toNat < 127 := by decide
  simp only [unicode, hex4, List.map_cons, List.map_nil, printable_cons]
  refine ⟨by decide, by decide, hdigit _ (by omega), hdigit _ (by omega), hdigit _ (by omega), hdigit _ (by omega), nofun⟩

theorem printable_escape (c : Char) : Printable (escape c) := by
  have hvalid : c.toNat.isValidChar := c.valid
  unfold Nat.isValidChar at hvalid
  have hback : ∀ {x : Char}, (32 ≤ x.toNat ∧ x.toNat < 127) → Printable ['\\', x] := fun hx =>
    printable_cons.mpr ⟨by decide, printable_cons.mpr ⟨hx, nofun⟩⟩
  unfold escape
  split
  · next h => obtain rfl | rfl := h <;> exact hback (by decide)
  split
  · exact hback (by decide)
  split
  · exact hback (by decide)
  split
  · exact hback (by decide)
  split
  · exact hback (by decide)
  split
  · exact hback (by decide)
  split
  · next h => exact printable_cons.mpr ⟨h, nofun⟩
  · unfold units
    split
    · next h =>
      rw [List.flatMap_cons, List.flatMap_nil, List.append_nil]
      exact printable_unicode h
    · simp only [List.flatMap_cons, List.flatMap_nil, List.append_nil]
      exact printable_append.mpr ⟨printable_unicode (by omega), printable_unicode (by omega)⟩

theorem printable_quote (s : String) : Printable (quote s) := by
  refine printable_cons.mpr ⟨by decide, printable_append.mpr ⟨?_, printable_cons.mpr ⟨by decide, nofun⟩⟩⟩
  intro c hc
  obtain ⟨x, -, hx⟩ := List.mem_flatMap.mp hc
  exact printable_escape x c hx

theorem printable_member {f : String × Json} (hv : Printable f.2.dumps) (hr : Printable rest) :
    Printable (quote f.1 ++ ':' :: ' ' :: (f.2.dumps ++ rest)) := by
  refine printable_append.mpr ⟨printable_quote f.1, printable_cons.mpr ⟨by decide, printable_cons.mpr ⟨by decide, ?_⟩⟩⟩
  exact printable_append.mpr ⟨hv, hr⟩

mutual

theorem printable_dumps : ∀ v : Json, Printable v.dumps
  | null => by unfold dumps; decide +kernel
  | bool true => by unfold dumps; decide +kernel
  | bool false => by unfold dumps; decide +kernel
  | num d => printable_toString d
  | nonfinite => by unfold dumps; decide +kernel
  | str s => printable_quote s
  | arr [] => by unfold dumps; decide +kernel
  | arr (v :: vs) => printable_cons.mpr ⟨by decide, printable_append.mpr ⟨printable_dumps v, printable_items vs⟩⟩
  | obj [] => by unfold dumps; decide +kernel
  | obj (f :: fs) => printable_cons.mpr ⟨by decide, printable_member (printable_dumps f.2) (printable_fields fs)⟩

theorem printable_items : ∀ vs : List Json, Printable (dumpsItems vs)
  | [] => by unfold dumpsItems; decide +kernel
  | v :: vs => printable_cons.mpr ⟨by decide, printable_cons.mpr ⟨by decide, printable_append.mpr ⟨printable_dumps v, printable_items vs⟩⟩⟩

theorem printable_fields : ∀ fs : List (String × Json), Printable (dumpsFields fs)
  | [] => by unfold dumpsFields; decide +kernel
  | f :: fs => printable_cons.mpr ⟨by decide, printable_cons.mpr ⟨by decide, printable_member (printable_dumps f.2) (printable_fields fs)⟩⟩

end

end Values

/-! `sort_keys`. -/

mutual

def sortKeys : Json → Json
  | arr items => arr (sortItems items)
  | obj fields => obj ((sortFields fields).mergeSort fun f g => f.1 ≤ g.1)
  | v => v

def sortItems : List Json → List Json
  | [] => []
  | v :: rest => v.sortKeys :: sortItems rest

def sortFields : List (String × Json) → List (String × Json)
  | [] => []
  | f :: rest => (f.1, f.2.sortKeys) :: sortFields rest

end

/-- Equal but for the order of the keys. -/
def Same (v w : Json) : Prop := v.sortKeys = w.sortKeys

theorem Same.refl (v : Json) : v.Same v := rfl

theorem writableFields_iff {fs : List (String × Json)} : writableFields fs = true ↔ ∀ f ∈ fs, f.2.writable = true := by
  induction fs with
  | nil => simp [writableFields]
  | cons f fs ih => simp [writableFields, ih]

theorem writable_obj {fs : List (String × Json)} :
    (obj fs).writable = true ↔ (fs.map Prod.fst).Nodup ∧ ∀ f ∈ fs, f.2.writable = true := by
  rw [writable, Bool.and_eq_true, decide_eq_true_eq, writableFields_iff]

theorem keys_sortFields (fs : List (String × Json)) : (sortFields fs).map Prod.fst = fs.map Prod.fst := by
  induction fs with
  | nil => rfl
  | cons f fs ih => exact congrArg (f.1 :: ·) ih

mutual

theorem writable_sortKeys : ∀ {v : Json}, v.writable = true → v.sortKeys.writable = true
  | null, h => h
  | bool _, h => h
  | num _, h => h
  | nonfinite, h => h
  | str _, h => h
  | arr items, h => @writable_sortItems items h
  | obj fields, h => by
    obtain ⟨hkeys, hall⟩ := Bool.and_eq_true_iff.mp h
    have hperm := List.mergeSort_perm (sortFields fields) fun f g => decide (f.1 ≤ g.1)
    have hsorted := writableFields_iff.mp (@writable_sortFields fields hall)
    refine Bool.and_eq_true_iff.mpr ⟨decide_eq_true ?_, writableFields_iff.mpr fun f hf => hsorted f (hperm.mem_iff.mp hf)⟩
    rw [(hperm.map Prod.fst).nodup_iff, keys_sortFields]
    exact of_decide_eq_true hkeys

theorem writable_sortItems : ∀ {vs : List Json}, writableItems vs = true → writableItems (sortItems vs) = true
  | [], h => h
  | v :: vs, h => by
    obtain ⟨hv, hvs⟩ := Bool.and_eq_true_iff.mp h
    exact Bool.and_eq_true_iff.mpr ⟨writable_sortKeys hv, writable_sortItems hvs⟩

theorem writable_sortFields : ∀ {fs : List (String × Json)}, writableFields fs = true → writableFields (sortFields fs) = true
  | [], h => h
  | f :: fs, h => by
    obtain ⟨hf, hfs⟩ := Bool.and_eq_true_iff.mp h
    exact Bool.and_eq_true_iff.mpr ⟨writable_sortKeys hf, writable_sortFields hfs⟩

end

/-- Values with one text under sorted keys are the same. -/
theorem same_of_dumps {v w : Json} (hv : v.writable = true) (hw : w.writable = true) (h : v.sortKeys.dumps = w.sortKeys.dumps) : v.Same w :=
  dumps_inj (writable_sortKeys hv) (writable_sortKeys hw) h

end MatchTrader.Json
