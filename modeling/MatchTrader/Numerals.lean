import Mathlib.Data.Nat.Digits.Lemmas
import MatchTrader.Utf8
import MatchTrader.World

/-! Integers as the interpreter reads them, from the bytes of a line or of a Latin-1 text: surrounded by whitespace, signed, with
single underscores between the digits, and to the base 16 after a `0x`. -/

namespace MatchTrader.Numeral

variable {base : Nat} {space : UInt8 → Bool} {text : List UInt8} {c : UInt8}

/-- What `bytes.strip` strips, and `int` from bytes. -/
def asciiSpace (c : UInt8) : Bool := (9 ≤ c && c ≤ 13) || c = 32

/-- What `int` strips from a Latin-1 text. -/
def latinSpace (c : UInt8) : Bool := asciiSpace c || c = 0x85 || c = 0xa0

def strip (space : UInt8 → Bool) (text : List UInt8) : List UInt8 :=
  ((text.dropWhile space).reverse.dropWhile space).reverse

def isDecimal (c : UInt8) : Bool := 48 ≤ c && c ≤ 57

def isHex (c : UInt8) : Bool := isDecimal c || (97 ≤ c && c ≤ 102) || (65 ≤ c && c ≤ 70)

/-- The value of a digit. -/
def digit (base : Nat) (c : UInt8) : Option Nat :=
  let v := if isDecimal c then c.toNat - 48 else if 97 ≤ c ∧ c ≤ 122 then c.toNat - 87 else if 65 ≤ c ∧ c ≤ 90 then c.toNat - 55 else base
  if v < base then some v else none

/-- Digits, with single underscores between them. -/
def digits (base : Nat) : List UInt8 → Option (List Nat)
  | [] => none
  | [c] => (digit base c).map fun d => [d]
  | c :: 95 :: rest => (digit base c).bind fun d => (digits base rest).map (d :: ·)
  | c :: rest => (digit base c).bind fun d => (digits base rest).map (d :: ·)

def value (base : Nat) (ds : List Nat) : Nat := ds.foldl (fun n d => base * n + d) 0

def sign : List UInt8 → Bool × List UInt8
  | 43 :: rest => (false, rest)
  | 45 :: rest => (true, rest)
  | text => (false, text)

/-- What follows `0x`, where an underscore may come first. -/
def afterPrefix : List UInt8 → List UInt8
  | 48 :: 120 :: 95 :: rest => rest
  | 48 :: 120 :: rest => rest
  | 48 :: 88 :: 95 :: rest => rest
  | 48 :: 88 :: rest => rest
  | text => text

/-- `int(text, base)`, to the base 10 or 16. A decimal text of more than 4300 digits is refused. -/
def int (base : Nat) (space : UInt8 → Bool) (text : List UInt8) : Except Exc Int :=
  let (negative, rest) := sign (strip space text)
  match digits base (if base = 16 then afterPrefix rest else rest) with
  | none => .error (Exc.value "invalid literal for int()")
  | some ds =>
    if base = 10 ∧ 4300 < ds.length then .error (Exc.value "Exceeds the limit (4300 digits) for integer string conversion")
    else .ok (if negative then -(value base ds : Int) else value base ds)

/-- Digits and nothing else. -/
def Plain (base : Nat) (text : List UInt8) : Prop := text ≠ [] ∧ ∀ c ∈ text, (digit base c).isSome

instance : Decidable (Plain base text) := @instDecidableAnd _ _ _ (List.decidableBAll _ text)

/-- The number that plain digits write. -/
def read (base : Nat) (text : List UInt8) : Nat := value base (text.filterMap (digit base))

example : int 16 asciiSpace (Utf8.ascii " +0x_1_f\r\n") = .ok 31 := by decide +kernel

theorem isDecimal_iff : isDecimal c = true ↔ (digit 10 c).isSome = true := by
  simp only [digit, isDecimal, UInt8.le_iff_toNat_le, Bool.and_eq_true, decide_eq_true_eq, UInt8.reduceToNat]
  grind

theorem isHex_iff : isHex c = true ↔ (digit 16 c).isSome = true := by
  simp only [digit, isHex, isDecimal, UInt8.le_iff_toNat_le, Bool.and_eq_true, Bool.or_eq_true, decide_eq_true_eq, UInt8.reduceToNat]
  grind

/-- No digit is whitespace. -/
theorem latinSpace_digit (h : (digit base c).isSome) : latinSpace c = false := by
  simp only [digit, latinSpace, asciiSpace, isDecimal, UInt8.le_iff_toNat_le, ← UInt8.toNat_inj, Bool.and_eq_true, Bool.or_eq_false_iff,
    Bool.and_eq_false_iff, decide_eq_true_eq, decide_eq_false_iff_not, UInt8.reduceToNat] at *
  grind

theorem asciiSpace_digit (h : (digit base c).isSome) : asciiSpace c = false :=
  (Bool.or_eq_false_iff.mp (Bool.or_eq_false_iff.mp (latinSpace_digit h)).1).1

theorem digit_underscore : digit base 95 = none := if_neg (lt_irrefl base)

theorem digit_plus : digit base 43 = none := if_neg (lt_irrefl base)

theorem digit_minus : digit base 45 = none := if_neg (lt_irrefl base)

theorem digit_x (h : base ≤ 16) : digit base 120 = none := if_neg (by change ¬ 33 < base; omega)

theorem digit_X (h : base ≤ 16) : digit base 88 = none := if_neg (by change ¬ 33 < base; omega)

theorem digits_of_plain (h : Plain base text) : digits base text = some (text.filterMap (digit base)) := by
  obtain ⟨hne, hall⟩ := h
  induction text with
  | nil => exact absurd rfl hne
  | cons c rest ih =>
    obtain ⟨d, hd⟩ := Option.isSome_iff_exists.mp (hall c List.mem_cons_self)
    cases rest with
    | nil => simp [digits, hd]
    | cons b rest =>
      have hb : b ≠ 95 := by
        intro hb
        have hsome := hall b (by simp)
        rw [hb, digit_underscore] at hsome
        exact nomatch hsome
      have hrest := ih (List.cons_ne_nil b rest) fun x hx => hall x (List.mem_cons_of_mem c hx)
      rw [digits.eq_4 base c (b :: rest) (List.cons_ne_nil b rest) fun t ht => hb (List.cons.inj ht).1, hd, hrest]
      simp [hd]

theorem length_read (h : Plain base text) : (text.filterMap (digit base)).length = text.length := by
  obtain ⟨-, hall⟩ := h
  induction text with
  | nil => rfl
  | cons c rest ih =>
    obtain ⟨d, hd⟩ := Option.isSome_iff_exists.mp (hall c List.mem_cons_self)
    rw [List.filterMap_cons_some hd, List.length_cons, List.length_cons, ih fun x hx => hall x (List.mem_cons_of_mem c hx)]

theorem dropWhile_of_head {rest : List UInt8} (h : space c = false) : (c :: rest).dropWhile space = c :: rest :=
  List.dropWhile_cons_of_neg (Bool.not_eq_true _ ▸ h)

/-- What is stripped around a text whose own characters are no whitespace. -/
theorem strip_of_all {after : List UInt8} (h : ∀ c ∈ text, space c = false) (ha : ∀ c ∈ after, space c = true) :
    strip space (text ++ after) = text := by
  have hback : (text ++ after).reverse.dropWhile space = text.reverse := by
    rw [List.reverse_append, List.dropWhile_append_of_pos fun c hc => ha c (List.mem_reverse.mp hc)]
    exact List.dropWhile_eq_self_iff.mpr fun hp => Bool.not_eq_true _ ▸ h _ (List.mem_reverse.mp (List.getElem_mem hp))
  cases text with
  | nil =>
    have hfront : after.dropWhile space = [] := List.dropWhile_eq_nil_iff.mpr ha
    simp [strip, hfront]
  | cons c rest =>
    unfold strip
    rw [List.cons_append, dropWhile_of_head (h c List.mem_cons_self), ← List.cons_append, hback, List.reverse_reverse]

/-- Plain digits read as the number they write, unless they are too many. -/
theorem int_of_plain (h : Plain base text) (hb : base ≤ 16) (hs : ∀ c, (digit base c).isSome → space c = false) :
    int base space text = if base = 10 ∧ 4300 < text.length
      then .error (Exc.value "Exceeds the limit (4300 digits) for integer string conversion") else .ok (read base text) := by
  have hstrip : strip space text = text := by
    have hall : strip space (text ++ []) = text := strip_of_all (fun c hc => hs c (h.2 c hc)) nofun
    rwa [List.append_nil] at hall
  have hsign : sign text = (false, text) := by
    unfold sign
    split
    · exact absurd (h.2 43 List.mem_cons_self) (by rw [digit_plus]; decide)
    · exact absurd (h.2 45 List.mem_cons_self) (by rw [digit_minus]; decide)
    · rfl
  have hx : ∀ {rest : List UInt8}, 120 ∈ rest → rest ≠ text := fun hm he => by
    have hsome := h.2 120 (he ▸ hm)
    rw [digit_x hb] at hsome
    exact nomatch hsome
  have hX : ∀ {rest : List UInt8}, 88 ∈ rest → rest ≠ text := fun hm he => by
    have hsome := h.2 88 (he ▸ hm)
    rw [digit_X hb] at hsome
    exact nomatch hsome
  have hafter : afterPrefix text = text := by
    unfold afterPrefix
    split
    · exact absurd rfl (hx (by simp))
    · exact absurd rfl (hx (by simp))
    · exact absurd rfl (hX (by simp))
    · exact absurd rfl (hX (by simp))
    · rfl
  unfold int
  rw [hstrip, hsign]
  simp only [hafter, ite_self, digits_of_plain h, length_read h, read]
  rfl

section Written

def hexDigit (d : Nat) : UInt8 := if d < 10 then (48 + d).toUInt8 else (87 + d).toUInt8

/-- A number in lowercase hexadecimal digits, without leading zeros. -/
def hexText (n : Nat) : List UInt8 := if n = 0 then [48] else (Nat.digits 16 n).reverse.map hexDigit

/-- `str` of a number. -/
def decText (n : Nat) : List UInt8 := if n = 0 then [48] else (Nat.digits 10 n).reverse.map hexDigit

theorem digit_hexDigit {d : Nat} (h : d < 16) : digit 16 (hexDigit d) = some d := by
  interval_cases d <;> rfl

theorem digit_decDigit {d : Nat} (h : d < 10) : digit 10 (hexDigit d) = some d := by
  interval_cases d <;> rfl

theorem value_reverse (ds : List Nat) : value base ds.reverse = Nat.ofDigits base ds := by
  unfold value
  rw [List.foldl_reverse]
  induction ds with
  | nil => rfl
  | cons d ds ih => rw [List.foldr_cons, ih, Nat.ofDigits_cons, Nat.add_comm]

/-- The digits of a number, written as they are read. -/
theorem digits_spec {n : Nat} (hb : 1 < base) (hd : ∀ d < base, digit base (hexDigit d) = some d) (hn : n ≠ 0) :
    Plain base ((Nat.digits base n).reverse.map hexDigit) ∧ read base ((Nat.digits base n).reverse.map hexDigit) = n := by
  have hlt : ∀ d ∈ (Nat.digits base n).reverse, d < base := fun d hd => Nat.digits_lt_base hb (List.mem_reverse.mp hd)
  have hvalues : ((Nat.digits base n).reverse.map hexDigit).filterMap (digit base) = (Nat.digits base n).reverse := by
    rw [List.filterMap_map]
    exact (List.filterMap_congr fun d hm => hd d (hlt d hm)).trans List.filterMap_some
  refine ⟨⟨by simpa [Nat.digits_eq_nil_iff_eq_zero] using hn, ?_⟩, ?_⟩
  · intro c hc
    obtain ⟨d, hm, rfl⟩ := List.mem_map.mp hc
    rw [hd d (hlt d hm)]
    rfl
  · rw [read, hvalues, value_reverse, Nat.ofDigits_digits]

theorem hexText_spec (n : Nat) : Plain 16 (hexText n) ∧ read 16 (hexText n) = n := by
  by_cases hn : n = 0
  · subst hn
    exact ⟨by decide, rfl⟩
  · unfold hexText
    rw [if_neg hn]
    exact digits_spec (by decide) (fun d hd => digit_hexDigit hd) hn

theorem decText_spec (n : Nat) : Plain 10 (decText n) ∧ read 10 (decText n) = n := by
  by_cases hn : n = 0
  · subst hn
    exact ⟨by decide, rfl⟩
  · unfold decText
    rw [if_neg hn]
    exact digits_spec (by decide) (fun d hd => digit_decDigit hd) hn

theorem length_hexText {n k : Nat} (hk : 0 < k) (h : n < 16 ^ k) : (hexText n).length ≤ k := by
  unfold hexText
  split
  · exact hk
  · rw [List.length_map, List.length_reverse]
    exact (Nat.digits_length_le_iff (by omega) n).mpr h

theorem length_decText {n k : Nat} (hk : 0 < k) (h : n < 10 ^ k) : (decText n).length ≤ k := by
  unfold decText
  split
  · exact hk
  · rw [List.length_map, List.length_reverse]
    exact (Nat.digits_length_le_iff (by omega) n).mpr h

end Written

end MatchTrader.Numeral
