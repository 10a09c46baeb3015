import MatchTrader.Decimals
import MatchTrader.Native

/-! The text of a number tells its sign, its coefficient and its exponent, and the text of a native
event tells every field. -/

namespace Decimal

/-- A spelling: a sign, the digits before the point and after it, and a power of ten. -/
def spell (neg : Bool) (whole frac : List Char) (power : Int) : List Char :=
  (if neg then ['-'] else []) ++ (whole ++ (if frac = [] then [] else '.' :: frac))
    ++ (if power = 0 then [] else 'E' :: (if power < 0 then '-' else '+') :: Nat.toDigits 10 power.natAbs)

def readPower : List Char → Int
  | _ :: sign :: digits => (if sign = '-' then -1 else 1) * Nat.ofDigitChars 10 digits 0
  | _ => 0

/-- The number that a text spells. -/
def ofText (text : List Char) : Decimal :=
  let neg := text.head? = some '-'
  let rest := if neg then text.tail else text
  let body := rest.takeWhile fun c => c ≠ 'E'
  let whole := body.takeWhile fun c => c ≠ '.'
  let frac := (body.dropWhile fun c => c ≠ '.').tail
  ⟨neg, Nat.ofDigitChars 10 (whole ++ frac) 0, readPower (rest.dropWhile fun c => c ≠ 'E') - frac.length⟩

/-- The text has digits only. -/
def Digits (text : List Char) : Prop := ∀ c ∈ text, c.isDigit = true

theorem Digits.ne {text : List Char} (h : Digits text) {c : Char} (hc : c.isDigit = false) : ∀ x ∈ text, x ≠ c := by
  rintro x hx rfl
  exact Bool.false_ne_true (hc.symm.trans (h x hx))

theorem digits_append {s t : List Char} : Digits (s ++ t) ↔ Digits s ∧ Digits t := List.forall_mem_append

theorem digits_repr (n : Nat) : Digits (Nat.toDigits 10 n) := fun _ hc => Nat.isDigit_of_mem_toDigits (by decide) le_rfl hc

theorem digits_zeros (n : Nat) : Digits (List.replicate n '0') := fun c hc => by rw [(List.mem_replicate.mp hc).2]; decide

theorem readPower_spelled (power : Int) :
    readPower (if power = 0 then [] else 'E' :: (if power < 0 then '-' else '+') :: Nat.toDigits 10 power.natAbs) = power := by
  by_cases hz : power = 0
  · simp [hz, readPower]
  · simp only [hz, if_false, readPower, Nat.ofDigitChars_ten_toDigits]
    by_cases hn : power < 0
    · simp only [hn, if_true]
      omega
    · simp only [hn, if_false, show ('+' : Char) ≠ '-' by decide]
      omega

/-- The digits are read up to a character that is none of theirs. -/
theorem takeWhile_append_of_ne {s t : List Char} {c : Char} (hs : ∀ x ∈ s, x ≠ c) (ht : t = [] ∨ ∃ r, t = c :: r) :
    (s ++ t).takeWhile (fun x => x ≠ c) = s ∧ (s ++ t).dropWhile (fun x => x ≠ c) = t := by
  have hp : ∀ x ∈ s, decide (x ≠ c) = true := fun x hx => decide_eq_true (hs x hx)
  rw [List.takeWhile_append_of_pos hp, List.dropWhile_append_of_pos hp]
  rcases ht with rfl | ⟨r, rfl⟩ <;> simp

theorem ofText_spell {neg : Bool} {whole frac : List Char} {power : Int} (hw : Digits whole) (hf : Digits frac)
    (hne : whole ≠ []) :
    ofText (spell neg whole frac power) = ⟨neg, Nat.ofDigitChars 10 (whole ++ frac) 0, power - frac.length⟩ := by
  let point := if frac = [] then [] else '.' :: frac
  let tail := if power = 0 then [] else 'E' :: (if power < 0 then '-' else '+') :: Nat.toDigits 10 power.natAbs
  have hbody : ∀ x ∈ whole ++ point, x ≠ 'E' := by
    intro x hx
    rcases List.mem_append.mp hx with hx | hx
    · exact hw.ne (by decide) x hx
    · unfold point at hx
      split at hx
      · simp at hx
      · rcases List.mem_cons.mp hx with rfl | hx
        · decide
        · exact hf.ne (by decide) x hx
  have htail : tail = [] ∨ ∃ r, tail = 'E' :: r := by
    unfold tail
    split
    · exact Or.inl rfl
    · exact Or.inr ⟨_, rfl⟩
  have hpoint : point = [] ∨ ∃ r, point = '.' :: r := by
    unfold point
    split
    · exact Or.inl rfl
    · exact Or.inr ⟨_, rfl⟩
  obtain ⟨d, s, rfl⟩ := List.exists_cons_of_ne_nil hne
  have hd : d ≠ '-' := hw.ne (by decide) d List.mem_cons_self
  have hneg : (spell neg (d :: s) frac power).head? = some '-' ↔ neg = true := by
    unfold spell
    cases neg with
    | true => simp
    | false => simp [hd]
  have hrest : (if neg = true then (spell neg (d :: s) frac power).tail else spell neg (d :: s) frac power)
      = d :: s ++ point ++ tail := by
    unfold spell
    cases neg <;> rfl
  have hfrac : point.tail = frac := by
    unfold point
    split
    · next h => rw [h]; rfl
    · rfl
  obtain ⟨hb, ht⟩ := takeWhile_append_of_ne hbody htail
  obtain ⟨hp, hq⟩ := takeWhile_append_of_ne (hw.ne (c := '.') (by decide)) hpoint
  simp only [ofText, hneg, hrest, hb, ht, hp, hq, hfrac, Bool.decide_eq_true]
  rw [readPower_spelled]

/-- A number is written without leading zeros. -/
theorem head_toDigits {n : Nat} (hn : 0 < n) : (Nat.toDigits 10 n).head? ≠ some '0' := by
  induction n using Nat.strongRecOn with
  | ind n ih =>
    by_cases h : n < 10
    · rw [Nat.toDigits_of_lt_base h]
      interval_cases n <;> decide
    · have hhead := ih (n / 10) (by omega) (by omega)
      have hne : Nat.toDigits 10 (n / 10) ≠ [] := Nat.toDigits_ne_nil
      rwa [Nat.toDigits_of_base_le (by decide) (not_lt.mp h), List.head?_append_of_ne_nil _ hne]

theorem toString_spelled (d : Decimal) : ∃ whole frac : List Char, ∃ power : Int, Digits whole ∧ Digits frac ∧ whole ≠ []
    ∧ (whole.head? = some '0' → whole = ['0']) ∧ d.toString.toList = spell d.neg whole frac power ∧ Nat.ofDigitChars 10 (whole ++ frac) 0 = d.coeff
    ∧ power - frac.length = d.exp := by
  let digits := Nat.toDigits 10 d.coeff
  have hlen : digits.length = (Nat.repr d.coeff).length := by rw [← String.length_toList, Nat.toList_repr]
  have hpos : 0 < digits.length := Nat.length_toDigits_pos
  have hnil : digits ≠ [] := Nat.toDigits_ne_nil
  have hdigits : Digits digits := digits_repr _
  let left : Int := d.exp + digits.length
  let place := if d.exp ≤ 0 ∧ left > -6 then left else 1
  have hpower : (if left = place then "" else "E" ++ (if left - place < 0 then "-" else "+") ++ Nat.repr (left - place).natAbs).toList
      = if left - place = 0 then [] else 'E' :: (if left - place < 0 then '-' else '+') :: Nat.toDigits 10 (left - place).natAbs := by
    by_cases h : left = place
    · simp [h]
    · have hs : left - place ≠ 0 := by omega
      simp only [h, hs, if_false, String.toList_append, Nat.toList_repr]
      split <;> rfl
  have hsign : (if d.neg then "-" else "").toList = if d.neg then ['-'] else [] := by cases d.neg <;> rfl
  have hbody : (if place ≤ 0 then "0." ++ String.ofList (List.replicate (-place).toNat '0') ++ Nat.repr d.coeff
        else if place ≥ digits.length then
          Nat.repr d.coeff ++ String.ofList (List.replicate (place - digits.length).toNat '0')
        else String.ofList ((Nat.repr d.coeff).toList.take place.toNat) ++ "."
          ++ String.ofList ((Nat.repr d.coeff).toList.drop place.toNat)).toList
      = if place ≤ 0 then '0' :: '.' :: (List.replicate (-place).toNat '0' ++ digits)
        else if place ≥ digits.length then digits ++ List.replicate (place - digits.length).toNat '0'
        else digits.take place.toNat ++ '.' :: digits.drop place.toNat := by
    split
    · simp only [String.toList_append, String.toList_ofList, Nat.toList_repr]
      rfl
    · split
      · simp only [String.toList_append, String.toList_ofList, Nat.toList_repr]
        rfl
      · simp only [String.toList_append, String.toList_ofList, Nat.toList_repr, List.append_assoc]
        rfl
  have htext : d.toString.toList = (if d.neg then ['-'] else []) ++ (if place ≤ 0 then
        '0' :: '.' :: (List.replicate (-place).toNat '0' ++ digits)
      else if place ≥ digits.length then digits ++ List.replicate (place - digits.length).toNat '0'
      else digits.take place.toNat ++ '.' :: digits.drop place.toNat)
      ++ (if left - place = 0 then [] else 'E' :: (if left - place < 0 then '-' else '+') :: Nat.toDigits 10 (left - place).natAbs) := by
    rw [← hsign, ← hpower, ← hbody, ← String.toList_append, ← String.toList_append]
    unfold toString
    simp only [← hlen]
    rfl
  have hplace : place = left ∧ d.exp ≤ 0 ∨ place = 1 := by
    unfold place
    split
    · next h => exact Or.inl ⟨rfl, h.1⟩
    · exact Or.inr rfl
  have hvalue : Nat.ofDigitChars 10 digits 0 = d.coeff := Nat.ofDigitChars_ten_toDigits
  have hleft : left = d.exp + digits.length := rfl
  have hhead : digits.head? = some '0' → digits = ['0'] := by
    intro h
    have hz : d.coeff = 0 := Nat.eq_zero_of_not_pos fun hp => head_toDigits hp h
    unfold digits
    rw [hz]
    rfl
  rw [htext]
  clear_value place left digits
  by_cases hz : place ≤ 0
  · -- The point stands before the digits, behind zeros.
    have hl : place = left := by omega
    have hzero : Digits ['0'] := digits_zeros 1
    have hrest : Digits (List.replicate (-place).toNat '0' ++ digits) := digits_append.mpr ⟨digits_zeros _, hdigits⟩
    refine ⟨['0'], List.replicate (-place).toNat '0' ++ digits, left - place, hzero, hrest, List.cons_ne_nil _ _, fun _ => rfl, ?_, ?_, ?_⟩
    · have hne : List.replicate (-place).toNat '0' ++ digits ≠ [] := by simp [hnil]
      simp only [hz, if_true, spell, hne, if_false]
      simp
    · rw [Nat.ofDigitChars_append, Nat.ofDigitChars_append, Nat.ofDigitChars_replicate_zero]
      exact hvalue
    · simp only [List.length_append, List.length_replicate]
      omega
  · by_cases hr : place ≥ digits.length
    · -- All digits stand before the point, and no zero behind them.
      have hl : place = digits.length := by omega
      have hempty : Digits [] := digits_zeros 0
      refine ⟨digits, [], left - place, hdigits, hempty, hnil, hhead, ?_, ?_, ?_⟩
      · simp [spell, hl, hnil]
      · rw [List.append_nil]
        exact hvalue
      · simp only [List.length_nil]
        omega
    · -- The point falls among the digits.
      have htake : digits.take place.toNat ≠ [] := by
        rw [ne_eq, List.take_eq_nil_iff]
        rintro (h | h)
        · omega
        · exact hnil h
      have hdrop : digits.drop place.toNat ≠ [] := by
        rw [ne_eq, List.drop_eq_nil_iff]
        omega
      refine ⟨digits.take place.toNat, digits.drop place.toNat, left - place, fun c hc => hdigits c (List.mem_of_mem_take hc),
        fun c hc => hdigits c (List.mem_of_mem_drop hc), htake, ?_, ?_, ?_, ?_⟩
      · rw [List.head?_take, if_neg (by omega)]
        intro h
        rw [hhead h] at hr
        exact absurd (le_refl 1) (by simp at hr; omega)
      · simp only [hz, hr, if_false, spell, hdrop]
      · rw [List.take_append_drop]
        exact hvalue
      · rw [List.length_drop]
        omega

theorem ofText_toString (d : Decimal) : ofText d.toString.toList = d := by
  obtain ⟨whole, frac, power, hw, hf, hne, -, ht, hc, he⟩ := toString_spelled d
  rw [ht, ofText_spell hw hf hne, hc, he]

theorem toString_injective : Function.Injective Decimal.toString := fun a b h => by
  rw [← ofText_toString a, h, ofText_toString]

theorem same_refl (d : Decimal) : d.same d = true := same_iff.mpr rfl

end Decimal

theorem Instant.isoformat_injective : Function.Injective Instant.isoformat := by
  intro t u h
  have hlt : ¬ t.fields < u.fields := by
    intro hl
    have htext := (isoformat_lt_iff t u).mpr hl
    rw [h] at htext
    exact lt_irrefl _ htext
  have hgt : ¬ u.fields < t.fields := by
    intro hl
    have htext := (isoformat_lt_iff u t).mpr hl
    rw [h] at htext
    exact lt_irrefl _ htext
  have hf : t.fields = u.fields := le_antisymm (not_lt.mp hgt) (not_lt.mp hlt)
  cases t
  cases u
  simp only [fields, List.cons.injEq, and_true] at hf
  obtain ⟨rfl, rfl, rfl, rfl, rfl, rfl, rfl⟩ := hf
  rfl

namespace MatchTrader

theorem SchemaVersion.dump_injective : Function.Injective SchemaVersion.dump := by
  intro a b h
  cases a <;> cases b <;> first | rfl | simp [dump] at h

theorem EventKind.text_injective : Function.Injective EventKind.text := by
  intro a b h
  cases a <;> cases b <;> first | rfl | simp [text] at h

theorem Action.text_injective : Function.Injective Action.text := by
  intro a b h
  cases a <;> cases b <;> first | rfl | simp [text] at h

theorem Source.text_injective : Function.Injective Source.text := by
  intro a b h
  cases a <;> cases b <;> first | rfl | simp [text] at h

theorem Side.text_injective : Function.Injective Side.text := by
  intro a b h
  cases a <;> cases b <;> first | rfl | simp [text] at h

theorem OrderType.text_injective : Function.Injective OrderType.text := by
  intro a b h
  cases a <;> cases b <;> first | rfl | simp [text] at h

theorem FillEffect.text_injective : Function.Injective FillEffect.text := by
  intro a b h
  cases a <;> cases b <;> first | rfl | simp [text] at h

namespace CaptureEvent

theorem dumpDecimal_injective : Function.Injective dumpDecimal := by
  intro a b h
  cases a <;> cases b <;> simp only [dumpDecimal, Json.str.injEq, reduceCtorEq] at h
  · rfl
  · rw [Decimal.toString_injective h]

theorem sameAmount_refl (a : Option Decimal) : sameAmount a a = true := by
  cases a with
  | none => rfl
  | some d => exact d.same_refl

theorem same_refl (e : CaptureEvent) : e.same e = true := by simp [same, Decimal.same_refl, sameAmount_refl]

/-- Events of one JSON text are one event. -/
theorem modelDumpJson_injective : Function.Injective modelDumpJson := by
  intro a b h
  simp only [modelDumpJson, Json.obj.injEq, List.cons.injEq, Prod.mk.injEq, true_and, Json.str.injEq, Json.bool.injEq,
    and_true, SchemaVersion.dump_injective.eq_iff, EventKind.text_injective.eq_iff, Action.text_injective.eq_iff,
    Source.text_injective.eq_iff, Side.text_injective.eq_iff, OrderType.text_injective.eq_iff,
    FillEffect.text_injective.eq_iff, Instant.isoformat_injective.eq_iff, dumpDecimal_injective.eq_iff, Option.some.injEq] at h
  cases a
  cases b
  simp only [mk.injEq]
  tauto

end CaptureEvent

end MatchTrader
