import Mathlib.Data.UInt
import Mathlib.Tactic.IntervalCases

/-! Base64 with the standard alphabet. The decoder reads one character at a time and is strict
about foreign characters; padding is only asked for where a group of four is not complete. -/

namespace Base64

def alphabet : List Char := "ABCDEFGHIJKLMNOPQRSTUVWXYZabcdefghijklmnopqrstuvwxyz0123456789+/".toList

def digit (n : Nat) : Char := alphabet.getD n 'A'

def value? (c : Char) : Option Nat := alphabet.findIdx? fun d => d = c

def encodeList : List UInt8 → List Char
  | a :: b :: c :: rest =>
    digit (a.toNat / 4) :: digit (a.toNat % 4 * 16 + b.toNat / 16) :: digit (b.toNat % 16 * 4 + c.toNat / 64)
      :: digit (c.toNat % 64) :: encodeList rest
  | [a, b] => [digit (a.toNat / 4), digit (a.toNat % 4 * 16 + b.toNat / 16), digit (b.toNat % 16 * 4), '=']
  | [a] => [digit (a.toNat / 4), digit (a.toNat % 4 * 16), '=', '=']
  | [] => []

def encode (payload : List UInt8) : String := String.ofList (encodeList payload)

/-- How far the decoder is in its group of four, what bits it holds, and what padding it has met. -/
structure Progress where
  quad : Nat := 0
  left : Nat := 0
  pads : Nat := 0
  padded : Bool := false

/-- The progress after a digit, with the byte that the digit completes. -/
def Progress.take (p : Progress) (v : Nat) : Progress × Option UInt8 :=
  match p.quad with
  | 0 => ({ quad := 1, left := v }, none)
  | 1 => ({ quad := 2, left := v % 16 }, some (UInt8.ofNat (p.left * 4 + v / 16)))
  | 2 => ({ quad := 3, left := v % 4 }, some (UInt8.ofNat (p.left * 16 + v / 4)))
  | _ => ({}, some (UInt8.ofNat (p.left * 64 + v)))

def decodeFrom (p : Progress) : List Char → Option (List UInt8)
  | [] => if p.quad = 0 then some [] else none
  | c :: rest =>
    if c = '=' then
      -- The padding that completes a group must be the last character.
      if 2 ≤ p.quad ∧ 4 ≤ p.quad + (p.pads + 1) then (if rest = [] then some [] else none)
      else decodeFrom { p with pads := if 2 ≤ p.quad then p.pads + 1 else p.pads, padded := true } rest
    else
      match value? c with
      | none => none
      | some v =>
        if p.padded then none
        else (decodeFrom (p.take v).1 rest).map fun bytes => (p.take v).2.toList ++ bytes

def decodeList (s : List Char) : Option (List UInt8) := if s.head? = some '=' then none else decodeFrom {} s

def decode (s : String) : Option (List UInt8) := decodeList s.toList

theorem digit_ne_pad : ∀ n < 64, digit n ≠ '=' := by decide +kernel

theorem value?_digit : ∀ n < 64, value? (digit n) = some n := by decide +kernel

theorem decodeFrom_digit {p : Progress} {n : Nat} (hn : n < 64) (hp : p.padded = false) (rest : List Char) :
    decodeFrom p (digit n :: rest) = (decodeFrom (p.take n).1 rest).map fun bytes => (p.take n).2.toList ++ bytes := by
  simp [decodeFrom, digit_ne_pad n hn, value?_digit n hn, hp]

theorem byte_eq {b : UInt8} {n : Nat} (h : n = b.toNat) : UInt8.ofNat n = b := by
  rw [h, UInt8.ofNat_toNat]

/-- The decoder yields what was encoded, and asks for the rest. -/
theorem decodeFrom_encodeList (payload : List UInt8) : decodeFrom {} (encodeList payload) = some payload := by
  induction payload using encodeList.induct with
  | case1 a b c rest ih =>
    have ha := a.toNat_lt
    have hb := b.toNat_lt
    have hc := c.toNat_lt
    rw [encodeList, decodeFrom_digit (by omega) rfl, decodeFrom_digit (by omega) rfl, decodeFrom_digit (by omega) rfl,
      decodeFrom_digit (by omega) rfl]
    have h₁ : UInt8.ofNat (a.toNat / 4 * 4 + (a.toNat % 4 * 16 + b.toNat / 16) / 16) = a := byte_eq (by omega)
    have h₂ : UInt8.ofNat ((a.toNat % 4 * 16 + b.toNat / 16) % 16 * 16 + (b.toNat % 16 * 4 + c.toNat / 64) / 4) = b :=
      byte_eq (by omega)
    have h₃ : UInt8.ofNat ((b.toNat % 16 * 4 + c.toNat / 64) % 4 * 64 + c.toNat % 64) = c := byte_eq (by omega)
    simp only [Progress.take, h₁, h₂, h₃, ih]
    rfl
  | case2 a b =>
    have ha := a.toNat_lt
    have hb := b.toNat_lt
    rw [encodeList, decodeFrom_digit (by omega) rfl, decodeFrom_digit (by omega) rfl, decodeFrom_digit (by omega) rfl]
    have h₁ : UInt8.ofNat (a.toNat / 4 * 4 + (a.toNat % 4 * 16 + b.toNat / 16) / 16) = a := byte_eq (by omega)
    have h₂ : UInt8.ofNat ((a.toNat % 4 * 16 + b.toNat / 16) % 16 * 16 + b.toNat % 16 * 4 / 4) = b := byte_eq (by omega)
    simp only [Progress.take, h₁, h₂]
    rfl
  | case3 a =>
    have ha := a.toNat_lt
    rw [encodeList, decodeFrom_digit (by omega) rfl, decodeFrom_digit (by omega) rfl]
    have h₁ : UInt8.ofNat (a.toNat / 4 * 4 + a.toNat % 4 * 16 / 16) = a := byte_eq (by omega)
    simp only [Progress.take, h₁]
    rfl
  | case4 => rfl

theorem encodeList_head (payload : List UInt8) : (encodeList payload).head? ≠ some '=' := by
  have hd (a : UInt8) : digit (a.toNat / 4) ≠ '=' := by
    have ha := a.toNat_lt
    exact digit_ne_pad _ (by omega)
  unfold encodeList
  split
  all_goals first
    | exact fun h => hd _ (Option.some.inj h)
    | exact fun h => by simp at h

theorem decode_encode (payload : List UInt8) : decode (encode payload) = some payload := by
  simp only [decode, encode, String.toList_ofList, decodeList, encodeList_head, if_false]
  exact decodeFrom_encodeList payload

end Base64
