import Mathlib.Data.List.Basic
import Mathlib.Data.Char

/-! Decoding UTF-8. What is no part of a character is found in the longest runs that could have
begun one, so that a decoder may refuse the text or put a mark in the place of each. -/

namespace Utf8

/-- Inside a character: the bounds of the next byte, how many follow it, and the value so far. -/
structure Due where
  low : Nat
  high : Nat
  more : Nat
  value : Nat

/-- A byte where a character begins. The bounds leave out the overlong, the surrogates and what is past the last plane. -/
def lead (b : UInt8) : List (Option Char) × Option Due :=
  let n := b.toNat
  if n < 0x80 then ([some (Char.ofNat n)], none)
  else if n < 0xc2 then ([none], none)
  else if n < 0xe0 then ([], some ⟨0x80, 0xbf, 0, n - 0xc0⟩)
  else if n < 0xf0 then ([], some ⟨if n = 0xe0 then 0xa0 else 0x80, if n = 0xed then 0x9f else 0xbf, 1, n - 0xe0⟩)
  else if n < 0xf5 then ([], some ⟨if n = 0xf0 then 0x90 else 0x80, if n = 0xf4 then 0x8f else 0xbf, 2, n - 0xf0⟩)
  else ([none], none)

def step (s : Option Due) (b : UInt8) : List (Option Char) × Option Due :=
  match s with
  | none => lead b
  | some d =>
    if d.low ≤ b.toNat ∧ b.toNat ≤ d.high then
      let value := d.value * 64 + (b.toNat - 0x80)
      match d.more with
      | 0 => ([some (Char.ofNat value)], none)
      | k + 1 => ([], some ⟨0x80, 0xbf, k, value⟩)
    -- The run ends before this byte, which may begin a character.
    else (none :: (lead b).1, (lead b).2)

/-- The characters, and nothing in the place of each run that is none. -/
def scan : Option Due → List UInt8 → List (Option Char)
  | none, [] => []
  | some _, [] => [none]
  | s, b :: bytes => (step s b).1 ++ scan (step s b).2 bytes

def decode? (bytes : List UInt8) : Option (List Char) := (scan none bytes).mapM id

/-- `errors='replace'`. -/
def decodeReplace (bytes : List UInt8) : List Char := (scan none bytes).map fun c => c.getD (Char.ofNat 0xfffd)

example : decodeReplace [0xc3, 0xa9, 0xff, 0xe2, 0x82] = [Char.ofNat 0xe9, Char.ofNat 0xfffd, Char.ofNat 0xfffd] := by decide

/-- A text as bytes, each character by its code. -/
def ascii (text : String) : List UInt8 := text.toList.map fun c => c.toNat.toUInt8

/-- Bytes that are the codes of their characters. -/
def Ascii (bytes : List UInt8) : Prop := ∀ b ∈ bytes, b.toNat < 0x80

theorem decode?_ascii {bytes : List UInt8} (h : Ascii bytes) : decode? bytes = some (bytes.map fun b => Char.ofNat b.toNat) := by
  unfold decode?
  induction bytes with
  | nil => rfl
  | cons b bytes ih =>
    have hlead : step none b = ([some (Char.ofNat b.toNat)], none) := if_pos (h b List.mem_cons_self)
    have hscan : scan none (b :: bytes) = some (Char.ofNat b.toNat) :: scan none bytes := by
      rw [scan, hlead]
      rfl
    rw [hscan, List.mapM_cons, ih fun c hc => h c (List.mem_cons_of_mem b hc)]
    rfl

end Utf8
