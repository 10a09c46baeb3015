import Mathlib.Data.Nat.Log
import Mathlib.Data.Rat.Lemmas
import Mathlib.Algebra.Order.Field.Power
import Mathlib.Tactic.Linarith
import Mathlib.Tactic.Ring
import Mathlib.Tactic.FieldSimp

/-! Finite decimal numbers with a sign, a coefficient and an exponent, under the
default context: twenty-eight digits, rounding half to even, exponents bounded by
`emax`. Equal values keep distinct spellings, and an operation that the context
traps raises its signal. -/

structure Decimal where
  neg : Bool
  coeff : Nat
  exp : Int
deriving DecidableEq, Repr

namespace Decimal

inductive Signal where
  | invalidOperation
  | divisionByZero
  | overflow
deriving DecidableEq, Repr

inductive Rounding where
  | halfEven
  | halfUp
  | down
deriving DecidableEq, Repr

def prec : Nat := 28
def emax : Int := 999999
def etiny : Int := -1000026
def etop : Int := 999972

def ofNat (n : Nat) : Decimal := ⟨false, n, 0⟩

instance : Zero Decimal := ⟨ofNat 0⟩

def digitCount (n : Nat) : Nat := if n = 0 then 1 else Nat.log 10 n + 1

def adjusted (d : Decimal) : Int := d.exp + digitCount d.coeff - 1

/-- Drop the last `k` digits. -/
def roundOff (mode : Rounding) (n k : Nat) : Nat :=
  let q := n / 10 ^ k
  let r := n % 10 ^ k
  match mode with
  | .down => q
  | .halfUp => if 2 * r < 10 ^ k then q else q + 1
  | .halfEven => if 2 * r < 10 ^ k ∨ (2 * r = 10 ^ k ∧ q % 2 = 0) then q else q + 1

def rescale (mode : Rounding) (d : Decimal) (e : Int) : Decimal :=
  if e ≤ d.exp then ⟨d.neg, d.coeff * 10 ^ (d.exp - e).toNat, e⟩
  else ⟨d.neg, roundOff mode d.coeff (e - d.exp).toNat, e⟩

/-- Round to the precision of the context. -/
def fix (d : Decimal) : Except Signal Decimal :=
  if d.coeff = 0 then .ok { d with exp := min (max d.exp etiny) emax }
  else
    let low := digitCount d.coeff + d.exp - prec
    if low > etop then .error .overflow
    else
      let low := max low etiny
      if d.exp < low then
        let r := rescale .halfEven d low
        let r := if digitCount r.coeff > prec then ⟨r.neg, r.coeff / 10, r.exp + 1⟩ else r
        if r.exp > etop then .error .overflow else .ok r
      else .ok d

/-- The coefficient of a number spelled at exponent `e`, which is at most its own. -/
def scaled (d : Decimal) (e : Int) : Int :=
  (if d.neg then -1 else 1) * (d.coeff * 10 ^ (d.exp - e).toNat : Nat)

def le (a b : Decimal) : Bool := a.scaled (min a.exp b.exp) ≤ b.scaled (min a.exp b.exp)

def same (a b : Decimal) : Bool := a.scaled (min a.exp b.exp) = b.scaled (min a.exp b.exp)

instance : LE Decimal := ⟨fun a b => le a b⟩
instance : LT Decimal := ⟨fun a b => ¬ le b a⟩
instance (a b : Decimal) : Decidable (a ≤ b) := inferInstanceAs (Decidable (le a b = true))
instance (a b : Decimal) : Decidable (a < b) := inferInstanceAs (Decidable (¬ le b a = true))

theorem zero_nonneg : (0 : Decimal) ≤ 0 := by decide

theorem one_pos : 0 < (⟨false, 1, 0⟩ : Decimal) := by decide

def isZero (d : Decimal) : Bool := d.coeff = 0

def flip (d : Decimal) : Decimal := { d with neg := !d.neg }

def exactAdd (a b : Decimal) : Decimal :=
  let e := min a.exp b.exp
  let n := a.scaled e + b.scaled e
  ⟨if n = 0 then a.neg && b.neg else n < 0, n.natAbs, e⟩

def add (a b : Decimal) : Except Signal Decimal := fix (exactAdd a b)

def sub (a b : Decimal) : Except Signal Decimal := add a b.flip

def mul (a b : Decimal) : Except Signal Decimal := fix ⟨a.neg != b.neg, a.coeff * b.coeff, a.exp + b.exp⟩

def abs (d : Decimal) : Except Signal Decimal := fix { d with neg := false }

/-- Strip at most `k` trailing zeros. -/
def strip : Nat → Nat → Int → Nat × Int
  | 0, n, e => (n, e)
  | k + 1, n, e => if n % 10 = 0 then strip k (n / 10) (e + 1) else (n, e)

def div (a b : Decimal) : Except Signal Decimal :=
  if b.coeff = 0 then .error (if a.coeff = 0 then .invalidOperation else .divisionByZero)
  else if a.coeff = 0 then fix ⟨a.neg != b.neg, 0, a.exp - b.exp⟩
  else
    let shift : Int := digitCount b.coeff - digitCount a.coeff + prec + 1
    let n := a.coeff * 10 ^ shift.toNat
    let m := b.coeff * 10 ^ (-shift).toNat
    let q := n / m
    let e := a.exp - b.exp - shift
    if n % m ≠ 0 then fix ⟨a.neg != b.neg, if q % 5 = 0 then q + 1 else q, e⟩
    else
      let r := strip shift.toNat q e
      fix ⟨a.neg != b.neg, r.1, r.2⟩

def mod (a b : Decimal) : Except Signal Decimal :=
  if b.coeff = 0 then .error .invalidOperation
  else
    let e := min a.exp b.exp
    let n := a.coeff * 10 ^ (a.exp - e).toNat
    let m := b.coeff * 10 ^ (b.exp - e).toNat
    if n / m ≥ 10 ^ prec then .error .invalidOperation else fix ⟨a.neg, n % m, e⟩

def quantize (mode : Rounding) (d quantum : Decimal) : Except Signal Decimal :=
  if quantum.exp < etiny ∨ emax < quantum.exp then .error .invalidOperation
  else if d.coeff = 0 then fix ⟨d.neg, 0, quantum.exp⟩
  else if emax < d.adjusted ∨ (prec : Int) < d.adjusted - quantum.exp + 1 then .error .invalidOperation
  else
    let r := rescale mode d quantum.exp
    if emax < r.adjusted ∨ prec < digitCount r.coeff then .error .invalidOperation else fix r

def scaleb (d : Decimal) (n : Int) : Except Signal Decimal :=
  if n < -2 * (emax + prec) ∨ 2 * (emax + prec) < n then .error .invalidOperation
  else fix { d with exp := d.exp + n }

def normalize (d : Decimal) : Except Signal Decimal := do
  let r ← fix d
  if r.coeff = 0 then return ⟨r.neg, 0, 0⟩
  let s := strip (min (Nat.log 10 r.coeff) (emax - r.exp).toNat) r.coeff r.exp
  return ⟨r.neg, s.1, s.2⟩

def sum : List Decimal → Decimal → Except Signal Decimal
  | [], total => .ok total
  | d :: ds, total => do sum ds (← add total d)

def toString (d : Decimal) : String :=
  let digits := Nat.repr d.coeff
  let left : Int := d.exp + digits.length
  let plain := d.exp ≤ 0 ∧ left > -6
  let place := if plain then left else 1
  let body :=
    if place ≤ 0 then "0." ++ String.ofList (List.replicate (-place).toNat '0') ++ digits
    else if place ≥ digits.length then
      digits ++ String.ofList (List.replicate (place - digits.length).toNat '0')
    else
      String.ofList (digits.toList.take place.toNat) ++ "."
        ++ String.ofList (digits.toList.drop place.toNat)
  let power :=
    if left = place then "" else "E" ++ (if left - place < 0 then "-" else "+") ++ Nat.repr (left - place).natAbs
  (if d.neg then "-" else "") ++ body ++ power

end Decimal
