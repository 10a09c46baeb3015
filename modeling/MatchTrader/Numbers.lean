import MatchTrader.Decimal

/-! Decimal numbers together with the values that are not finite. An ordering comparison with a
NaN, and any operation on a signaling one, raises the signal of an invalid operation. -/

inductive Number where
  | finite (d : Decimal)
  | infinite (neg : Bool)
  | nan (signaling : Bool)
deriving DecidableEq, Repr

namespace Number

open Decimal

/-- Where a number that is not NaN lies: below, among or above the finite ones. -/
def rank : Number → Int
  | infinite neg => if neg then -1 else 1
  | _ => 0

/-- `==`: a quiet NaN equals nothing. -/
def eq : Number → Number → Except Signal Bool
  | nan true, _ | _, nan true => .error .invalidOperation
  | nan false, _ | _, nan false => .ok false
  | finite a, finite b => .ok (a.same b)
  | a, b => .ok (a.rank = b.rank)

def le : Number → Number → Except Signal Bool
  | nan _, _ | _, nan _ => .error .invalidOperation
  | finite a, finite b => .ok (decide (a ≤ b))
  | a, b => .ok (a.rank ≤ b.rank)

def lt : Number → Number → Except Signal Bool
  | nan _, _ | _, nan _ => .error .invalidOperation
  | finite a, finite b => .ok (decide (a < b))
  | a, b => .ok (a.rank < b.rank)

def negate : Number → Number
  | finite d => finite d.flip
  | infinite neg => infinite (!neg)
  | nan s => nan s

def add : Number → Number → Except Signal Number
  | nan true, _ | _, nan true => .error .invalidOperation
  | nan false, _ | _, nan false => .ok (nan false)
  | infinite a, infinite b => if a = b then .ok (infinite a) else .error .invalidOperation
  | infinite a, _ | _, infinite a => .ok (infinite a)
  | finite a, finite b => finite <$> a.add b

def sub (a b : Number) : Except Signal Number := add a b.negate

def abs : Number → Except Signal Number
  | nan true => .error .invalidOperation
  | nan false => .ok (nan false)
  | infinite _ => .ok (infinite false)
  | finite d => finite <$> d.abs

def isZero : Number → Bool
  | finite d => d.isZero
  | _ => false

def neg : Number → Bool
  | finite d => d.neg
  | infinite neg => neg
  | nan _ => false

def mul : Number → Number → Except Signal Number
  | nan true, _ | _, nan true => .error .invalidOperation
  | nan false, _ | _, nan false => .ok (nan false)
  | finite a, finite b => finite <$> a.mul b
  | a, b => if a.isZero ∨ b.isZero then .error .invalidOperation else .ok (infinite (a.neg != b.neg))

/-- The quotient of a finite dividend. -/
def div (a : Decimal) (b : Number) : Except Signal Number :=
  match b with
  | nan true => .error .invalidOperation
  | nan false => .ok (nan false)
  | infinite neg => .ok (finite ⟨a.neg != neg, 0, etiny⟩)
  | finite d => finite <$> a.div d

/-- Rounding to a finite quantum. -/
def quantize (mode : Rounding) (a : Number) (quantum : Decimal) : Except Signal Number :=
  match a with
  | nan true | infinite _ => .error .invalidOperation
  | nan false => .ok (nan false)
  | finite d => finite <$> d.quantize mode quantum

def truthy : Number → Bool
  | finite d => !d.isZero
  | _ => true

def toString : Number → String
  | finite d => d.toString
  | infinite neg => if neg then "-Infinity" else "Infinity"
  | nan signaling => if signaling then "sNaN" else "NaN"

section Finite

variable {a b : Decimal}

@[simp] theorem eq_finite : eq (finite a) (finite b) = .ok (a.same b) := rfl

@[simp] theorem le_finite : le (finite a) (finite b) = .ok (decide (a ≤ b)) := rfl

@[simp] theorem lt_finite : lt (finite a) (finite b) = .ok (decide (a < b)) := rfl

@[simp] theorem add_finite : add (finite a) (finite b) = finite <$> a.add b := rfl

@[simp] theorem sub_finite : sub (finite a) (finite b) = finite <$> a.sub b := rfl

@[simp] theorem abs_finite : abs (finite a) = finite <$> a.abs := rfl

@[simp] theorem mul_finite : mul (finite a) (finite b) = finite <$> a.mul b := rfl

@[simp] theorem div_finite : div a (finite b) = finite <$> a.div b := rfl

@[simp] theorem quantize_finite {mode : Rounding} : quantize mode (finite a) b = finite <$> a.quantize mode b := rfl

end Finite

end Number
