import MatchTrader.Decimal
import MatchTrader.Instant
import Mathlib.Data.List.DropRight

/-! What the process takes from its platform: decoded JSON values, and the readings of
them that the interpreter and the validation library supply. -/

namespace MatchTrader

inductive Json where
  | null
  | bool (b : Bool)
  | num (d : Decimal)
  | nonfinite
  | str (s : String)
  | arr (items : List Json)
  | obj (fields : List (String × Json))

namespace Json

def get? : Json → String → Option Json
  | obj fields, name => (fields.find? fun f => f.1 = name).map Prod.snd
  | _, _ => none

/-- The text of a value. A value that is no text equals none. -/
def text? : Json → Option String
  | str s => some s
  | _ => none

def isObj : Json → Bool
  | obj _ => true
  | _ => false

def hashable : Json → Bool
  | arr _ | obj _ => false
  | _ => true

def truthy : Json → Bool
  | null => false
  | bool b => b
  | num d => !d.isZero
  | nonfinite => true
  | str s => s ≠ ""
  | arr items => !items.isEmpty
  | obj fields => !fields.isEmpty

mutual

/-- Every number in the value can be written as JSON again. -/
def finite : Json → Bool
  | nonfinite => false
  | arr items => finiteAll items
  | obj fields => finiteFields fields
  | _ => true

def finiteAll : List Json → Bool
  | [] => true
  | v :: rest => v.finite && finiteAll rest

def finiteFields : List (String × Json) → Bool
  | [] => true
  | f :: rest => f.2.finite && finiteFields rest

end

/-- A dictionary with some of its items replaced or added. -/
def update (v : Json) (items : List (String × Json)) : Json :=
  match v with
  | obj fields =>
    obj (fields.map (fun f => (f.1, ((items.find? fun i => i.1 = f.1).map Prod.snd).getD f.2))
      ++ items.filter fun i => !fields.any fun f => f.1 = i.1)
  | v => v

end Json

/-- How a timestamp field reads. -/
inductive Stamp where
  | invalid
  | naive
  | unrepresentable
  | at (t : Instant)
deriving DecidableEq

class Host where
  /-- The hexadecimal SHA-256 of a value's printed form. -/
  sha256 : Json → String
  repr : String → String
  /-- The text of a decoded value that is no text itself. -/
  print : Json → String
  lower : String → String
  upper : String → String
  isDigit : Char → Bool
  isDecimal : Char → Bool
  node : String
  readTime : Json → Stamp
  readDecimal : Json → Option Decimal
  /-- `Decimal(text)`: no number, a number that is not finite, or a finite one. -/
  decimal : String → Option (Option Decimal)
  /-- `json.dumps`. -/
  dumps : Json → String

variable [Host]

def Json.pyStr : Json → String
  | .str s => s
  | v => Host.print v

def hasPrefix (s p : String) : Bool := p.toList.isPrefixOf s.toList

/-- `str.isspace` of a character. -/
def isSpace (c : Char) : Bool :=
  let n := c.toNat
  (9 ≤ n && n ≤ 13) || (28 ≤ n && n ≤ 32) || n = 0x85 || n = 0xa0 || n = 0x1680 || (0x2000 ≤ n && n ≤ 0x200a)
    || n = 0x2028 || n = 0x2029 || n = 0x202f || n = 0x205f || n = 0x3000

/-- Nothing is left of the text once stripped. -/
def blank (s : String) : Bool := s.toList.all isSpace

/-- Whitespace as the validation library strips it. -/
def isBlankChar (c : Char) : Bool := isSpace c && !decide (28 ≤ c.toNat ∧ c.toNat ≤ 31)

def trim (s : String) : String :=
  String.ofList (((s.toList.dropWhile isBlankChar).reverse.dropWhile isBlankChar).reverse)

omit [Host] in
theorem trim_trim (s : String) : trim (trim s) = trim s := by
  let front := s.toList.dropWhile isBlankChar
  have hfront : (front.rdropWhile isBlankChar).dropWhile isBlankChar = front.rdropWhile isBlankChar := by
    rw [List.dropWhile_eq_self_iff]
    intro hpos
    have hbegin : front.rdropWhile isBlankChar <+: front := List.rdropWhile_prefix _ _
    rw [hbegin.getElem hpos]
    exact List.dropWhile_get_zero_not isBlankChar s.toList _
  have hback := List.rdropWhile_idempotent isBlankChar front
  unfold trim
  rw [String.toList_ofList]
  exact congrArg String.ofList ((congrArg (List.rdropWhile isBlankChar) hfront).trans hback)

section Sample

mutual

/-- A value's own text, which tells values apart. -/
def Json.flat : Json → String
  | .null => "null"
  | .bool b => if b then "true" else "false"
  | .num d => d.toString
  | .nonfinite => "NaN"
  | .str s => s
  | .arr items => "[" ++ flatAll items ++ "]"
  | .obj fields => "\x7b" ++ flatFields fields ++ "\x7d"

def Json.flatAll : List Json → String
  | [] => ""
  | v :: rest => v.flat ++ "," ++ flatAll rest

def Json.flatFields : List (String × Json) → String
  | [] => ""
  | f :: rest => f.1 ++ ":" ++ f.2.flat ++ "," ++ flatFields rest

end

instance sixty_neZero : NeZero 60 := ⟨by decide⟩

/-- The second of January 2026, at noon and some seconds. -/
def noon (second : Fin 60) : Instant :=
  { year := 2026, month := 1, day := 2, hour := 12, minute := 0, second := second.1, micro := 0
    second_lt := second.2 }

/-- A host for worked runs: a value is identified by its own text, and a number of seconds past
noon is a time. -/
@[reducible] def sampleHost : Host where
  sha256 := Json.flat
  repr s := "'" ++ s ++ "'"
  print := Json.flat
  lower s := s
  upper s := s
  isDigit := Char.isDigit
  isDecimal := Char.isDigit
  node := "PC"
  readTime
    | .num d => if h : d.coeff < 60 then .at (noon ⟨d.coeff, h⟩) else .invalid
    | .str s => if h : s.length < 60 then .at (noon ⟨s.length, h⟩) else .invalid
    | _ => .invalid
  readDecimal
    | .num d => some d
    | _ => none
  decimal _ := none
  dumps := Json.flat

end Sample

end MatchTrader
