import MatchTrader.Framing

/-! The head of an HTTP message: which fields a client writes and how, and what a receiver reads back. -/

namespace MatchTrader.Http

def blank (c : UInt8) : Bool := c = 32 || c = 9

section Written

def encodeError : Exc := ⟨.valueError, "UnicodeEncodeError", "'ascii' codec can't encode character", none⟩

def invalidUrl : Exc := ⟨.other, "InvalidURL", "URL can't contain control characters.", none⟩

/-- `[^:\s][^:\r\n]*`. -/
def legalName : List UInt8 → Bool
  | [] => false
  | c :: rest => !(c = 58 || Numeral.asciiSpace c) && rest.all fun d => !(d = 58 || d = 13 || d = 10)

/-- `\n(?![ \t])|\r(?![ \t\n])`, anywhere. -/
def illegalValue : List UInt8 → Bool
  | [] => false
  | c :: rest => (c = 10 && !rest.head?.any blank) || (c = 13 && !rest.head?.any fun d => blank d || d = 10) || illegalValue rest

def fieldLine (f : Field) : List UInt8 := f.1 ++ 58 :: 32 :: f.2 ++ crlf

def putheader (f : Field) : Except Exc (List UInt8) := do
  raiseIf (f.1.any fun c => 128 ≤ c) encodeError
  raiseIf (legalName f.1 = false) (Exc.value "Invalid header name")
  raiseIf (illegalValue f.2) (Exc.value "Invalid header value")
  return fieldLine f

/-- `putrequest`, of a target that is not empty, without the fields that it may add. -/
def putrequest (method target : List UInt8) : Except Exc (List UInt8) := do
  raiseIf (target.any fun c => c ≤ 32 || c = 127) invalidUrl
  raiseIf (target.any fun c => 128 ≤ c) encodeError
  return method ++ 32 :: target ++ Utf8.ascii " HTTP/1.1"

/-- A start line and fields, as they are sent. -/
def head (line : List UInt8) (fields : List Field) : List UInt8 := line ++ crlf ++ (fields.map fieldLine).flatten ++ crlf

def requestHead (method target : List UInt8) (fields : List Field) : Except Exc (List UInt8) := do
  let line ← putrequest method target
  let lines ← fields.mapM putheader
  return line ++ crlf ++ lines.flatten ++ crlf

end Written

section Reading

/-- A line of the head. A line feed before a blank does not end it. -/
def logicalLine : List UInt8 → List UInt8 × List UInt8
  | [] => ([], [])
  | c :: rest =>
    if c = 10 ∧ rest.head?.any blank = false then ([c], rest) else (c :: (logicalLine rest).1, (logicalLine rest).2)

def lineField (line : List UInt8) : Field :=
  let value := ((line.dropWhile (· ≠ 58)).drop 1).dropWhile blank
  (line.takeWhile (· ≠ 58), value.take (value.length - 2))

/-- The fields up to the empty line, at most so many, and what follows. -/
def readFields : Nat → List UInt8 → Option (List Field × List UInt8)
  | 0, _ => none
  | n + 1, s =>
    if crlf <+: s then some ([], s.drop 2)
    else if 58 ∉ (logicalLine s).1 ∨ ¬ crlf <:+ (logicalLine s).1 then none
    else (readFields n (logicalLine s).2).map fun r => (lineField (logicalLine s).1 :: r.1, r.2)

end Reading

/-- Every line feed in the text is followed by a blank. -/
def Folded (text : List UInt8) : Prop := ∀ pre post, text = pre ++ 10 :: post → post.head?.any blank = true

variable {f : Field} {fields : List Field} {text s line rest : List UInt8}

theorem Folded.append {other : List UInt8} (h : Folded text) (h' : Folded other) : Folded (text ++ other) := by
  intro pre post he
  obtain ⟨t, hpre, hother⟩ | ⟨t, htext, hpost⟩ := List.append_eq_append_iff.mp he
  · exact h' t post hother
  · cases t with
    | nil => exact h' [] post hpost.symm
    | cons c t =>
      obtain ⟨rfl, rfl⟩ := List.cons.inj hpost
      have hhead := h pre t htext
      cases t with
      | nil => cases hhead
      | cons d t => exact hhead

theorem Folded.tail {c : UInt8} (h : Folded (c :: text)) : Folded text := by
  rintro pre post rfl
  exact h (c :: pre) post rfl

section RoundTrip

end RoundTrip

end MatchTrader.Http
