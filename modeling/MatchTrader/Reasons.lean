import Mathlib
import MatchTrader.P01Log
import MatchTrader.Regex
import MatchTrader.Router

/-! The reasons that are recorded for a rejected or failed write, and the masking of what the broker or
an exception says before any of it enters a summary. -/

namespace MatchTrader

open Regex (Re)

/-- What the masks take from the platform's characters. -/
class TextHost extends Host where
  /-- `\w`. -/
  isWord : Char → Bool
  /-- Equal but for their case. -/
  alike : Char → Char → Bool
  decimal_ascii : ∀ c, c.toNat < 128 → isDecimal c = c.isDigit
  decimal_space : ∀ c, isSpace c = true → isDecimal c = false
  alike_ascii : ∀ c l, c.toNat < 128 → l.toNat < 128 → alike c l = decide (c.toLower = l.toLower)
  alike_letter : ∀ c l, l.isAlpha = true → alike c l = true → isDecimal c = false

theorem isDigit_of_isSpace {c : Char} (hc : isSpace c = true) : c.isDigit = false := by
  by_contra h
  obtain ⟨h0, h9⟩ := Char.isDigit_iff_toNat.mp (Bool.not_eq_false _ ▸ h : c.isDigit = true)
  simp only [Char.reduceToNat] at h0 h9
  simp only [isSpace, Bool.or_eq_true, Bool.and_eq_true, decide_eq_true_eq] at hc
  omega

theorem toNat_toLower (c : Char) : c.toLower.toNat = if 65 ≤ c.toNat ∧ c.toNat ≤ 90 then c.toNat + 32 else c.toNat := by
  by_cases h : c.val ≥ 'A'.val ∧ c.val ≤ 'Z'.val
  · have hn : 65 ≤ c.toNat ∧ c.toNat ≤ 90 := ⟨UInt32.le_iff_toNat_le.mp h.1, UInt32.le_iff_toNat_le.mp h.2⟩
    have hsum : (c.val + 32).toNat = c.toNat + 32 := by
      rw [UInt32.toNat_add]
      exact Nat.mod_eq_of_lt (show c.toNat + 32 < 2 ^ 32 by omega)
    rw [if_pos hn, Char.toLower, dif_pos h]
    exact hsum
  · have hn : ¬(65 ≤ c.toNat ∧ c.toNat ≤ 90) := fun hn => h ⟨UInt32.le_iff_toNat_le.mpr hn.1, UInt32.le_iff_toNat_le.mpr hn.2⟩
    rw [if_neg hn, Char.toLower, dif_neg h]

theorem letter_range {l : Char} (hl : l.isAlpha = true) : 65 ≤ l.toNat ∧ l.toNat ≤ 90 ∨ 97 ≤ l.toNat ∧ l.toNat ≤ 122 := by
  simp only [Char.isAlpha, Char.isUpper, Char.isLower, Bool.or_eq_true, Bool.and_eq_true, decide_eq_true_eq,
    UInt32.le_iff_toNat_le] at hl
  exact hl

theorem isDigit_of_letter {c l : Char} (hl : l.isAlpha = true) (hc : c.toLower = l.toLower) : c.isDigit = false := by
  by_contra h
  obtain ⟨h0, h9⟩ := Char.isDigit_iff_toNat.mp (Bool.not_eq_false _ ▸ h : c.isDigit = true)
  simp only [Char.reduceToNat] at h0 h9
  have hletter := letter_range hl
  have hn := congrArg Char.toNat hc
  rw [toNat_toLower, toNat_toLower] at hn
  split_ifs at hn <;> omega

/-- A host for worked examples. -/
@[reducible] def sampleTextHost : TextHost where
  toHost := sampleHost
  isWord c := c.isAlphanum || c = '_'
  alike c l := c.toLower = l.toLower
  decimal_ascii _ _ := rfl
  decimal_space _ hc := isDigit_of_isSpace hc
  alike_ascii _ _ _ _ := rfl
  alike_letter _ _ hl hc := isDigit_of_letter hl (of_decide_eq_true hc)

namespace Reasons

variable [TextHost]

def isControl (c : Char) : Bool :=
  let n := c.toNat
  n ≤ 8 || n = 0x0b || n = 0x0c || (0x0e ≤ n && n ≤ 0x1f) || n = 0x7f

def space : Re Char := .char isSpace

def nonspace : Re Char := .char (!isSpace ·)

def word (text : String) : Re Char := .literal TextHost.alike text.toList

def oneOf (chars : List Char) : Re Char := .char (chars.contains ·)

/-- Two words, with an underscore or a hyphen between them or nothing. -/
def joined (left right : String) : Re Char := .seq (word left) (.seq (.opt (oneOf ['_', '-'])) (word right))

def sensitiveKeys : Re Char :=
  .first (word "password") [word "passwd", word "pwd", word "token", joined "access" "token", joined "refresh" "token",
    joined "auth" "token", word "authorization", joined "api" "key", word "secret", word "cookie", word "session", word "jwt"]

/-- A scheme with its credential, a quoted run up to its own closing quote, or one word. -/
def sensitiveValue : Re Char :=
  .first (.seq (.first (word "bearer") [word "basic"]) (.seq (.plus space) (.plus nonspace)))
    [.seq (.group 3 (oneOf ['"', '\'']))
      (.seq (.star (.seq (.notAhead (.backref 3)) (.char (· ≠ '\n')))) (.backref 3)),
    .plus nonspace]

def sensitiveKv : Re Char :=
  .seq (.boundary TextHost.isWord) (.seq (.group 1 sensitiveKeys) (.seq (.boundary TextHost.isWord)
    (.seq (.opt (oneOf ['"', '\''])) (.seq (.star space) (.seq (oneOf [':', '=']) (.seq (.star space)
      (.group 2 sensitiveValue)))))))

def authScheme : Re Char :=
  .seq (.boundary TextHost.isWord)
    (.seq (.group 1 (.first (word "Bearer") [word "Basic", word "Digest", word "Negotiate", word "NTLM"]))
      (.seq (.plus space) (.plus nonspace)))

def nextDigit : Re Char := .seq (.opt (oneOf [' ', '-'])) (.char Host.isDecimal)

/-- A run of 12 or more digits, in one piece or in groups with single spaces or hyphens between them. -/
def longDigits : Re Char := .seq (.char Host.isDecimal) (.seq (.times 11 nextDigit) (.star nextDigit))

def email : Re Char :=
  .seq (.plus (.char fun c => c.isAlphanum || "._%+-".toList.contains c)) (.seq (oneOf ['@'])
    (.seq (.plus (.char fun c => c.isAlphanum || ".-".toList.contains c)) (.seq (oneOf ['.'])
      (.seq (.char Char.isAlpha) (.plus (.char Char.isAlpha))))))

def keyName (m : Regex.Cursor Char) : List Char := (m.captured 1).getD []

def maskKeys (text : List Char) : List Char := Regex.sub sensitiveKv (fun m => keyName m ++ "=***".toList) text

def maskSchemes (text : List Char) : List Char := Regex.sub authScheme (fun m => keyName m ++ " ***".toList) text

def maskDigits (text : List Char) : List Char := Regex.sub longDigits (fun _ => "***".toList) text

def maskEmails (text : List Char) : List Char := Regex.sub email (fun _ => "***".toList) text

def scrub (text : List Char) : List Char := maskEmails (maskDigits (maskSchemes (maskKeys text)))

def rawCap : Nat := 4000

def finalCap : Nat := 200

/-- What the scrub is given: no control characters, no more than the raw cap, single spaces. -/
def cleaned (text : List Char) : List Char :=
  strip (Regex.sub (.plus space) (fun _ => [' ']) ((text.filter (!isControl ·)).take rawCap))

def summaryFrom (text : String) : String := String.ofList ((scrub (cleaned text.toList)).take finalCap)

/-- `^[A-Za-z0-9_.:-]{1,64}$`. -/
def codePattern : Re Char :=
  let piece : Re Char := .char fun c => c.isAlphanum || "_.:-".toList.contains c
  .seq piece (.seq (.atMost 63 piece) (.atEnd (· = '\n')))

def httpCode (statusCode : Int) : String := "HTTP " ++ toString statusCode

/-- A code in which anything would be masked is not kept. -/
def codeFrom (statusCode : Int) (nativeCode : Option Json) : String :=
  match nativeCode with
  | none | some .null => httpCode statusCode
  | some value =>
    let candidate := value.pyStr.toList
    if scrub candidate ≠ candidate then httpCode statusCode
    else if (Regex.matchAt codePattern [] candidate).isSome && !Regex.search longDigits [] candidate then value.pyStr
    else httpCode statusCode

/-- A reason with the text that people read. -/
structure Report extends Reason where
  summary : String
  bodyCaptured : Bool

def detail (text : String) : String := if text = "" then "" else summaryFrom text

/-- `data` is the parsed body, if there was one; of it only two fields are read. -/
def brokerReason (statusCode : Int) (data : Option Json) : Report :=
  have bodyCaptured := match data with
    | some (.obj _) => true
    | _ => false
  let errorMessage := match data.bind (·.get? "errorMessage") with
    | some (.str s) => s
    | _ => ""
  { origin := "broker", code := codeFrom statusCode (data.bind (·.get? "nativeCode")), summary := detail errorMessage
    evidence := if bodyCaptured then "broker write response" else "broker write response; no parseable body, status only"
    bodyCaptured }

/-- What is said of a failed write whose outcome is unknown. -/
def outcomeUnconfirmed (error : Exc) (rest : String) : String :=
  "Outcome unconfirmed after " ++ error.name
    ++ (if detail error.message = "" then "" else ": " ++ detail error.message) ++ rest

def transportReason (error : Exc) (statusCode : Option Int) (correlation : String) : Report where
  origin := "transport"
  code := (statusCode.map httpCode).getD "transport"
  summary := outcomeUnconfirmed error "; broker state was not verified"
  evidence :=
    if correlation ≠ "" then "no broker response was captured for this write; reconcile using " ++ correlation
    else "no broker response was captured for this write; reconcile against broker state directly"
  bodyCaptured := false

def unconfirmedReason (error : Exc) (correlation : String) : Report where
  origin := "unconfirmed"
  code := error.name
  summary := outcomeUnconfirmed error "; the failure phase (broker, wire or local) could not be established"
  evidence :=
    if correlation ≠ "" then "no structured broker or wire evidence was attached; reconcile using " ++ correlation
    else "no structured broker or wire evidence was attached; reconcile against broker state"
  bodyCaptured := false

def localReason (error : Exc)
    (evidence : String := "broker replied to the write; response failed router validation") : Report where
  origin := "local"
  code := error.name
  summary := detail error.message
  evidence := evidence
  bodyCaptured := false

/-- The reason that the router records for a failure of unknown phase. -/
theorem router_unconfirmed (e : Exc) (identity : String) (key : ActionKey) :
    (unconfirmedReason e ("trade " ++ identity ++ " action " ++ Store.actionKeyText key)).toReason
      = MatchTrader.unconfirmedReason e identity key := by
  have hjoin : "no structured broker or wire evidence was attached; reconcile using " ++ "trade "
      = "no structured broker or wire evidence was attached; reconcile using trade " := rfl
  have hsome : "trade " ++ identity ++ " action " ++ Store.actionKeyText key ≠ "" := by
    intro h
    have hlen := congrArg String.length h
    have hword : "trade ".length = 6 := rfl
    simp only [String.length_append, String.length_empty, hword] at hlen
    omega
  rw [unconfirmedReason, MatchTrader.unconfirmedReason, if_pos hsome, ← hjoin]
  simp only [String.append_assoc]

/-- The reason of a reply that failed a check of the router. -/
theorem router_unverified (message : String) :
    (unverified message).reason = some (localReason (Exc.runtime message)).toReason := rfl

theorem router_persistenceFailed {e : Exc} (h : e.reason = none) :
    (persistenceFailed e).reason
      = some (localReason e "broker accepted the write; local persistence of the accepted state failed").toReason := by
  rw [persistenceFailed, h]
  rfl

end Reasons

end MatchTrader
