import MatchTrader.Csv
import MatchTrader.Host
import MatchTrader.Lines
import MatchTrader.Utf8

/-! The tail of the R01 ledger: the complete lines that are appended to the file, each with the byte
at which it begins. No executable order is inferred from them. -/

namespace MatchTrader

/-- The file under a path: which one it is, and its bytes. -/
structure TailedFile where
  identity : Nat × Nat
  content : List UInt8

def newline : UInt8 := 10

/-- What opening or polling a tail raises. -/
inductive TailError where
  /-- `OSError`. -/
  | os
  /-- `RuntimeError`: "Ledger rotated or truncated; restart observation from its new EOF". -/
  | rotated
  /-- `ValueError`: "Unrecognized R01 ledger header". -/
  | header
  /-- `UnicodeDecodeError`. -/
  | undecodable
  /-- `StopIteration`. -/
  | noRow
  | csv (e : Csv.Error)
deriving DecidableEq

structure LedgerPayload where
  record : List (String × Option String)
  extraFields : List String
  classification : String := "ledger_observation_only"
  executionStatus : String := "not_submitted"
  reason : String := "ledger_has_no_volume_or_verified_outbound_order_contract"
deriving DecidableEq

structure LedgerTail where
  header : List String
  /-- The file that the stream is open on. -/
  identity : Nat × Nat
  /-- Where the stream stands. -/
  position : Nat
  offset : Nat
  skipPartial : Bool

namespace LedgerTail

def decode (raw : List UInt8) : Except TailError (List Char) :=
  match Utf8.decode? raw with
  | some text => .ok text
  | none => .error .undecodable

/-- `utf-8-sig`: a mark in front is dropped. -/
def decodeSig : List UInt8 → Except TailError (List Char)
  | 0xef :: 0xbb :: 0xbf :: raw => decode raw
  | raw => decode raw

def readRow (text : List Char) : Except TailError (List String) := (Csv.row text).mapError .csv

def columns : List String := ["utc", "kind", "label", "symbol", "side", "entry", "sl", "tp"]

/-- `LedgerTail(path)`: at the end of the file, whose last line may not be complete. -/
def openFile (file : Option TailedFile) : Except TailError LedgerTail :=
  match file with
  | none => .error .os
  | some f => do
    let text ← decodeSig (Lines.readline newline f.content)
    let header ← readRow (text.rdropWhile isSpace)
    if columns.all header.contains then
      return {
        header, identity := f.identity, position := f.content.length, offset := f.content.length
        skipPartial := f.content.length ≠ 0 && f.content.getLast? ≠ some newline }
    else .error .header

/-- The payload of a line. For a line without fields the reader has no row. -/
def payload (header : List String) (raw : List UInt8) : Except TailError LedgerPayload := do
  match ← readRow (← decode raw) with
  | [] => .error .noRow
  | row => return { record := (Csv.record header row).1, extraFields := (Csv.record header row).2 }

/-- The rounds of a poll that are left. The tail is past a line before the line is read as a record. -/
def readLines (content : List UInt8) : Nat → LedgerTail → LedgerTail × Except TailError (List (Nat × LedgerPayload))
  | 0, t => (t, .ok [])
  | n + 1, t =>
    let raw := Lines.readline newline (content.drop t.position)
    if raw.getLast? ≠ some newline then (t, .ok [])
    else
      let after : LedgerTail := { t with position := t.position + raw.length, offset := t.position + raw.length }
      if t.skipPartial then readLines content n { after with skipPartial := false }
      else
        match payload t.header raw with
        | .error e => (after, .error e)
        | .ok p =>
          let rest := readLines content n after
          (rest.1, rest.2.map fun rows => (t.position, p) :: rows)

/-- The complete lines since the last poll, at most a thousand. -/
def poll (t : LedgerTail) (file : Option TailedFile) : LedgerTail × Except TailError (List (Nat × LedgerPayload)) :=
  match file with
  | none => (t, .error .os)
  | some f =>
    if f.content.length < t.offset ∨ f.identity ≠ t.identity then (t, .error .rotated) else t.readLines f.content 1000

end LedgerTail

end MatchTrader
