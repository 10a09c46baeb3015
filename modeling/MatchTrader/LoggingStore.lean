import MatchTrader.Base64
import MatchTrader.World

/-! The rolling archive of opaque observations: what is accepted, what is evicted for it, and the
pages that a reader is given, the newest first. -/

namespace MatchTrader

/-- What a reader is shown of a body: the monitor's redacted text, and the source and kind it names. -/
structure Preview where
  raw : String
  truncated : Bool
  source : Option Json
  kind : Option Json

class LoggingHost where
  /-- The hexadecimal SHA-256 of some bytes. -/
  sha256 : List UInt8 → String
  /-- `RawLog`'s view of a body. -/
  preview : List UInt8 → Preview

def maxLogBody : Nat := 65536

/-- The greatest number that `AUTOINCREMENT` may draw. -/
def maxSeq : Nat := 9223372036854775807

structure Observation where
  receiptId : String
  receivedAt : String
  contentType : String
  digest : String
  body : List UInt8
  metadata : Json

structure LoggingRow extends Observation where
  seq : Nat

def Observation.size (o : Observation) : Nat := o.body.length

/-- The tables `observations`, oldest row first, `sqlite_sequence` and `logging_meta`. -/
structure LoggingFile where
  observations : List LoggingRow := []
  sequence : Nat := 0
  evicted : Option Nat := none

/-- An open store, with the limits that its constructor lets pass. -/
structure LoggingStore where
  maxRecords : Nat
  maxBytes : Nat
  one_le_maxRecords : 1 ≤ maxRecords
  maxLogBody_le : maxLogBody ≤ maxBytes

/-- What is passed to `accept`, with what the call draws: an identity and the time. -/
structure LoggingCall where
  /-- `none` for a value that is not of type `bytes`. -/
  body : Option (List UInt8)
  contentType : String := "application/octet-stream"
  metadata : Option Json := none
  identity : String
  now : String
  /-- A statement of the transaction fails. -/
  fails : Bool := false

structure LoggingReceipt where
  receiptId : String
  receivedAt : String
  status : String := "logged"
  durable : Bool := true
  forwarded : Bool := false
  executed : Bool := false
  retention : String := "rolling"
deriving DecidableEq

/-- Where the opening of a file may fail: in the script that creates the tables, or at the column after it. -/
inductive OpeningStep where
  | script
  | metadata

namespace LoggingFile

def createTables (f : LoggingFile) : LoggingFile := { f with evicted := f.evicted.or (some 0) }

/-- `INSERT INTO observations`. -/
def insert (f : LoggingFile) (o : Observation) : Except Exc LoggingFile := do
  raiseIf (f.observations.any fun r => r.receiptId = o.receiptId) Exc.integrity
  raiseIf (maxSeq ≤ f.sequence) Exc.sqlite
  return { f with observations := f.observations ++ [⟨o, f.sequence + 1⟩], sequence := f.sequence + 1 }

/-- `DELETE … WHERE seq<=?`, and the counter of the rows that it removes. -/
def evict (f : LoggingFile) (cutoff : Nat) : LoggingFile :=
  let kept := f.observations.filter fun r => ¬ r.seq ≤ cutoff
  let removed := f.observations.length - kept.length
  { f with observations := kept, evicted := f.evicted.map (· + removed) }

/-- `SELECT … ORDER BY seq DESC`. -/
def newestFirst (rows : List LoggingRow) : List LoggingRow := rows.insertionSort fun q r => r.seq ≤ q.seq

end LoggingFile

namespace LoggingStore

/-- `LoggingStore(directory, max_records=…, max_bytes=…)`. -/
def init (maxRecords maxBytes : Int) (fault : Option OpeningStep) (f : LoggingFile) :
    Except Exc LoggingStore × LoggingFile :=
  if h : maxRecords < 1 ∨ maxBytes < maxLogBody then (.error (.value "Invalid logging retention limits"), f)
  else
    match fault with
    | some .script => (.error Exc.sqlite, f)
    | some .metadata => (.error Exc.sqlite, f.createTables)
    | none => (.ok ⟨maxRecords.toNat, maxBytes.toNat, by omega, by omega⟩, f.createTables)

/-- The newest row that one of the limits leaves out; the rows come newest first. -/
def cutoffFrom (s : LoggingStore) (index total : Nat) : List LoggingRow → Option Nat
  | [] => none
  | r :: rows =>
    if s.maxRecords ≤ index ∨ s.maxBytes < total + r.size then some r.seq
    else cutoffFrom s (index + 1) (total + r.size) rows

variable [LoggingHost]

/-- The columns that an acceptance writes. -/
def observation (call : LoggingCall) (body : List UInt8) : Observation where
  receiptId := call.identity
  receivedAt := call.now
  contentType := String.ofList (call.contentType.toList.take 200)
  digest := LoggingHost.sha256 body
  body := body
  metadata := ((call.metadata.filter Json.truthy).getD (.obj []))

/-- The statements of one acceptance. -/
def record (s : LoggingStore) (f : LoggingFile) (o : Observation) : Except Exc LoggingFile := do
  let f ← f.insert o
  match s.cutoffFrom 0 0 (LoggingFile.newestFirst f.observations) with
  | some cutoff => return f.evict cutoff
  | none => return f

/-- An error rolls the statements back. -/
def accept (s : LoggingStore) (call : LoggingCall) (f : LoggingFile) : Except Exc LoggingReceipt × LoggingFile :=
  match call.body with
  | none => (.error (.value "Logging body exceeds 64 KiB"), f)
  | some body =>
    if maxLogBody < body.length then (.error (.value "Logging body exceeds 64 KiB"), f)
    else
      match (do
        raiseIf call.fails Exc.sqlite
        s.record f (observation call body) : Except Exc LoggingFile) with
      | .ok f => (.ok { receiptId := call.identity, receivedAt := call.now }, f)
      | .error e => (.error e, f)

/-- A row as it is shown to a reader. -/
structure Record where
  seq : Nat
  receiptId : String
  receivedAt : String
  contentType : String
  digest : String
  metadata : Json
  bodyBytes : Nat
  dataBase64 : String
  preview : Preview

structure Page where
  records : List Record
  nextBefore : Int
  count : Nat
  bodyBytes : Nat
  evicted : Nat
  maxRecords : Nat
  maxBytes : Nat

def shown (r : LoggingRow) : Record where
  seq := r.seq
  receiptId := r.receiptId
  receivedAt := r.receivedAt
  contentType := r.contentType
  digest := r.digest
  metadata := r.metadata
  bodyBytes := r.body.length
  dataBase64 := Base64.encode r.body
  preview := LoggingHost.preview r.body

/-- `WHERE (?=0 OR seq<?) ORDER BY seq DESC LIMIT ?`. -/
def selectBefore (f : LoggingFile) (before limit : Int) : List LoggingRow :=
  (LoggingFile.newestFirst (f.observations.filter fun r => before = 0 ∨ (r.seq : Int) < before)).take limit.toNat

def feed (s : LoggingStore) (f : LoggingFile) (before limit : Int) : Except Exc Page :=
  if before < 0 ∨ ¬ (1 ≤ limit ∧ limit ≤ 100) then .error (.value "Invalid logging cursor")
  else
    match f.evicted with
    | none => .error (.type "'NoneType' object is not subscriptable")
    | some evicted =>
      let rows := selectBefore f before limit
      .ok { records := rows.map shown, nextBefore := rows.getLast?.elim before fun r => r.seq,
            count := f.observations.length, bodyBytes := (f.observations.map fun r => r.size).sum,
            evicted, maxRecords := s.maxRecords, maxBytes := s.maxBytes }

/-- Page after page, each from where the one before ended. -/
def pages (s : LoggingStore) (f : LoggingFile) (before : Int) : List Int → Except Exc (List Record)
  | [] => .ok []
  | limit :: limits => do
    let page ← feed s f before limit
    let rest ← pages s f page.nextBefore limits
    return page.records ++ rest

end LoggingStore

end MatchTrader
