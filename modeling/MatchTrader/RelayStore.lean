import MatchTrader.Base64
import MatchTrader.Tiling
import MatchTrader.World

/-! The archive of relayed logs: the envelope of a chunk, its acceptance into two tables, and the
pages that a reader is given. -/

namespace MatchTrader

open Tiling

/-- What the relay takes from its platform's library. -/
class RelayHost where
  /-- The hexadecimal SHA-256 of some bytes. -/
  sha256 : List UInt8 → String
  /-- `UUID(text)` reads the text. -/
  uuid : String → Bool
  /-- The identities that `uuid4()` draws, one after the other. -/
  uuid4 : Nat → String
  node : String

/-- A number without fraction or exponent is an `int`. -/
def Json.int? : Json → Option Int
  | num d => if d.exp = 0 then some (if d.neg then -d.coeff else d.coeff) else none
  | _ => none

def hasSuffix (s suffix : String) : Bool := suffix.toList.isSuffixOf s.toList

def Exc.overflow : Exc := ⟨.arithmeticError, "OverflowError", "Python int too large to convert to SQLite INTEGER", none⟩

def chunkBytes : Nat := 8192

structure Envelope where
  streamId : String
  machine : String
  filename : String
  offset : Nat
  digest : String
  payload : List UInt8

structure Chunk where
  seq : Nat
  streamId : String
  machine : String
  filename : String
  offset : Nat
  digest : String
  payload : List UInt8
  receivedAt : String
deriving DecidableEq

structure StreamRow where
  streamId : String
  machine : String
  filename : String
  nextOffset : Nat
deriving DecidableEq

structure RelayLogStore where
  chunks : List Chunk := []
  streams : List StreamRow := []
deriving DecidableEq

structure Ack where
  version : String
  streamId : String
  offset : Nat
  nextOffset : Nat
  sha256 : String
  durable : Bool
  duplicate : Bool
deriving DecidableEq

def Chunk.key (c : Chunk) : String × Nat := (c.streamId, c.offset)

namespace Envelope

variable [RelayHost]

def fields : List String := ["version", "stream_id", "machine", "filename", "offset", "sha256", "data_base64"]

def keys : Json → Option (List String)
  | .obj items => some (items.map Prod.fst)
  | _ => none

/-- A text field, where the type of another value is an error. -/
def text (message : Json) (name : String) (refusal : Exc) : Except Exc String :=
  match (message.get? name).bind Json.text? with
  | some s => .ok s
  | none => .error refusal

def machineField (message : Json) : Except Exc String := do
  let machine ← text message "machine" (.value "Invalid machine")
  raiseIf (¬ (1 ≤ machine.length ∧ machine.length ≤ 100)) (Exc.value "Invalid machine")
  return machine

def filenameField (message : Json) : Except Exc String := do
  let filename ← text message "filename" (.value "Invalid filename")
  raiseIf (¬ (1 ≤ filename.length ∧ filename.length ≤ 240) ∨ '/' ∈ filename.toList ∨ '\\' ∈ filename.toList
    ∨ ¬ (hasSuffix filename ".log" ∨ hasSuffix filename ".jsonl")) (Exc.value "Invalid filename")
  return filename

def offsetField (message : Json) : Except Exc Nat :=
  match (message.get? "offset").bind Json.int? with
  | some offset =>
    if 0 ≤ offset ∧ offset ≤ 2 ^ 63 - chunkBytes then .ok offset.toNat else .error (.value "Invalid offset")
  | none => .error (.value "Invalid offset")

def payloadField (message : Json) : Except Exc (List UInt8) :=
  match ((message.get? "data_base64").bind Json.text?).bind Base64.decode with
  | some payload => .ok payload
  | none => .error (.value "Invalid log bytes")

/-- The checks of a message before the tables are looked at. -/
def read (message : Json) : Except Exc Envelope := do
  raiseIf (¬ (keys message).any fun names => names.all fields.contains ∧ fields.all names.contains)
    (Exc.value "Invalid relay envelope")
  raiseIf ((message.get? "version").bind Json.text? ≠ some "1.0.0") (Exc.value "Unsupported relay envelope version")
  let streamId ← text message "stream_id" (.value "Invalid stream identity")
  raiseIf (!RelayHost.uuid streamId) (Exc.value "badly formed hexadecimal UUID string")
  let machine ← machineField message
  let filename ← filenameField message
  let offset ← offsetField message
  let payload ← payloadField message
  raiseIf (¬ (1 ≤ payload.length ∧ payload.length ≤ chunkBytes)
    ∨ (message.get? "sha256").bind Json.text? ≠ some (RelayHost.sha256 payload))
    (Exc.value "Invalid log checksum or size")
  return ⟨streamId, machine, filename, offset, RelayHost.sha256 payload, payload⟩

def ack (e : Envelope) (duplicate : Bool) : Ack :=
  ⟨"1.0.0", e.streamId, e.offset, e.offset + e.payload.length, e.digest, true, duplicate⟩

end Envelope

namespace RelayLogStore

def chunk? (db : RelayLogStore) (streamId : String) (offset : Nat) : Option Chunk :=
  Rows.lookup Chunk.key (streamId, offset) db.chunks

def stream? (db : RelayLogStore) (streamId : String) : Option StreamRow :=
  Rows.lookup StreamRow.streamId streamId db.streams

def nextOffset (db : RelayLogStore) (streamId : String) : Nat := (db.stream? streamId).elim 0 StreamRow.nextOffset

/-- `INTEGER PRIMARY KEY`: one more than the greatest. -/
def nextSeq (db : RelayLogStore) : Nat := (db.chunks.map Chunk.seq).foldl max 0 + 1

def append (db : RelayLogStore) (e : Envelope) (receivedAt : String) : RelayLogStore where
  chunks := db.chunks ++ [⟨db.nextSeq, e.streamId, e.machine, e.filename, e.offset, e.digest, e.payload, receivedAt⟩]
  streams := Rows.upsert StreamRow.streamId ⟨e.streamId, e.machine, e.filename, e.offset + e.payload.length⟩
    (fun s => { s with nextOffset := e.offset + e.payload.length }) db.streams

/-- The statements of one acceptance. -/
def insert (db : RelayLogStore) (e : Envelope) (receivedAt : String) : Except Exc (Ack × RelayLogStore) :=
  match db.chunk? e.streamId e.offset with
  | some existing => do
    raiseIf ((existing.machine, existing.filename, existing.digest, existing.payload)
      ≠ (e.machine, e.filename, e.digest, e.payload)) (Exc.value "Relay identity conflict")
    return (e.ack true, db)
  | none => do
    raiseIf ((db.stream? e.streamId).any fun s => (s.machine, s.filename) ≠ (e.machine, e.filename))
      (Exc.value "Relay stream identity conflict")
    raiseIf (e.offset ≠ db.nextOffset e.streamId) (Exc.value "Relay log gap")
    raiseIf (2 ^ 63 ≤ e.offset + e.payload.length) Exc.overflow
    return (e.ack false, db.append e receivedAt)

/-- Accept a message; `fails` tells whether a statement fails, and an error rolls the statements back. -/
def accept [RelayHost] (db : RelayLogStore) (message : Json) (receivedAt : String) (fails : Bool) :
    Except Exc Ack × RelayLogStore :=
  match (do
    let e ← Envelope.read message
    raiseIf fails Exc.sqlite
    db.insert e receivedAt : Except Exc (Ack × RelayLogStore)) with
  | .ok (ack, db) => (.ok ack, db)
  | .error e => (.error e, db)

/-- A chunk as it is shown to a reader. -/
structure FeedRecord where
  seq : Nat
  streamId : String
  machine : String
  filename : String
  offset : Nat
  digest : String
  receivedAt : String
  dataBase64 : String
deriving DecidableEq

structure Page where
  records : List FeedRecord
  nextAfter : Int
deriving DecidableEq

def record (c : Chunk) : FeedRecord :=
  ⟨c.seq, c.streamId, c.machine, c.filename, c.offset, c.digest, c.receivedAt, Base64.encode c.payload⟩

/-- `WHERE seq>? ORDER BY seq LIMIT ?`. -/
def selectAfter (db : RelayLogStore) (after limit : Int) : List Chunk :=
  ((db.chunks.filter fun c => after < c.seq).insertionSort fun c d => c.seq ≤ d.seq).take limit.toNat

def feed (db : RelayLogStore) (after limit : Int) : Except Exc Page :=
  if after < 0 ∨ ¬ (1 ≤ limit ∧ limit ≤ 100) then .error (.value "Invalid relay page")
  else
    let rows := db.selectAfter after limit
    .ok ⟨rows.map record, (rows.getLast?).elim after fun c => c.seq⟩

/-- The chunks of a stream, in the order of their acceptance. -/
def chunksOf (db : RelayLogStore) (streamId : String) : List Chunk := db.chunks.filter fun c => c.streamId = streamId

/-- The bytes of the chunks of a stream, one chunk after the other. -/
def contents (db : RelayLogStore) (streamId : String) : List UInt8 := (db.chunksOf streamId).flatMap Chunk.payload

def size (c : Chunk) : Nat := c.payload.length

end RelayLogStore

end MatchTrader
