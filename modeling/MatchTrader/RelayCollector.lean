import MatchTrader.Durable
import MatchTrader.RelayStore

/-! The collector of the relay's logs: it reads a directory of growing files, keeps each next chunk in
a table until the archive has acknowledged it, and only then moves on in the file. -/

namespace MatchTrader

open Durable

/-- An entry of the log directory. -/
structure LogFile where
  name : String
  /-- Whether it is a file, and not a link. -/
  regular : Bool
  identity : String
  bytes : List UInt8

/-- A row of the collector's table of files; `head` is what the file began with. -/
structure Checkpoint where
  path : String
  stream : String
  identity : String
  offset : Nat
  head : List UInt8

structure RelayMessage where
  version : String
  streamId : String
  machine : String
  filename : String
  offset : Nat
  sha256 : String
  dataBase64 : String

def RelayMessage.json (m : RelayMessage) : Json :=
  .obj [("version", .str m.version), ("stream_id", .str m.streamId), ("machine", .str m.machine),
    ("filename", .str m.filename), ("offset", .num (.ofNat m.offset)), ("sha256", .str m.sha256),
    ("data_base64", .str m.dataBase64)]

def RelayMessage.payload (m : RelayMessage) : List UInt8 := (Base64.decode m.dataBase64).getD []

structure PendingRow where
  path : String
  message : RelayMessage

/-- The log directory, the collector's tables, the archive, and the requests that were ever posted. -/
structure Mirror where
  files : List LogFile := []
  checkpoints : List Checkpoint := []
  pending : List PendingRow := []
  store : RelayLogStore := {}
  posted : List RelayMessage := []
  /-- How many identities were drawn. -/
  drawn : Nat := 0

/-- What goes on around the collector: files come and grow, and a request gets through late or once more. -/
inductive Happening where
  | created (f : LogFile)
  | grown (name : String) (more : List UInt8)
  | arrived (request : Nat) (receivedAt : String) (fails : Bool)

/-- What becomes of a delivery. -/
structure Carriage where
  arrives : Bool
  receivedAt : String
  fails : Bool
  answered : Bool

inductive CollectorQuery where
  | elapse
  | opens (name : String)
  | statementFails
  | carry

def CollectorReply : CollectorQuery → Type
  | .elapse => List Happening
  | .opens _ => Bool
  | .statementFails => Bool
  | .carry => Carriage

abbrev Collect := Prog Mirror CollectorQuery CollectorReply Exc

def Exc.os : Exc := ⟨.osError, "OSError", "", none⟩

namespace Mirror

def file? (s : Mirror) (name : String) : Option LogFile := Rows.lookup LogFile.name name s.files

def checkpoint? (s : Mirror) (path : String) : Option Checkpoint := Rows.lookup Checkpoint.path path s.checkpoints

def bytesOf (s : Mirror) (name : String) : List UInt8 := (s.file? name).elim [] LogFile.bytes

def happen [RelayHost] (s : Mirror) : Happening → Mirror
  | .created f => if Rows.has LogFile.name f.name s.files then s else { s with files := s.files ++ [f] }
  | .grown name more => { s with
      files := Rows.updateWhere (fun f => f.name = name) (fun f => { f with bytes := f.bytes ++ more }) s.files }
  | .arrived request receivedAt fails =>
    match s.posted[request]? with
    | none => s
    | some m => { s with store := (s.store.accept m.json receivedAt fails).2 }

end Mirror

namespace RelayCollector

variable [RelayHost]

/-- The extension of a name, as a path's `suffix`. -/
def pathSuffix (name : String) : String :=
  let (extension, stem) := name.toList.reverse.span (· ≠ '.')
  match stem with
  | '.' :: _ :: _ => if extension = [] then "" else String.ofList ('.' :: extension.reverse)
  | _ => ""

/-- The files the collector mirrors. -/
def mirrored (f : LogFile) : Bool := f.regular && (pathSuffix f.name = ".log" || pathSuffix f.name = ".jsonl")

def elapse : Collect (List Happening) := Prog.query (R := CollectorReply) .elapse

/-- Time passes, and what goes on goes on. -/
def tick : Collect Unit := do
  let hs ← elapse
  Prog.commit fun s => hs.foldl Mirror.happen s

def openFails (name : String) : Collect Bool := Prog.query (R := CollectorReply) (.opens name)

def statementFails : Collect Bool := Prog.query (R := CollectorReply) .statementFails

def carry : Collect Carriage := Prog.query (R := CollectorReply) .carry

/-- The statements of a transaction on the collector's tables, which may fail. -/
def transact (f : Mirror → Except Exc Mirror) : Collect Unit := do
  let fails ← statementFails
  raiseIf (fails = true) Exc.sqlite
  Prog.attempt fun s => (f s).map fun t => ((), t)

/-- Post a message; the request or its answer may be lost, and the archive may refuse it. -/
def deliver (m : RelayMessage) : Collect Ack := do
  Prog.commit fun s => { s with posted := s.posted ++ [m] }
  let c ← carry
  raiseIf (c.arrives = false) Exc.os
  let ack ← Prog.attempt fun s =>
    match s.store.accept m.json c.receivedAt c.fails with
    | (.ok ack, store) => .ok (ack, { s with store })
    | (.error _, _) => .error Exc.os
  raiseIf (c.answered = false) Exc.os
  return ack

/-- The acknowledgement is one of this message. -/
def acknowledges (ack : Ack) (m : RelayMessage) : Prop :=
  ack.durable = true ∧ ack.version = m.version ∧ ack.streamId = m.streamId ∧ ack.offset = m.offset ∧ ack.sha256 = m.sha256
    ∧ ack.nextOffset = m.offset + m.payload.length

instance (ack : Ack) (m : RelayMessage) : Decidable (acknowledges ack m) := by
  unfold acknowledges
  infer_instance

/-- The place in the file moves on, and the message is done with. -/
def advance (filename : String) (m : RelayMessage) (s : Mirror) : Mirror :=
  { s with
    checkpoints := Rows.updateWhere (fun r => r.path = filename ∧ r.stream = m.streamId)
      (fun r => { r with offset := m.offset + m.payload.length }) s.checkpoints
    pending := s.pending.filter fun p => p.path ≠ filename }

def deliverPending (filename : String) (m : RelayMessage) : Collect Unit := do
  let ack ← deliver m
  raiseIf (¬ acknowledges ack m) (Exc.value "Invalid durable relay acknowledgement; checkpoint retained")
  transact fun s => .ok (advance filename m s)

def uuid4 : Collect String := do
  let drawn ← Prog.reads Mirror.drawn
  Prog.commit fun s => { s with drawn := drawn + 1 }
  return RelayHost.uuid4 drawn

/-- The stream of a file and the place in it. A file that is new, another one, shorter than that
place or with another beginning gets a new stream. -/
def place (name identity : String) (size : Nat) (head : List UInt8) (previous : Option Checkpoint) : Collect (String × Nat) :=
  match previous.filter fun r => r.identity = identity ∧ r.offset ≤ size ∧ head = r.head with
  | some r => return (r.stream, r.offset)
  | none => do
    let stream ← uuid4
    let row : Checkpoint := ⟨name, stream, identity, 0, head⟩
    transact fun s => .ok { s with checkpoints := Rows.upsert Checkpoint.path row (fun _ => row) s.checkpoints }
    return (stream, 0)

def newline : UInt8 := 10

/-- The bytes up to the last line's end, or all of them when there is none. -/
def wholeLines (payload : List UInt8) : List UInt8 :=
  let lines := payload.reverse.dropWhile (· ≠ newline)
  if lines = [] then payload else lines.reverse

def message (name stream : String) (offset : Nat) (payload : List UInt8) : RelayMessage :=
  ⟨"1.0.0", stream, RelayHost.node, name, offset, RelayHost.sha256 payload, Base64.encode payload⟩

/-- Keep a message for delivery. A file that was empty when its stream began gets its beginning. -/
def keep (name : String) (head : List UInt8) (offset : Nat) (payload : List UInt8) (m : RelayMessage) (s : Mirror) :
    Except Exc Mirror :=
  if Rows.has PendingRow.path name s.pending then .error .integrity
  else .ok { s with
    pending := s.pending ++ [⟨name, m⟩]
    checkpoints := if head = [] ∧ offset = 0 then
        Rows.updateWhere (fun r => r.path = name) (fun r => { r with head := payload.take 32 }) s.checkpoints
      else s.checkpoints }

/-- Send the next chunk of a file. -/
def send (name : String) (head : List UInt8) (stream : String) (offset : Nat) (payload : List UInt8) : Collect Nat := do
  let m := message name stream offset payload
  transact (keep name head offset payload m)
  deliverPending name m
  return 1

/-- Read the next chunk of a file, and the number of chunks delivered of it. The file may grow between any two reads. -/
def follow (name : String) : Collect Nat := do
  let fails ← openFails name
  raiseIf (fails = true) Exc.os
  tick
  let file ← Prog.reads fun s => s.file? name
  tick
  let previous ← Prog.reads fun s => s.checkpoint? name
  let head ← Prog.reads fun s => (s.bytesOf name).take (previous.elim 32 fun r => r.head.length)
  let at_ ← place name (file.elim "" LogFile.identity) (file.elim 0 fun f => f.bytes.length) head previous
  tick
  let payload ← Prog.reads fun s => ((s.bytesOf name).drop at_.2).take chunkBytes
  if payload = [] then return 0
  else
    tick
    send name head at_.1 at_.2 (wholeLines payload)

def pollFile (name : String) : Collect Nat := do
  tick
  let file ← Prog.reads fun s => s.file? name
  if file.any mirrored then follow name else return 0

/-- Deliver what is pending, then the next chunk of every file; the number of chunks delivered. -/
def poll : Collect Nat := do
  tick
  let pending ← Prog.reads fun s => s.pending.insertionSort fun p q => p.path ≤ q.path
  pending.forM fun p => deliverPending p.path p.message
  tick
  let names ← Prog.reads fun s => (s.files.map LogFile.name).insertionSort fun a b => a ≤ b
  names.foldlM (fun delivered name => do return delivered + (← pollFile name)) pending.length

end RelayCollector

variable [RelayHost]

abbrev CollectorAnswers := Nat → (q : CollectorQuery) → CollectorReply q

/-- A history's moves: the surroundings go on, and the collector polls or is stopped in a poll. -/
inductive MirrorMove : Mirror → Mirror → Prop
  | happen {s : Mirror} (h : Happening) : MirrorMove s (s.happen h)
  | poll {s : Mirror} (env : CollectorAnswers) : MirrorMove s (RelayCollector.poll.eval env s).1
  | stop {s : Mirror} (n : Nat) (env : CollectorAnswers) : MirrorMove s (RelayCollector.poll.stop n env s)

end MatchTrader
