import MatchTrader.LedgerTail

/-! The local log of the P01 tool: its bytes cut into lines, and each line recorded as an event.
What it says is tool activity; nothing of it is a broker acknowledgement. -/

namespace MatchTrader

/-- A time with its own offset from UTC, in microseconds; the fields are the local ones. -/
structure ZonedTime where
  local_ : Instant
  offset : Int
  offset_lt : offset.natAbs < 86400000000 := by decide
deriving DecidableEq

namespace ZonedTime

theorem utc_lt : Int.natAbs 0 < 86400000000 := by decide

/-- The point in time: microseconds in UTC. -/
def instant (t : ZonedTime) : Int := t.local_.micros - t.offset

/-- `+HH:MM[:SS[.ffffff]]`. -/
def offsetChars (offset : Int) : List Char :=
  let n := offset.natAbs
  let second := n / 1000000 % 60
  let micro := n % 1000000
  (if offset < 0 then '-' else '+') :: Instant.padded 2 (n / 3600000000) ++ ':' :: Instant.padded 2 (n / 60000000 % 60)
    ++ (if second = 0 ∧ micro = 0 then [] else ':' :: Instant.padded 2 second)
    ++ (if micro = 0 then [] else '.' :: Instant.padded 6 micro)

def localChars (t : Instant) : List Char :=
  Instant.padded 4 t.year ++ '-' :: Instant.padded 2 t.month ++ '-' :: Instant.padded 2 t.day ++ 'T' :: Instant.padded 2 t.hour
    ++ ':' :: Instant.padded 2 t.minute ++ ':' :: Instant.padded 2 t.second
    ++ (if t.micro = 0 then [] else '.' :: Instant.padded 6 t.micro)

/-- The text keeps the time's own offset. -/
def isoformat (t : ZonedTime) : String := String.ofList (localChars t.local_ ++ offsetChars t.offset)

end ZonedTime

/-- What the log's reader takes from its platform. -/
class LogHost where
  /-- `datetime.fromisoformat`: a time that states its zone, or one that does not. -/
  fromisoformat : List Char → Option (Instant ⊕ ZonedTime)
  /-- `\w` and `\d`. -/
  isWord : Char → Bool
  isDigit : Char → Bool

variable [LogHost]

/-- `datetime.fromisoformat(text.replace('Z', '+00:00'))`. -/
def readStamp (text : List Char) : Option (Instant ⊕ ZonedTime) :=
  LogHost.fromisoformat (text.flatMap fun c => if c = 'Z' then "+00:00".toList else [c])

def strip (text : List Char) : List Char := (text.dropWhile isSpace).rdropWhile isSpace

/-- `pattern in text`. -/
def occurs (pattern : String) (text : List Char) : Bool := text.tails.any pattern.toList.isPrefixOf

inductive P01Action where
  | observe
  | intent
  | signal
  | remove
  | release
  | closeCancelIntent
  | toolResult
deriving DecidableEq

structure P01Row where
  tradeId : String
  action : P01Action
  side : String
  price : Option String
  sl : Option String
  tp : Option String
  orderType : Option String
  emittedAt : String
  reason : String
deriving DecidableEq

structure P01Log where
  events : List P01Row := []
  labels : List (String × List (String × String)) := []
  offset : Nat := 0
  identity : Option (Nat × Nat) := none
  pending : List UInt8 := []
  error : String := ""
  intents : List P01Row := []
  /-- The ends of lifecycles that the tool reports. -/
  releases : List P01Row := []

namespace P01Log

/-- The first `id='…'`. -/
def quotedId (text : List Char) : Option (List Char) :=
  text.tails.findSome? fun t =>
    if "id='".toList.isPrefixOf t then
      let name := (t.drop 4).takeWhile (· ≠ '\'')
      if name ≠ [] ∧ ((t.drop 4).drop name.length).head? = some '\'' then some name else none
    else none

/-- `P01RR_\d+_\d+` at the front. -/
def chartId (t : List Char) : Option (List Char) :=
  if "P01RR_".toList.isPrefixOf t then
    let first := (t.drop 6).takeWhile LogHost.isDigit
    let second := (t.drop (6 + first.length + 1)).takeWhile LogHost.isDigit
    if first ≠ [] ∧ ((t.drop (6 + first.length)).head? = some '_') ∧ second ≠ [] then
      some (t.take (6 + first.length + 1 + second.length))
    else none
  else none

/-- `[LM]:(?:low|high|beyond)@\S+` at the front. -/
def levelId (t : List Char) : Option (List Char) :=
  ["L:low@", "L:high@", "L:beyond@", "M:low@", "M:high@", "M:beyond@"].findSome? fun edge =>
    let bar := (t.drop edge.length).takeWhile (!isSpace ·)
    if edge.toList.isPrefixOf t ∧ bar ≠ [] then some (t.take (edge.length + bar.length)) else none

/-- The first of these, the second kind at a word boundary only. -/
def bareId : Option Char → List Char → Option (List Char)
  | _, [] => none
  | before, c :: text =>
    match chartId (c :: text) with
    | some name => some name
    | none =>
      match (if before.any LogHost.isWord then none else levelId (c :: text)) with
      | some name => some name
      | none => bareId (some c) text

/-- The tool's own lifecycle id in a text. -/
def labelOf (text : List Char) : String := String.ofList (((quotedId text).or (bareId none text)).getD [])

def keys : List String := ["side", "entry", "sl", "tp", "type"]

/-- A key with its value at the front. -/
def keyed (t : List Char) : Option (String × List Char) :=
  keys.findSome? fun key =>
    let value := (t.drop (key.length + 1)).takeWhile (!isSpace ·)
    if (key ++ "=").toList.isPrefixOf t ∧ value ≠ [] then some (key, value) else none

/-- `re.findall`: every `key=value` at a word boundary, behind the value before it. -/
def valuesOf : Nat → Option Char → List Char → List (String × String)
  | _, _, [] => []
  -- The characters of a value that was taken are passed over.
  | skip + 1, _, c :: text => valuesOf skip (some c) text
  | 0, before, c :: text =>
    match (if before.any LogHost.isWord then none else keyed (c :: text)) with
    | some (key, value) =>
      (key, String.ofList value) :: valuesOf (key.length + value.length) (some c) text
    | none => valuesOf 0 (some c) text

def merge (old new : List (String × String)) : List (String × String) := new.foldl (fun d i => Rows.setItem i d) old

def valueOf (key : String) (values : List (String × String)) : Option String := (Rows.lookup Prod.fst key values).map Prod.snd

def actionOf (text : List Char) : P01Action :=
  if occurs "box OPEN clicked" text then .intent
  else if "FIRE ".toList.isPrefixOf text then .signal
  else if "signal band x ".toList.isPrefixOf text then .remove
  else if occurs "level available again:" text then .release
  else if text = "card: Close/Cancel All".toList then .closeCancelIntent
  else if "card Close/Cancel All ->".toList.isPrefixOf text then .toolResult
  else .observe

/-- The time and the text of a line; a line without a time that states its zone is no event. -/
def stamped (raw : List Char) : Option (ZonedTime × List Char) :=
  match readStamp (raw.takeWhile (· ≠ ' ')) with
  | some (.inr t) => some (t, (raw.dropWhile (· ≠ ' ')).drop 1)
  | _ => none

/-- What is known of a label, with what a line adds; the two hundred latest labels are kept. -/
def remember (labels : List (String × List (String × String))) (label : String) (values : List (String × String)) :
    List (String × List (String × String)) :=
  (labels.filter (fun l => l.1 ≠ label) ++ [(label, values)]).rtake 200

/-- The time and the event of a line, and the labels after it. -/
def event (s : P01Log) (raw : List Char) : Option (ZonedTime × P01Row × List (String × List (String × String))) :=
  (stamped raw).map fun (emitted, text) =>
    let label := labelOf text
    let found := valuesOf 0 none text
    let previous := if label = "" then [] else ((Rows.lookup Prod.fst label s.labels).map Prod.snd).getD []
    let values := merge previous found
    let row : P01Row := {
      tradeId := label
      action := actionOf text
      side := match valueOf "side" values with
        | some "0" => "BUY"
        | some "1" => "SELL"
        | _ => ""
      price := valueOf "entry" values, sl := valueOf "sl" values, tp := valueOf "tp" values
      orderType := valueOf "type" values, emittedAt := emitted.isoformat, reason := String.ofList text }
    (emitted, row, if label = "" then s.labels else remember s.labels label values)

def record (s : P01Log) (raw : List Char) : P01Log :=
  match s.event raw with
  | none => s
  | some (_, row, labels) => { s with
      labels
      events := (s.events ++ [row]).rtake 200
      intents := if row.action = .intent then (s.intents ++ [row]).rtake 200 else s.intents
      releases := if row.action = .release ∨ row.action = .closeCancelIntent then (s.releases ++ [row]).rtake 200
        else s.releases }

/-- At the end of the file: historical intents are never replayed. -/
def start (s : P01Log) (file : Option TailedFile) : P01Log :=
  { s with
    offset := (file.map fun f => f.content.length).getD 0
    identity := file.map TailedFile.identity
    pending := [], labels := [], intents := [], releases := [] }

/-- How much of a line counts, from its end. -/
def lineLimit : Nat := 16384

/-- How much one poll reads. -/
def blockLimit : Nat := 65536

/-- A line as it is recorded: its last bytes, decoded and stripped. -/
def lineText (line : List UInt8) : List Char := strip (Utf8.decodeReplace (line.rtake lineLimit))

/-- Read on from where the last poll ended, from the beginning of a file that was replaced or cut:
the lines to be recorded. -/
def readOn (s : P01Log) (f : TailedFile) : P01Log × List (List Char) :=
  let s := if some f.identity ≠ s.identity ∨ f.content.length < s.offset then { s with offset := 0, pending := [], labels := [] }
    else s
  let block := (f.content.drop s.offset).take blockLimit
  ({ s with identity := some f.identity, offset := s.offset + block.length, error := ""
            pending := (Lines.rest newline (s.pending ++ block)).rtake lineLimit },
    (Lines.complete newline (s.pending ++ block)).map lineText)

def poll (s : P01Log) (file : Option TailedFile) : P01Log × Bool :=
  match file with
  | none => ({ s with error := "P01 log unavailable" }, false)
  | some f => ((s.readOn f).2.foldl record (s.readOn f).1, !(s.readOn f).2.isEmpty)

def drainIntents (s : P01Log) : List P01Row × P01Log := (s.intents, { s with intents := [] })

def drainReleases (s : P01Log) : List P01Row × P01Log := (s.releases, { s with releases := [] })

def feed (s : P01Log) : List P01Row := s.events.reverse

end P01Log

end MatchTrader
