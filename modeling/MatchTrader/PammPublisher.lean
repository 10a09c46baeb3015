import MatchTrader.Forwarder
import MatchTrader.Verified

/-! The publisher to TradingBox PAMM: a trade that a read-back verified is reserved in the table of
publications, then sent, then its answer is written to the row. -/

namespace MatchTrader

open Durable

structure PublicationRow where
  tradeId : String
  publishedAt : String
  upstreamStatus : Option Int := none
  durationMs : Option Decimal := none
  errorClass : String
deriving DecidableEq

def PublicationRow.key (r : PublicationRow) : String × String := (r.tradeId, r.publishedAt)

/-- The outcome of one row written to another. -/
def PublicationRow.answer (outcome r : PublicationRow) : PublicationRow :=
  { r with upstreamStatus := outcome.upstreamStatus, durationMs := outcome.durationMs, errorClass := outcome.errorClass }

/-- A send upstream, with the table of publications as it was committed then. -/
structure PammSend where
  snapshot : Snapshot
  url : String
  headers : List (String × String)
  body : Json
  table : List PublicationRow

/-- The capture store, and what was sent upstream. -/
structure PammStore where
  journal : Journal
  publications : List PublicationRow := []
  sends : List PammSend := []

/-- The settings a forwarder is read with. -/
structure ForwarderSettings where
  url : String
  apiKey : String
  authHeader : String

inductive PammQuery where
  | clock
  | statementFails
  /-- Whether there is a forwarder. -/
  | forwarder
  | ticket
  | settings
  | send (url : String) (headers : List (String × String)) (body : Json)
  | elapsed

def PammReply : PammQuery → Type
  | .clock => Instant
  | .statementFails => Bool
  | .forwarder => Bool
  | .ticket => Ticket
  | .settings => ForwarderSettings
  | .send .. => Except Exc Int
  | .elapsed => Decimal

abbrev PammAct := Prog PammStore PammQuery PammReply Exc

/-- The trades that a view of an account shows. -/
def Journal.mappingView (j : Journal) (destination : String) : List Snapshot :=
  (((j.trades.filter fun t => t.destination = destination ∨ t.destination = "").insertionSort
    fun a b => b.updatedAt ≤ a.updatedAt).take 200).map j.snapshot

namespace PammPublisher

def verifiedStates : List VerifiedState := [.verifiedOpen, .verifiedClosed]

def inFlight : String := "dispatching"

def statementFails : PammAct Bool := Prog.query (R := PammReply) .statementFails

/-- `forwarder_getter() is not None`. -/
def forwarder : PammAct Bool := Prog.query (R := PammReply) .forwarder

def ticket : PammAct Ticket := Prog.query (R := PammReply) .ticket

def settings : PammAct ForwarderSettings := Prog.query (R := PammReply) .settings

def now : PammAct Instant := Prog.query (R := PammReply) .clock

def elapsed : PammAct Decimal := Prog.query (R := PammReply) .elapsed

def askSend (url : String) (headers : List (String × String)) (body : Json) : PammAct (Except Exc Int) :=
  Prog.query (R := PammReply) (.send url headers body)

/-- A statement of the store may fail. -/
def statement : PammAct Unit := do
  let fails ← statementFails
  raiseIf fails Exc.sqlite

def enabled : PammAct Bool := do
  if !(← forwarder) then return false
  let t ← ticket
  if !(t.enabled && t.live) then return false
  let f ← settings
  return f.url ≠ "" && f.apiKey ≠ ""

/-- The latest row of each trade. -/
def latest (rows : List PublicationRow) (tradeIds : List String) : List PublicationRow :=
  let sorted := rows.insertionSort fun a b => a.publishedAt ≤ b.publishedAt
  (tradeIds.dedup.filter fun i => i ≠ "").filterMap fun i => (sorted.filter fun r => r.tradeId = i).getLast?

def publications (tradeIds : List String) : PammAct (List PublicationRow) := do
  if tradeIds.all fun i => i = "" then return []
  statement
  Prog.reads fun w => latest w.publications tradeIds

def optional (s : Option String) : Json := s.elim .null .str

def payload (s : Snapshot) (verdict : Verdict) : Json :=
  .obj [("origin", .str "matchtrader-v4"), ("kind", .str "verified_trade"), ("trade_id", .str s.tradeId),
    ("state", .str verdict.state.text), ("verified", .bool true), ("symbol", .str s.symbol), ("side", .str s.side),
    ("lots", .str (s.lots.elim "" Decimal.toString)), ("source", .str s.source.text),
    ("destination_position_ids", .arr (s.destinationPositions.map fun l => .str l.row.nativeId)),
    ("broker_open_time", optional verdict.brokerOpenTime),
    ("broker_open_time_millis", verdict.brokerOpenTimeMillis.elim .null fun n => .num ⟨n < 0, n.natAbs, 0⟩),
    ("read_back", verdict.readBack.elim .null fun r =>
      .obj [("reader", .str (if isClosedReader r then "closed_positions" else "open_positions")),
        ("volume", optional (r.volume.map Decimal.toString)), ("open_price", optional (r.openPrice.map Decimal.toString))])]

/-- Reserve the attempt. -/
def reserve (row : PublicationRow) : PammAct Unit := do
  statement
  Prog.attempt fun w =>
    if Rows.has PublicationRow.key row.key w.publications then .error .integrity
    else .ok ((), { w with publications := w.publications ++ [row] })

/-- `forwarder.send(…)`: a status, or the error it ends in. -/
def send (s : Snapshot) (url : String) (headers : List (String × String)) (body : Json) : PammAct (Except Exc Int) := do
  Prog.commit fun w => { w with sends := w.sends ++ [⟨s, url, headers, body, w.publications⟩] }
  askSend url headers body

def settle (row : PublicationRow) : PammAct Unit := do
  statement
  Prog.commit fun w => { w with publications := Rows.updateWhere (fun r => r.key = row.key) row.answer w.publications }

/-- The row of an attempt once its answer is in. -/
def answeredRow (row : PublicationRow) (reply : Except Exc Int) (duration : Decimal) : PublicationRow :=
  match reply with
  | .ok status => { row with upstreamStatus := some status, durationMs := some duration, errorClass := "" }
  | .error e => { row with upstreamStatus := none, durationMs := some duration, errorClass := e.name }

/-- The attempt is reserved before the wire. -/
def attempt [WebHost] (s : Snapshot) (verdict : Verdict) : PammAct PublicationRow := do
  if !(← forwarder) then throw ⟨.other, "AttributeError", "'NoneType' object has no attribute 'url'", none⟩
  let f ← settings
  let url ← Prog.ofExcept (validateUrl f.url)
  let headers := [(f.authHeader, f.apiKey), ("Content-Type", "application/json")]
  let at_ ← now
  let row : PublicationRow := { tradeId := s.tradeId, publishedAt := at_.isoformat, errorClass := inFlight }
  reserve row
  let reply ← send s url headers (payload s verdict)
  let duration ← elapsed
  let row := answeredRow row reply duration
  settle row
  return row

/-- Publish one trade if it is verified and unpublished and publishing is on. -/
def publish [WebHost] (s : Snapshot) (verdict : Option Verdict := none) : PammAct (Option PublicationRow) := do
  let verdict ← verdict.elim (Prog.ofExcept (classify s)) pure
  if !verdict.verified || verdict.state ∉ verifiedStates then return none
  let rows ← publications [s.tradeId]
  if !rows.isEmpty then return none
  if !(← enabled) then return none
  let row ← attempt s verdict
  return some row

def publishEach [WebHost] : List Snapshot → PammAct (List PublicationRow)
  | [] => return []
  | s :: rest => do
    let row ← publish s
    let rows ← publishEach rest
    return row.toList ++ rows

/-- Publish every newly verified trade among the snapshots. -/
def sweep [WebHost] (snapshots : List Snapshot) : PammAct (List PublicationRow) := do
  if !(← enabled) then return []
  publishEach snapshots

/-- After a read-back pass; a failure is the reconciliation's message and no more. -/
def publishVerified [WebHost] (selected : String) : PammAct Unit := do
  if !(← enabled) then return
  let snapshots ← Prog.reads fun w : PammStore => w.journal.mappingView selected
  tryCatch (discard (sweep snapshots)) fun _ => pure ()

end PammPublisher

end MatchTrader
