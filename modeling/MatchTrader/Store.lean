import MatchTrader.Mapping
import MatchTrader.World

/-! The capture store: the transactions on the journal that record events, commit
attempts before a broker write, land their outcomes, and keep broker read-backs. -/

namespace MatchTrader

open Durable

variable [Host]

namespace Journal

def event? (j : Journal) (key : String × String) : Option EventRow := Rows.lookup EventRow.eventKey key j.events

/-- The trade an event belongs to: by its order, else by the one trade linked to its position. -/
def tradeOf (j : Journal) (e : CaptureEvent) : Option TradeRow :=
  if e.orderId ≠ "" then Rows.lookup TradeRow.sourceKey (e.scope, e.orderId) j.trades
  else if e.positionId ≠ "" then
    match (j.links.filter fun l => l.side = .source ∧ l.kind = .position ∧ l.scope = .source e.scope
        ∧ l.nativeId = e.positionId).filterMap fun l => j.trade? l.tradeId with
    | [t] => some t
    | _ => none
  else none

/-- The source reports that the order or position is gone. -/
def ended (e : CaptureEvent) : Bool :=
  (e.kind = .order && (e.status = "Cancelled" || e.status = "Refused")) || (e.kind = .position && e.status = "Removed")

/-- What an event of a known trade changes. -/
def recordTrade (j : Journal) (t : TradeRow) (e : CaptureEvent) (now : String) : Except Exc Journal := do
  let j ← j.sourceEvent t.tradeId e
  let j := j.updateTrade t.tradeId fun r =>
    { r with updatedAt := now, sourceState := if e.status = "" then e.kind.text else e.status }
  let j := if e.kind = .accepted ∧ (e.action = .create ∨ e.action = .edit) then
      j.updateTrade t.tradeId fun r =>
        { r with sourceQuantity := (e.orderQuantity.filter fun q => !q.isZero).or (some e.quantity) }
    else j
  let j := if t.destination = "" then
      let j := j.updateTrade t.tradeId fun r =>
        { r with symbol := e.symbol, side := e.side.text, orderType := e.orderType.text }
      if ended e then j.updateTrade t.tradeId fun r => { r with state := .resolved, resolvedAt := some now } else j
    else j
  let j := if e.kind = .fill ∧ e.positionId ≠ "" then
      let position := match j.ids t.tradeId .source .position with
        | [p] => p
        | _ => ""
      j.updateTrade t.tradeId fun r => { r with sourcePositionId := position }
    else j
  return if e.action = .create ∧ e.source ≠ .unknown then
      j.updateTrade t.tradeId fun r => { r with source := if r.source = .unknown then e.source else r.source }
    else j

def recordEvent (e : CaptureEvent) (now identity : String) : Tx (EventRow × Bool) := fun j =>
  let digest := Host.sha256 e.modelDumpJson
  let key := (e.machine, e.eventId)
  match j.event? key with
  | some old =>
    if old.digest ≠ digest ∧ !old.payload.same e then .error (.value "Event ID reused with different data")
    else .ok ((old, true), j)
  | none => do
    let (trade, j) ← match j.tradeOf e with
      | some t => .ok (some t, j)
      | none =>
        if e.orderId = "" then .ok (none, j)
        else if Rows.has TradeRow.tradeId identity j.trades then .error .integrity
        else
          let t : TradeRow := {
            tradeId := identity, sourceKey := (e.scope, e.orderId), source := e.source
            sourceOrderId := e.orderId, updatedAt := now, scope := e.scope }
          .ok (some t, { j with trades := j.trades ++ [t] })
    let j ← match trade with
      | some t => j.recordTrade t e now
      | none => .ok j
    let row : EventRow := {
      seq := j.events.length + 1, eventKey := key, digest, tradeId := trade.map TradeRow.tradeId
      receivedAt := now, payload := e }
    .ok ((row, false), { j with events := j.events ++ [row] })

end Journal

/-- The columns an update sets. -/
structure TradeUpdate where
  destination : Option String := none
  brokerOrderId : Option String := none
  brokerPositionId : Option String := none
  state : Option TradeState := none
  resolvedAt : Option String := none
  lastRequest : Option String := none
  lots : Option (Option Decimal) := none
  symbol : Option String := none
  side : Option String := none
  orderType : Option String := none
  lastEventAt : Option Instant := none

def TradeUpdate.apply (u : TradeUpdate) (now : String) (t : TradeRow) : TradeRow :=
  { t with
    destination := u.destination.getD t.destination, brokerOrderId := u.brokerOrderId.getD t.brokerOrderId
    brokerPositionId := u.brokerPositionId.getD t.brokerPositionId, state := u.state.getD t.state
    resolvedAt := u.resolvedAt.or t.resolvedAt, lastRequest := u.lastRequest.getD t.lastRequest
    lots := u.lots.getD t.lots, symbol := u.symbol.getD t.symbol, side := u.side.getD t.side
    orderType := u.orderType.getD t.orderType, lastEventAt := u.lastEventAt.or t.lastEventAt
    updatedAt := now }

namespace Journal

def update (j : Journal) (identity : String) (u : TradeUpdate) (now : String) : Journal :=
  let j := j.updateTrade identity (u.apply now)
  match j.trade? identity with
  | none => j
  | some t =>
    if t.destination = "" then j
    else
      let scope := j.destinationScope t.destination
      let j := j.link identity .destination scope .order t.brokerOrderId "broker identity" now
      let j := j.link identity .destination scope .position t.brokerPositionId "broker identity" now
      match u.lots with
      | some lots => j.observeQuantities ⟨identity, .destination, scope, lots, none, none, "lots", now⟩
      | none => j

/-- The journal with an attempt in flight. -/
def dispatching (j : Journal) (identity : String) (key : ActionKey) (requestId : String) (action : Action)
    (destination : String) (request : Call) (now : String) : Journal :=
  let j : Journal := { j with attempts := j.attempts ++ [⟨identity, key, .dispatching⟩] }
  let j := j.updateTrade identity (TradeRow.setState .dispatching)
  { j with
    actions := j.actions ++ [⟨identity, key, j.broker.getD "", destination, requestId, action, request,
      .dispatching, "", "", now⟩] }

/-- Commit an attempt. Refused when the trade has an outcome in flight, unknown or final, when a
create would be the second one, or when the action was attempted before. -/
def claim (identity : String) (key : ActionKey) (requestId : String) (action : Action)
    (destination : String) (request : Call) (now : String) : Tx Bool := fun j =>
  match j.trade? identity with
  | none => .ok (false, j)
  | some t =>
    if t.state = .uncertain ∨ t.state = .dispatching ∨ t.state = .resolved then .ok (false, j)
    else if key = .create ∧ (t.brokerOrderId ≠ "" ∨ t.brokerPositionId ≠ "") then .ok (false, j)
    else if Rows.has AttemptRow.key (identity, key) j.attempts then .ok (false, j)
    else if Rows.has ActionRow.key (identity, key) j.actions then .error .integrity
    else .ok (true, j.dispatching identity key requestId action destination request now)

def finish (j : Journal) (identity : String) (key : ActionKey) (state : Outcome) (now : String) :
    Except Exc Journal :=
  match j.trade? identity with
  | none => .error (.type "'NoneType' object is not subscriptable")
  | some t => .ok { j with
      attempts := Rows.updateWhere (fun a => a.key = (identity, key)) (fun a => { a with state }) j.attempts
      actions := Rows.updateWhere (fun a => a.key = (identity, key))
        (fun a => { a with outcome := state, brokerOrderId := t.brokerOrderId,
                           brokerPositionId := t.brokerPositionId, updatedAt := now }) j.actions }

def observePositionOf (identity destination now : String) (j : Journal) (p : Position) : Journal :=
  let scope := j.destinationScope destination
  let j := j.link identity .destination scope .position p.id "broker order/position relationship" now
  let j := j.observePosition ⟨.destination, scope, p.id, p.volume, now⟩
  j.observeDestination {
    tradeId := identity, scope, positionId := p.id, reader := .openPositions, executionKey := p.id
    orderId := p.orderId, symbol := p.symbol, side := p.side, volume := p.volume, openPrice := p.openPrice
    openTime := p.openTime, openTimeMillis := p.openTimeMillis, closeTime := none, closeReason := none
    firstSeenAt := now, updatedAt := now }

/-- The text of a quantity that keys a closing execution, the same for every spelling of it. -/
def executionQuantity (volume : Decimal) : String :=
  match volume.normalize with
  | .ok d => d.toString
  | .error _ => volume.toString

def orElse (a : Option String) (b : String) : String :=
  match a with
  | some s => if s = "" then b else s
  | none => b

def executionKey (t : ClosedTrade) : String :=
  orElse t.uid (orElse t.closingOrderID (t.id ++ "@" ++ t.time ++ ":" ++ executionQuantity t.volume))

def observeClosedOf (identity destination now : String) (j : Journal) (t : ClosedTrade) : Journal :=
  j.observeDestination {
    tradeId := identity, scope := j.destinationScope destination, positionId := t.id, reader := .closedPositions
    executionKey := executionKey t, orderId := t.closingOrderID, symbol := t.symbol, side := t.side
    volume := t.volume, openPrice := t.openPrice, openTime := some t.openTime, openTimeMillis := none
    closeTime := some t.time, closeReason := t.closeReason, firstSeenAt := now, updatedAt := now }

/-- The first reason written for an attempt stays; it must name an origin, a code and evidence. -/
def recordReason (identity : String) (key : ActionKey) (attempt : Nat) (outcome : Outcome) (reason : Reason)
    (now : String) (j : Journal) : Except Exc Journal :=
  if blank reason.origin ∨ blank reason.code ∨ blank reason.evidence then
    .error (.value "Refusing to record an outcome reason without origin, code and evidence")
  else .ok { j with
    reasons := Rows.insertNew ReasonRow.key
      ⟨identity, key, attempt, reason.origin, outcome, reason.code, reason.evidence, now⟩ j.reasons }

/-- The ledger's own start: check the journal's schema and broker, migrate a legacy journal, and
close the action history of interrupted attempts. -/
def initMapping (broker : String) (j : Journal) : Except Exc Journal :=
  if j.schemaVersion.any fun v => v ≠ "1.0.0" ∧ v ≠ mappingSchemaVersion then
    .error (.value "Unsupported mapping journal schema version")
  else if j.broker.any fun b => b ≠ broker then
    .error (.value "Capture journal belongs to another broker; use its own data directory")
  else
    let j := { j with broker := some broker, schemaVersion := some mappingSchemaVersion }
    let j := if j.legacyMigrated then j else { j.trades.foldl migrate j with legacyMigrated := true }
    .ok { j with
      actions := Rows.updateWhere (fun a => a.outcome = .dispatching) (fun a => { a with outcome := .uncertain })
        j.actions }
where
  migrate (j : Journal) (t : TradeRow) : Journal :=
    let j := j.link t.tradeId .source (.source t.scope) .order t.sourceOrderId "legacy journal" t.updatedAt
    let j := j.link t.tradeId .source (.source t.scope) .position t.sourcePositionId "legacy journal" t.updatedAt
    if t.destination = "" then j
    else
      let scope := j.destinationScope t.destination
      -- Older code substituted the position id for an absent order id.
      let j := if t.brokerOrderId ≠ t.brokerPositionId then
          j.link t.tradeId .destination scope .order t.brokerOrderId "legacy journal" t.updatedAt
        else if t.brokerOrderId ≠ "" then
          j.updateTrade t.tradeId fun r => { r with brokerOrderId := "", state := .uncertain }
        else j
      j.link t.tradeId .destination scope .position t.brokerPositionId "legacy journal" t.updatedAt

def interrupted (j : Journal) : List AttemptRow := j.attempts.filter fun a => a.state = .dispatching

def recover (j : Journal) : Journal :=
  { j with
    trades := Rows.updateWhere (fun t => t.state = .dispatching) (TradeRow.setState .uncertain) j.trades
    attempts := Rows.updateWhere (fun a => a.state = .dispatching) (fun a => { a with state := .uncertain })
      j.attempts }

end Journal

namespace Store

/-- A transaction that returns nothing. -/
def change (f : Journal → Except Exc Journal) : Act Unit := transact fun j => (f j).map fun j => ((), j)

def record (event : CaptureEvent) : Act (EventRow × Bool) := do
  let at_ ← now
  let identity ← uuid4
  transact (Journal.recordEvent event at_.isoformat identity)

def trade (identity : String) : Act (Option TradeRow) := reads fun w => w.journal.trade? identity

def update (identity : String) (u : TradeUpdate) : Act Unit := do
  let at_ ← now
  change fun j => .ok (j.update identity u at_.isoformat)

def claim (identity : String) (key : ActionKey) (requestId : String) (action : Action) (destination : String)
    (request : Call) : Act Bool := do
  let at_ ← now
  transact (Journal.claim identity key requestId action destination request at_.isoformat)

def finish (identity : String) (key : ActionKey) (state : Outcome) : Act Unit := do
  let at_ ← now
  change fun j => j.finish identity key state at_.isoformat

def observePositions (identity destination : String) (positions : List Position) : Act Unit := do
  let at_ ← now
  change fun j => .ok (positions.foldl (Journal.observePositionOf identity destination at_.isoformat) j)

def observeClosed (identity destination : String) (trades : List ClosedTrade) : Act Unit := do
  let at_ ← now
  change fun j => .ok (trades.foldl (Journal.observeClosedOf identity destination at_.isoformat) j)

def recordReason (identity : String) (key : ActionKey) (attempt : Nat) (outcome : Outcome) (reason : Reason) :
    Act Unit := do
  let at_ ← now
  change fun j => j.recordReason identity key attempt outcome reason at_.isoformat

def decision (seq : Nat) (status : Decision) (reason : String) : Act Unit :=
  change fun j => .ok { j with
    events := Rows.updateWhere (fun e => e.seq = seq) (fun e => { e with decision := status, reason }) j.events }

def actionKeyText : ActionKey → String
  | .create => "CREATE"
  | .other action suffix => action.text ++ ":" ++ suffix

def interruptedProcessing (a : AttemptRow) : Reason :=
  { origin := "local", code := "InterruptedProcessing"
    evidence := "durable attempt trade_id=" ++ a.tradeId ++ " action_key=" ++ actionKeyText a.actionKey }

/-- Open the journal: attempts a stopped process left in flight become uncertain, each with its reason. -/
def openJournal (broker : String) : Act Unit := do
  change (Journal.initMapping broker)
  let interrupted ← transact fun j => .ok (j.interrupted, j.recover)
  interrupted.forM fun a => recordReason a.tradeId a.actionKey 1 .uncertain (interruptedProcessing a)

end Store

end MatchTrader
