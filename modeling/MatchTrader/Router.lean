import MatchTrader.Store
import MatchTrader.Verified

/-! The capture router: the reception of native events, the validation of destination
instruments, and the dispatch on arrival that only an armed router performs. -/

namespace MatchTrader

open Durable

variable [Host]

/-- A check on the broker's reply failed; the reason says that the broker had replied. -/
def unverified (message : String) : Exc :=
  { Exc.runtime message with
    reason := some ⟨"local", "RuntimeError", "broker replied to the write; response failed router validation"⟩ }

def persistenceFailed (e : Exc) : Exc :=
  if e.reason.isSome then e
  else { e with
    reason := some ⟨"local", e.name, "broker accepted the write; local persistence of the accepted state failed"⟩ }

def unconfirmedReason (e : Exc) (identity : String) (key : ActionKey) : Reason :=
  { origin := "unconfirmed", code := e.name
    evidence := "no structured broker or wire evidence was attached; reconcile using trade " ++ identity
      ++ " action " ++ Store.actionKeyText key }

def failureReason (e : Exc) (identity : String) (key : ActionKey) : Reason :=
  match e.reason with
  | some r => if r.origin ≠ "" ∧ r.code ≠ "" ∧ r.evidence ≠ "" then r else unconfirmedReason e identity key
  | none => unconfirmedReason e identity key

/-- Land a failed or unconfirmed write: record why, mark the trade uncertain, close the attempt. -/
def recordFailure (identity : String) (key : ActionKey) (e : Exc) : Act (Decision × String) := do
  tryCatch (Store.recordReason identity key 1 .uncertain (failureReason e identity key)) fun _ => pure ()
  Store.update identity { state := some .uncertain }
  Store.finish identity key .uncertain
  return (.uncertain, "Write outcome requires broker reconciliation; not retried")

/-- The part of an event that the destination's price grid and limits concern. -/
structure Priced where
  action : Action
  side : Side
  orderType : OrderType
  price : Decimal
  sl : Decimal
  tp : Decimal

def CaptureEvent.priced (e : CaptureEvent) : Priced := ⟨e.action, e.side, e.orderType, e.price, e.sl, e.tp⟩

/-- The one destination instrument row, or a refusal. -/
def instrumentInfo (api : Api) (symbol : String) : Act Instrument := do
  match (← instruments api).filter fun i => i.symbol = symbol with
  | [info] => return info
  | _ => throw (Exc.value "Destination instrument is not uniquely available")

/-- Round to `precision` decimals, half up; zero means no price and stays. -/
def onGrid (precision : Option Int) (value : Decimal) : Except Exc Decimal :=
  match precision with
  | none => .ok value
  | some p =>
    if value.isZero then .ok value
    else do arith (value.quantize .halfUp (← arith (Decimal.scaleb (.ofNat 1) (-p))))

def quantisePrices (info : Instrument) (p : Priced) : Except Exc Priced := do
  let price ← onGrid info.pricePrecision p.price
  let sl ← onGrid info.pricePrecision p.sl
  let tp ← onGrid info.pricePrecision p.tp
  return { p with price, sl, tp }

/-- `Decimal(str(info[k]))`. -/
def limit (d : Option Decimal) : Except Exc Decimal :=
  match d with
  | some d => .ok d
  | none => .error (.ofSignal .invalidOperation)

/-- The quantity is outside the destination's limits or off its step. -/
def violatesLimits (minimum maximum step lots : Decimal) : Except Exc Bool :=
  if step ≤ 0 ∨ ¬ (minimum ≤ lots ∧ lots ≤ maximum) then .ok true
  else (arith (lots.mod step)).map fun r => !r.isZero

def checkInstrument (info : Instrument) (lots : Decimal) (p : Priced) : Except Exc Priced := do
  let p ← quantisePrices info p
  let minimum ← limit info.volumeMin
  let maximum ← limit info.volumeMax
  let step ← limit info.volumeStep
  raiseIf (← violatesLimits minimum maximum step lots) (.value "Quantity violates destination lot limits/step")
  raiseIf (info.closeOnly ∧ p.action = .create) (.value "Destination instrument is close-only")
  raiseIf (info.longOnly ∧ p.side = .sell ∧ p.action = .create) (.value "Destination instrument is long-only")
  if (p.action = .create ∨ p.action = .edit) ∧ p.orderType ≠ .market then
    raiseIf (p.price ≤ 0) (.value "Pending entry must be positive")
    raiseIf (p.side = .buy ∧ ((!p.sl.isZero ∧ p.price ≤ p.sl) ∨ (!p.tp.isZero ∧ p.tp ≤ p.price)))
      (.value "BUY brackets are on the wrong side of entry")
    raiseIf (p.side = .sell ∧ ((!p.sl.isZero ∧ p.sl ≤ p.price) ∨ (!p.tp.isZero ∧ p.price ≤ p.tp)))
      (.value "SELL brackets are on the wrong side of entry")
  return p

/-- Validate the destination instrument and put the prices on its grid. -/
def validateInstrument (api : Api) (symbol : String) (lots : Decimal) (p : Priced) : Act Priced :=
  tryCatch (do
    let info ← instrumentInfo api symbol
    Prog.ofExcept (checkInstrument info lots p)) fun e =>
      if e.kind = .keyError ∨ e.kind = .typeError then
        throw (Exc.value "Destination instrument limits could not be verified")
      else throw e

/-- The positions with the trade's exact position id or opening order id, symbol and side. -/
def relatedPositions (t : TradeRow) (symbol side : String) (positions : List Position) : List Position :=
  positions.filter fun p =>
    ((t.brokerPositionId ≠ "" ∧ p.id = t.brokerPositionId) ∨ (t.brokerOrderId ≠ "" ∧ p.orderId = some t.brokerOrderId))
      ∧ p.symbol = symbol ∧ p.side = side

/-- Within the window in which an event may still be acted on. -/
def fresh (now t : Instant) : Bool := -5000000 ≤ now.since t ∧ now.since t ≤ 30000000

structure Arming where
  armed : Bool
  armedAt : Option Instant
  demoVerified : Bool

def disarmed : Arming := ⟨false, none, false⟩

structure NativeResult where
  eventId : String
  tradeId : Option String
  status : Decision
  reason : String
  brokerOrderId : String := ""
  brokerPositionId : String := ""
  duplicate : Bool
  request : Option Call := none
  response : Option (Except String Operation) := none

namespace Router

/-- What an accepted action leaves the trade in. -/
inductive Settled where
  | create
  | edit
  | cancel (related : Bool)
  | close (whole orderLeft : Bool)

/-- A single related position is the trade's own. -/
def noteRelated (identity : String) : List Position → Act Unit
  | [p] => Store.update identity { brokerPositionId := some p.id }
  | _ => pure ()

/-- The broker call of an action on a position. -/
def planPosition (e : CaptureEvent) (p : Priced) (symbol : String) (lots : Decimal) (position : Position)
    (orderLeft : Bool) : Except Exc (Call × Settled) := do
  if e.action = .close then
    raiseIf (position.volume < lots) (.value "Close exceeds mapped destination position")
    let request : CloseRequest := ⟨symbol, e.side.text, position.id, lots⟩
    return (if lots.same position.volume then .closePosition request else .partialClose request,
      .close (lots.same position.volume) orderLeft)
  else
    raiseIf (!lots.same position.volume) (.value "Position edit cannot change volume; use partial close")
    return (.editPosition ⟨symbol, e.side.text, position.id, lots, p.sl, p.tp⟩, .edit)

/-- The broker call of an action on a copy that exists. -/
def planChange (e : CaptureEvent) (p : Priced) (t : TradeRow) (symbol destination : String) (lots : Decimal)
    (api : Api) : Act (Call × Settled) := do
  raiseIf (t.symbol ≠ symbol ∨ t.side ≠ e.side.text) (.value "Source edit does not match mapped instrument/side")
  let pending ← activeOrders api
  let positions ← openPositions api destination
  let related := relatedPositions t symbol e.side.text (leavesAll positions)
  Store.observePositions t.tradeId destination related
  noteRelated t.tradeId related
  let order := (pending.filter fun o => o.id = t.brokerOrderId).getLast?
  match e.action, order, related with
  | .cancel, none, _ =>
    throw (Exc.value "Mapped pending order is absent; reconcile fill/cancel before acting")
  | .cancel, some o, _ =>
    return (.cancelPendingOrder ⟨symbol, t.brokerOrderId, e.side.text, o.type⟩, .cancel (!related.isEmpty))
  | action, order, related =>
    match (if action = .edit ∧ e.orderId ≠ "" then order else none), related with
    | some o, _ =>
      return (.editPendingOrder ⟨symbol, e.side.text, t.brokerOrderId, o.type, lots, p.price, p.sl, p.tp⟩, .edit)
    | none, [position] =>
      let journal ← reads World.journal
      Prog.ofExcept (journal.guardPosition t.tradeId)
      Prog.ofExcept (planPosition e p symbol lots position order.isSome)
    | none, _ => throw (Exc.value "No unambiguous open-position mapping; manual reconciliation required")

def openCall (orderType : OrderType) (symbol : String) (side : Side) (lots : Decimal) (p : Priced) : Call :=
  if orderType = .market then .openPosition ⟨symbol, side.text, lots, p.sl, p.tp, none⟩
  else .createPendingOrder ⟨symbol, side.text, lots, p.sl, p.tp, some (orderType.text, p.price)⟩

/-- The state an accepted reply leaves the trade in. -/
def settle (e : CaptureEvent) (identity : String) (reply : Operation) (s : Settled) (now : Instant) :
    Journal → Except Exc TradeUpdate := fun j =>
  let placed : TradeState := if e.orderType ≠ .market then .pending else .opened
  match s with
  | .create =>
    if reply.orderId.getD "" = "" ∧ reply.positionId.getD "" = "" then
      .error (unverified "Broker identity missing after submission")
    else .ok { state := some placed, brokerOrderId := some (reply.orderId.getD "")
               brokerPositionId := reply.positionId.filter fun p => p ≠ "" }
  | .edit => .ok { state := some placed }
  | .cancel related =>
    if related ∨ j.ids identity .destination .position ≠ [] then .ok { state := some .opened }
    else .ok { state := some .resolved, resolvedAt := some now.isoformat }
  | .close whole orderLeft =>
    if whole ∧ !orderLeft then .ok { state := some .resolved, resolvedAt := some now.isoformat }
    else .ok { state := some (if orderLeft ∧ whole then .pending else .opened) }

def actionKey (e : CaptureEvent) : ActionKey :=
  if e.action = .create then .create else .other e.action e.requestId

/-- Write the claimed action to the broker and land its outcome. -/
def perform (e : CaptureEvent) (owner : Owner) (identity : String) (api : Api) (call : Call) (s : Settled) :
    Act (Decision × String) :=
  tryCatch (do
    let reply ← invoke owner api call
    raiseIf (reply.status.getD "" ≠ "" ∧ reply.status ≠ some "OK") (unverified "Unrecognized broker status")
    raiseIf ((e.action = .cancel ∨ e.action = .close) ∧ reply.status ≠ some "OK")
      (unverified "Explicit completion status required")
    let at_ ← now
    let journal ← reads World.journal
    let values ← Prog.ofExcept (settle e identity reply s at_ journal)
    tryCatch (do
      Store.update identity values
      Store.finish identity (actionKey e) .accepted) fun e => throw (persistenceFailed e)
    return (.accepted, "Broker accepted the mapped action")) fun exc =>
      recordFailure identity (actionKey e) exc

/-- The checks of an event against its trade and the route; the destination's symbol with its
limits, and the converted quantity. -/
def admission (route : RouteConfig) (e : CaptureEvent) (t : TradeRow) (destination : String) :
    Except Exc (SymbolRoute × Decimal) := do
  -- Lifecycle actions follow the original attribution of an exactly linked trade.
  let source := if e.action ≠ .create then t.source else e.source
  let mapping ← (route.matchEvent e source).mapError Exc.value
  raiseIf (t.lastEventAt.any fun last => e.emittedAt < last)
    (.value "Out-of-order action predates the latest dispatched action")
  raiseIf (t.state = .dispatching ∨ t.state = .uncertain ∨ t.state = .resolved)
    (.value "Trade is resolved or needs reconciliation; no automatic retry")
  raiseIf (t.destination ≠ "" ∧ t.destination ≠ destination) (.value "Trade already belongs to another destination")
  raiseIf (e.action = .create ∧ (t.brokerOrderId ≠ "" ∨ t.brokerPositionId ≠ ""))
    (.value "Trade already has a destination order")
  raiseIf (e.action ≠ .create ∧ t.brokerOrderId = "" ∧ t.brokerPositionId = "")
    (.value "No confirmed destination mapping for this source trade")
  raiseIf (!e.bracketsAbsolute) (.value "Offset brackets require an explicit absolute-price conversion")
  raiseIf (e.orderType = .stopLimit ∨ e.orderType = .unknown)
    (.value "Unsupported order type; stop-limit is not silently converted")
  raiseIf (e.side = .blank) (.value "Missing side")
  let lots ← arith (e.quantity.mul mapping.quantityMultiplier)
  return (mapping, lots)

/-- The prices to act with: on the destination's grid where the action sets or sizes them. -/
def priced (e : CaptureEvent) (mapping : SymbolRoute) (lots : Decimal) (api : Api) : Act Priced :=
  if e.action = .create ∨ e.action = .edit ∨ e.action = .close then do
    raiseIf (lots ≤ 0 ∨ mapping.maxLots < lots) (Exc.value "Converted quantity is outside route limit")
    validateInstrument api mapping.destination lots e.priced
  else pure e.priced

def plan (e : CaptureEvent) (p : Priced) (t : TradeRow) (symbol destination : String) (lots : Decimal) (api : Api) :
    Act (Call × Settled) :=
  if e.action = .create then pure (openCall e.orderType symbol e.side lots p, Settled.create)
  else planChange e p t symbol destination lots api

/-- Commit the attempt before the write, under the destination's account and instrument. -/
def commit (e : CaptureEvent) (t : TradeRow) (symbol destination : String) (lots : Decimal) (api : Api) (call : Call)
    (s : Settled) : Act (Decision × String) := do
  let claimed ← Store.claim t.tradeId (actionKey e) e.requestId e.action destination call
  raiseIf (!claimed) (Exc.value "Action already attempted; it will not be sent again")
  Store.update t.tradeId {
    destination := some destination, symbol := some symbol, side := some e.side.text
    lots := some (if e.action = .create ∨ e.action = .edit then some lots else t.lots)
    orderType := some e.orderType.text, lastRequest := some e.requestId, lastEventAt := some e.emittedAt }
  perform e (.trade ⟨t.tradeId, actionKey e, .router, e.machine, e.sourceLabel, destination⟩) t.tradeId api call s

def dispatch (arming : Arming) (route : Option RouteConfig) (e : CaptureEvent) (identity : Option String)
    (api : Option Api) (destination : String) : Act (Decision × String) := do
  match (if arming.armed ∧ arming.demoVerified then route else none), api with
  | some route, some api =>
    raiseIf (destination ≠ route.destinationAccount) (Exc.value "Selected destination does not match route")
    let at_ ← now
    raiseIf (e.snapshot ∨ !fresh at_ e.emittedAt)
      (Exc.value "Snapshot or expired event; never replay old trades")
    raiseIf (arming.armedAt.any fun armedAt => e.emittedAt < armedAt)
      (Exc.value "Event predates enabling copying; never replay the off period")
    match identity.filter fun _ => e.requestId ≠ "" with
    | none => throw (Exc.value "Missing source trade/request identity")
    | some identity =>
      match ← Store.trade identity with
      | none => throw (Exc.type "'NoneType' object is not subscriptable")
      | some t =>
        let (mapping, lots) ← Prog.ofExcept (admission route e t destination)
        let p ← priced e mapping lots api
        let (call, settled) ← plan e p t mapping.destination destination lots api
        commit e t mapping.destination destination lots api call settled
  | _, _ => throw (Exc.value "Copying is not armed with a verified demo destination")

/-- The outcome of an event whose processing was left incomplete. -/
def recoverDecision (e : CaptureEvent) (row : EventRow) (uncertain : Bool) (prior : Option Outcome) :
    Act (Decision × String) :=
  if row.decision = .captured ∧ e.kind = .accepted ∧ e.action ≠ .observe then do
    let decision : Decision := if uncertain ∨ prior = some .dispatching ∨ prior = some .uncertain then .uncertain
      else if prior = some .accepted then .accepted else .held
    let reason := if prior.isSome then "Recovered prior attempt; no replay"
      else "Prior event processing incomplete; no automatic replay"
    Store.decision row.seq decision reason
    return (decision, reason)
  else return (row.decision, row.reason)

/-- An event that was recorded before: its outcome is recovered, never its write repeated. -/
def receiveAgain (e : CaptureEvent) (row : EventRow) : Act NativeResult := do
  let journal ← reads World.journal
  let trade := row.tradeId.bind journal.trade?
  let uncertain := trade.any fun t => t.state = .uncertain ∨ t.state = .dispatching
  let prior := (row.tradeId.bind fun id => journal.attempt? id (actionKey e)).map AttemptRow.state
  let (decision, reason) ← recoverDecision e row uncertain prior
  return {
    eventId := e.eventId, tradeId := row.tradeId, status := if uncertain then .uncertain else decision
    reason := if uncertain then "Prior dispatch needs reconciliation" else reason
    brokerOrderId := (trade.map TradeRow.brokerOrderId).getD ""
    brokerPositionId := (trade.map TradeRow.brokerPositionId).getD "", duplicate := true }

/-- Dispatch an accepted action; a failure before the write leaves it held. -/
def dispatchOnArrival (arming : Arming) (route : Option RouteConfig) (e : CaptureEvent) (identity : Option String)
    (api : Option Api) (destination : String) : Act (Decision × String) :=
  if e.kind = .accepted ∧ e.action ≠ .observe then
    tryCatch (dispatch arming route e identity api destination) fun exc =>
      if exc.isValueError then pure (.held, exc.message)
      else pure (.held, "Preflight read failed; no broker write attempted")
  else pure (.captured, "Native observation; no broker action")

def receive (arming : Arming) (route : Option RouteConfig) (e : CaptureEvent) (api : Option Api)
    (destination : String) : Act NativeResult := do
  let (row, duplicate) ← Store.record e
  if duplicate then receiveAgain e row
  else
    let (status, reason) ← dispatchOnArrival arming route e row.tradeId api destination
    Store.decision row.seq status reason
    let journal ← reads World.journal
    let trade := row.tradeId.bind journal.trade?
    return {
      eventId := e.eventId, tradeId := row.tradeId, status, reason
      brokerOrderId := (trade.map TradeRow.brokerOrderId).getD ""
      brokerPositionId := (trade.map TradeRow.brokerPositionId).getD "", duplicate := false }

end Router

end MatchTrader
