import Mathlib.Data.List.Infix
import MatchTrader.ManualSend

/-! The removal of exposure: a cancel or close of the source acts on the order or the
position that was sent for its lifecycle, whatever the switches say. -/

namespace MatchTrader

open Durable

variable [Host]

/-- The end of a lifecycle, as its source reports it. -/
structure Ending where
  kind : String
  machineId : String
  label : String
  clientEventId : String
  timestampUtc : Instant
  symbol : String

def isCancelKind (kind : String) : Bool := kind = "cancelled" || kind = "cancel"
def isCloseKind (kind : String) : Bool := kind = "closed"
def isEndKind (kind : String) : Bool := isCancelKind kind || isCloseKind kind

/-- Trades whose accepted create signal carries a machine and a lifecycle label. -/
def Journal.linkedTrades (j : Journal) (machine label : String) : List TradeRow :=
  if machine = "" ∨ label = "" then []
  else
    let ids := (j.events.filter fun e => e.payload.kind = .accepted ∧ e.payload.action = .create
      ∧ e.payload.machine = machine ∧ e.payload.sourceLabel = label).filterMap EventRow.tradeId
    ids.reverse.dedup.reverse.filterMap j.trade?

namespace Unwind

structure Outcome where
  decision : Decision
  reason : String
  tradeId : Option String := none
  request : Option Call := none
  response : Option (Except String Operation) := none

/-- The cancel of an order that still rests at the broker and matches its stored copy. -/
def pendingOrderRequest (api : Api) (orderId instrument side : String) (type : Option String) :
    Act CancelRequest := do
  match (← activeOrders api).filter fun o => o.id = orderId with
  | [o] =>
    raiseIf (o.symbol ≠ instrument ∨ o.side ≠ side ∨ some o.type ≠ type)
      (Exc.value "Broker order does not match the stored copy")
    return ⟨o.symbol, o.id, o.side, o.type⟩
  | _ => throw (Exc.value "Linked order is no longer pending; no position is closed")

/-- A broker write with what its acceptance sets. -/
structure Plan where
  call : Call
  values : TradeUpdate
  summary : String

def orDash (s : String) : String := if s = "" then "-" else s

/-- The instrument, side and type of the create as it was sent, else of the trade's own row. -/
def storedCopy (j : Journal) (t : TradeRow) : String × String × Option String :=
  match Rows.lookup ActionRow.key (t.tradeId, ActionKey.create) j.actions with
  | some a => (a.request.instrument, a.request.orderSide, a.request.type?)
  | none => (t.symbol, t.side, some t.orderType)

def planCancel (t : TradeRow) (api : Api) (label because : String) : Act Plan := do
  let journal ← reads World.journal
  let (instrument, side, type) := storedCopy journal t
  let request ← tryCatch (pendingOrderRequest api t.brokerOrderId instrument side type) fun exc =>
    if exc.isValueError then
      throw (Exc.refuse
        (if "does not match".toList <:+: exc.message.toList then "OrderMismatch" else "OrderNotPending")
        (exc.message ++ " (trade " ++ t.tradeId ++ ", broker order " ++ t.brokerOrderId ++ ", lifecycle "
          ++ Host.repr label ++ ")"))
    else throw exc
  let at_ ← now
  -- Cancelling a remaining pending quantity does not close its filled position.
  let values : TradeUpdate :=
    if journal.ids t.tradeId .destination .position ≠ [] then { state := some .opened }
    else { state := some .resolved, resolvedAt := some at_.isoformat }
  return ⟨.cancelPendingOrder request, values,
    "Broker accepted the cancel of pending order " ++ t.brokerOrderId ++ " for trade " ++ t.tradeId
      ++ " on the source's " ++ because ++ " of lifecycle " ++ Host.repr label⟩

def guardAgain (identity : String) (refusal : String → Exc) : Act Unit := do
  let journal ← reads World.journal
  match journal.guardPosition identity with
  | .ok () => pure ()
  | .error e => throw (refusal e.message)

/-- Keep the positions a read related to the trade. The read can reveal a shared position for the first time. -/
def observeRelated (t : TradeRow) (destination : String) (related : List Position) : Act Unit :=
  if related.isEmpty then pure ()
  else do
    Store.observePositions t.tradeId destination related
    guardAgain t.tradeId fun message => Exc.refuse "PositionGuard"
      (message ++ "; trade " ++ t.tradeId ++ " was not closed")

def noteRelated (t : TradeRow) (p : Position) : Act Unit :=
  if t.brokerPositionId = "" then Store.update t.tradeId { brokerPositionId := some p.id } else pure ()

def planClose (t : TradeRow) (api : Api) (destination label : String) : Act Plan := do
  guardAgain t.tradeId fun message => Exc.refuse "PositionGuard"
    (message ++ "; trade " ++ t.tradeId ++ " (position " ++ orDash t.brokerPositionId
      ++ ") was not closed for lifecycle " ++ Host.repr label)
  let positions ← openPositions api destination
  let related := relatedPositions t t.symbol t.side (leavesAll positions)
  observeRelated t destination related
  match related with
  | [p] =>
    noteRelated t p
    let at_ ← now
    return ⟨.closePosition ⟨p.symbol, p.side, p.id, p.volume⟩,
      { state := some .resolved, resolvedAt := some at_.isoformat },
      "Broker accepted the close of position " ++ p.id ++ " (" ++ p.volume.toString ++ " lots) for trade "
        ++ t.tradeId ++ " on the source's close of lifecycle " ++ Host.repr label⟩
  | [] =>
    if t.brokerOrderId ≠ "" then planCancel t api label "close (the copy was still a resting order)"
    else throw (Exc.refuse "NothingOpen"
      ("Broker returned no open position " ++ t.brokerPositionId ++ " for trade " ++ t.tradeId ++ " (" ++ t.symbol
        ++ " " ++ t.side ++ "); it may already be closed - reconcile closed history for lifecycle "
        ++ Host.repr label))
  | _ => throw (Exc.refuse "AmbiguousPosition"
      ("Broker returned " ++ Nat.repr related.length ++ " positions (" ++ ", ".intercalate (related.map Position.id)
        ++ ") for trade " ++ t.tradeId ++ "; no unambiguous position to close for lifecycle " ++ Host.repr label))

def verb (action : Action) : String := if action = .cancel then "cancel" else "close"

def ids (t : TradeRow) : String :=
  "order " ++ orDash t.brokerOrderId ++ ", position " ++ orDash t.brokerPositionId

/-- The checks that need no broker read; what is left is the session to act through. -/
def check (j : Journal) (t : TradeRow) (s : Ending) (api : Option Api) (destination : String) (verified : Bool)
    (action : Action) : Except Exc Api := do
  raiseIf ((j.candidateEvent t.tradeId).any fun e => s.symbol ≠ "" ∧ e.symbol ≠ "" ∧ e.symbol ≠ s.symbol)
    (.refuse "LabelSymbolMismatch"
      ("Lifecycle " ++ Host.repr s.label ++ " matched trade " ++ t.tradeId ++ " but the signal names "
        ++ Host.repr s.symbol ++ " while the captured order is "
        ++ Host.repr ((j.candidateEvent t.tradeId).elim "" CaptureEvent.symbol) ++ "; nothing was sent"))
  raiseIf (t.brokerOrderId = "" ∧ t.brokerPositionId = "")
    (.refuse "LifecycleEndedBeforeSend"
      ("Lifecycle " ++ Host.repr s.label ++ " ended at the source but trade " ++ t.tradeId ++ " was "
        ++ (if j.paperSent t.tradeId then "sent in paper mode only" else "never sent live")
        ++ " and holds no broker order or position id; nothing exists at the broker to " ++ verb action))
  raiseIf (t.destination ≠ destination)
    (.refuse "OtherDestination"
      ("Trade " ++ t.tradeId ++ " was sent to account " ++ Host.repr t.destination ++ ", not the selected "
        ++ Host.repr destination ++ "; select that account so the " ++ verb action ++ " can act"))
  raiseIf (t.state = .uncertain ∨ t.state = .dispatching)
    (.refuse "TradeUncertain"
      ("Trade " ++ t.tradeId ++ " is " ++ t.state.text ++ " (" ++ ids t
        ++ "); reconcile it before any further broker action"))
  raiseIf (t.state = .resolved)
    (.refuse "AlreadyResolved"
      ("Trade " ++ t.tradeId ++ " was already resolved at " ++ t.resolvedAt.getD "None" ++ "; nothing left to "
        ++ verb action))
  match (if verified then api else none) with
  | none => .error (.refuse "DestinationNotConnected"
      ("Account " ++ Host.repr destination ++ " is not connected; the " ++ verb action ++ " for trade " ++ t.tradeId
        ++ " (" ++ ids t ++ ") was not sent"))
  | some api => do
    raiseIf (api.accountId ≠ destination)
      (.refuse "AccountMismatch" "The broker connection belongs to a different account; nothing was sent")
    raiseIf (!api.enableWrites)
      (.refuse "WritesDisabled"
        ("Broker writes are disabled for this dashboard process (enable writes for this broker in your local .env); "
          ++ "the " ++ verb action ++ " for trade " ++ t.tradeId ++ " was not sent"))
    return api

def prepare (t : TradeRow) (s : Ending) (api : Option Api) (destination : String) (verified : Bool)
    (action : Action) : Act (Api × Plan) := do
  let journal ← reads World.journal
  let api ← Prog.ofExcept (check journal t s api destination verified action)
  if action = .cancel then
    raiseIf (t.brokerOrderId = "")
      (Exc.refuse "NoBrokerOrderId"
        ("Trade " ++ t.tradeId ++ " holds position " ++ t.brokerPositionId
          ++ " and no pending order; a cancel never closes a filled position, so nothing was sent for lifecycle "
          ++ Host.repr s.label))
    return (api, ← planCancel t api s.label "cancel")
  else return (api, ← planClose t api destination s.label)

/-- A refusal is recorded; it never touches the trade's state. -/
def refuse (identity : String) (key : ActionKey) (code correlation : String) : Act Unit :=
  Store.recordReason identity key 1 .held
    ⟨"local", code, "local pre-check before any broker write; " ++ correlation⟩

def fail (identity : String) (key : ActionKey) (call : Call) (correlation : String)
    (response : Option Operation) (exc : Exc) : Act Outcome := do
  let (decision, reason) ← recordFailure identity key exc
  return {
    decision, tradeId := some identity, request := some call
    reason := reason ++ ": " ++ exc.name ++ " during " ++ correlation ++ "; see outcome_reasons for trade "
      ++ identity
    response := some (match response with
      | some reply => .ok reply
      | none => .error exc.name) }

/-- The client refused the write before the wire: nothing was sent, so the trade is released. -/
def release (t : TradeRow) (key : ActionKey) (call : Call) (action : Action) (correlation : String) (exc : Exc) :
    Act Outcome := do
  Store.update t.tradeId { state := some t.state }
  Store.finish t.tradeId key .held
  Store.recordReason t.tradeId key 1 .held
    ⟨"local", exc.name, "client refused the write before any network activity; " ++ correlation⟩
  return {
    decision := .held, tradeId := some t.tradeId, request := some call
    reason := "Broker writes are disabled for this dashboard process (enable writes for this broker in your local "
      ++ ".env); the " ++ verb action ++ " for trade " ++ t.tradeId ++ " was not sent" }

/-- Write the claimed cancel or close and land its outcome. -/
def perform (owner : Owner) (t : TradeRow) (key : ActionKey) (api : Api) (plan : Plan) (action : Action)
    (correlation : String) : Act Outcome := do
  let reply : Except Outcome Operation ←
    tryCatch (Except.ok <$> invoke owner api plan.call) fun exc =>
      Except.error <$>
        if exc.kind = .writesDisabled then
          tryCatch (release t key plan.call action correlation exc) fun e =>
            fail t.tradeId key plan.call correlation none e
        else fail t.tradeId key plan.call correlation none exc
  match reply with
  | .error outcome => return outcome
  | .ok reply =>
    tryCatch (do
      raiseIf (reply.status ≠ some "OK") (unverified "Explicit completion status required")
      tryCatch (do
        Store.update t.tradeId plan.values
        Store.finish t.tradeId key .accepted
        Store.recordReason t.tradeId key 1 .accepted
          ⟨"broker", "OK", "broker write response status OK; request " ++ Host.dumps plan.call.kwargs ++ "; "
            ++ correlation⟩) fun e => throw (persistenceFailed e)
      return { decision := .accepted, reason := plan.summary, tradeId := some t.tradeId, request := some plan.call
               response := some (.ok reply) }) fun exc =>
        fail t.tradeId key plan.call correlation (some reply) exc

def actionOf (s : Ending) : Action := if isCancelKind s.kind then .cancel else .close

def correlationOf (s : Ending) : String :=
  s.kind ++ " signal " ++ s.machineId ++ ":" ++ s.clientEventId ++ " for lifecycle " ++ Host.repr s.label

def keyOf (s : Ending) : ActionKey := .other (actionOf s) ("signal:" ++ s.clientEventId)

/-- The checks and reads before anything is committed; a failure is recorded as a held action. -/
def preflight (t : TradeRow) (s : Ending) (api : Option Api) (destination : String) (verified : Bool) :
    Act (Except Outcome (Api × Plan)) :=
  tryCatch (Except.ok <$> prepare t s api destination verified (actionOf s)) fun exc =>
    match exc.kind with
    | .refusal code => do
      refuse t.tradeId (keyOf s) code (correlationOf s)
      return .error { decision := .held, reason := exc.message, tradeId := some t.tradeId }
    | _ => do
      Store.recordReason t.tradeId (keyOf s) 1 .held
        (exc.reason.getD ⟨"local", exc.name, "preflight failed before a broker write; " ++ correlationOf s⟩)
      return .error {
        decision := .held, tradeId := some t.tradeId
        reason := "Preflight failed with " ++ exc.name ++ "; no broker write was attempted" }

/-- Commit the attempt before any network write; a crash leaves it uncertain, never retryable. -/
def commit (t : TradeRow) (s : Ending) (api : Api) (plan : Plan) (destination : String) : Act Outcome := do
  let claimed ← Store.claim t.tradeId (keyOf s) s.clientEventId (actionOf s) destination plan.call
  if !claimed then
    refuse t.tradeId (keyOf s) "AlreadyAttempted" (correlationOf s)
    return {
      decision := .held, tradeId := some t.tradeId
      reason := "Trade " ++ t.tradeId ++ " already has an attempt in flight or recorded; no second write for "
        ++ correlationOf s }
  else
    Store.update t.tradeId { lastRequest := some s.clientEventId, lastEventAt := some s.timestampUtc }
    perform (.trade ⟨t.tradeId, keyOf s, .unwind, s.machineId, s.label, destination⟩) t (keyOf s) api plan
      (actionOf s) (correlationOf s)

def applyTo (t : TradeRow) (s : Ending) (api : Option Api) (destination : String) (verified : Bool) :
    Act Outcome := do
  match ← preflight t s api destination verified with
  | .error outcome => return outcome
  | .ok (api, plan) => commit t s api plan destination

/-- Act on one cancel or closed signal against the ledger; nothing when no trade is linked. -/
def apply (s : Ending) (api : Option Api) (destination : String) (verified : Bool) (tradeId : Option String) :
    Act (Option Outcome) := do
  let journal ← reads World.journal
  match (match tradeId with
    | some id => (journal.trade? id).toList
    | none => journal.linkedTrades s.machineId s.label) with
  | [] => return none
  | [t] => return some (← applyTo t s api destination verified)
  | trades =>
    trades.forM fun t => refuse t.tradeId (keyOf s) "AmbiguousLifecycle" (correlationOf s)
    return some {
      decision := .held
      reason := Nat.repr trades.length ++ " sent trades share lifecycle " ++ Host.repr s.label ++ " on "
        ++ s.machineId ++ ": " ++ ", ".intercalate (trades.map TradeRow.tradeId) ++ "; the " ++ verb (actionOf s)
        ++ " is ambiguous and nothing was sent" }

end Unwind

end MatchTrader
