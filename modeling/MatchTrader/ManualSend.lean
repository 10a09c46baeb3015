import MatchTrader.Router

/-! The one-time submission of a candidate: every local check, then a paper record or a
committed attempt and a single broker write. -/

namespace MatchTrader

open Durable

variable [Host]

structure Controls where
  mode : Mode
  enabled : Source → Bool

def alreadySentText : String := "This trade was already sent once; it will not be sent again"
def paperReason : String := "Paper mode: exact broker request recorded; nothing was sent"

namespace Journal

/-- The accepted create signal that made a trade a candidate. -/
def candidateEvent (j : Journal) (tradeId : String) : Option CaptureEvent :=
  ((j.events.filter fun e => e.tradeId = some tradeId ∧ e.payload.kind = .accepted
    ∧ e.payload.action = .create).getLast?).map EventRow.payload

def paperSent (j : Journal) (tradeId : String) : Bool := j.papers.any fun p => p.tradeId = tradeId

def alreadySent (j : Journal) (tradeId : String) : Bool :=
  j.paperSent tradeId || j.attempts.any fun a => a.tradeId = tradeId

end Journal

namespace ManualSend

/-- The lot size as the caller gives it: finite and positive, never coerced from a boolean. -/
def parseVolume (volume : Json) : Except Exc Decimal := do
  let lots ← match volume with
    | .bool _ | .null => .error (.value "A positive volume is required")
    | .num d => .ok (some d)
    | .nonfinite => .ok none
    | .str s =>
      match Host.decimal s with
      | some d => .ok d
      | none => .error (.value "Volume must be a decimal number")
    | _ => .error (.value "Volume must be a decimal number")
  match lots with
  | some d => if 0 < d then .ok d else .error (.value "Volume must be a finite positive number")
  | none => .error (.value "Volume must be a finite positive number")

structure Prepared where
  trade : TradeRow
  event : CaptureEvent
  symbol : String
  lots : Decimal
  request : OpenRequest

/-- Every local check, before anything is written or sent. -/
def prepare (j : Journal) (controls : Controls) (tradeId : String) (volume : Json) (destination : String)
    (route : Option RouteConfig) : Except Exc Prepared :=
  match j.trade? tradeId with
  | none => .error (.value "Unknown trade")
  | some trade => do
    raiseIf (!controls.enabled trade.source)
      (.value ("Source " ++ trade.source.text ++ " is not enabled for copying"))
    let verdict ← classify (j.snapshot trade)
    raiseIf (trade.state ≠ .observed ∨ verdict.state ≠ .candidate)
      (.value ("Trade is not a candidate (state " ++ trade.state.text ++ ", " ++ verdict.state.text ++ ")"))
    raiseIf (trade.brokerOrderId ≠ "" ∨ trade.brokerPositionId ≠ "")
      (.value "Trade already has a destination order")
    raiseIf (trade.destination ≠ "" ∧ trade.destination ≠ destination)
      (.value "Trade already belongs to another destination")
    raiseIf (j.alreadySent tradeId) (.value alreadySentText)
    match j.candidateEvent tradeId with
    | none => .error (.value "No accepted CREATE signal is on record for this trade")
    | some event => do
      raiseIf (!event.bracketsAbsolute) (.value "Offset brackets require an explicit absolute-price conversion")
      raiseIf (event.orderType = .stopLimit ∨ event.orderType = .unknown)
        (.value "Unsupported order type; stop-limit is not silently converted")
      raiseIf (event.side = .blank) (.value "Missing side")
      let lots ← parseVolume volume
      let symbol := ((route.bind fun r => r.symbol? event.symbol).map SymbolRoute.destination).getD event.symbol
      raiseIf (symbol = "") (.value "Signal carries no instrument")
      return {
        trade, event, symbol, lots
        request := ⟨symbol, event.side.text, lots, event.sl, event.tp,
          if event.orderType ≠ .market then some (event.orderType.text, event.price) else none⟩ }

structure SendResult where
  tradeId : String
  mode : Mode
  status : Decision
  reason : String
  request : OpenRequest
  decidedAt : String
  brokerOrderId : String
  brokerPositionId : String

def paper (p : Prepared) (destination : String) : Act SendResult := do
  let at_ ← now
  let decidedAt := at_.isoformat
  let row : PaperRow := ⟨p.trade.tradeId, p.trade.source, destination, p.request, p.lots, decidedAt⟩
  Store.change fun j =>
    if j.papers.any fun r => r.tradeId = row.tradeId ∧ r.decidedAt = row.decidedAt then .error .integrity
    else .ok { j with papers := j.papers ++ [row] }
  return ⟨p.trade.tradeId, .paper, .paper, paperReason, p.request, decidedAt, "", ""⟩

/-- What an accepted reply to a create sets. -/
def acceptedValues (event : CaptureEvent) (reply : Operation) : Except Exc TradeUpdate := do
  raiseIf (reply.status.getD "" ≠ "" ∧ reply.status ≠ some "OK") (unverified "Unrecognized broker status")
  raiseIf (reply.orderId.getD "" = "" ∧ reply.positionId.getD "" = "")
    (unverified "Broker identity missing after submission")
  return {
    state := some (if event.orderType = .market then .opened else .pending)
    brokerOrderId := some (reply.orderId.getD ""), brokerPositionId := reply.positionId.filter fun p => p ≠ "" }

def live (owner : Owner) (p : Prepared) (request : OpenRequest) (api : Api) (tradeId : String) :
    Act SendResult := do
  let call := if p.event.orderType = .market then Call.openPosition request else .createPendingOrder request
  let (status, reason) ← tryCatch (do
    let reply ← invoke owner api call
    let values ← Prog.ofExcept (acceptedValues p.event reply)
    tryCatch (do
      Store.update tradeId values
      Store.finish tradeId .create .accepted) fun e => throw (persistenceFailed e)
    return (Decision.accepted, "Broker accepted the mapped action")) fun exc => recordFailure tradeId .create exc
  match ← Store.trade tradeId with
  | none => throw (Exc.type "'NoneType' object is not subscriptable")
  | some t => return ⟨tradeId, .live, status, reason, request, t.updatedAt, t.brokerOrderId, t.brokerPositionId⟩

/-- Dispatch one candidate. Paper never touches the session. -/
def send (entry : Entry) (controls : Controls) (tradeId : String) (volume : Json) (api : Option Api)
    (destination : String) (route : Option RouteConfig) : Act SendResult := do
  let journal ← reads World.journal
  let p ← Prog.ofExcept (prepare journal controls tradeId volume destination route)
  if controls.mode = .paper then paper p destination
  else
    match api with
    | none => throw (Exc.value "Connect the destination account before sending live")
    | some api =>
      let grid ← tryCatch (validateInstrument api p.symbol p.lots p.event.priced) fun exc =>
        if exc.isValueError then throw exc
        else throw (Exc.value
          ("Preflight instrument read failed (" ++ exc.name ++ "); no broker write attempted"))
      let request := { p.request with
        slPrice := grid.sl, tpPrice := grid.tp, pending := p.request.pending.map fun q => (q.1, grid.price) }
      let call := if p.event.orderType = .market then Call.openPosition request else .createPendingOrder request
      let claimed ← Store.claim tradeId .create p.event.requestId p.event.action destination call
      raiseIf (!claimed) (Exc.value "Action already attempted; it will not be sent again")
      Store.update tradeId {
        destination := some destination, symbol := some p.symbol, side := some p.event.side.text
        lots := some (some p.lots), orderType := some p.event.orderType.text
        lastRequest := some p.event.requestId, lastEventAt := some p.event.emittedAt }
      live (.trade ⟨tradeId, .create, entry, p.event.machine, p.event.sourceLabel, destination⟩) p request api
        tradeId

end ManualSend

end MatchTrader
