import MatchTrader.SignalEngine
import MatchTrader.Unwind

/-! A signal lane: the durable record of its signals, the opening of intents through the
engine, and the removal of what it or the owner opened. -/

namespace MatchTrader

open Durable

variable [Host]

/-- How a lane stands when a batch reaches it. -/
structure LaneCall where
  lane : LaneId
  config : Option Lane
  copyMode : Option Mode
  armed : Bool
  armedAt : Option Instant

structure SignalResult where
  clientEventId : Option Json
  status : Decision
  reason : String
  duplicate : Bool := false
  destinationAccount : Option String := none
  copyRequest : Option Call := none
  copyResponse : Option (Except String Operation) := none

namespace SignalCopy

def scopeFields : List String := ["machineId", "source", "accountId", "connectionName", "symbol", "label"]

/-- The six fields a cancel must share with its intent. A part that is no text equals no part of
a validated signal's scope. -/
def scope (raw : Json) : List (Option String) :=
  scopeFields.map fun k => (raw.get? k).elim (some "") Json.text?

/-- The scope of an element that ends a labelled lifecycle. -/
def endedScope (raw : Json) : Except Exc (Option (List (Option String))) :=
  let kind := (raw.get? "kind").getD .null
  if !kind.hashable then .error (.type "unhashable type")
  else if kind.text?.any isEndKind ∧ ((raw.get? "label").getD .null).truthy then
    if scopeFields.all fun k => ((raw.get? k).getD (.str "")).hashable then .ok (some (scope raw))
    else .error (.type "unhashable type")
  else .ok none

def endedScopes (payload : List Json) : Except Exc (List (List (Option String))) :=
  (payload.mapM endedScope).map List.reduceOption

def related (d : LaneDb) (raw : Json) : List SignalRow :=
  d.signals.filter fun r =>
    (raw.get? "machineId").bind Json.text? = some r.machine ∧ (raw.get? "source").bind Json.text? = some r.source
      ∧ (raw.get? "label").bind Json.text? = some r.label ∧ scope r.payload = scope raw

/-- The record of an intent for which a request to the destination was made. -/
def copied (destination : String) (r : SignalRow) : Bool :=
  r.kind = "intent" && r.request.isSome && r.destination = some destination

def legacyCopy (d : LaneDb) (raw : Json) (destination : String) : Bool := (related d raw).any (copied destination)

/-- The broker accepted a live copy of the lifecycle. -/
def liveCopy (d : LaneDb) (raw : Json) (destination : String) : Bool :=
  (related d raw).any fun r => copied destination r && r.decision = .accepted

def result (r : SignalRow) (duplicate : Bool) : SignalResult :=
  ⟨some (.str r.clientId), r.decision, r.reason, duplicate, r.destination, r.request, r.response⟩

/-- `_record`: set columns of one signal. -/
def recordRow (l : LaneId) (key : String) (f : SignalRow → SignalRow) : Act Unit :=
  transactLane l fun d => { d with signals := Rows.updateWhere (fun r => r.id = key) f d.signals }

def context (w : World) (c : LaneCall) (s : Signal) (raw : Json) (closed : List (List (Option String)))
    (api : Option Api) (destination : String) (verified : Bool) (now : Instant) : Context :=
  let rows := related (w.lanes c.lane) raw
  { mode := c.copyMode, armed := c.armed, armedAt := c.armedAt, now, destination, api, verified
    endedInBatch := decide (scope raw ∈ closed) || decide ([some s.machineId, some s.source, some s.label] ∈ closed)
    laterEndRecorded := rows.any fun r => isEndKind r.kind && decide (s.timestampUtc.isoformat ≤ r.emitted)
    alreadyAttempted := rows.any (copied destination)
    bridgeRequestExists := c.copyMode.isSome
      && (w.journal.linkedTrades s.machineId s.label).any fun t => w.journal.alreadySent t.tradeId }

structure Sent where
  decision : Decision
  reason : String
  response : Except String Operation

/-- The broker call, and what happened. -/
def dispatch (owner : Owner) (api : Option Api) (call : Call) (accepted : Operation → Bool) (ok correlation : String) :
    Act Sent :=
  tryCatch (do
    match api with
    | none => throw (Exc.mk .other "AttributeError" "" none)
    | some api =>
      let reply ← invoke owner api call
      return if accepted reply then ⟨.accepted, ok, .ok reply⟩
        else ⟨.uncertain, "Unrecognized write response; no automatic retry", .ok reply⟩) fun e =>
    pure ⟨.uncertain, "Copy write outcome unconfirmed after " ++ e.name ++ "; broker state not verified, no automatic "
      ++ "retry (signal " ++ correlation ++ ")", .error e.name⟩

def openAccepted (r : Operation) : Bool :=
  (r.status.getD "" = "" || r.status = some "OK") && (r.orderId.getD "" ≠ "" || r.positionId.getD "" ≠ "")

def cancelAccepted (r : Operation) : Bool := r.status = some "OK"

def land (l : LaneId) (key : String) (o : Sent) : Act Unit :=
  recordRow l key fun r => { r with decision := o.decision, reason := o.reason, response := some o.response }

/-- A row with its request, as it stands before the broker write is invoked. -/
def committed (destination : String) (call : Call) (r : SignalRow) : SignalRow :=
  { r with decision := .dispatching, destination := some destination, request := some call }

def refusalReason (e : Exc) : String :=
  match e.kind with
  | .refusal _ => e.message
  | _ => "Processing interrupted by " ++ e.name ++ "; no automatic retry"

/-- Open: the engine decides, the attempt is committed, the dispatcher writes once. -/
def openCopy (c : LaneCall) (symbols : SymbolMap) (key : String) (s : Signal) (raw : Json)
    (closed : List (List (Option String))) (api : Option Api) (destination : String) (verified : Bool)
    (now : Instant) : Act Unit := do
  let ctx ← reads fun w => context w c s raw closed api destination verified now
  record (.decided c.lane s.machineId s.clientEventId)
  let decided : Except Exc OrderPlan ←
    tryCatch (Except.ok <$> SignalEngine.decide c.config symbols s ctx) fun e => pure (.error e)
  match decided with
  | .error e => recordRow c.lane key fun r => { r with decision := .held, reason := refusalReason e }
  | .ok plan =>
    if c.copyMode = some .paper then
      recordRow c.lane key fun r => {
        r with decision := .paper, destination := some destination, request := some plan.call
               reason := "Paper: broker request recorded; nothing sent" }
    else
      recordRow c.lane key (committed destination plan.call)
      let outcome ← dispatch (.signal ⟨c.lane, key, scope raw, destination⟩) api plan.call openAccepted
        "MatchTrader accepted the configured copy request" key
      land c.lane key outcome

/-- The cancel of the lane's own accepted copy, checked against the broker's resting order. -/
def prepareCancel (l : LaneId) (s : Signal) (raw : Json) (api : Option Api) (destination : String) (verified : Bool) :
    Act (Api × CancelRequest) := do
  match (if verified then api else none) with
  | none => throw (Exc.value "Connect the authenticated destination before cancelling its pending order")
  | some api =>
    raiseIf (api.accountId ≠ destination) (Exc.value "The broker connection belongs to a different account")
    raiseIf (s.label = "") (Exc.value "Cancellation requires the original label")
    let rows ← reads fun w => related (w.lanes l) raw
    raiseIf (rows.any fun r => isCancelKind r.kind && r.request.isSome && r.destination = some destination)
      (Exc.value "Cancellation already attempted; no automatic retry")
    match rows.filter (copied destination) with
    | [r] =>
      raiseIf (r.decision ≠ .accepted) (Exc.value "No unique accepted copy is linked to this cancellation")
      match r.request, r.response with
      | some request, some response =>
        let orderId := (response.toOption.bind Operation.orderId).getD ""
        raiseIf (orderId = "" ∨ ¬ (request.type? = some "LIMIT" ∨ request.type? = some "STOP"))
          (Exc.value "The linked copy is not a pending order")
        let cancel ← Unwind.pendingOrderRequest api orderId request.instrument request.orderSide request.type?
        return (api, cancel)
      | _, _ => throw (Exc.type "the JSON object must be str, bytes or bytearray, not NoneType")
    | _ => throw (Exc.value "No unique accepted copy is linked to this cancellation")

/-- Cancel a pending order this lane placed, whatever the switches say. -/
def cancelOwnCopy (l : LaneId) (key : String) (s : Signal) (raw : Json) (api : Option Api) (destination : String)
    (verified : Bool) : Act Unit := do
  let prepared : Except Exc (Api × CancelRequest) ←
    tryCatch (Except.ok <$> prepareCancel l s raw api destination verified) fun e =>
      if e.isValueError then pure (.error e) else throw e
  match prepared with
  | .error e => recordRow l key fun r => { r with decision := .held, reason := e.message }
  | .ok (api, request) =>
    let call := Call.cancelPendingOrder request
    recordRow l key (committed destination call)
    let outcome ← dispatch (.signal ⟨l, key, scope raw, destination⟩) (some api) call cancelAccepted
      "MatchTrader accepted the cancellation" key
    land l key outcome

def Signal.ending (s : Signal) : Ending :=
  ⟨s.kind, s.machineId, s.label, s.clientEventId, s.timestampUtc, s.symbol⟩

/-- The removal of what the ledger holds for the lifecycle; nothing for a signal without a label. -/
def applyToLedger (s : Signal) (api : Option Api) (destination : String) (verified : Bool) :
    Act (Option Unwind.Outcome) :=
  if s.label = "" then pure none
  else
    tryCatch (Unwind.apply (Signal.ending s) api destination verified none) fun e =>
      pure (some {
        decision := .uncertain
        reason := "Unwind processing interrupted by " ++ e.name ++ "; completion is unconfirmed. Check the capture "
          ++ "journal for lifecycle " ++ Host.repr s.label ++ " and reconcile broker state before any retry" })

def noLedgerReason (s : Signal) : String :=
  let verb := if isCancelKind s.kind then "cancel" else "close"
  if s.label = "" then "Signal carries no lifecycle label; nothing to " ++ verb
  else "No sent trade is linked to lifecycle " ++ Host.repr s.label ++ " from " ++ s.machineId ++ "; nothing to " ++ verb

/-- A cancel or closed signal acts on exposure the lane or the owner created. -/
def unwind (l : LaneId) (key : String) (s : Signal) (raw : Json) (api : Option Api) (destination : String)
    (verified : Bool) : Act Unit := do
  let d ← reads fun w => w.lanes l
  if isCancelKind s.kind ∧ legacyCopy d raw destination then cancelOwnCopy l key s raw api destination verified
  else
    match ← applyToLedger s api destination verified with
    | some o =>
      recordRow l key fun r => {
        r with decision := o.decision, reason := o.reason, destination := some destination, request := o.request
               response := o.response }
    | none => recordRow l key fun r => { r with decision := .captured, reason := noLedgerReason s }

def signalKey (s : Signal) : String := Host.sha256 (.arr [.str s.machineId, .str s.clientEventId])

/-- A signal as its row is first written. -/
def bornRow (s : Signal) (raw : Json) (at_ : Instant) : SignalRow :=
  { id := signalKey s, clientId := s.clientEventId, machine := s.machineId, source := s.source, label := s.label
    kind := s.kind, emitted := s.timestampUtc.isoformat, received := at_.isoformat
    digest := Host.sha256 s.modelDumpJson, payload := raw, decision := .captured
    reason := "Local logging; no copy attempted" }

/-- Act on a signal that is on record for the first time. A toggle never stops a removal of exposure. -/
def act (c : LaneCall) (symbols : SymbolMap) (s : Signal) (raw : Json) (closed : List (List (Option String)))
    (api : Option Api) (destination : String) (verified : Bool) (at_ : Instant) : Act Unit := do
  let d ← reads fun w => w.lanes c.lane
  if s.kind = "intent" then openCopy c symbols (signalKey s) s raw closed api destination verified at_
  else if c.copyMode.isSome ∧ isCloseKind s.kind then pure ()
  else if c.copyMode = some .paper ∧ isCancelKind s.kind ∧ !liveCopy d raw destination then pure ()
  else if isEndKind s.kind then unwind c.lane (signalKey s) s raw api destination verified
  else pure ()

def conflicting (r : SignalResult) : SignalResult :=
  { r with status := .held, reason := "Repeated identity has conflicting signal fields; no new order attempted" }

def receiveSignal (c : LaneCall) (symbols : SymbolMap) (s : Signal) (raw : Json)
    (closed : List (List (Option String))) (api : Option Api) (destination : String) (verified : Bool) :
    Act SignalResult := do
  let digest := Host.sha256 s.modelDumpJson
  let at_ ← now
  raiseIf (!raw.finite) (Exc.value "Out of range float values are not JSON compliant")
  let previous ← reads fun w => (w.lanes c.lane).signal? (signalKey s)
  let conflict := previous.any fun r => r.digest ≠ digest
  transactLane c.lane fun d => { d with
    appearances := d.appearances ++ [⟨signalKey s, at_.isoformat, raw, conflict⟩] }
  match previous with
  | some row => return if conflict then conflicting (result row true) else result row true
  | none =>
    transactLane c.lane fun d => { d with signals := d.signals ++ [bornRow s raw at_] }
    act c symbols s raw closed api destination verified at_
    match ← reads fun w => (w.lanes c.lane).signal? (signalKey s) with
    | some r => return result r false
    | none => throw (Exc.type "'NoneType' object is not subscriptable")

def receiveElement (c : LaneCall) (symbols : SymbolMap) (closed : List (List (Option String))) (api : Option Api)
    (destination : String) (verified : Bool) (raw : Json) : Act SignalResult :=
  tryCatch (do
    let s ← Prog.ofExcept (Signal.parseSignal raw)
    receiveSignal c symbols s raw closed api destination verified) fun e =>
      if e.isValueError then pure {
        clientEventId := raw.get? "clientEventId", status := .invalid
        reason := "Invalid signal identity, timestamp, or numeric fields; no copy attempted" }
      else throw e

def receive (c : LaneCall) (symbols : SymbolMap) (payload : List Json) (api : Option Api) (destination : String)
    (verified : Bool) : Act (List SignalResult) := do
  raiseIf (¬ (1 ≤ payload.length ∧ payload.length ≤ 100) ∨ payload.any fun p => !p.isObj)
    (Exc.value "Expected an array of 1 to 100 signal objects")
  -- A completed lifecycle in the same batch must not open an obsolete intent.
  let closed ← Prog.ofExcept (endedScopes payload)
  payload.mapM (receiveElement c symbols closed api destination verified)

/-- Open a lane's record: a write that was interrupted is uncertain. -/
def openLane (l : LaneId) : Act Unit :=
  transactLane l fun d => { d with
    signals := Rows.updateWhere (fun r => r.decision = .dispatching)
      (fun r => { r with decision := .uncertain, reason := "Interrupted write; no automatic retry" }) d.signals }

end SignalCopy

end MatchTrader
