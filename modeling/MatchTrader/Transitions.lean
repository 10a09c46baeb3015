import MatchTrader.Controller

/-! What a single transaction can do. The guards say under which conditions the programs
commit it; every invariant is kept step by step. -/

namespace MatchTrader

open Durable

variable [Host]

/-- The freedoms a run is granted, and the lifecycles that the batch at hand ends. -/
structure Rules where
  /-- An armed router may dispatch on arrival. -/
  routed : Bool
  /-- A lane may be driven without a Paper/Live mode. -/
  legacy : Bool
  closed : List (List (Option String)) := []
  /-- The signals that were on record before the batch. -/
  known : List String := []

/-- No batch is at hand. -/
def Rules.Plain (R : Rules) : Prop := R.closed = [] ∧ R.known = []

/-- The trade holds a broker identity. -/
def TradeRow.placed (t : TradeRow) : Prop := t.brokerOrderId ≠ "" ∨ t.brokerPositionId ≠ ""

/-- An accepted create signal of the trade carries the machine and the label. -/
def Journal.Linked (j : Journal) (tradeId machine label : String) : Prop :=
  ∃ e ∈ j.events, e.tradeId = some tradeId ∧ e.payload.kind = .accepted ∧ e.payload.action = .create
    ∧ e.payload.machine = machine ∧ e.payload.sourceLabel = label

/-- An update of a trade keeps a final or unknown outcome, and the identity that broker
evidence was collected under. -/
structure TradeChange (w : World) (t u : TradeRow) : Prop where
  tradeId : u.tradeId = t.tradeId
  final : w.faulted = true ∨
    (t.state = .resolved → u.state = .resolved) ∧ (t.state = .uncertain → u.state = .uncertain ∨ u.state = .resolved)
  located : u.placed → u.destination ≠ "" ∨ (t.placed ∧ u.destination = t.destination)
  placed : t.placed → u.placed
  evidence : (∃ o ∈ w.journal.observations, o.tradeId = t.tradeId) →
    u.symbol = t.symbol ∧ u.side = t.side ∧ u.destination = t.destination

/-- The trade has a committed attempt, the only one in flight, whose write was not issued yet. -/
structure Flying (w : World) (identity : String) (key : ActionKey) : Prop where
  trade : ∃ t, w.journal.trade? identity = some t ∧ (w.faulted = true ∨ t.state = .dispatching)
  attempted : ∃ a ∈ w.journal.attempts, a.key = (identity, key) ∧ (w.faulted = true ∨ a.state = .dispatching)
  alone : w.faulted = true ∨ ∀ a ∈ w.journal.attempts, a.state = .dispatching → a.key = (identity, key)
  first : ∀ v api c j, .sent (.trade v) api c j ∈ w.trace → (v.tradeId, v.actionKey) ≠ (identity, key)

/-- A write for a trade is issued under its own attempt. -/
structure TradeSend (R : Rules) (w : World) (tw : TradeWrite) (call : Call) : Prop where
  flying : Flying w tw.tradeId tw.actionKey
  opens : call.opens = true → tw.actionKey = .create
  paper : R.routed = false → tw.actionKey = .create → w.journal.paperSent tw.tradeId = false
  copied : tw.entry = .bridge → tw.label ≠ "" →
    Automatic.copies (w.lanes .main) tw.machine tw.label tw.destination = []
  linked : tw.entry = .bridge ∨ tw.entry = .manual → w.journal.Linked tw.tradeId tw.machine tw.label

/-- The scope is one of the lifecycle that a machine and a label name. -/
def OfLifecycle (scope : List (Option String)) (machine label : String) : Prop :=
  ∃ source account connection symbol,
    scope = [some machine, some source, some account, some connection, some symbol, some label]

/-- A write for a signal has its own committed row and was not sent before. -/
structure SignalSend (R : Rules) (w : World) (sw : SignalWrite) (call : Call) : Prop where
  row : ∃ r ∈ (w.lanes sw.lane).signals, r.id = sw.key ∧ r.request = some call ∧ r.destination = some sw.destination
    ∧ r.decision = .dispatching ∧ SignalCopy.scope r.payload = sw.scope
    ∧ ((r.kind = "intent" ∧ call.opens = true) ∨ (isCancelKind r.kind = true ∧ call.cancels = true))
  first : ∀ v api c j, .sent (.signal v) api c j ∈ w.trace → v.lane = sw.lane → v.key ≠ sw.key
  fresh : sw.key ∉ R.known
  unsent : R.legacy = false → call.opens = true → ∀ machine label, OfLifecycle sw.scope machine label →
    ∀ t ∈ w.journal.linkedTrades machine label, w.journal.alreadySent t.tradeId = false

/-- The identity of a signal's row. -/
def signalId (machine clientEventId : String) : String := Host.sha256 (.arr [.str machine, .str clientEventId])

inductive Speaks (R : Rules) (w : World) : Event → Prop
  | trade {tw : TradeWrite} {api : Api} {call : Call} (h : TradeSend R w tw call) :
    Speaks R w (.sent (.trade tw) api call w.journal)
  | signal {sw : SignalWrite} {api : Api} {call : Call} (h : SignalSend R w sw call) :
    Speaks R w (.sent (.signal sw) api call w.journal)
  | answered {owner : Owner} (reply : Except Exc Operation) (h : ∃ api call j, .sent owner api call j ∈ w.trace) :
    Speaks R w (.answered owner reply)
  | positions (account : String) (positions : List Position) : Speaks R w (.readPositions account positions)
  | closed (account : String) (trades : List ClosedTrade) : Speaks R w (.readClosed account trades)
  | decided {l : LaneId} {machine client : String}
    (row : ∃ r ∈ (w.lanes l).signals, r.id = signalId machine client)
    (first : ∀ m c, .decided l m c ∈ w.trace → signalId m c ≠ signalId machine client) :
    Speaks R w (.decided l machine client)

/-- A read of the account's positions or closed history returned the position with these times. -/
def Reported (trace : List Event) (account position symbol side : String) (openTime : Option String)
    (millis : Option Int) : Prop :=
  (∃ ps, .readPositions account ps ∈ trace ∧ ∃ p ∈ ps, p.id = position ∧ p.symbol = symbol ∧ p.side = side
      ∧ p.openTime = openTime ∧ p.openTimeMillis = millis)
    ∨ ∃ cs, .readClosed account cs ∈ trace ∧ ∃ c ∈ cs, c.id = position ∧ c.symbol = symbol ∧ c.side = side
      ∧ some c.openTime = openTime ∧ millis = none

/-- The row keeps a report of closed history, under the key of the execution. -/
structure Copies (o : ObservationRow) (c : ClosedTrade) : Prop where
  position : o.positionId = c.id
  symbol : o.symbol = c.symbol
  side : o.side = c.side
  execution : o.executionKey = Journal.executionKey c
  volume : o.volume = some c.volume

/-- The row keeps a report that a read of the account's closed history returned. -/
def CopiesRead (trace : List Event) (account : String) (o : ObservationRow) : Prop :=
  ∃ cs, .readClosed account cs ∈ trace ∧ ∃ c ∈ cs, Copies o c

/-- A read-back is stored for a placed trade, under its own account, symbol and side. -/
structure Observes (w : World) (o : ObservationRow) : Prop where
  trade : ∃ t, w.journal.trade? o.tradeId = some t ∧ t.placed ∧ o.scope = w.journal.destinationScope t.destination
    ∧ o.symbol = t.symbol ∧ o.side = t.side
    ∧ Reported w.trace t.destination o.positionId o.symbol o.side o.openTime o.openTimeMillis
    ∧ (o.reader = .closedPositions → CopiesRead w.trace t.destination o)

/-- The columns of a row agree with the payload that it keeps. -/
structure SignalRow.Formed (r : SignalRow) : Prop where
  scope : ∃ account connection symbol, SignalCopy.scope r.payload =
    [some r.machine, some r.source, some account, some connection, some symbol, some r.label]
  emitted : ∃ t : Instant, r.emitted = t.isoformat

/-- A row as it is inserted for a validated signal. -/
structure RowBorn (r : SignalRow) : Prop where
  request : r.request = none
  response : r.response = none
  decision : r.decision = .captured
  formed : r.Formed

/-- The conditions under which an intent is given a request. -/
structure OpenOk (R : Rules) (w : World) (l : LaneId) (r : SignalRow) (call : Call) (destination : String) :
    Prop where
  kind : r.kind = "intent"
  opens : call.opens = true
  type : ∀ type, call.type? = some type → type = "LIMIT" ∨ type = "STOP"
  label : r.label ≠ ""
  first : ∀ q ∈ (w.lanes l).signals, SignalCopy.copied destination q = true →
    SignalCopy.scope q.payload ≠ SignalCopy.scope r.payload
  closed : SignalCopy.scope r.payload ∉ R.closed
  later : ∀ q ∈ (w.lanes l).signals, isEndKind q.kind = true → SignalCopy.scope q.payload = SignalCopy.scope r.payload →
    ¬ r.emitted ≤ q.emitted
  bridge : R.legacy = false → ∀ t ∈ w.journal.linkedTrades r.machine r.label,
    w.journal.alreadySent t.tradeId = false

/-- The record of a cancel through the dispatcher. -/
def cancelTried (destination : String) (r : SignalRow) : Bool :=
  isCancelKind r.kind && r.request.isSome && r.destination = some destination

/-- The conditions under which a cancel of the lane's own copy is committed. -/
structure CancelOk (w : World) (l : LaneId) (r : SignalRow) (c : CancelRequest) (destination : String) : Prop where
  kind : isCancelKind r.kind = true
  first : ∀ q ∈ (w.lanes l).signals, cancelTried destination q = true →
    SignalCopy.scope q.payload ≠ SignalCopy.scope r.payload
  copy : ∃ q ∈ (w.lanes l).signals, ∃ o reply, SignalCopy.copied destination q = true
    ∧ SignalCopy.scope q.payload = SignalCopy.scope r.payload ∧ q.decision = .accepted ∧ q.request = some o
    ∧ q.response = some (.ok reply) ∧ reply.orderId = some c.id ∧ c.id ≠ "" ∧ o.instrument = c.instrument
    ∧ o.orderSide = c.orderSide ∧ o.type? = some c.type

/-- What may become of a row. -/
inductive RowStep (R : Rules) (w : World) (l : LaneId) (r : SignalRow) : SignalRow → Prop
  | note {d : Decision} {reason : String} (hc : r.decision = .captured) (hd : d = .held ∨ d = .captured) :
    RowStep R w l r { r with decision := d, reason }
  | paper {call : Call} {destination reason : String} (hc : r.decision = .captured)
    (h : OpenOk R w l r call destination) :
    RowStep R w l r { r with decision := .paper, destination := some destination, request := some call, reason }
  | commit {call : Call} {destination : String} (hc : r.decision = .captured) (h : OpenOk R w l r call destination) :
    RowStep R w l r { r with decision := .dispatching, destination := some destination, request := some call }
  | commitCancel {c : CancelRequest} {destination : String} (hc : r.decision = .captured)
    (h : CancelOk w l r c destination) :
    RowStep R w l r {
      r with decision := .dispatching, destination := some destination, request := some (.cancelPendingOrder c) }
  | land {d : Decision} {reason : String} {response : Except String Operation} (hc : r.decision = .dispatching)
    (hd : d = .accepted ∨ d = .uncertain)
    (ha : ∀ reply, response = .ok reply → ∀ destination, r.destination = some destination →
      .answered (.signal ⟨l, r.id, SignalCopy.scope r.payload, destination⟩) (.ok reply) ∈ w.trace)
    (hr : d = .accepted → ∃ reply, response = .ok reply) :
    RowStep R w l r { r with decision := d, reason, response := some response }
  | unwound {d : Decision} {reason destination : String} {request : Option Call}
    {response : Option (Except String Operation)} (hc : r.decision = .captured) (hk : isEndKind r.kind = true)
    (hd : d ≠ .captured ∧ d ≠ .dispatching) :
    RowStep R w l r { r with decision := d, reason, destination := some destination, request, response }

inductive Step (R : Rules) : World → World → Prop
  | memory {w : World} (m : Memory) : Step R w { w with mem := m }
  | fault {w : World} : Step R w { w with faulted := true }
  | say {w : World} {e : Event} (h : Speaks R w e) : Step R w { w with trace := w.trace ++ [e] }
  /-- Links, executions, quantities, positions and the schema version bind no guard. -/
  | passive {w : World} (links : List LinkRow) (fills : List FillRow) (quantities : List QuantityRow)
    (positions : List PositionRow) (schemaVersion : Option String) :
    Step R w { w with journal := { w.journal with links, fills, quantities, positions, schemaVersion } }
  | newTrade {w : World} {t : TradeRow} (hf : w.journal.trade? t.tradeId = none) (hb : ¬ t.placed)
    (hs : t.state = .observed) :
    Step R w { w with journal := { w.journal with trades := w.journal.trades ++ [t] } }
  | change {w : World} {identity : String} {f : TradeRow → TradeRow} (hf : ∀ t, (f t).tradeId = t.tradeId)
    (h : ∀ t, w.journal.trade? identity = some t → TradeChange w t (f t)) :
    Step R w { w with journal := w.journal.updateTrade identity f }
  | event {w : World} (row : EventRow) :
    Step R w { w with journal := { w.journal with events := w.journal.events ++ [row] } }
  | decision {w : World} (seq : Nat) (status : Decision) (reason : String) :
    Step R w { w with journal := { w.journal with
      events := Rows.updateWhere (fun e => e.seq = seq) (fun e => { e with decision := status, reason })
        w.journal.events } }
  | claim {w : World} {identity requestId destination now : String} {key : ActionKey} {action : Action}
    {request : Call} {j : Journal}
    (h : Journal.claim identity key requestId action destination request now w.journal = .ok (true, j))
    (hp : R.routed = false → key = .create → w.journal.paperSent identity = false) :
    Step R w { w with journal := j }
  | finish {w : World} {identity now : String} {key : ActionKey} {state : Outcome} {j : Journal}
    (h : w.journal.finish identity key state now = .ok j) (hs : state ≠ .dispatching) :
    Step R w { w with journal := j }
  | reason {w : World} (row : ReasonRow) :
    Step R w { w with journal := { w.journal with reasons := Rows.insertNew ReasonRow.key row w.journal.reasons } }
  | paperSend {w : World} {row : PaperRow} (h : w.journal.alreadySent row.tradeId = false) :
    Step R w { w with journal := { w.journal with papers := w.journal.papers ++ [row] } }
  | observe {w : World} {o : ObservationRow} (h : Observes w o) :
    Step R w { w with journal := w.journal.observeDestination o }
  | interrupt {w : World} :
    Step R w { w with journal := { w.journal with
      actions := Rows.updateWhere (fun a => a.outcome = .dispatching) (fun a => { a with outcome := .uncertain })
        w.journal.actions } }
  | recover {w : World} : Step R w { w with journal := w.journal.recover }
  | appear {w : World} (l : LaneId) (a : Appearance) :
    Step R w (setLane w l { w.lanes l with appearances := (w.lanes l).appearances ++ [a] })
  | insert {w : World} {l : LaneId} {r : SignalRow} (hf : (w.lanes l).signal? r.id = none) (hb : RowBorn r) :
    Step R w (setLane w l { w.lanes l with signals := (w.lanes l).signals ++ [r] })
  | row {w : World} {l : LaneId} {key : String} {f : SignalRow → SignalRow}
    (h : ∀ r, (w.lanes l).signal? key = some r → RowStep R w l r (f r)) (hf : ∀ r, (f r).id = r.id) :
    Step R w (setLane w l { w.lanes l with
      signals := Rows.updateWhere (fun r => r.id = key) f (w.lanes l).signals })
  | reopen {w : World} (l : LaneId) :
    Step R w (setLane w l { w.lanes l with
      signals := Rows.updateWhere (fun r => r.decision = .dispatching)
        (fun r => { r with decision := .uncertain, reason := "Interrupted write; no automatic retry" })
        (w.lanes l).signals })

/-- Any number of steps. -/
abbrev Steps (R : Rules) : World → World → Prop := Relation.ReflTransGen (Step R)

end MatchTrader
