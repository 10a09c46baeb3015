import MatchTrader.P01Log
import MatchTrader.RelayStore

/-! The shadow bridge: order events of a sender, the preview of the request that each would make,
and the journal that takes every event once. -/

namespace MatchTrader.Bridge

/-- `^[A-Za-z0-9_.:-]+$`, of at most 160 characters. -/
structure Identifier where
  text : String
  length_pos : 1 ≤ text.length
  length_le : text.length ≤ 160
  chars : text.toList.all fun c => c.isAlphanum || "_.:-".toList.contains c
deriving DecidableEq

inductive OrderAction where
  | create
  | edit
  | cancel
deriving DecidableEq

inductive OrderSide where
  | buy
  | sell
deriving DecidableEq

inductive OrderType where
  | market
  | limit
  | stop
  | stopLimit
deriving DecidableEq

def OrderSide.text : OrderSide → String
  | buy => "BUY"
  | sell => "SELL"

def OrderType.text : OrderType → String
  | market => "MARKET"
  | limit => "LIMIT"
  | stop => "STOP"
  | stopLimit => "STOP_LIMIT"

abbrev Positive := {d : Decimal // 0 < d}

abbrev Nonnegative := {d : Decimal // 0 ≤ d}

/-- An event that has passed its model's checks, with what `complete_state` asks of it. -/
structure OrderEvent where
  sourceMachine : Identifier
  strategyInstance : Identifier
  eventId : Identifier
  sourceOrderId : Identifier
  revision : Nat
  emittedAt : ZonedTime
  accountId : Identifier
  action : OrderAction
  instrument : String
  side : OrderSide
  orderType : OrderType
  volumeLots : Option Positive := none
  price : Option Positive := none
  triggerPrice : Option Positive := none
  slPrice : Option Nonnegative := none
  tpPrice : Option Nonnegative := none
  revision_pos : 1 ≤ revision
  instrument_length : 1 ≤ instrument.length ∧ instrument.length ≤ 64
  instrument_chars : instrument.toList.all fun c => !isBlankChar c
  complete : action ≠ .cancel → volumeLots.isSome ∧ slPrice.isSome ∧ tpPrice.isSome
  priced : action ≠ .cancel → orderType ≠ .market → price.isSome
  triggered : triggerPrice.isSome ↔ orderType = .stopLimit
  unpriced : orderType = .market → price = none

class BridgeHost where
  /-- The hexadecimal SHA-256 of a text's bytes. -/
  sha256 : String → String
  /-- `model_dump_json`. -/
  modelDumpJson : OrderEvent → String
  /-- `float(x)`, as the number that it prints; a float that is not finite has none. -/
  float : Decimal → Option Decimal

/-- `json.dumps` of a tuple of identifiers, none of whose characters is escaped. -/
def dumpsNames (names : List Identifier) : String :=
  "[" ++ ", ".intercalate (names.map fun n => "\"" ++ n.text ++ "\"") ++ "]"

namespace OrderEvent

def eventKey (e : OrderEvent) : String :=
  dumpsNames [e.sourceMachine, e.strategyInstance, e.accountId, e.eventId]

def orderKey (e : OrderEvent) : String :=
  dumpsNames [e.sourceMachine, e.strategyInstance, e.accountId, e.sourceOrderId]

end OrderEvent

variable [BridgeHost]

section Planner

def base (e : OrderEvent) : List (String × Json) :=
  [("mode", .str "shadow"), ("ready_for_execution", .bool false), ("event_id", .str e.eventId.text)]

def held (e : OrderEvent) (reason : String) : Json := .obj (base e ++ [("status", .str "held"), ("reason", .str reason)])

/-- A price against the brackets; zero is no bracket. -/
def bracketsValid (side : OrderSide) (price sl tp : Decimal) : Bool :=
  match side with
  | .buy => (sl.isZero || sl < price) && (tp.isZero || price < tp)
  | .sell => (sl.isZero || price < sl) && (tp.isZero || tp < price)

/-- `convert` of `wire`. -/
def wireNumber (d : Decimal) : Except Exc Json :=
  match BridgeHost.float d with
  | some f => .ok (.num f)
  | none => .error (.value "Request number exceeds JSON floating-point range")

/-- A value that `complete_state` has found; a request refuses to be without it. -/
def required {α : Type} : Option α → Except Exc α
  | some v => .ok v
  | none => .error (.value "Input should be a valid decimal")

/-- The bodies of `OpenPositionRequest` and `CreatePendingOrderRequest`, as they go over the wire. -/
def request (e : OrderEvent) : Except Exc (String × Json) := do
  let volume ← wireNumber (← required e.volumeLots).1
  let sl ← wireNumber (← required e.slPrice).1
  let tp ← wireNumber (← required e.tpPrice).1
  if e.orderType = .market then
    return ("open_position", .obj [("instrument", .str e.instrument), ("orderSide", .str e.side.text),
      ("volume", volume), ("slPrice", sl), ("tpPrice", tp), ("isMobile", .bool false)])
  else
    let price ← wireNumber (← required e.price).1
    return ("create_pending_order", .obj [("instrument", .str e.instrument), ("orderSide", .str e.side.text),
      ("volume", volume), ("price", price), ("type", .str e.orderType.text), ("slPrice", sl), ("tpPrice", tp),
      ("isMobile", .bool false)])

def remainingChecks : List Json :=
  [.str "broker_connection", .str "instrument_mapping_precision_and_lot_rules", .str "sizing_rule",
    .str "existing_route_replacement", .str "durable_live_order_lifecycle"]

/-- The bracket prices of an event that has a price, in the order its side asks for. -/
def misdirected (e : OrderEvent) : Bool :=
  match e.price, e.slPrice, e.tpPrice with
  | some price, some sl, some tp => !bracketsValid e.side price.1 sl.1 tp.1
  | _, _, _ => false

/-- The reason why an event is held, or none. -/
def heldFor (e : OrderEvent) (accountId : String) (receivedAt : Instant) (maxAgeSeconds : ℚ) : Option String :=
  let age := receivedAt.micros - e.emittedAt.instant
  if e.accountId.text ≠ accountId then some "account_mismatch"
  else if maxAgeSeconds * 1000000 < age ∨ age < -5000000 then some "stale_or_future_timestamp"
  else if e.orderType = .stopLimit then some "native_stop_limit_not_verified"
  else if e.action ≠ .create then some "edit_cancel_require_verified_broker_order_mapping"
  else if misdirected e then some "invalid_bracket_direction"
  else none

def preview (e : OrderEvent) (accountId : String) (receivedAt : Instant) (maxAgeSeconds : ℚ) : Except Exc Json :=
  match heldFor e accountId receivedAt maxAgeSeconds with
  | some reason => .ok (held e reason)
  | none => do
    let (operation, body) ← request e
    return .obj (base e ++ [("status", .str "preview"), ("operation", .str operation), ("request", body),
      ("remaining_checks", .arr remainingChecks)])

end Planner

/-- A row of `events`; the payload is stored as its text. -/
structure EventRow where
  eventKey : String
  orderKey : String
  revision : Nat
  digest : String
  receivedAt : String
  payload : OrderEvent
  result : Json

structure ObservationRow where
  observationId : Nat
  receivedAt : String
  sourcePath : String
  byteOffset : Int
  payload : Json

structure BridgeJournal where
  events : List EventRow := []
  observations : List ObservationRow := []

def staleReason : String := "stale_revision_or_repeated_create"

def conflictResult : Json :=
  .obj [("mode", .str "shadow"), ("ready_for_execution", .bool false), ("status", .str "held"),
    ("reason", .str "event_id_payload_conflict")]

def staleResult : Json :=
  .obj [("mode", .str "shadow"), ("ready_for_execution", .bool false), ("status", .str "held"), ("reason", .str staleReason)]

namespace BridgeJournal

def event? (j : BridgeJournal) (key : String) : Option EventRow := Rows.lookup EventRow.eventKey key j.events

/-- The rows of an order, in the order of their arrival. -/
def eventsOf (j : BridgeJournal) (key : String) : List EventRow := j.events.filter fun r => r.orderKey = key

/-- `SELECT MAX(revision)`. -/
def last (j : BridgeJournal) (key : String) : Option Nat := ((j.eventsOf key).map EventRow.revision).max?

/-- What an order's revision or a second creation is held for. -/
def stale (j : BridgeJournal) (e : OrderEvent) : Bool :=
  (j.last e.orderKey).any fun last => e.revision ≤ last || e.action = .create

/-- A result as it is stored and returned. -/
def stamped (e : OrderEvent) (receivedAt : String) (result : Json) : Json :=
  result.update [("event_id", .str e.eventId.text), ("bridge_received_at", .str receivedAt),
    ("broker_request_started_at", .null), ("broker_response_received_at", .null), ("broker_order_id", .null)]

def newRow (e : OrderEvent) (receivedAt : String) (result : Json) : EventRow where
  eventKey := e.eventKey
  orderKey := e.orderKey
  revision := e.revision
  digest := BridgeHost.sha256 (BridgeHost.modelDumpJson e)
  receivedAt := receivedAt
  payload := e
  result := result

/-- The result of an event that is new. -/
def decided (j : BridgeJournal) (e : OrderEvent) (decide : Except Exc Json) : Except Exc Json :=
  if j.stale e then .ok staleResult else decide

/-- The statements of `record`, between `BEGIN IMMEDIATE` and the end of the transaction. -/
def statements (j : BridgeJournal) (e : OrderEvent) (receivedAt : String) (decide : Except Exc Json) :
    Except Exc (Json × BridgeJournal) :=
  match j.event? e.eventKey with
  | some old =>
    if old.digest ≠ BridgeHost.sha256 (BridgeHost.modelDumpJson e) then .ok (conflictResult, j)
    else .ok (old.result.update [("duplicate", .bool true)], j)
  | none => do
    let result ← j.decided e decide
    let result := stamped e receivedAt result
    raiseIf (2 ^ 63 ≤ e.revision) Exc.overflow
    return (result, { j with events := j.events ++ [newRow e receivedAt result] })

/-- Record an event; `fails` tells whether a statement fails, and an error rolls the statements back. -/
def record (j : BridgeJournal) (e : OrderEvent) (receivedAt : String) (decide : Except Exc Json) (fails : Bool) :
    Except Exc Json × BridgeJournal :=
  match (do
    raiseIf fails Exc.sqlite
    j.statements e receivedAt decide : Except Exc (Json × BridgeJournal)) with
  | .ok (result, j) => (.ok result, j)
  | .error exc => (.error exc, j)

def observe (j : BridgeJournal) (receivedAt sourcePath : String) (byteOffset : Int) (payload : Json) (fails : Bool) :
    BridgeJournal :=
  if fails then j
  else
    let id := (j.observations.map ObservationRow.observationId).foldl max 0 + 1
    { j with observations := j.observations ++ [⟨id, receivedAt, sourcePath, byteOffset, payload⟩] }

end BridgeJournal

/-- The bridge of one account. -/
structure ShadowBridge where
  accountId : String
  maxAgeSeconds : ℚ
  accountId_ne : accountId ≠ ""
  maxAgeSeconds_pos : 0 < maxAgeSeconds

/-- `receive`, once the payload is an event and the time of receipt is in UTC. -/
def ShadowBridge.receive (b : ShadowBridge) (j : BridgeJournal) (e : OrderEvent) (receivedAt : Instant) (fails : Bool) :
    Except Exc Json × BridgeJournal :=
  j.record e receivedAt.isoformat (preview e b.accountId receivedAt b.maxAgeSeconds) fails

end MatchTrader.Bridge
