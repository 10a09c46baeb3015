import MatchTrader.Host

/-! Native events of the capture bridge and the configured route from a source
connection to a destination account. -/

namespace MatchTrader

inductive SchemaVersion where
  | v1
  | v1_0_0
  | v1_1_0
deriving DecidableEq, Repr

inductive EventKind where
  | request
  | accepted
  | rejected
  | order
  | fill
  | position
  | signal
  | account
deriving DecidableEq, Repr

inductive Action where
  | create
  | edit
  | cancel
  | close
  | observe
deriving DecidableEq, Repr

inductive Source where
  | manual
  | p01
  | r01
  | x17
  | unknown
deriving DecidableEq, Repr

inductive Side where
  | buy
  | sell
  | blank
deriving DecidableEq, Repr

inductive OrderType where
  | market
  | limit
  | stop
  | stopLimit
  | unknown
deriving DecidableEq, Repr

inductive FillEffect where
  | opens
  | closes
  | unknown
deriving DecidableEq, Repr

def SchemaVersion.dump : SchemaVersion → Json
  | v1 => .num (.ofNat 1)
  | v1_0_0 => .str "1.0.0"
  | v1_1_0 => .str "1.1.0"

def EventKind.text : EventKind → String
  | request => "REQUEST"
  | accepted => "ACCEPTED"
  | rejected => "REJECTED"
  | order => "ORDER"
  | fill => "FILL"
  | position => "POSITION"
  | signal => "SIGNAL"
  | account => "ACCOUNT"

def Action.text : Action → String
  | create => "CREATE"
  | edit => "EDIT"
  | cancel => "CANCEL"
  | close => "CLOSE"
  | observe => "OBSERVE"

def Source.text : Source → String
  | manual => "MANUAL"
  | p01 => "P01"
  | r01 => "R01"
  | x17 => "X17"
  | unknown => "UNKNOWN"

def Side.text : Side → String
  | buy => "BUY"
  | sell => "SELL"
  | blank => ""

def OrderType.text : OrderType → String
  | market => "MARKET"
  | limit => "LIMIT"
  | stop => "STOP"
  | stopLimit => "STOP_LIMIT"
  | unknown => "UNKNOWN"

def FillEffect.text : FillEffect → String
  | opens => "OPEN"
  | closes => "CLOSE"
  | unknown => "UNKNOWN"

/-- The connection and account a native identity belongs to. -/
structure Scope where
  machine : String
  connectionId : String
  accountId : String
deriving DecidableEq, Repr

structure CaptureEvent where
  schemaVersion : SchemaVersion
  eventId : String
  machine : String
  connectionId : String
  accountId : String
  orderId : String
  positionId : String
  executionId : String
  requestId : String
  emittedAt : Instant
  kind : EventKind
  action : Action
  source : Source
  sendingSource : String
  sourceLabel : String
  status : String
  snapshot : Bool
  symbol : String
  side : Side
  orderType : OrderType
  quantity : Decimal
  quantityUnit : String
  fillEffect : FillEffect
  orderQuantity : Option Decimal
  cumulativeFilledQuantity : Option Decimal
  remainingQuantity : Option Decimal
  positionQuantity : Option Decimal
  price : Decimal
  sl : Decimal
  tp : Decimal
  bracketsAbsolute : Bool
  eventId_bounds : 1 ≤ eventId.length ∧ eventId.length ≤ 200 := by decide
  machine_bounds : 1 ≤ machine.length ∧ machine.length ≤ 100 := by decide
  connectionId_bounds : 1 ≤ connectionId.length ∧ connectionId.length ≤ 200 := by decide
  accountId_bounds : 1 ≤ accountId.length ∧ accountId.length ≤ 200 := by decide
  orderId_le : orderId.length ≤ 200 := by decide
  positionId_le : positionId.length ≤ 200 := by decide
  executionId_le : executionId.length ≤ 200 := by decide
  requestId_le : requestId.length ≤ 200 := by decide
  sendingSource_le : sendingSource.length ≤ 200 := by decide
  sourceLabel_le : sourceLabel.length ≤ 200 := by decide
  status_le : status.length ≤ 100 := by decide
  symbol_le : symbol.length ≤ 100 := by decide
  quantityUnit_bounds : 1 ≤ quantityUnit.length ∧ quantityUnit.length ≤ 40 := by decide
  amounts_nonneg : 0 ≤ quantity ∧ 0 ≤ price ∧ 0 ≤ sl ∧ 0 ≤ tp := by decide
  quantities_nonneg :
    ∀ q ∈ orderQuantity.toList ++ cumulativeFilledQuantity.toList ++ remainingQuantity.toList
      ++ positionQuantity.toList, 0 ≤ q := by decide

namespace CaptureEvent

def scope (e : CaptureEvent) : Scope := ⟨e.machine, e.connectionId, e.accountId⟩

def dumpDecimal : Option Decimal → Json
  | some d => .str d.toString
  | none => .null

def modelDumpJson (e : CaptureEvent) : Json :=
  .obj [("schema_version", e.schemaVersion.dump), ("event_id", .str e.eventId), ("machine", .str e.machine),
    ("connection_id", .str e.connectionId), ("account_id", .str e.accountId), ("order_id", .str e.orderId),
    ("position_id", .str e.positionId), ("execution_id", .str e.executionId),
    ("request_id", .str e.requestId), ("emitted_at", .str e.emittedAt.isoformat),
    ("kind", .str e.kind.text), ("action", .str e.action.text), ("source", .str e.source.text),
    ("sending_source", .str e.sendingSource), ("source_label", .str e.sourceLabel),
    ("status", .str e.status), ("snapshot", .bool e.snapshot), ("symbol", .str e.symbol),
    ("side", .str e.side.text), ("order_type", .str e.orderType.text),
    ("quantity", dumpDecimal e.quantity), ("quantity_unit", .str e.quantityUnit),
    ("fill_effect", .str e.fillEffect.text), ("order_quantity", dumpDecimal e.orderQuantity),
    ("cumulative_filled_quantity", dumpDecimal e.cumulativeFilledQuantity),
    ("remaining_quantity", dumpDecimal e.remainingQuantity),
    ("position_quantity", dumpDecimal e.positionQuantity), ("price", dumpDecimal e.price),
    ("sl", dumpDecimal e.sl), ("tp", dumpDecimal e.tp), ("brackets_absolute", .bool e.bracketsAbsolute)]

def sameAmount : Option Decimal → Option Decimal → Bool
  | some a, some b => a.same b
  | none, none => true
  | _, _ => false

/-- Equality of events: amounts are compared by value, not by spelling. -/
def same (a b : CaptureEvent) : Bool :=
  a.schemaVersion = b.schemaVersion && a.eventId = b.eventId && a.scope = b.scope && a.orderId = b.orderId
    && a.positionId = b.positionId && a.executionId = b.executionId && a.requestId = b.requestId
    && a.emittedAt = b.emittedAt && a.kind = b.kind && a.action = b.action && a.source = b.source
    && a.sendingSource = b.sendingSource && a.sourceLabel = b.sourceLabel && a.status = b.status
    && a.snapshot = b.snapshot && a.symbol = b.symbol && a.side = b.side && a.orderType = b.orderType
    && a.quantity.same b.quantity && a.quantityUnit = b.quantityUnit && a.fillEffect = b.fillEffect
    && sameAmount a.orderQuantity b.orderQuantity
    && sameAmount a.cumulativeFilledQuantity b.cumulativeFilledQuantity
    && sameAmount a.remainingQuantity b.remainingQuantity
    && sameAmount a.positionQuantity b.positionQuantity
    && a.price.same b.price && a.sl.same b.sl && a.tp.same b.tp && a.bracketsAbsolute = b.bracketsAbsolute

end CaptureEvent

structure SymbolRoute where
  destination : String
  quantityMultiplier : Decimal
  maxLots : Decimal
  fixedLots : Option Decimal
  destination_pos : 1 ≤ destination.length := by decide
  quantityMultiplier_pos : 0 < quantityMultiplier := by decide
  maxLots_pos : 0 < maxLots := by decide
  fixedLots_pos : ∀ l ∈ fixedLots, 0 < l := by decide

structure RouteConfig where
  machine : String
  connectionId : String
  accountId : String
  destinationAccount : String
  sources : List Source
  symbols : List (String × SymbolRoute)
  machine_pos : 1 ≤ machine.length := by decide
  connectionId_pos : 1 ≤ connectionId.length := by decide
  accountId_pos : 1 ≤ accountId.length := by decide
  destinationAccount_pos : 1 ≤ destinationAccount.length := by decide
  sources_pos : 1 ≤ sources.length := by decide
  symbols_pos : 1 ≤ symbols.length := by decide

namespace RouteConfig

def symbol? (r : RouteConfig) (symbol : String) : Option SymbolRoute :=
  (r.symbols.find? fun s => s.1 = symbol).map Prod.snd

/-- `source` stands for the event's own attribution, or for that of the trade it acts on. -/
def matchEvent (r : RouteConfig) (e : CaptureEvent) (source : Source) : Except String SymbolRoute :=
  if e.scope ≠ ⟨r.machine, r.connectionId, r.accountId⟩ then
    .error "Source connection/account does not match configured route"
  else if source ∉ r.sources then .error "Source attribution is not enabled for this route"
  else
    match r.symbol? e.symbol with
    | none => .error "No explicit symbol/quantity mapping"
    | some mapping => .ok mapping

end RouteConfig

end MatchTrader
