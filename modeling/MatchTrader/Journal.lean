import MatchTrader.Broker
import MatchTrader.Rows

/-! The capture journal: trades, native events, attempts, and the mapping ledger's
identities, quantities, observations, actions and reasons. Structured keys and
scopes stand for the JSON texts the tables hold, absent values for NULL or the
empty text. -/

namespace MatchTrader

inductive TradeState where
  | observed
  | dispatching
  | pending
  | opened
  | uncertain
  | resolved
deriving DecidableEq, Repr

def TradeState.text : TradeState → String
  | observed => "observed"
  | dispatching => "dispatching"
  | pending => "pending"
  | opened => "open"
  | uncertain => "uncertain"
  | resolved => "resolved"

/-- `CREATE`, or another action with the text that follows its colon. -/
inductive ActionKey where
  | create
  | other (action : Action) (suffix : String)
deriving DecidableEq, Repr

inductive Leg where
  | source
  | destination
deriving DecidableEq, Repr

inductive Kind where
  | order
  | position
deriving DecidableEq, Repr

/-- A scope of native identities: a source connection, or a broker account. -/
inductive LegScope where
  | source (s : Scope)
  | destination (broker account : String)
deriving DecidableEq, Repr

inductive Reader where
  | openPositions
  | closedPositions
deriving DecidableEq, Repr

inductive Outcome where
  | dispatching
  | accepted
  | uncertain
  | held
deriving DecidableEq, Repr

structure TradeRow where
  tradeId : String
  sourceKey : Scope × String
  source : Source
  sourceOrderId : String
  sourcePositionId : String := ""
  destination : String := ""
  brokerOrderId : String := ""
  brokerPositionId : String := ""
  state : TradeState := .observed
  updatedAt : String
  resolvedAt : Option String := none
  lastRequest : String := ""
  lots : Option Decimal := none
  symbol : String := ""
  side : String := ""
  orderType : String := ""
  scope : Scope
  lastEventAt : Option Instant := none
  sourceQuantity : Option Decimal := none
  sourceState : String := ""
deriving DecidableEq

def TradeRow.setState (s : TradeState) (t : TradeRow) : TradeRow := { t with state := s }

structure EventRow where
  seq : Nat
  eventKey : String × String
  digest : String
  tradeId : Option String
  receivedAt : String
  payload : CaptureEvent
  decision : Decision := .captured
  reason : String := ""

structure AttemptRow where
  tradeId : String
  actionKey : ActionKey
  state : Outcome
deriving DecidableEq, Repr

structure LinkRow where
  tradeId : String
  side : Leg
  scope : LegScope
  kind : Kind
  nativeId : String
  evidence : String
  updatedAt : String
deriving DecidableEq, Repr

structure FillRow where
  side : Leg
  scope : LegScope
  executionId : String
  tradeId : String
  orderId : String
  positionId : String
  quantity : Decimal
  price : Decimal
  effect : FillEffect
  emittedAt : String
deriving DecidableEq, Repr

structure QuantityRow where
  tradeId : String
  side : Leg
  scope : LegScope
  requested : Option Decimal
  cumulative : Option Decimal
  remaining : Option Decimal
  unit : String
  updatedAt : String
deriving DecidableEq, Repr

structure PositionRow where
  side : Leg
  scope : LegScope
  positionId : String
  volume : Decimal
  updatedAt : String
deriving DecidableEq, Repr

structure ActionRow where
  tradeId : String
  actionKey : ActionKey
  broker : String
  accountId : String
  requestId : String
  action : Action
  request : Call
  outcome : Outcome
  brokerOrderId : String
  brokerPositionId : String
  updatedAt : String
deriving DecidableEq, Repr

structure ObservationRow where
  tradeId : String
  scope : LegScope
  positionId : String
  reader : Reader
  executionKey : String
  orderId : Option String
  symbol : String
  side : String
  volume : Option Decimal
  openPrice : Option Decimal
  openTime : Option String
  openTimeMillis : Option Int
  closeTime : Option String
  closeReason : Option String
  firstSeenAt : String
  updatedAt : String
deriving DecidableEq, Repr

structure ReasonRow where
  tradeId : String
  actionKey : ActionKey
  attempt : Nat
  origin : String
  outcome : Outcome
  code : String
  evidence : String
  at_ : String
deriving DecidableEq, Repr

structure PaperRow where
  tradeId : String
  source : Source
  destination : String
  request : OpenRequest
  lots : Decimal
  decidedAt : String
deriving DecidableEq, Repr

structure Journal where
  trades : List TradeRow := []
  events : List EventRow := []
  attempts : List AttemptRow := []
  schemaVersion : Option String := none
  broker : Option String := none
  legacyMigrated : Bool := false
  links : List LinkRow := []
  fills : List FillRow := []
  quantities : List QuantityRow := []
  positions : List PositionRow := []
  actions : List ActionRow := []
  observations : List ObservationRow := []
  reasons : List ReasonRow := []
  papers : List PaperRow := []

def LinkRow.key (l : LinkRow) : String × Leg × LegScope × Kind × String :=
  (l.tradeId, l.side, l.scope, l.kind, l.nativeId)

def FillRow.key (f : FillRow) : Leg × LegScope × String := (f.side, f.scope, f.executionId)

def QuantityRow.key (q : QuantityRow) : String × Leg × LegScope := (q.tradeId, q.side, q.scope)

def PositionRow.key (p : PositionRow) : Leg × LegScope × String := (p.side, p.scope, p.positionId)

def AttemptRow.key (a : AttemptRow) : String × ActionKey := (a.tradeId, a.actionKey)

def ActionRow.key (a : ActionRow) : String × ActionKey := (a.tradeId, a.actionKey)

def ObservationRow.key (o : ObservationRow) : String × LegScope × String × Reader × String :=
  (o.tradeId, o.scope, o.positionId, o.reader, o.executionKey)

def ReasonRow.key (r : ReasonRow) : String × ActionKey × Nat := (r.tradeId, r.actionKey, r.attempt)

namespace Journal

def trade? (j : Journal) (identity : String) : Option TradeRow := Rows.lookup TradeRow.tradeId identity j.trades

def attempt? (j : Journal) (identity : String) (key : ActionKey) : Option AttemptRow :=
  Rows.lookup AttemptRow.key (identity, key) j.attempts

/-- The scope of an account at the journal's broker. -/
def destinationScope (j : Journal) (account : String) : LegScope := .destination (j.broker.getD "") account

/-- `UPDATE trades SET … WHERE trade_id=?`. -/
def updateTrade (j : Journal) (identity : String) (f : TradeRow → TradeRow) : Journal :=
  { j with trades := Rows.updateWhere (fun t => t.tradeId = identity) f j.trades }

@[simp] theorem trade?_updateTrade (j : Journal) (i k : String) {f : TradeRow → TradeRow}
    (hf : ∀ t, (f t).tradeId = t.tradeId) :
    (j.updateTrade i f).trade? k = if k = i then (j.trade? i).map f else j.trade? k := by
  simp only [trade?, updateTrade, Rows.lookup_updateKey hf]

end Journal

end MatchTrader
