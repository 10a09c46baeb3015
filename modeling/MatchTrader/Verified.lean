import MatchTrader.Mapping

/-! The classification of a trade's destination leg from broker read-backs, and the row
of the verified-trade ledger built from it. -/

namespace MatchTrader

variable [Host]

inductive VerifiedState where
  | verifiedClosed
  | verifiedOpen
  | guarded
  | unattributed
  | readBackNoTime
  | sentUnconfirmed
  | uncertain
  | candidate
deriving DecidableEq, Repr

def VerifiedState.text : VerifiedState → String
  | verifiedClosed => "verified_closed"
  | verifiedOpen => "verified_open"
  | guarded => "guarded"
  | unattributed => "unattributed"
  | readBackNoTime => "read_back_no_time"
  | sentUnconfirmed => "sent_unconfirmed"
  | uncertain => "uncertain"
  | candidate => "candidate"

structure Verdict where
  state : VerifiedState
  verified : Bool
  reasons : List String
  brokerOpenTime : Option String
  brokerOpenTimeMillis : Option Int
  readBack : Option ObservationRow

def noReadClosureReason : String :=
  "Closure is not confirmed by a broker read; the position may have closed without read-back evidence."

def hasTime (r : ObservationRow) : Bool := r.openTime.any (fun s => !blank s) || r.openTimeMillis.isSome

def isClosedReader (r : ObservationRow) : Bool := r.reader = .closedPositions

def destinationRequested (quantities : List QuantityRow) : Option Decimal :=
  (quantities.find? fun q => q.side = .destination).bind QuantityRow.requested

/-- The volumes of the rows of closed history. -/
def closedVolumes (rows : List ObservationRow) : List Decimal :=
  (rows.filter isClosedReader).filterMap ObservationRow.volume

def closedVolume (rows : List ObservationRow) : Except Exc Decimal := arith (Decimal.sum (closedVolumes rows) 0)

/-- Timed before timeless, then closed history before open positions, then the latest update. -/
def outranks (a b : ObservationRow) : Bool :=
  if hasTime a ≠ hasTime b then hasTime a
  else if isClosedReader a ≠ isClosedReader b then isClosedReader a
  else b.updatedAt < a.updatedAt

/-- The first of the rows that no other outranks. -/
def bestRow : List ObservationRow → Option ObservationRow
  | [] => none
  | r :: rest => some (rest.foldl (fun best q => if outranks q best then q else best) r)

namespace Snapshot

def destinationLink (s : Snapshot) : Option LinkView :=
  s.links.find? fun l => l.row.side = .destination ∧ l.row.kind = .position ∧ l.row.nativeId ≠ ""

def hasSource (s : Snapshot) : Bool := s.links.any fun l => l.row.side = .source

def destinationPositions (s : Snapshot) : List LinkView :=
  s.links.filter fun l => l.row.side = .destination ∧ l.row.kind = .position

def guardedLinks (s : Snapshot) : Bool :=
  1 < s.destinationPositions.length || s.destinationPositions.any fun l => 1 < l.contributors.length

def evidence (s : Snapshot) : List ObservationRow :=
  match s.destinationLink with
  | none => []
  | some link => s.destinationObservations.filter fun r =>
      r.positionId = link.row.nativeId ∧ r.symbol = s.symbol ∧ r.side = s.side
        ∧ r.scope = .destination s.broker s.accountId

def row (s : Snapshot) : Option ObservationRow := bestRow s.evidence

def timed (s : Snapshot) : Bool := s.row.any hasTime

def verified (s : Snapshot) : Bool :=
  s.destinationLink.isSome && s.row.isSome && s.timed && s.hasSource && !s.guardedLinks

def closedRows (s : Snapshot) : List ObservationRow := s.evidence.filter isClosedReader

/-- The closed history on record covers what was requested of the destination. -/
def fullyClosed (s : Snapshot) : Except Exc Bool :=
  match destinationRequested s.quantities with
  | some requested =>
    if s.closedRows.isEmpty then .ok false else (closedVolume s.evidence).map fun total => decide (requested ≤ total)
  | none => .ok false

/-- The state of the trade, with what there is to say of it. -/
def standing (s : Snapshot) (fullyClosed : Bool) : VerifiedState × List String :=
  if s.verified && fullyClosed then
    (.verifiedClosed, ["The broker confirmed this position closed, with an open time on record."])
  else if s.verified then
    (.verifiedOpen, "The broker confirmed this open position and reported its own open time."
      :: if !s.closedRows.isEmpty || s.state = .resolved then [noReadClosureReason] else [])
  else if s.guardedLinks then (.guarded, [])
  else if !s.hasSource then (.unattributed, [])
  else if s.destinationLink.isSome && s.row.isSome && !s.timed then
    (.readBackNoTime, ["The broker confirmed this position but did not report its open time."])
  else if s.destinationLink.isSome && s.row.isNone then
    (.sentUnconfirmed,
      ["A destination identity was recorded but no independent broker read-back confirms it."])
  else if s.state = .uncertain ∨ s.state = .dispatching then
    (.uncertain, ["The trade itself is in an uncertain or in-flight state."])
  else (.candidate, ["No destination position identity has been linked to this trade yet."])

end Snapshot

def classify (s : Snapshot) : Except Exc Verdict := do
  let fullyClosed ← s.fullyClosed
  let (state, more) := s.standing fullyClosed
  let reasons :=
    (if s.guardedLinks then
      ["A split or merged position guard prevents attributing broker evidence to this trade."] else [])
    ++ (if s.hasSource then [] else ["No source identity was ever linked to this trade."])
  return {
    state, verified := s.verified, reasons := reasons ++ more
    brokerOpenTime := (s.row.bind ObservationRow.openTime).filter fun t => !blank t
    brokerOpenTimeMillis := s.row.bind ObservationRow.openTimeMillis, readBack := s.row }

/-- The state a ledger row shows. -/
inductive RowState where
  | classified (s : VerifiedState)
  | paperSent
  | cancelled
deriving DecidableEq, Repr

/-- A signal-driven cancel or close, or the refusal of one. -/
structure Unwound where
  action : Action
  outcome : Outcome
  at_ : String
  requestId : String
  request : Option Call
  origin : Option String
deriving DecidableEq, Repr

structure VerifiedRow where
  tradeId : String
  state : RowState
  verified : Bool
  symbol : String
  side : String
  lots : Option Decimal
  sourceEnabled : Bool
  source : Source
  sourceOrderIds : List String
  sourcePositionIds : List String
  broker : String
  accountId : String
  destinationOrderIds : List String
  destinationPositionIds : List String
  sentAt : Option String
  confirmedAt : Option String
  brokerOpen : Option String
  brokerOpenMillis : Option Int
  readBack : Option (Reader × Option Decimal × Option Decimal)
  unwind : Option Unwound
  reasons : List String

namespace Snapshot

def keyAction : ActionKey → Action
  | .create => .create
  | .other action _ => action

/-- The text after the last colon. -/
def keyTail : ActionKey → String
  | .create => "CREATE"
  | .other _ suffix => String.ofList ((suffix.toList.reverse.takeWhile fun c => c ≠ ':').reverse)

def isUnwind (a : Action) : Bool := a = .cancel || a = .close

def unwound (s : Snapshot) : Option Unwound :=
  let reasons := s.outcomeReasons.filter fun r => isUnwind (keyAction r.actionKey)
  match s.actions.filter fun a => isUnwind a.action with
  | latest :: _ =>
    let reason := reasons.reverse.find? fun r => r.actionKey = latest.actionKey
    some ⟨latest.action, latest.outcome, latest.updatedAt, latest.requestId, some latest.request,
      reason.map ReasonRow.origin⟩
  | [] => reasons.getLast?.map fun r =>
      ⟨keyAction r.actionKey, r.outcome, r.at_, keyTail r.actionKey, none, some r.origin⟩

def nativeIds (s : Snapshot) (side : Leg) (kind : Kind) : List String :=
  (s.links.filter fun l => l.row.side = side ∧ l.row.kind = kind ∧ l.row.nativeId ≠ "").map fun l => l.row.nativeId

end Snapshot

/-- A trade sent on paper shows as such until a read-back verifies it. -/
def paperStanding (verdict : Verdict) (paperSent : Bool) (reasons : List String) : RowState × List String :=
  if paperSent ∧ !verdict.verified then
    (.paperSent, "Sent in paper mode: the exact request was recorded and nothing reached the broker." :: reasons)
  else (.classified verdict.state, reasons)

/-- A pending order whose cancel was accepted, and that never became a position, shows as cancelled. -/
def Snapshot.cancelledStanding (s : Snapshot) (shown : RowState × List String) : RowState × List String :=
  if (s.unwound.any fun u => u.action = .cancel ∧ u.outcome = .accepted) ∧ s.state = .resolved
      ∧ s.nativeIds .destination .position = [] then
    (.cancelled,
      "The broker accepted the cancel of this pending order on the source's signal; no position was opened."
        :: shown.2)
  else shown

def verifiedRow (s : Snapshot) (enabled : Source → Bool) (paperSent : Bool) : Except Exc VerifiedRow := do
  let verdict ← classify s
  let create := s.actions.find? fun a => a.actionKey = .create
  let reasons := verdict.reasons ++ s.reasons.filter fun r => r ∉ verdict.reasons
  let (state, reasons) := s.cancelledStanding (paperStanding verdict paperSent reasons)
  return {
    tradeId := s.tradeId, state, verified := verdict.verified, symbol := s.symbol, side := s.side
    lots := s.lots.or s.sourceQuantity, sourceEnabled := enabled s.source, source := s.source
    sourceOrderIds := s.nativeIds .source .order, sourcePositionIds := s.nativeIds .source .position
    broker := s.broker, accountId := s.accountId, destinationOrderIds := s.nativeIds .destination .order
    destinationPositionIds := s.nativeIds .destination .position, sentAt := create.map ActionRow.updatedAt
    confirmedAt := verdict.readBack.map ObservationRow.firstSeenAt, brokerOpen := verdict.brokerOpenTime
    brokerOpenMillis := verdict.brokerOpenTimeMillis
    readBack := verdict.readBack.map fun r => (r.reader, r.volume, r.openPrice), unwind := s.unwound, reasons }

end MatchTrader
