import Mathlib.Data.List.Dedup
import Mathlib.Data.List.Sort
import MatchTrader.Journal

/-! The mapping ledger: identity links, executions, quantities and broker read-backs,
written inside the journal's transactions. -/

namespace MatchTrader

variable [Host]

def mappingSchemaVersion : String := "1.1.0"

namespace Journal

def link (j : Journal) (trade : String) (side : Leg) (scope : LegScope) (kind : Kind)
    (nativeId evidence at_ : String) : Journal :=
  if nativeId = "" then j
  else { j with links := Rows.insertNew LinkRow.key ⟨trade, side, scope, kind, nativeId, evidence, at_⟩ j.links }

def ids (j : Journal) (trade : String) (side : Leg) (kind : Kind) : List String :=
  ((j.links.filter fun l => l.tradeId = trade ∧ l.side = side ∧ l.kind = kind).map LinkRow.nativeId).dedup

def owners (j : Journal) (side : Leg) (scope : LegScope) (position : String) : List String :=
  ((j.links.filter fun l => l.side = side ∧ l.scope = scope ∧ l.kind = .position ∧ l.nativeId = position).map
    LinkRow.tradeId).dedup

def fill (j : Journal) (f : FillRow) : Except Exc Journal :=
  match Rows.lookup FillRow.key f.key j.fills with
  | some old =>
    -- Equal quantities may have different decimal spellings; receipt and event ids may change.
    if old.tradeId = f.tradeId ∧ old.orderId = f.orderId ∧ old.positionId = f.positionId
        ∧ old.effect = f.effect ∧ old.quantity.same f.quantity ∧ old.price.same f.price then .ok j
    else .error (.value "Execution ID reused with conflicting fill data")
  | none =>
    let j := { j with fills := j.fills ++ [f] }
    let j := j.link f.tradeId f.side f.scope .order f.orderId "execution" f.emittedAt
    .ok (j.link f.tradeId f.side f.scope .position f.positionId "execution" f.emittedAt)

/-- `quantities`: an observation older than the one on record is dropped. -/
def observeQuantities (j : Journal) (q : QuantityRow) : Journal :=
  match Rows.lookup QuantityRow.key q.key j.quantities with
  | some old =>
    if q.updatedAt < old.updatedAt then j
    else { j with
      quantities := Rows.updateWhere (fun r => r.key = q.key)
        (fun r => { r with requested := q.requested.or r.requested, cumulative := q.cumulative.or r.cumulative,
                           remaining := q.remaining.or r.remaining, unit := q.unit, updatedAt := q.updatedAt })
        j.quantities }
  | none => { j with quantities := j.quantities ++ [q] }

omit [Host] in
theorem observeQuantities_links (j : Journal) (q : QuantityRow) : (j.observeQuantities q).links = j.links := by
  unfold observeQuantities
  split
  · split <;> rfl
  · rfl

/-- `position`: the latest volume of a position. -/
def observePosition (j : Journal) (p : PositionRow) : Journal :=
  { j with
    positions := Rows.upsert PositionRow.key p
      (fun r => if r.updatedAt ≤ p.updatedAt then { r with volume := p.volume, updatedAt := p.updatedAt } else r)
      j.positions }

def sourceEvent (j : Journal) (trade : String) (e : CaptureEvent) : Except Exc Journal := do
  let scope := LegScope.source e.scope
  let at_ := e.emittedAt.isoformat
  let j := j.link trade .source scope .order e.orderId "native order" at_
  let j := if e.positionId ≠ "" ∧ (e.kind = .fill ∨ e.kind = .position) then
      j.link trade .source scope .position e.positionId "native relationship" at_ else j
  let j ← if e.kind = .fill ∧ e.executionId ≠ "" then
      j.fill ⟨.source, scope, e.executionId, trade, e.orderId, e.positionId, e.quantity, e.price, e.fillEffect, at_⟩
    else .ok j
  let j := match e.positionQuantity with
    | some quantity => if e.positionId ≠ "" then j.observePosition ⟨.source, scope, e.positionId, quantity, at_⟩ else j
    | none => j
  let requested := e.orderQuantity.or
    (if e.kind = .accepted ∧ (e.action = .create ∨ e.action = .edit) then some e.quantity else none)
  return j.observeQuantities
    ⟨trade, .source, scope, requested, e.cumulativeFilledQuantity, e.remainingQuantity, e.quantityUnit, at_⟩

/-- What `sourceEvent` makes of the quantity of the event's position. -/
def observed (j : Journal) (e : CaptureEvent) : Journal :=
  match e.positionQuantity with
  | some quantity => if e.positionId ≠ "" then
      j.observePosition ⟨.source, .source e.scope, e.positionId, quantity, e.emittedAt.isoformat⟩ else j
  | none => j

end Journal

namespace ObservationRow

/-- A blank open time is no value. -/
def cleaned (o : ObservationRow) : ObservationRow :=
  { o with openTime := if o.openTime.any blank then none else o.openTime }

/-- The mutable fields follow the freshest report. -/
def refresh (o r : ObservationRow) : ObservationRow :=
  if r.updatedAt ≤ o.updatedAt then
    { r with orderId := o.orderId, symbol := o.symbol, side := o.side, volume := o.volume, openPrice := o.openPrice
             closeTime := o.closeTime, closeReason := o.closeReason, updatedAt := o.updatedAt }
  else r

/-- Time evidence only fills a gap. -/
def fillTimes (o r : ObservationRow) : ObservationRow :=
  { r with openTime := r.openTime.or o.openTime, openTimeMillis := r.openTimeMillis.or o.openTimeMillis }

end ObservationRow

namespace Journal

/-- The ledger boundary of broker read-backs. -/
def observeDestination (j : Journal) (o : ObservationRow) : Journal :=
  let o := o.cleaned
  { j with
    observations := Rows.updateWhere (fun r => r.key = o.key) o.fillTimes
      (Rows.upsert ObservationRow.key o o.refresh j.observations) }

def Leg.word : Leg → String
  | .source => "source"
  | .destination => "destination"

def guardSide (j : Journal) (trade : String) (side : Leg) : Except Exc Unit :=
  let links := j.links.filter fun l => l.tradeId = trade ∧ l.side = side ∧ l.kind = .position
  if 1 < links.length then
    .error (.value ("Split " ++ Leg.word side ++ " positions require an explicit action allocation"))
  else if links.any fun l => 1 < (j.owners side l.scope l.nativeId).length then
    .error (.value ("Merged " ++ Leg.word side ++ " position requires an explicit action allocation"))
  else .ok ()

def guardPosition (j : Journal) (trade : String) : Except Exc Unit := do
  j.guardSide trade .source
  j.guardSide trade .destination

end Journal

structure LinkView where
  row : LinkRow
  /-- The trades a position link is shared with; absent for an order. -/
  contributors : List String

structure Snapshot where
  tradeId : String
  broker : String
  accountId : String
  symbol : String
  side : String
  source : Source
  lots : Option Decimal
  sourceQuantity : Option Decimal
  sourceState : String
  state : TradeState
  reasons : List String
  links : List LinkView
  quantities : List QuantityRow
  actions : List ActionRow
  destinationObservations : List ObservationRow
  outcomeReasons : List ReasonRow

def Journal.snapshot (j : Journal) (t : TradeRow) : Snapshot :=
  let links := (j.links.filter fun l => l.tradeId = t.tradeId).map fun l =>
    ⟨l, if l.kind = .position then j.owners l.side l.scope l.nativeId else []⟩
  { tradeId := t.tradeId, broker := j.broker.getD "", accountId := t.destination, symbol := t.symbol
    side := t.side, source := t.source, lots := t.lots, sourceQuantity := t.sourceQuantity
    sourceState := t.sourceState, state := t.state, links
    reasons :=
      (match j.guardPosition t.tradeId with
        | .error e => [e.message]
        | .ok _ => [])
      ++ (if links.any fun l => l.row.side = .destination then [] else ["Destination identity not confirmed"])
      ++ (if t.state = .opened ∧ j.ids t.tradeId .destination .position = [] then
          ["Destination position identity not confirmed"] else [])
      ++ (if t.state = .opened ∧ j.ids t.tradeId .source .position = [] then
          ["Source position identity not confirmed"] else [])
    quantities := j.quantities.filter fun q => q.tradeId = t.tradeId
    actions := (j.actions.filter fun a => a.tradeId = t.tradeId).insertionSort fun a b => b.updatedAt ≤ a.updatedAt
    destinationObservations :=
      (j.observations.filter fun o => o.tradeId = t.tradeId).insertionSort fun a b => a.firstSeenAt ≤ b.firstSeenAt
    outcomeReasons := (j.reasons.filter fun r => r.tradeId = t.tradeId).insertionSort fun a b => a.at_ ≤ b.at_ }

end MatchTrader
