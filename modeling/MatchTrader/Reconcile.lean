import MatchTrader.Router

/-! The reconciliation of sent trades with the broker's open positions and closed
history, by exact destination identities. -/

namespace MatchTrader

open Durable

variable [Host]

namespace Reconcile

/-- Look a sent trade up among the open positions; whether it is missing there. -/
def visit (destination : String) (positions : List Position) (pending : List Order) (t : TradeRow) : Act Bool := do
  let candidates := relatedPositions t t.symbol t.side positions
  Store.observePositions t.tradeId destination candidates
  match candidates with
  | [p] =>
    -- A visible position cannot tell whether an uncertain edit succeeded.
    Store.update t.tradeId {
      brokerPositionId := some p.id, state := if t.state = .uncertain then none else some .opened }
    return false
  | _ => return !(pending.any fun o => o.id = t.brokerOrderId) && t.brokerPositionId ≠ ""

def collect (destination : String) (positions : List Position) (pending : List Order) :
    List TradeRow → Act (List TradeRow)
  | [] => return []
  | t :: rest => do
    let missing ← visit destination positions pending t
    let others ← collect destination positions pending rest
    return if missing then t :: others else others

/-- Look a missing trade up in the closed history. A partial close alone does not resolve it. -/
def settle (destination : String) (now : Instant) (history : List ClosedTrade) (t : TradeRow) : Act Unit := do
  let journal ← reads World.journal
  match journal.guardPosition t.tradeId with
  | .error _ => pure ()
  | .ok () =>
    let found := history.filter fun c => c.id = t.brokerPositionId ∧ c.symbol = t.symbol ∧ c.side = t.side
    if !found.isEmpty then
      Store.observeClosed t.tradeId destination found
      let total ← Prog.ofExcept (arith (Decimal.sum (found.map ClosedTrade.volume) 0))
      let lots ← Prog.ofExcept (limit t.lots)
      if lots ≤ total then
        Store.update t.tradeId { state := some .resolved, resolvedAt := some now.isoformat }

def reconcile (api : Api) (destination : String) (positions : List Position) : Act Unit := do
  let journal ← reads World.journal
  let trades := journal.trades.filter fun t => t.destination = destination ∧ t.state ≠ .observed ∧ t.state ≠ .resolved
  if !trades.isEmpty then
    let pending ← activeOrders api
    let missing ← collect destination (leavesAll positions) pending trades
    if !missing.isEmpty then
      let at_ ← now
      let history ← closedPositions api destination at_
      missing.forM (settle destination at_ history)

/-- One pass over the open positions the broker reports now. -/
def pass (api : Api) (destination : String) : Act Unit := do
  reconcile api destination (← openPositions api destination)

end Reconcile

end MatchTrader
