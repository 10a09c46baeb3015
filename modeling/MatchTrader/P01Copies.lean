import MatchTrader.Controller
import MatchTrader.P01Log

/-! Copying the intents of the P01 log: each is joined to the tool's own state and handed to the
main lane, unless the log reports that its lifecycle was removed or released. -/

namespace MatchTrader

open Durable

variable [Host] [LogHost]

/-- Numbers as the state file and a line of the log spell them. -/
class P01Numbers where
  /-- `Decimal(str(a)) == Decimal(str(b))`; nothing when one of them is no number. -/
  equal : Json → Option String → Option Bool

variable [P01Numbers]

/-- An event that ends the lifecycle of a label. -/
def P01Row.ends (e : P01Row) (label : String) : Bool :=
  (e.action = .release || e.action = .remove || e.action = .closeCancelIntent)
    && (e.tradeId = label || e.action = .closeCancelIntent)

/-- An intent once it was considered. -/
structure P01Copied where
  row : P01Row
  symbol : String
  status : Decision
  reason : String
  result : Option SignalResult

namespace P01Log

def mismatch : Exc := .value "P01 state does not match this labeled intent; no copy"

def stateTime (state : Json) : Except Exc (Instant ⊕ ZonedTime) :=
  match state with
  | .obj _ =>
    match state.get? "utc" with
    | none => .error ⟨.keyError, "KeyError", "'utc'", none⟩
    | some (.str s) => (readStamp s.toList).elim (.error (.value "Invalid isoformat string")) .ok
    | some _ => .error ⟨.other, "AttributeError", "", none⟩
  | _ => .error (.type "the state cannot be subscripted")

/-- The side of the state file: `BUY` is 0, `SELL` is 1, and no side is no value. -/
def sideMatches (state : Json) (side : String) : Bool :=
  let number : Option Nat := if side = "BUY" then some 0 else if side = "SELL" then some 1 else none
  match (state.get? "side").getD .null, number with
  | .null, none => true
  | .num d, some n => d.same (.ofNat n)
  | .bool b, some n => decide (b.toNat = n)
  | _, _ => false

def sameAmount (state : Json) (key : String) (value : Option String) : Except Exc Bool :=
  match state.get? key with
  | none => .error ⟨.keyError, "KeyError", key, none⟩
  | some v => (P01Numbers.equal v value).elim (.error (.ofSignal .invalidOperation)) .ok

def signal (path : String) (state : Except Exc Json) (row : P01Row) : Except Exc Json := do
  let state ← state
  let stamp ← stateTime state
  match stamp, LogHost.fromisoformat row.emittedAt.toList with
  | .inr stamp, some (.inr emitted) =>
    raiseIf ((state.get? "label").bind Json.text? ≠ some row.tradeId ∨ (state.get? "action").bind Json.text? ≠ some "open"
      ∨ 2000000 < (stamp.instant - emitted.instant).natAbs ∨ !sideMatches state row.side) mismatch
    let symbol := ((state.get? "symbol").bind Json.text?).getD ""
    raiseIf (blank symbol) mismatch
    raiseIf (!(← sameAmount state "entry" row.price)) mismatch
    raiseIf (!(← sameAmount state "sl" row.sl)) mismatch
    raiseIf (!(← sameAmount state "tp" row.tp)) mismatch
    raiseIf (¬ (row.orderType = some "Limit" ∨ row.orderType = some "Stop"))
      (.value "P01 intent has no supported pending order type")
    let identity := Host.sha256 (.arr [.str path, .str row.tradeId, .str row.emittedAt])
    return .obj [("clientEventId", .str ("p01-" ++ identity)), ("machineId", .str Host.node), ("source", .str "P01_LOG"),
      ("kind", .str "intent"), ("timestampUtc", .str row.emittedAt), ("label", .str row.tradeId), ("symbol", .str symbol),
      ("side", .str row.side), ("entry", .str (row.price.getD "")), ("stopLoss", .str (row.sl.getD "")),
      ("takeProfit", .str (row.tp.getD "")), ("copyOrderType", .str (Host.upper (row.orderType.getD "")))]
  | _, _ => .error mismatch

/-- The lifecycle of an intent has ended, as the feed's texts compare. -/
def endedIn (recent : List P01Row) (row : P01Row) : Bool :=
  recent.any fun e => e.ends row.tradeId && decide (row.emittedAt ≤ e.emittedAt)

def heldCopy (row : P01Row) : P01Copied := {
  row := { row with
    reason := row.reason ++ " | Copy held: matching current P01 state required; ended intents are not copied" }
  symbol := "", status := .held, result := none
  reason := "P01 state unavailable, mismatched or lifecycle ended; no copy" }

end P01Log

namespace Controller

def copyP01Signal (row : P01Row) (raw : Json) : Act P01Copied := do
  let m ← reads World.mem
  match ← SignalCopy.receive (mainCall m) m.symbols [raw] m.api m.selected m.destinationVerified with
  | result :: _ =>
    return {
      row := { row with reason := row.reason ++ " | Copy: " ++ result.reason }
      symbol := ((raw.get? "symbol").bind Json.text?).getD "", status := result.status, reason := result.reason
      result := some result }
  | [] => throw ⟨.other, "IndexError", "list index out of range", none⟩

/-- One intent of the log, with what reading the state file gives. -/
def copyP01Intent (path : String) (state : Except Exc Json) (recent : List P01Row) (row : P01Row) : Act P01Copied :=
  contain (do
    raiseIf (P01Log.endedIn recent row) (Exc.value "P01 intent already removed or released; no copy")
    copyP01Signal row (← Prog.ofExcept (P01Log.signal path state row))) fun _ => P01Log.heldCopy row

/-- Consider the intents that the log holds; the state file is read for each of them. -/
def copyP01Intents (p01LogEnabled : Bool) (path : String) (states : P01Row → Except Exc Json) (log : P01Log) :
    Act (List P01Copied × P01Log) := do
  let m ← reads World.mem
  if m.signalConfig.isNone || !p01LogEnabled || !m.running then return ([], log.drainIntents.2)
  else do
    let copied ← log.drainIntents.1.mapM fun row => copyP01Intent path (states row) log.feed row
    return (copied, log.drainIntents.2)

end Controller

end MatchTrader
