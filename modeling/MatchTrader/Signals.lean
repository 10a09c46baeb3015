import MatchTrader.Broker
import MatchTrader.Rows

/-! Copy signals: the shapes of their senders, the reading of a raw payload, the symbol
map, the lanes that decide on signals, and the records a lane keeps. -/

namespace MatchTrader

variable [Host]

inductive Shape where
  | base
  | p01
  | chain
  | r01
deriving DecidableEq, Repr

structure Signal where
  shape : Shape
  clientEventId : String
  machineId : String
  source : String
  connectionName : String
  accountId : String
  kind : String
  label : String
  timestampUtc : Instant
  symbol : String
  side : String
  entry : Decimal
  stopLoss : Decimal
  takeProfit : Decimal
  copyOrderType : String
  origin : String := ""
  detail : String := ""
  grade : String := ""
  stamp : String := ""
  rfx : String := ""
  arm : String := ""
  clientEventId_bounds : 1 ≤ clientEventId.length ∧ clientEventId.length ≤ 200
  machineId_bounds : 1 ≤ machineId.length ∧ machineId.length ≤ 100
  source_bounds : 1 ≤ source.length ∧ source.length ≤ 100
  kind_bounds : 1 ≤ kind.length ∧ kind.length ≤ 100

namespace Signal

def shapeOf (source : String) : Shape :=
  if source = "P01_LOG" ∨ source = "panel" then .p01
  else if source = "chain" then .chain
  else if source = "R01" ∨ source = "r01" ∨ source = "r01Auto" then .r01
  else .base

def invalid : Exc := ⟨.valueError, "ValidationError", "", none⟩

/-- A text field within its length bounds. A missing one takes its default. -/
def textField (raw : Json) (name : String) (lo hi : Nat) (default : Option String) :
    Except Exc { s : String // lo ≤ s.length ∧ s.length ≤ hi } :=
  match (raw.get? name).elim default Json.text? with
  | none => .error invalid
  | some s => if h : lo ≤ s.length ∧ s.length ≤ hi then .ok ⟨s, h⟩ else .error invalid

def amountField (raw : Json) (name : String) : Except Exc Decimal :=
  match raw.get? name with
  | none => .ok 0
  | some v =>
    match Host.readDecimal v with
    | some d => if 0 ≤ d then .ok d else .error invalid
    | none => .error invalid

def sides : List (String × String) :=
  [("long", "BUY"), ("short", "SELL"), ("buy", "BUY"), ("sell", "SELL"), ("0", "BUY"), ("1", "SELL")]

def sideField (raw : Json) : Except Exc String :=
  match raw.get? "side" with
  | none | some .null => .ok ""
  | some v =>
    let side := ((sides.find? fun s => s.1 = Host.lower v.pyStr).map Prod.snd).getD v.pyStr
    if side.length ≤ 20 then .ok side else .error invalid

def orderTypeField (raw : Json) : Except Exc String :=
  match (raw.get? "copyOrderType").or (raw.get? "orderType") with
  | none => .ok ""
  | some (.str s) =>
    let type := Host.upper s
    if type ∈ ["", "MARKET", "LIMIT", "STOP"] then .ok type else .error invalid
  | some _ => .error invalid

def timeField (raw : Json) : Except Exc Instant :=
  match (raw.get? "timestampUtc").map Host.readTime with
  | some (.at t) => .ok t
  | some .unrepresentable => .error ⟨.arithmeticError, "OverflowError", "", none⟩
  | _ => .error invalid

def extraField (raw : Json) (name : String) (hi : Nat) (present : Bool) : Except Exc String :=
  if present then (textField raw name 0 hi (some "")).map Subtype.val else .ok ""

/-- The shape of the sender named in `source`; an unknown sender gets the base shape. -/
def parseSignal (raw : Json) : Except Exc Signal := do
  let shape := shapeOf (((raw.get? "source").getD (.str "")).pyStr)
  -- The timestamp is the one field whose reading can fail with something else than a validation error.
  let timestampUtc ← timeField raw
  let clientEventId ← textField raw "clientEventId" 1 200 none
  let machineId ← textField raw "machineId" 1 100 none
  let source ← textField raw "source" 1 100 none
  let connectionName ← textField raw "connectionName" 0 200 (some "")
  let accountId ← textField raw "accountId" 0 200 (some "")
  let kind ← textField raw "kind" 1 100 none
  let label ← textField raw "label" 0 200 (some "")
  let symbol ← textField raw "symbol" 0 100 (some "")
  let side ← sideField raw
  let entry ← amountField raw "entry"
  let stopLoss ← amountField raw "stopLoss"
  let takeProfit ← amountField raw "takeProfit"
  let copyOrderType ← orderTypeField raw
  let origin ← extraField raw "origin" 40 (shape = .p01)
  let grade ← extraField raw "grade" 40 (shape = .r01)
  let stamp ← extraField raw "stamp" 20 (shape = .r01)
  let rfx ← extraField raw "rfx" 40 (shape = .r01)
  let arm ← extraField raw "arm" 120 (shape = .r01)
  let detail ← extraField raw "detail" 400 (shape = .chain ∨ shape = .r01)
  return {
    shape, timestampUtc, side, entry, stopLoss, takeProfit, copyOrderType, origin, detail, grade, stamp, rfx, arm
    clientEventId := clientEventId.1, machineId := machineId.1, source := source.1
    connectionName := connectionName.1, accountId := accountId.1, kind := kind.1, label := label.1
    symbol := symbol.1, clientEventId_bounds := clientEventId.2, machineId_bounds := machineId.2
    source_bounds := source.2, kind_bounds := kind.2 }

/-- The dump that identifies a signal's content; an unstated order type is left out. -/
def modelDumpJson (s : Signal) : Json :=
  .obj ([("clientEventId", .str s.clientEventId), ("machineId", .str s.machineId), ("source", .str s.source),
    ("connectionName", .str s.connectionName), ("accountId", .str s.accountId), ("kind", .str s.kind),
    ("label", .str s.label), ("timestampUtc", .str s.timestampUtc.isoformat), ("symbol", .str s.symbol),
    ("side", .str s.side), ("entry", .str s.entry.toString), ("stopLoss", .str s.stopLoss.toString),
    ("takeProfit", .str s.takeProfit.toString)]
    ++ (if s.copyOrderType = "" then [] else [("copyOrderType", .str s.copyOrderType)])
    ++ (match s.shape with
      | .base => []
      | .p01 => [("origin", .str s.origin)]
      | .chain => [("detail", .str s.detail)]
      | .r01 => [("grade", .str s.grade), ("stamp", .str s.stamp), ("rfx", .str s.rfx), ("arm", .str s.arm),
          ("detail", .str s.detail)]))

def scope (s : Signal) : List (Option String) :=
  [some s.machineId, some s.source, some s.accountId, some s.connectionName, some s.symbol, some s.label]

def detailTypes : List (String × String) :=
  [("resting limit at range edge", "LIMIT"), ("resting stop at beyond edge", "STOP"),
    ("resting stop-limit at beyond edge, limit at trigger", "STOP")]

/-- The order type a signal states, in its own field or, for R01, in its detail text. -/
def orderType (s : Signal) : String :=
  if s.copyOrderType ≠ "" ∨ s.shape ≠ .r01 then s.copyOrderType
  else ((detailTypes.find? fun t => t.1 = s.detail).map Prod.snd).getD ""

/-- `^(P01RR_\d+_\d+|[LM]:(?:low|high|beyond)@\S+)$` from the start of the text. -/
def p01Label (label : String) : Bool :=
  let matches_ (cs : List Char) : Bool :=
    let digits := cs.drop 6
    let tail := digits.dropWhile Host.isDecimal
    let numbered := cs.take 6 = "P01RR_".toList && (digits.takeWhile Host.isDecimal ≠ [])
      && (tail.head? = some '_') && (tail.tail ≠ []) && tail.tail.all Host.isDecimal
    let edge := ["low@", "high@", "beyond@"].any fun e =>
      (cs.drop 2).take e.length = e.toList && ((cs.drop 2).drop e.length ≠ [])
        && ((cs.drop 2).drop e.length).all fun c => !isSpace c
    numbered || ((cs.take 2 = "L:".toList || cs.take 2 = "M:".toList) && edge)
  let cs := label.toList
  matches_ cs || (cs.getLast? = some '\n' && matches_ cs.dropLast)

end Signal

inductive Sizing where
  | lots
  | dollar
  | percent
deriving DecidableEq, Repr

inductive MapOrderType where
  | market
  | limit
  | stop
  | source
  | entry
deriving DecidableEq, Repr

def MapOrderType.text : MapOrderType → String
  | market => "MARKET"
  | limit => "LIMIT"
  | stop => "STOP"
  | source => "SOURCE"
  | entry => "ENTRY"

structure SymbolMapping where
  destination : String
  lots : Decimal
  orderType : MapOrderType
  destination_bounds : 1 ≤ destination.length ∧ destination.length ≤ 100 := by decide
  lots_pos : 0 < lots := by decide

abbrev SymbolMap := List (String × SymbolMapping)

def SymbolMap.lookup (m : SymbolMap) (symbol : String) : Option SymbolMapping :=
  (m.find? fun s => s.1 = symbol).map Prod.snd

/-- What the engine reads of a lane's settings or of a copy configuration. -/
structure Lane where
  machineId : String
  source : String
  additionalSources : List String := []
  connectionName : String := ""
  destinationAccount : String
  x17Only : Bool := false
  acceptedGrades : List String := []
  retractOnDowngrade : Bool := true
  sizing : Option Sizing := none
  sizingValue : Option Decimal := none
  riskUsd : Option Decimal := none
  minBox : Decimal := 0
  minBoxEnabled : Bool := false

namespace Signal

/-- Sender-specific proof that an intent is what the lane expects. -/
def checkAttribution (s : Signal) (lane : Lane) : Except Exc Unit :=
  match s.shape with
  | .p01 =>
    if s.source = "panel" ∧ !hasPrefix s.label "P01RR_" then
      .error (.value "Panel intent is not identified as manual P01")
    else if s.source = "P01_LOG" ∧ !p01Label s.label then
      .error (.value "P01 log intent does not carry a recognised lifecycle label")
    else .ok ()
  | .chain =>
    if lane.x17Only ∧ !hasPrefix (Host.lower s.detail) "x17-spine " then
      .error (.value "Chain intent is not identified as X17")
    else .ok ()
  | _ => .ok ()

end Signal

structure SignalRow where
  id : String
  clientId : String
  machine : String
  source : String
  label : String
  kind : String
  emitted : String
  received : String
  digest : String
  payload : Json
  decision : Decision
  reason : String
  destination : Option String := none
  request : Option Call := none
  /-- The broker's response, or the type of the error in its place. -/
  response : Option (Except String Operation) := none

structure Appearance where
  signalId : String
  received : String
  payload : Json
  conflict : Bool

structure LaneDb where
  signals : List SignalRow := []
  appearances : List Appearance := []

def LaneDb.signal? (d : LaneDb) (key : String) : Option SignalRow := Rows.lookup SignalRow.id key d.signals

end MatchTrader
