import MatchTrader.Router

/-! The one place where an intent becomes an order or is refused: the signal, the facts
of the moment, and the destination's own instrument, quote and equity. -/

namespace MatchTrader

open Durable

variable [Host]

structure OrderPlan where
  instrument : String
  side : String
  orderType : String
  volume : Decimal
  price : Option Decimal
  sl : Decimal
  tp : Decimal
  label : String
  scope : List (Option String)

/-- The broker method of the plan with its keyword arguments. -/
def OrderPlan.call (p : OrderPlan) : Call :=
  if p.orderType = "MARKET" then .openPosition ⟨p.instrument, p.side, p.volume, p.sl, p.tp, none⟩
  else .createPendingOrder ⟨p.instrument, p.side, p.volume, p.sl, p.tp, p.price.map fun price => (p.orderType, price)⟩

/-- The facts the engine needs that live outside the signal. -/
structure Context where
  mode : Option Mode
  armed : Bool
  armedAt : Option Instant
  now : Instant
  destination : String
  api : Option Api
  verified : Bool
  endedInBatch : Bool
  laterEndRecorded : Bool
  alreadyAttempted : Bool
  bridgeRequestExists : Bool

def Context.paper (c : Context) : Bool := c.mode = some .paper

namespace SignalEngine

def refusal (message : String) : Exc := .refuse "" message

def checkBrackets (side : String) (entry sl tp : Decimal) : Except Exc Unit :=
  raiseIf ((side = "BUY" ∧ ¬ (sl < entry ∧ entry < tp)) ∨ (side = "SELL" ∧ ¬ (tp < entry ∧ entry < sl)))
    (refusal "Intent bracket prices do not match its side")

/-- A broker quote stamped at most ten seconds ago, and not ahead by more than five. -/
def quoteFresh (now : Instant) (q : Quote) : Bool :=
  let stamp : Int := match q.timestampMs with
    | some ms => if ms ≠ 0 then ms else q.timestampSec.getD 0 * 1000
    | none => q.timestampSec.getD 0 * 1000
  let age := now.timestampMicros - stamp * 1000
  stamp ≠ 0 && (-5000000 ≤ age && age ≤ 10000000)

def destinationQuotes (c : Context) (symbol : String) : Act (List Quote) :=
  match c.api with
  | some api => quotes api symbol
  | none => throw (Exc.mk .other "AttributeError" "'NoneType' object has no attribute 'quotes'" none)

/-- The type of a resting order at the entry, from the side of the market it lies on. -/
def pendingTypeFromQuote (s : Signal) (m : SymbolMapping) (side : String) (c : Context) : Act String := do
  raiseIf c.paper (refusal "Paper preview needs an explicit source Limit or Stop order type")
  let found ← destinationQuotes c m.destination
  match found.filter fun q => q.symbol = m.destination with
  | [q] =>
    raiseIf (¬ (0 < q.bid ∧ q.bid ≤ q.ask)) (refusal "Destination quote is invalid")
    raiseIf (!quoteFresh c.now q) (refusal "A fresh timestamped broker quote is required")
    let reference := if side = "BUY" then q.ask else q.bid
    raiseIf (s.entry.same reference) (refusal "Entry equals current quote; pending type is ambiguous")
    let below := decide (s.entry < reference)
    return if (if side = "BUY" then below else !below) then "LIMIT" else "STOP"
  | _ => throw (refusal "A unique destination quote is required for pending entry")

/-- The type the map asks for; an entry whose side of the market is not stated is left to the quote. -/
def mappedType (s : Signal) (m : SymbolMapping) : String :=
  let stated := if s.orderType = "" then s.copyOrderType else s.orderType
  let type := if m.orderType = .source then stated else m.orderType.text
  if type = "ENTRY" ∧ (stated = "LIMIT" ∨ stated = "STOP") then stated else type

def resolvedType (s : Signal) (m : SymbolMapping) (side : String) (c : Context) : Act String :=
  if mappedType s m = "ENTRY" then pendingTypeFromQuote s m side c else pure (mappedType s m)

def orderType (s : Signal) (m : SymbolMapping) (side : String) (c : Context) : Act String := do
  let type ← resolvedType s m side c
  raiseIf (¬ (type = "MARKET" ∨ type = "LIMIT" ∨ type = "STOP"))
    (refusal "Source intent has no supported order type")
  return type

/-- The destination's own instrument record, read before any write. -/
def instrument (api : Api) (symbol : String) : Act Instrument := do
  match (← instruments api).filter fun i => i.symbol = symbol with
  | [info] => return info
  | _ => throw (refusal "Destination instrument is not uniquely available")

/-- The smallest box the lane copies, zero when its switch is off. -/
def minBox (lane : Lane) : Decimal := if lane.minBoxEnabled then lane.minBox else 0

def sizing (lane : Lane) : Sizing :=
  match lane.sizing with
  | some mode => mode
  | none => if lane.riskUsd.any fun r => !r.isZero then .dollar else .lots

def accountEquity (api : Api) : Act Decimal := do
  let value ← tryCatch (equity api) fun _ =>
    throw (refusal "Percent sizing needs the account equity; the balance read failed")
  raiseIf (value ≤ 0) (refusal "Percent sizing needs a positive account equity")
  return value

/-- The map's fixed lots, or a risk divided by the stop distance in contract units. -/
def lots (lane : Lane) (m : SymbolMapping) (s : Signal) (info : Instrument) (equity : Decimal) :
    Except Exc Decimal := do
  if sizing lane = .lots then return m.lots
  match (lane.sizingValue.or lane.riskUsd).filter fun v => 0 < v with
  | none => throw (refusal "This config's sizing needs a positive dollar amount or percent")
  | some value =>
    let risk ← if sizing lane = .percent then
        do arith ((← arith (equity.mul value)).div (.ofNat 100))
      else pure value
    let contract := (info.contractSize.filter fun c => !c.isZero).getD (.ofNat 1)
    let step ← limit info.volumeStep
    let minimum ← limit info.volumeMin
    let distance ← arith (do (← s.entry.sub s.stopLoss).abs)
    raiseIf (distance ≤ 0 ∨ contract ≤ 0) (refusal "Risk sizing needs a positive stop distance")
    let lots ← arith (do (← risk.div (← distance.mul contract)).quantize .down step)
    return if lots < minimum then minimum else lots

def checkLimits (info : Instrument) (lots : Decimal) (side : String) : Except Exc Unit := do
  let minimum ← limit info.volumeMin
  let maximum ← limit info.volumeMax
  let step ← limit info.volumeStep
  raiseIf (← violatesLimits minimum maximum step lots) (refusal "Quantity violates destination lot limits/step")
  raiseIf info.closeOnly (refusal "Destination instrument is close-only")
  raiseIf (info.longOnly ∧ side = "SELL") (refusal "Destination instrument is long-only")

def throughMarket (q : Quote) (side orderType : String) (level : Decimal) : Bool :=
  if orderType = "STOP" then (if side = "BUY" then decide (level ≤ q.ask) else decide (q.bid ≤ level))
  else (if side = "BUY" then decide (q.ask ≤ level) else decide (level ≤ q.bid))

/-- A resting order that the market has already passed would execute on contact. Judged on a
fresh quote only; without one the check stands down. -/
def checkNotThroughMarket (c : Context) (api : Api) (symbol side orderType : String) (level : Decimal) :
    Act Unit :=
  if orderType = "MARKET" then pure ()
  else do
    let found ← tryCatch (quotes api symbol) fun _ => pure []
    match found.filter fun q => q.symbol = symbol with
    | [q] =>
      raiseIf (quoteFresh c.now q ∧ throughMarket q side orderType level)
        (refusal ("Level " ++ level.toString ++ " is already through the market (" ++ q.bid.toString ++ "/"
          ++ q.ask.toString ++ "); a resting order would execute on contact"))
    | _ => pure ()

/-- The checks that need neither the symbol map nor the broker. -/
def admission (lane : Lane) (s : Signal) (c : Context) : Except Exc Unit := do
  raiseIf (c.destination ≠ lane.destinationAccount ∨ (!c.paper ∧ (c.api.isNone ∨ !c.verified)))
    (refusal "Connect the configured authenticated destination")
  raiseIf (s.machineId ≠ lane.machineId ∨ ¬ (s.source = lane.source ∨ s.source ∈ lane.additionalSources))
    (refusal "Signal does not match the configured machine/source")
  raiseIf (lane.connectionName ≠ "" ∧ s.source ≠ "panel" ∧ s.connectionName ≠ lane.connectionName)
    (refusal "Signal does not match the configured chart connection")
  raiseIf (¬ (c.armedAt.any fun t => ¬ s.timestampUtc < t) ∨ !fresh c.now s.timestampUtc)
    (refusal "Signal is stale or predates enabling live mode; no replay")
  raiseIf c.bridgeRequestExists (refusal "This lifecycle already has a bridge request; no second order")
  raiseIf (s.label = "") (refusal "A labeled lifecycle is required for copying")
  (s.checkAttribution lane).mapError fun e => refusal e.message
  raiseIf c.endedInBatch (refusal "This batch already contains an ended lifecycle")
  raiseIf c.laterEndRecorded (refusal "A later ended lifecycle was already recorded")
  raiseIf c.alreadyAttempted (refusal "This scoped lifecycle already has a broker attempt; no duplicate order")
  raiseIf (lane.acceptedGrades ≠ [] ∧ s.grade ≠ "" ∧ s.grade ∉ lane.acceptedGrades)
    (refusal ("Grade " ++ s.grade ++ " is not accepted by the lane"))

def sizingEquity (lane : Lane) (api : Api) : Act Decimal :=
  if sizing lane = .percent then accountEquity api else pure 0

/-- The prices on the destination's grid, and the size within its limits. -/
def fitToDestination (lane : Lane) (m : SymbolMapping) (s : Signal) (side orderType : String) (c : Context)
    (api : Api) : Act (Decimal × Decimal × Decimal × Decimal) := do
  let info ← instrument api m.destination
  let entry ← Prog.ofExcept (onGrid info.pricePrecision s.entry)
  let sl ← Prog.ofExcept (onGrid info.pricePrecision s.stopLoss)
  let tp ← Prog.ofExcept (onGrid info.pricePrecision s.takeProfit)
  Prog.ofExcept (checkBrackets side entry sl tp)
  let equity ← sizingEquity lane api
  let size ← Prog.ofExcept (lots lane m s info equity)
  Prog.ofExcept (checkLimits info size side)
  checkNotThroughMarket c api m.destination side orderType entry
  return (entry, sl, tp, size)

/-- The prices and the size to send: the source's own on paper, fitted to the destination live. -/
def fit (lane : Lane) (m : SymbolMapping) (s : Signal) (side orderType : String) (c : Context) :
    Act (Decimal × Decimal × Decimal × Decimal) :=
  match (if c.paper then none else c.api) with
  | none => pure (s.entry, s.stopLoss, s.takeProfit, m.lots)
  | some api => fitToDestination lane m s side orderType c api

def decide (lane : Option Lane) (symbols : SymbolMap) (s : Signal) (c : Context) : Act OrderPlan := do
  match (if c.armed then lane else none) with
  | none => throw (refusal "Live signal copying is off")
  | some lane =>
    Prog.ofExcept (admission lane s c)
    match symbols.lookup s.symbol with
    | none => throw (refusal "No configured symbol mapping")
    | some m =>
      let side := s.side
      raiseIf (¬ (side = "BUY" ∨ side = "SELL") ∨ s.entry ≤ 0 ∨ s.stopLoss ≤ 0 ∨ s.takeProfit ≤ 0)
        (refusal "Intent needs a side and positive entry, stop and target")
      Prog.ofExcept (checkBrackets side s.entry s.stopLoss s.takeProfit)
      let box ← Prog.ofExcept (arith (do (← s.takeProfit.sub s.stopLoss).abs))
      raiseIf (!(minBox lane).isZero ∧ box < minBox lane)
        (refusal ("Box " ++ box.toString ++ " is below the " ++ (minBox lane).toString
          ++ " minimum box set on this copy; tight boxes stop out on entry noise"))
      let type ← orderType s m side c
      let (entry, sl, tp, size) ← fit lane m s side type c
      return {
        instrument := m.destination, side, orderType := type, volume := size
        price := if type = "MARKET" then none else some entry, sl, tp, label := s.label, scope := s.scope }

end SignalEngine

end MatchTrader
