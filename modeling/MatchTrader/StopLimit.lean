import MatchTrader.Numbers
import MatchTrader.World

/-! The stop-limit order that the platform does not offer: a stop price that triggers it and a
limit price that bounds its fill, and the decision on one quote. -/

namespace MatchTrader

structure BidAsk where
  bid : Decimal
  ask : Decimal
deriving DecidableEq, Repr

/-- Entry for bracket purposes is the worst price that is accepted. -/
def wrongBrackets (side : Side) (entry sl tp : Decimal) : Bool :=
  match side with
  | .buy => (!sl.isZero && decide (entry ≤ sl)) || (!tp.isZero && decide (tp ≤ entry))
  | .sell => (!sl.isZero && decide (sl ≤ entry)) || (!tp.isZero && decide (entry ≤ tp))
  | .blank => false

/-- A trigger price plus a worst acceptable fill price, which no native type carries. -/
structure StopLimitPlan where
  instrument : String
  orderSide : Side
  volume : Decimal
  stopPrice : Decimal
  limitPrice : Decimal
  slPrice : Decimal := 0
  tpPrice : Decimal := 0
  expireAfterSeconds : Decimal := 0
  instrument_ne : instrument ≠ "" := by decide
  orderSide_ne : orderSide ≠ .blank := by decide
  volume_pos : 0 < volume := by decide
  stopPrice_pos : 0 < stopPrice := by decide
  limitPrice_pos : 0 < limitPrice := by decide
  slPrice_nonneg : 0 ≤ slPrice := by decide
  tpPrice_nonneg : 0 ≤ tpPrice := by decide
  expireAfterSeconds_nonneg : 0 ≤ expireAfterSeconds := by decide
  brackets_match_side : wrongBrackets orderSide limitPrice slPrice tpPrice = false := by decide

namespace StopLimitPlan

def invalid (message : String) : Exc := ⟨.valueError, "ValidationError", message, none⟩

def positive (field : String) : Number → Except Exc { d : Decimal // 0 < d }
  | .finite d => if h : 0 < d then .ok ⟨d, h⟩ else .error (invalid (field ++ ": Input should be greater than 0"))
  | _ => .error (invalid (field ++ ": Input should be a finite number"))

def nonnegative (field : String) : Number → Except Exc { d : Decimal // 0 ≤ d }
  | .finite d => if h : 0 ≤ d then .ok ⟨d, h⟩ else .error (invalid (field ++ ": Input should be greater than or equal to 0"))
  | _ => .error (invalid (field ++ ": Input should be a finite number"))

def bracketsText : Side → String
  | .sell => "SELL brackets are on the wrong side of the limit price"
  | _ => "BUY brackets are on the wrong side of the limit price"

/-- The plan of given fields, without a trigger window. -/
def validate (instrument : String) (orderSide : Side) (volume stopPrice limitPrice slPrice tpPrice : Number) :
    Except Exc StopLimitPlan := do
  let volume ← positive "volume" volume
  let stopPrice ← positive "stopPrice" stopPrice
  let limitPrice ← positive "limitPrice" limitPrice
  let slPrice ← nonnegative "slPrice" slPrice
  let tpPrice ← nonnegative "tpPrice" tpPrice
  if hi : instrument = "" then .error (invalid "instrument: String should have at least 1 character")
  else if hs : orderSide = .blank then .error (invalid "orderSide: Input should be 'BUY' or 'SELL'")
  else if hb : wrongBrackets orderSide limitPrice.1 slPrice.1 tpPrice.1 = true then .error (invalid (bracketsText orderSide))
  else .ok {
    instrument, orderSide, volume := volume.1, stopPrice := stopPrice.1, limitPrice := limitPrice.1
    slPrice := slPrice.1, tpPrice := tpPrice.1, instrument_ne := hi, orderSide_ne := hs, volume_pos := volume.2
    stopPrice_pos := stopPrice.2, limitPrice_pos := limitPrice.2, slPrice_nonneg := slPrice.2
    tpPrice_nonneg := tpPrice.2, expireAfterSeconds_nonneg := Decimal.zero_nonneg, brackets_match_side := eq_false_of_ne_true hb }

end StopLimitPlan

inductive Route where
  | wait
  | market
  | restLimit
  | hold
deriving DecidableEq, Repr

namespace StopLimit

structure Decision where
  route : Route
  reason : String
  price : Option Decimal := none
deriving DecidableEq, Repr

/-- A buy is paid at the ask and a sell is hit at the bid. -/
def triggerPrice (side : Side) (quote : BidAsk) : Decimal := if side = .buy then quote.ask else quote.bid

/-- The route of a plan whose stop price is reached. -/
def triggered (plan : StopLimitPlan) (market : Decimal) (marketable : Bool) (distance stopsLevel : Decimal) : Decision :=
  if marketable then
    -- Inside the limit right now: take it at market, which fills at or better than the limit.
    ⟨.market, "Triggered inside the limit price", some market⟩
  else if stopsLevel.isZero = false ∧ distance < stopsLevel then
    -- Too close to market to rest; sending it would only earn a broker rejection.
    ⟨.hold, "Limit price is inside the broker stops level", some plan.limitPrice⟩
  else
    -- Gapped through the limit: rest a passive limit order.
    ⟨.restLimit, "Triggered beyond the limit price", some plan.limitPrice⟩

/-- The trigger and route decision for one quote; no broker call and no state change. -/
def decide (plan : StopLimitPlan) (quote : BidAsk) (stopsLevel : Decimal := 0) : Except Exc Decision :=
  let market := triggerPrice plan.orderSide quote
  if plan.orderSide = .buy then
    if market < plan.stopPrice then .ok ⟨.wait, "Ask has not reached the stop price", none⟩
    else do
      let distance ← arith (market.sub plan.limitPrice)
      return triggered plan market (market ≤ plan.limitPrice) distance stopsLevel
  else
    if plan.stopPrice < market then .ok ⟨.wait, "Bid has not reached the stop price", none⟩
    else do
      let distance ← arith (plan.limitPrice.sub market)
      return triggered plan market (plan.limitPrice ≤ market) distance stopsLevel

end StopLimit

end MatchTrader
