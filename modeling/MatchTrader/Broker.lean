import MatchTrader.Native

/-! The broker: its sessions, the records it returns, the calls that write to it, and
the exceptions and reasons a call may end in. -/

namespace MatchTrader

structure Reason where
  origin : String
  code : String
  evidence : String
deriving DecidableEq, Repr

inductive ExcKind where
  | valueError
  | refusal (code : String)
  | keyError
  | typeError
  | arithmeticError
  | osError
  | writesDisabled
  | sqlite
  | other
deriving DecidableEq, Repr

structure Exc where
  kind : ExcKind
  name : String
  message : String
  reason : Option Reason := none
deriving DecidableEq, Repr

namespace Exc

def value (message : String) : Exc := ⟨.valueError, "ValueError", message, none⟩

/-- A local check that stopped an action; `code` names the check. -/
def refuse (code message : String) : Exc := ⟨.refusal code, "Refusal", message, none⟩

def type (message : String) : Exc := ⟨.typeError, "TypeError", message, none⟩

def runtime (message : String) : Exc := ⟨.other, "RuntimeError", message, none⟩

def sqlite : Exc := ⟨.sqlite, "OperationalError", "", none⟩

def integrity : Exc := ⟨.sqlite, "IntegrityError", "", none⟩

def ofSignal : Decimal.Signal → Exc
  | .invalidOperation => ⟨.arithmeticError, "InvalidOperation", "", none⟩
  | .divisionByZero => ⟨.arithmeticError, "DivisionByZero", "", none⟩
  | .overflow => ⟨.arithmeticError, "Overflow", "", none⟩

def isValueError (e : Exc) : Bool :=
  match e.kind with
  | .valueError | .refusal _ => true
  | _ => false

/-- The classes that one copy configuration may fail with while the others go on. -/
def isContained (e : Exc) : Bool :=
  match e.kind with
  | .osError | .valueError | .refusal _ | .keyError | .typeError | .arithmeticError => true
  | _ => false

end Exc

/-- An arithmetic operation under the decimal context. -/
def arith {α : Type} (r : Except Decimal.Signal α) : Except Exc α := r.mapError Exc.ofSignal

/-- What became of a signal or of a native event. -/
inductive Decision where
  | captured
  | held
  | paper
  | dispatching
  | accepted
  | uncertain
  | invalid
deriving DecidableEq, Repr

def Decision.text : Decision → String
  | captured => "captured"
  | held => "held"
  | paper => "paper"
  | dispatching => "dispatching"
  | accepted => "accepted"
  | uncertain => "uncertain"
  | invalid => "invalid"

/-- An authenticated session of one trading account. -/
structure Api where
  accountId : String
  enableWrites : Bool
  session : Nat
  accountId_ne : accountId ≠ "" := by decide
deriving DecidableEq, Repr

structure Position where
  id : String
  symbol : String
  side : String
  volume : Decimal
  openPrice : Decimal
  openTime : Option String
  openTimeMillis : Option Int
  orderId : Option String
  positions : List Position

structure ClosedTrade where
  id : String
  symbol : String
  side : String
  volume : Decimal
  openPrice : Decimal
  openTime : String
  time : String
  uid : Option String
  closingOrderID : Option String
  closeReason : Option String
deriving DecidableEq, Repr

structure Order where
  id : String
  symbol : String
  side : String
  type : String
deriving DecidableEq, Repr

structure Instrument where
  symbol : String
  pricePrecision : Option Int
  volumeMin : Option Decimal
  volumeMax : Option Decimal
  volumeStep : Option Decimal
  contractSize : Option Decimal
  closeOnly : Bool
  longOnly : Bool
deriving DecidableEq, Repr

structure Quote where
  symbol : String
  bid : Decimal
  ask : Decimal
  timestampSec : Option Int
  timestampMs : Option Int
deriving DecidableEq, Repr

structure Operation where
  status : Option String
  orderId : Option String
  positionId : Option String
  recognized : (status.getD "" ≠ "") ∨ (orderId.getD "" ≠ "") ∨ (positionId.getD "" ≠ "")
deriving DecidableEq

/-- Keyword arguments of `open_position`, and of `create_pending_order` when `pending` is set. -/
structure OpenRequest where
  instrument : String
  orderSide : String
  volume : Decimal
  slPrice : Decimal
  tpPrice : Decimal
  pending : Option (String × Decimal)
deriving DecidableEq, Repr

structure CancelRequest where
  instrument : String
  id : String
  orderSide : String
  type : String
deriving DecidableEq, Repr

structure CloseRequest where
  instrument : String
  orderSide : String
  positionId : String
  volume : Decimal
deriving DecidableEq, Repr

structure EditPositionRequest where
  instrument : String
  orderSide : String
  id : String
  volume : Decimal
  slPrice : Decimal
  tpPrice : Decimal
deriving DecidableEq, Repr

structure EditPendingRequest where
  instrument : String
  orderSide : String
  id : String
  type : String
  volume : Decimal
  priceOrder : Decimal
  slPrice : Decimal
  tpPrice : Decimal
deriving DecidableEq, Repr

/-- A broker write method with its arguments. -/
inductive Call where
  | openPosition (r : OpenRequest)
  | createPendingOrder (r : OpenRequest)
  | cancelPendingOrder (r : CancelRequest)
  | closePosition (r : CloseRequest)
  | partialClose (r : CloseRequest)
  | editPosition (r : EditPositionRequest)
  | editPendingOrder (r : EditPendingRequest)
deriving DecidableEq, Repr

namespace Call

def opens : Call → Bool
  | openPosition _ | createPendingOrder _ => true
  | _ => false

def cancels : Call → Bool
  | cancelPendingOrder _ => true
  | _ => false

def instrument : Call → String
  | openPosition r | createPendingOrder r => r.instrument
  | cancelPendingOrder r => r.instrument
  | closePosition r | partialClose r => r.instrument
  | editPosition r => r.instrument
  | editPendingOrder r => r.instrument

def orderSide : Call → String
  | openPosition r | createPendingOrder r => r.orderSide
  | cancelPendingOrder r => r.orderSide
  | closePosition r | partialClose r => r.orderSide
  | editPosition r => r.orderSide
  | editPendingOrder r => r.orderSide

def kwargs : Call → Json
  | openPosition r | createPendingOrder r =>
    .obj ([("instrument", .str r.instrument), ("orderSide", .str r.orderSide), ("volume", .str r.volume.toString),
      ("slPrice", .str r.slPrice.toString), ("tpPrice", .str r.tpPrice.toString)]
      ++ match r.pending with
        | some (type, price) => [("type", .str type), ("price", .str price.toString)]
        | none => [])
  | cancelPendingOrder r =>
    .obj [("instrument", .str r.instrument), ("id", .str r.id), ("orderSide", .str r.orderSide), ("type", .str r.type)]
  | closePosition r | partialClose r =>
    .obj [("instrument", .str r.instrument), ("orderSide", .str r.orderSide), ("positionId", .str r.positionId),
      ("volume", .str r.volume.toString)]
  | editPosition r =>
    .obj [("instrument", .str r.instrument), ("orderSide", .str r.orderSide), ("id", .str r.id),
      ("volume", .str r.volume.toString), ("slPrice", .str r.slPrice.toString), ("tpPrice", .str r.tpPrice.toString)]
  | editPendingOrder r =>
    .obj [("instrument", .str r.instrument), ("orderSide", .str r.orderSide), ("id", .str r.id), ("type", .str r.type),
      ("volume", .str r.volume.toString), ("priceOrder", .str r.priceOrder.toString),
      ("slPrice", .str r.slPrice.toString), ("tpPrice", .str r.tpPrice.toString)]

/-- The `type` argument, where the method takes one. -/
def type? : Call → Option String
  | openPosition r | createPendingOrder r => r.pending.map Prod.fst
  | cancelPendingOrder r => some r.type
  | editPendingOrder r => some r.type
  | _ => none

end Call

mutual

/-- The positions of a group, or the position itself when it is no group. -/
def Position.leaves : Position → List Position
  | ⟨id, symbol, side, volume, openPrice, openTime, openTimeMillis, orderId, []⟩ =>
    [⟨id, symbol, side, volume, openPrice, openTime, openTimeMillis, orderId, []⟩]
  | ⟨_, _, _, _, _, _, _, _, p :: rest⟩ => p.leaves ++ leavesAll rest

def leavesAll : List Position → List Position
  | [] => []
  | p :: rest => p.leaves ++ leavesAll rest

end

end MatchTrader
