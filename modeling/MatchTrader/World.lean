import MatchTrader.Durable
import MatchTrader.Journal
import MatchTrader.Signals

/-! The state of the process and of its stores, the questions it asks its
surroundings, and the trace of what it did at the broker. -/

namespace MatchTrader

open Durable

inductive Mode where
  | paper
  | live
deriving DecidableEq, Repr

structure CopyConfig where
  id : String
  lane : Lane
  mode : Mode
  enabled : Bool

inductive LaneId where
  | main
  | r01
  /-- The lane of the copy configurations kept under one directory name. -/
  | config (directory : String)
deriving DecidableEq, Repr

/-- A lifecycle of the R01 ledger: a label and the time of its intent. -/
structure Episode where
  episode : String
  prices : List (Option String)
  grade : String
  duplicates : Nat

structure Memory where
  mode : Mode
  copyModeSince : Instant
  sources : List Source
  selected : String
  connected : Bool
  api : Option Api
  running : Bool
  captureGeneration : Nat
  enableWrites : Bool
  interactiveCopying : Bool
  route : Option RouteConfig
  profiles : List Api
  symbols : SymbolMap
  signalConfig : Option Lane
  r01Config : Option Lane
  r01Episodes : List (String × Episode)
  configs : List CopyConfig
  copyConfigSince : List (String × Instant)
  copyLanes : List String

/-- The path a trade's write was issued on. -/
inductive Entry where
  | bridge
  | manual
  | router
  | unwind
deriving DecidableEq, Repr

structure TradeWrite where
  tradeId : String
  actionKey : ActionKey
  entry : Entry
  machine : String
  label : String
  destination : String
deriving DecidableEq

structure SignalWrite where
  lane : LaneId
  key : String
  scope : List (Option String)
  destination : String
deriving DecidableEq

inductive Owner where
  | trade (w : TradeWrite)
  | signal (w : SignalWrite)
deriving DecidableEq

inductive Event where
  /-- A broker write method was invoked, with the journal as it stood. -/
  | sent (owner : Owner) (api : Api) (call : Call) (journal : Journal)
  | answered (owner : Owner) (reply : Except Exc Operation)
  | readPositions (account : String) (positions : List Position)
  | readClosed (account : String) (trades : List ClosedTrade)
  | decided (lane : LaneId) (machine clientEventId : String)

structure World where
  journal : Journal
  lanes : LaneId → LaneDb
  mem : Memory
  trace : List Event
  /-- A statement of the store has failed. -/
  faulted : Bool

inductive Query where
  | clock
  | uuid4
  | commitFails
  | instruments (api : Api)
  | quotes (api : Api) (symbol : String)
  | equity (api : Api)
  | openPositions (api : Api)
  | activeOrders (api : Api)
  | closedPositions (api : Api) (until_ : Instant)
  | write (api : Api) (call : Call)

def Reply : Query → Type
  | .clock => Instant
  | .uuid4 => String
  | .commitFails => Bool
  | .instruments _ => Except Exc (List Instrument)
  | .quotes _ _ => Except Exc (List Quote)
  | .equity _ => Except Exc Decimal
  | .openPositions _ => Except Exc (List Position)
  | .activeOrders _ => Except Exc (List Order)
  | .closedPositions _ _ => Except Exc (List ClosedTrade)
  | .write _ _ => Except Exc Operation

abbrev Act := Prog World Query Reply Exc

/-- `if …: raise …`. -/
def raiseIf {m : Type → Type} [Monad m] [MonadExceptOf Exc m] (c : Prop) [Decidable c] (e : Exc) : m Unit :=
  if c then throw e else pure ()

theorem bind_eq_ok {α β : Type} {x : Except Exc α} {f : α → Except Exc β} {b : β} :
    (x >>= f) = .ok b ↔ ∃ a, x = .ok a ∧ f a = .ok b := by
  cases x <;> simp [bind, Except.bind]

theorem bind_eq_error {α β : Type} {x : Except Exc α} {f : α → Except Exc β} {e : Exc} :
    (x >>= f) = .error e ↔ x = .error e ∨ ∃ a, x = .ok a ∧ f a = .error e := by
  cases x <;> simp [bind, Except.bind]

theorem raiseIf_eq_ok {c : Prop} [Decidable c] {e : Exc} {u : Unit} :
    (raiseIf c e : Except Exc Unit) = .ok u ↔ ¬ c := by
  unfold raiseIf
  split
  · next h => simp [h, throw, throwThe, MonadExceptOf.throw]
  · next h => simp [h, pure, Except.pure]

theorem raiseIf_eq_error {c : Prop} [Decidable c] {d e : Exc} (h : (raiseIf c d : Except Exc Unit) = .error e) : d = e := by
  unfold raiseIf at h
  split at h
  · exact Except.error.inj h
  · cases h

theorem exists_ok {ε α : Type} {x : Except ε α} {f : α → Bool} (h : x.toOption.any f = true) :
    ∃ a, x = .ok a ∧ f a = true := by
  cases x with
  | error e => simp [Except.toOption] at h
  | ok a => exact ⟨a, rfl, by simpa [Except.toOption] using h⟩

/-- The statements of one transaction on the journal. -/
abbrev Tx (α : Type) := Journal → Except Exc (α × Journal)

def reads {α : Type} (f : World → α) : Act α := Prog.reads f

def now : Act Instant := Prog.query (R := Reply) Query.clock

def uuid4 : Act String := Prog.query (R := Reply) Query.uuid4

def commitFails : Act Bool := Prog.query (R := Reply) Query.commitFails

def record (e : Event) : Act Unit := Prog.commit fun w => { w with trace := w.trace ++ [e] }

def setMem (f : Memory → Memory) : Act Unit := Prog.commit fun w => { w with mem := f w.mem }

/-- Whether the statements of the next transaction fail. -/
def guarded {α : Type} (p : Act α) : Act α := do
  if ← commitFails then
    Prog.commit fun w => { w with faulted := true }
    throw Exc.sqlite
  p

/-- Run one transaction on the journal; an error rolls it back. -/
def transact {α : Type} (f : Tx α) : Act α :=
  guarded <| Prog.attempt fun w =>
    match f w.journal with
    | .error e => .error e
    | .ok (a, j) => .ok (a, { w with journal := j })

def setLane (w : World) (l : LaneId) (d : LaneDb) : World :=
  { w with lanes := fun k => if k = l then d else w.lanes k }

/-- Run one transaction on a lane's record. -/
def transactLane (l : LaneId) (f : LaneDb → LaneDb) : Act Unit :=
  guarded <| Prog.commit fun w => setLane w l (f (w.lanes l))

def askWrite (api : Api) (call : Call) : Act (Except Exc Operation) := Prog.query (R := Reply) (Query.write api call)

def askPositions (api : Api) : Act (Except Exc (List Position)) := Prog.query (R := Reply) (Query.openPositions api)

def askClosed (api : Api) (until_ : Instant) : Act (Except Exc (List ClosedTrade)) :=
  Prog.query (R := Reply) (Query.closedPositions api until_)

/-- Invoke a broker write method on behalf of its owner. -/
def invoke (owner : Owner) (api : Api) (call : Call) : Act Operation := do
  let journal ← reads World.journal
  record (.sent owner api call journal)
  let reply ← askWrite api call
  record (.answered owner reply)
  Prog.ofExcept reply

def instruments (api : Api) : Act (List Instrument) := do
  let reply : Except Exc (List Instrument) ← Prog.query (R := Reply) (Query.instruments api)
  Prog.ofExcept reply

def quotes (api : Api) (symbol : String) : Act (List Quote) := do
  let reply : Except Exc (List Quote) ← Prog.query (R := Reply) (Query.quotes api symbol)
  Prog.ofExcept reply

/-- `api.balance().equity`. -/
def equity (api : Api) : Act Decimal := do
  let reply : Except Exc Decimal ← Prog.query (R := Reply) (Query.equity api)
  Prog.ofExcept reply

def activeOrders (api : Api) : Act (List Order) := do
  let reply : Except Exc (List Order) ← Prog.query (R := Reply) (Query.activeOrders api)
  Prog.ofExcept reply

/-- `api.open_positions()`, read for an account. -/
def openPositions (api : Api) (account : String) : Act (List Position) := do
  let reply ← askPositions api
  let positions ← Prog.ofExcept reply
  record (.readPositions account (leavesAll positions))
  return positions

/-- `api.closed_positions(…)` of the last seven days, read for an account. -/
def closedPositions (api : Api) (account : String) (until_ : Instant) : Act (List ClosedTrade) := do
  let reply ← askClosed api until_
  let trades ← Prog.ofExcept reply
  record (.readClosed account trades)
  return trades

end MatchTrader
