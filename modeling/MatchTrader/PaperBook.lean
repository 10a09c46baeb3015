import MatchTrader.Rows
import MatchTrader.StopLimit

/-! The paper book: ledger rows become plans, and quotes drive each plan as the market would have
driven a real order. A plan is an object that rows and quotes change in place and that moves from
the live plans to the finished ones. -/

namespace MatchTrader

/-- The readings of text that the interpreter supplies to the paper runner. -/
class PaperHost where
  /-- `Decimal(text)`. -/
  number : String → Option Number
  repr : Option String → String
  /-- The text of a number of seconds. -/
  seconds : ℚ → String

/-- A host for worked runs, which reads whole numbers. -/
@[reducible] def samplePaperHost : PaperHost where
  number s :=
    if s ≠ "" ∧ s.toList.all Char.isDigit then
      some (.finite (.ofNat (s.toList.foldl (fun n c => 10 * n + (c.toNat - 48)) 0)))
    else none
  repr s := s.getD "None"
  seconds _ := "900"

/-- A line of the ledger under its header; a field that a short line lacks is null. -/
abbrev LedgerFields := List (String × Option String)

namespace LedgerFields

def field? (r : LedgerFields) (name : String) : Option (Option String) := (r.find? fun f => f.1 = name).map Prod.snd

def get (r : LedgerFields) (name : String) : Option String := (r.field? name).join

def getD (r : LedgerFields) (name : String) (default : Option String) : Option String := (r.field? name).getD default

def price [PaperHost] (r : LedgerFields) (name : String) : Except Exc Number :=
  match r.field? name with
  | none => .error ⟨.keyError, "KeyError", name, none⟩
  | some none => .error (.type "conversion from NoneType to Decimal is not supported")
  | some (some text) =>
    match PaperHost.number text with
    | some n => .ok n
    | none => .error (.ofSignal .invalidOperation)

structure Prices where
  entry : Number
  sl : Number
  tp : Number

def prices [PaperHost] (r : LedgerFields) : Except Exc Prices := do
  let entry ← r.price "entry"
  let sl ← r.price "sl"
  let tp ← r.price "tp"
  return ⟨entry, sl, tp⟩

def side (r : LedgerFields) : Side :=
  if r.get "side" = some "long" then .buy else if r.get "side" = some "short" then .sell else .blank

end LedgerFields

/-- `str` of a field. -/
def fieldText : Option String → String
  | some s => s
  | none => "None"

inductive PlanKind where
  | limit
  | stopLimit
deriving DecidableEq, Repr

/-- The order types that a row states in its detail text. -/
def orderTypes : List (String × PlanKind) :=
  [("resting limit at range edge", .limit), ("resting stop at beyond edge", .stopLimit),
    ("resting stop-limit at beyond edge, limit at trigger", .stopLimit)]

def orderType? (detail : Option String) : Option PlanKind :=
  (orderTypes.find? fun t => some t.1 = detail).map Prod.snd

inductive PlanState where
  | armed
  | working
  | filled
  | closed
  | cancelled
  | expired
  | held
deriving DecidableEq, Repr

def PlanState.terminal : PlanState → Bool
  | closed | cancelled | expired | held => true
  | _ => false

inductive ExitReason where
  | sl
  | tp
deriving DecidableEq, Repr

def ExitReason.text : ExitReason → String
  | sl => "SL"
  | tp => "TP"

/-- An entry of a plan's history. -/
inductive PlanNote where
  /-- The monotonic time of the first quote the plan was evaluated on. -/
  | armedMono (monotonic : ℚ)
  | triggered (monotonic : ℚ) (reason : String)
  | cancelledIgnored (now : String) (state : PlanState)
  | intentWhileOpen (now : String) (line : Nat)
  | modified (now : String) (entry : Number)
  | regrade (now : String) (change : String)
deriving DecidableEq

structure PaperPlan where
  /-- Which object it is. -/
  ref : Nat
  id : String
  label : String
  side : Side
  kind : PlanKind
  entry : Number
  sl : Number
  tp : Number
  /-- The worst acceptable fill; the entry itself for a limit order. -/
  limit : Number
  grade : Option String
  stamp : Option String
  lots : Number
  detail : Option String
  sourceLine : Nat
  armedAt : String
  state : PlanState := .armed
  reason : String := ""
  duplicates : Nat := 0
  triggeredAt : Option String := none
  fillAt : Option String := none
  fillPrice : Option Number := none
  fillBid : Option Decimal := none
  fillAsk : Option Decimal := none
  r01TouchedAt : Option String := none
  exitAt : Option String := none
  exitPrice : Option Number := none
  exitBid : Option Decimal := none
  exitAsk : Option Decimal := none
  exitReason : Option ExitReason := none
  pnl : Option Number := none
  history : List PlanNote := []
deriving DecidableEq

/-- What a book is made with. -/
structure PaperSettings where
  symbol : String
  risk : Decimal
  tolerance : Decimal
  grades : List String
  armTtl : ℚ := 900
  touchTtl : ℚ := 45
  contractSize : Decimal := .ofNat 1
  step : Decimal := ⟨false, 1, -2⟩
  minimum : Decimal := ⟨false, 1, -2⟩
  maximum : Decimal := .ofNat 50
  stopsLevel : Decimal := 0

structure PaperBook where
  /-- The live plans, by label. -/
  plans : List (String × PaperPlan) := []
  done : List PaperPlan := []
  /-- How many plans were made. -/
  made : Nat := 0

inductive PlanEvent where
  | armed
  | held
  | heldDuplicate
  | modified
  | touched
  | working
  | filled
  | finished (state : PlanState)
deriving DecidableEq, Repr

/-- What a call returns: a text about a label, or what became of a plan. -/
inductive PaperEvent where
  | ignored (label reason : String)
  | plan (kind : PlanEvent) (ref : Nat)
deriving DecidableEq

namespace PaperSettings

/-- Lots such that a stop-out loses the risk, floored to the volume step and clamped. -/
def sizeLots (t : PaperSettings) (entry sl : Number) : Except Exc Number := do
  let distance ← arith (do (← entry.sub sl).abs)
  let touching ← arith (distance.le (.finite 0))
  raiseIf (touching = true) (.value "Stop distance must be positive")
  let lots ← arith (do (← Number.div t.risk (← distance.mul (.finite t.contractSize))).quantize .down t.step)
  let lots := if (← arith (lots.lt (.finite t.minimum))) then .finite t.minimum else lots
  return if (← arith (Number.lt (.finite t.maximum) lots)) then .finite t.maximum else lots

def accepts (t : PaperSettings) (grade : Option String) : Bool := grade.any fun g => decide (g ∈ t.grades)

/-- The worst acceptable fill of a plan whose entry is given. -/
def limitFor (t : PaperSettings) (kind : PlanKind) (side : Side) (entry : Number) : Except Decimal.Signal Number :=
  match kind with
  | .limit => .ok entry
  | .stopLimit => if side = .buy then entry.add (.finite t.tolerance) else entry.sub (.finite t.tolerance)

def stopPlan (t : PaperSettings) (p : PaperPlan) : Except Exc StopLimitPlan :=
  StopLimitPlan.validate t.symbol p.side (if p.lots.truthy then p.lots else .finite ⟨false, 1, -2⟩) p.entry p.limit p.sl p.tp

end PaperSettings

namespace PaperPlan

def finish (p : PaperPlan) (state : PlanState) (reason now : String) : PaperPlan :=
  { p with state, reason, exitAt := if state = .closed then p.exitAt else some now }

def fill (p : PaperPlan) (price : Number) (quote : BidAsk) (now reason : String) : PaperPlan :=
  { p with
    state := .filled, fillAt := some now, fillPrice := some price, fillBid := some quote.bid, fillAsk := some quote.ask
    reason }

def note (p : PaperPlan) (n : PlanNote) : PaperPlan := { p with history := p.history ++ [n] }

def sign (p : PaperPlan) : Decimal := if p.side = .buy then .ofNat 1 else ⟨true, 1, 0⟩

/-- Whether the brackets match the side. -/
def straddles (side : Side) (v : LedgerFields.Prices) : Except Decimal.Signal Bool :=
  match side with
  | .buy => do if ← v.sl.lt v.entry then v.entry.lt v.tp else return false
  | .sell => do if ← v.tp.lt v.entry then v.entry.lt v.sl else return false
  | .blank => return false

/-- The comparison of a live plan with an intent, field by field until they differ. -/
def same (p : PaperPlan) (v : LedgerFields.Prices) (side : Side) : Except Decimal.Signal Bool := do
  if ← p.entry.eq v.entry then
    if ← p.sl.eq v.sl then
      if ← p.tp.eq v.tp then return decide (p.side = side)
  return false

end PaperPlan

namespace PaperBook

def live? (b : PaperBook) (label : String) : Option PaperPlan := (Rows.lookup Prod.fst label b.plans).map Prod.snd

/-- An object as it now is, wherever it is kept. A finished one has left the live plans by its label. -/
def put (b : PaperBook) (p : PaperPlan) : PaperBook :=
  if p.state.terminal then
    { b with plans := b.plans.filter fun e => e.1 ≠ p.label, done := b.done ++ [p] }
  else { b with plans := b.plans.map fun e => if e.2.ref = p.ref then (e.1, p) else e }

/-- A plan that was never live. -/
def hold (b : PaperBook) (p : PaperPlan) (reason : String) : PaperBook × Except Exc (List PaperEvent) :=
  ({ b with done := b.done ++ [{ p with state := .held, reason }] }, .ok [.plan .held p.ref])

def arm (b : PaperBook) (p : PaperPlan) : PaperBook × Except Exc (List PaperEvent) :=
  ({ b with plans := Rows.upsert Prod.fst (p.label, p) (fun _ => (p.label, p)) b.plans }, .ok [.plan .armed p.ref])

variable [PaperHost]

/-- The plan of a new intent, sized and validated. -/
def place (t : PaperSettings) (b : PaperBook) (p : PaperPlan) (v : LedgerFields.Prices) :
    PaperBook × Except Exc (List PaperEvent) :=
  match PaperPlan.straddles p.side v with
  | .error s => (b, .error (.ofSignal s))
  | .ok false => b.hold p "brackets do not match the side"
  | .ok true =>
    match t.sizeLots v.entry v.sl with
    | .error e => if e.isValueError then b.hold p e.message else (b, .error e)
    | .ok lots =>
      match p.kind with
      | .limit => b.arm { p with lots }
      | .stopLimit =>
        match t.limitFor .stopLimit p.side v.entry with
        | .error s => (b, .error (.ofSignal s))
        | .ok limit =>
          match t.stopPlan { p with lots, limit } with
          | .error e =>
            if e.isValueError then b.hold { p with lots, limit } ("stop-limit plan rejected: " ++ e.message) else (b, .error e)
          | .ok _ => b.arm { p with lots, limit }

/-- A new plan for the row, unless its grade is not accepted. -/
def create (t : PaperSettings) (b : PaperBook) (row : LedgerFields) (label : String) (line : Nat) (now : String)
    (kind : PlanKind) (v : LedgerFields.Prices) : PaperBook × Except Exc (List PaperEvent) :=
  let grade := row.getD "grade" (some "")
  if t.accepts grade then
    place t { b with made := b.made + 1 } {
      ref := b.made, id := label ++ "@" ++ Nat.repr line, label, side := row.side, kind, entry := v.entry, sl := v.sl
      tp := v.tp, limit := v.entry, grade, stamp := row.getD "stamp" (some ""), lots := .finite 0
      detail := row.getD "detail" (some ""), sourceLine := line, armedAt := now } v
  else (b, .ok [.ignored label ("grade " ++ fieldText grade ++ " not accepted")])

def intent (t : PaperSettings) (b : PaperBook) (row : LedgerFields) (label : String) (line : Nat) (now : String)
    (live : Option PaperPlan) : PaperBook × Except Exc (List PaperEvent) :=
  match orderType? (row.getD "detail" (some "")), row.prices with
  | none, _ => (b, .ok [.ignored label ("unknown intent detail " ++ PaperHost.repr (row.get "detail"))])
  | some _, .error e => (b, .error e)
  | some kind, .ok v =>
    match live with
    | none => create t b row label line now kind v
    | some p =>
      match p.same v row.side with
      | .error s => (b, .error (.ofSignal s))
      | .ok same =>
        if p.state = .filled then (b.put (p.note (.intentWhileOpen now line)), .ok [.plan .heldDuplicate p.ref])
        else if same then (b.put { p with duplicates := p.duplicates + 1 }, .ok [])
        else
          -- The event of the plan that is replaced is not returned.
          create t (b.put (p.finish .cancelled "replaced by a re-priced intent for the same label" now)) row label line now
            kind v

end PaperBook

namespace PaperPlan

variable [PaperHost]

def moveTo (p : PaperPlan) (v : LedgerFields.Prices) : PaperPlan := { p with entry := v.entry, sl := v.sl, tp := v.tp }

/-- The prices of an armed plan follow a modified row, field by field. -/
def reprice (t : PaperSettings) (row : LedgerFields) (p : PaperPlan) (now : String) : PaperPlan × Except Exc (List PaperEvent) :=
  match row.prices with
  | .error e => (p, .error e)
  | .ok v =>
    match t.limitFor p.kind p.side v.entry with
    | .error s => (p.moveTo v, .error (.ofSignal s))
    | .ok limit =>
      match t.sizeLots v.entry v.sl with
      | .error e => ({ p.moveTo v with limit }, .error e)
      | .ok lots => ({ p.moveTo v with limit, lots }.note (.modified now v.entry), .ok [.plan .modified p.ref])

/-- The grade of a plan follows a row; a resting plan whose grade is no longer accepted expires. -/
def regrade (t : PaperSettings) (row : LedgerFields) (p : PaperPlan) (now : String) : PaperPlan × List PaperEvent :=
  let grade := row.getD "grade" p.grade
  if grade = p.grade then (p, [])
  else
    let change := fieldText p.grade ++ "->" ++ fieldText grade
    let p : PaperPlan := { p.note (.regrade now change) with grade, stamp := row.getD "stamp" p.stamp }
    if t.accepts grade = false ∧ (p.state = .armed ∨ p.state = .working) then
      (p.finish .expired ("retracted on downgrade to " ++ fieldText grade) now, [.plan (.finished .expired) p.ref])
    else (p, [])

def update (t : PaperSettings) (row : LedgerFields) (p : PaperPlan) (now : String) : PaperPlan × Except Exc (List PaperEvent) :=
  let modified := if row.get "kind" = some "modified" ∧ p.state = .armed then reprice t row p now else (p, .ok [])
  match modified with
  | (p, .error e) => (p, .error e)
  | (p, .ok events) => ((regrade t row p now).1, .ok (events ++ (regrade t row p now).2))

def cancel (row : LedgerFields) (p : PaperPlan) (now : String) : PaperPlan × List PaperEvent :=
  if p.state = .armed ∨ p.state = .working then
    (p.finish .cancelled ("R01 cancelled: " ++ fieldText (row.getD "detail" (some ""))) now,
      [.plan (.finished .cancelled) p.ref])
  else (p.note (.cancelledIgnored now p.state), [])

end PaperPlan

/-- A quote with the times it was read at. -/
structure PaperQuote extends BidAsk where
  now : String
  monotonic : ℚ

namespace PaperPlan

/-- Seconds since the first quote the plan was evaluated on. -/
def age (p : PaperPlan) (monotonic : ℚ) : ℚ :=
  match p.history with
  | .armedMono first :: _ => monotonic - first
  | _ => 0

/-- The first quote a plan is evaluated on leaves its time at the head of the history. -/
def seen (monotonic : ℚ) : List PlanNote → List PlanNote
  | .armedMono first :: rest => .armedMono first :: rest
  | history => .armedMono monotonic :: history

def firstSeen (p : PaperPlan) (monotonic : ℚ) : PaperPlan := { p with history := seen monotonic p.history }

/-- The time of the quote that triggered the plan. -/
def trigger (p : PaperPlan) (monotonic : ℚ) : ℚ :=
  (p.history.findSome? fun
    | .triggered at_ _ => some at_
    | _ => none).getD monotonic

/-- The price at which an order of the plan's side executes now reaches a level. -/
def reaches (p : PaperPlan) (q : BidAsk) (level : Number) : Except Decimal.Signal Bool :=
  if p.side = .buy then Number.le (.finite q.ask) level else Number.le level (.finite q.bid)

def tripped (p : PaperPlan) (q : PaperQuote) (reason : String) : PaperPlan :=
  { p with triggeredAt := some q.now }.note (.triggered q.monotonic reason)

/-- An armed stop-limit plan takes the route that was decided on the quote. -/
def take (p : PaperPlan) (q : PaperQuote) (d : StopLimit.Decision) : PaperPlan × Except Exc (List PaperEvent) :=
  let p' := p.tripped q d.reason
  match d.route with
  | .wait => (p, .ok [])
  | .market =>
    match d.price with
    | some price =>
      (p'.fill (.finite price) q.toBidAsk q.now "triggered inside the limit; market fill", .ok [.plan .filled p.ref])
    | none => (p', .error (.type "conversion from NoneType to Decimal is not supported"))
  | .hold => (p'.finish .held d.reason q.now, .ok [.plan (.finished .held) p.ref])
  | .restLimit => ({ p' with state := .working }, .ok [.plan .working p.ref])

variable [PaperHost]

/-- An armed plan on a quote. -/
def onArmed (t : PaperSettings) (p : PaperPlan) (q : PaperQuote) : PaperPlan × Except Exc (List PaperEvent) :=
  let p := p.firstSeen q.monotonic
  if t.armTtl ≠ 0 ∧ t.armTtl < p.age q.monotonic then
    (p.finish .expired ("not reached within " ++ PaperHost.seconds t.armTtl ++ "s") q.now,
      .ok [.plan (.finished .expired) p.ref])
  else
    match p.kind with
    | .limit =>
      match p.reaches q.toBidAsk p.entry with
      | .error s => (p, .error (.ofSignal s))
      | .ok false => (p, .ok [])
      | .ok true => (p.fill p.entry q.toBidAsk q.now "resting LIMIT reached", .ok [.plan .filled p.ref])
    | .stopLimit =>
      match t.stopPlan p with
      | .error e => (p, .error e)
      | .ok plan =>
        match StopLimit.decide plan q.toBidAsk t.stopsLevel with
        | .error e => (p, .error e)
        | .ok d => p.take q d

/-- A triggered plan on a quote. -/
def onWorking (t : PaperSettings) (p : PaperPlan) (q : PaperQuote) : PaperPlan × Except Exc (List PaperEvent) :=
  match p.reaches q.toBidAsk p.limit with
  | .error s => (p, .error (.ofSignal s))
  | .ok true => (p.fill p.limit q.toBidAsk q.now "resting LIMIT at the limit price reached", .ok [.plan .filled p.ref])
  | .ok false =>
    if t.touchTtl ≠ 0 ∧ t.touchTtl < q.monotonic - p.trigger q.monotonic then
      (p.finish .expired ("triggered but unfilled after " ++ PaperHost.seconds t.touchTtl ++ "s") q.now,
        .ok [.plan (.finished .expired) p.ref])
    else (p, .ok [])

/-- What the position won or lost, in the account's currency. -/
def profit (t : PaperSettings) (p : PaperPlan) (exit fill : Number) : Except Decimal.Signal Number := do
  let gap ← exit.sub fill
  let signed ← gap.mul (.finite p.sign)
  let sized ← signed.mul p.lots
  sized.mul (.finite t.contractSize)

/-- The mark, which is the price a close would be executed at, has reached the stop or the target. -/
def hit (p : PaperPlan) (q : BidAsk) : Except Decimal.Signal (Bool × Bool) := do
  let mark := Number.finite (if p.side = .buy then q.bid else q.ask)
  let sl ← if p.side = .buy then mark.le p.sl else p.sl.le mark
  let tp ← if p.side = .buy then p.tp.le mark else mark.le p.tp
  return (sl, tp)

def closing (p : PaperPlan) (price : Number) (reason : ExitReason) (q : PaperQuote) : PaperPlan :=
  { p with
    exitAt := some q.now, exitPrice := some price, exitBid := some q.bid, exitAsk := some q.ask
    exitReason := some reason }

/-- A filled plan leaves at its stop or its target. -/
def exit (t : PaperSettings) (p : PaperPlan) (price : Number) (reason : ExitReason) (q : PaperQuote) :
    PaperPlan × Except Exc (List PaperEvent) :=
  let p := p.closing price reason q
  match p.fillPrice with
  | none => (p, .error (.type "unsupported operand type(s) for -: 'decimal.Decimal' and 'NoneType'"))
  | some fill =>
    match p.profit t price fill with
    | .error s => (p, .error (.ofSignal s))
    | .ok pnl =>
      ({ p with pnl := some pnl }.finish .closed (reason.text ++ " at " ++ price.toString ++ "; quote " ++ q.bid.toString ++ "/"
        ++ q.ask.toString) q.now, .ok [.plan (.finished .closed) p.ref])

/-- A filled plan on a quote. -/
def onOpen (t : PaperSettings) (p : PaperPlan) (q : PaperQuote) : PaperPlan × Except Exc (List PaperEvent) :=
  match p.hit q.toBidAsk with
  | .error s => (p, .error (.ofSignal s))
  | .ok (true, _) => p.exit t p.sl .sl q
  | .ok (false, true) => p.exit t p.tp .tp q
  | .ok (false, false) => (p, .ok [])

def onQuote (t : PaperSettings) (p : PaperPlan) (q : PaperQuote) : PaperPlan × Except Exc (List PaperEvent) :=
  match p.state with
  | .armed => p.onArmed t q
  | .working => p.onWorking t q
  | .filled => p.onOpen t q
  | _ => (p, .ok [])

end PaperPlan

namespace PaperBook

variable [PaperHost]

/-- A ledger row. -/
def applyRow (t : PaperSettings) (b : PaperBook) (row : LedgerFields) (line : Nat) (now : String) :
    PaperBook × Except Exc (List PaperEvent) :=
  let kind := row.get "kind"
  match row.get "label" with
  | none => (b, .ok [])
  | some label =>
    if row.get "symbol" ≠ some t.symbol ∨ label = "" then (b, .ok [])
    else if kind = some "intent" then intent t b row label line now (b.live? label)
    else
      match b.live? label with
      | none => (b, .ok [])
      | some p =>
        if kind = some "regrade" ∨ kind = some "modified" then (b.put (p.update t row now).1, (p.update t row now).2)
        else if kind = some "cancelled" then (b.put (p.cancel row now).1, .ok (p.cancel row now).2)
        else if kind = some "touched" then
          (b.put { p with r01TouchedAt := if p.r01TouchedAt.any (· ≠ "") then p.r01TouchedAt else row.get "utc" },
            .ok [.plan .touched p.ref])
        else (b, .ok [])

/-- The live plans, one after the other; each turn concerns its own plan only. -/
def visit (t : PaperSettings) (q : PaperQuote) (b : PaperBook) : List PaperPlan → PaperBook × Except Exc (List PaperEvent)
  | [] => (b, .ok [])
  | p :: rest =>
    match p.onQuote t q with
    | (p, .error e) => (b.put p, .error e)
    | (p, .ok events) =>
      match visit t q (b.put p) rest with
      | (b, .error e) => (b, .error e)
      | (b, .ok more) => (b, .ok (events ++ more))

def onQuote (t : PaperSettings) (b : PaperBook) (q : PaperQuote) : PaperBook × Except Exc (List PaperEvent) :=
  visit t q b (b.plans.map Prod.snd)

end PaperBook

end MatchTrader
