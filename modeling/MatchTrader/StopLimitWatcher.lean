import MatchTrader.StopLimit

/-! The watcher that drives one stop-limit plan against a quote feed and a clock: what each of its
calls does for given answers of the feed, the clock, the broker and the journal callback. -/

namespace MatchTrader

class WatchHost where
  /-- The summary of a reason, empty where it has none. -/
  summary : Reason → String
  /-- The text of an exception with everything sensitive in it masked. -/
  scrub : String → String

/-- A host for worked runs. -/
@[reducible] def sampleWatchHost : WatchHost where
  summary _ := ""
  scrub := id

namespace StopLimit

inductive State where
  /-- No broker order exists; the trigger lives in this process. -/
  | armed
  /-- Committed to a write; outcome unknown until it returns. -/
  | dispatching
  /-- A resting limit order is at the broker. -/
  | working
  | filled
  /-- Triggered but not sendable; never silently downgraded. -/
  | held
  | cancelled
  | expired
deriving DecidableEq, Repr

def State.text : State → String
  | armed => "armed"
  | dispatching => "dispatching"
  | working => "working"
  | filled => "filled"
  | held => "held"
  | cancelled => "cancelled"
  | expired => "expired"

/-- The decision at a price that need not be finite. -/
def decideAt (plan : StopLimitPlan) (market : Number) (stopsLevel : Decimal) : Except Exc Decision :=
  match market with
  | .finite d => decide plan ⟨d, d⟩ stopsLevel
  | .nan _ => .error (Exc.ofSignal .invalidOperation)
  | .infinite below =>
    if plan.orderSide = .buy then
      if below then .ok ⟨.wait, "Ask has not reached the stop price", none⟩
      else .ok ⟨.restLimit, "Triggered beyond the limit price", some plan.limitPrice⟩
    else if below then .ok ⟨.restLimit, "Triggered beyond the limit price", some plan.limitPrice⟩
    else .ok ⟨.wait, "Bid has not reached the stop price", none⟩

end StopLimit

/-- A row of the quote feed; each price is what reading it as a number gives. -/
structure FeedRow where
  symbol : Option String
  bid : Except Exc Number
  ask : Except Exc Number

def FeedRow.market (row : FeedRow) (side : Side) : Except Exc Number := if side = .buy then row.ask else row.bid

/-- An instrument of the broker with its stops level. -/
structure LimitRow where
  symbol : String
  stopsLevel : Option Decimal

/-- The reply to an opening write, with the field `id` that its model does not name. -/
structure WriteReply where
  operation : Operation
  id : Json := .null

/-- The fields that the watcher cancels an order with. -/
structure CancelFields where
  instrument : String
  id : Json
  orderSide : Option String := none
  type : Option String := none

structure StopLimitWatcher where
  plan : StopLimitPlan
  /-- A journal callback was given. -/
  journal : Bool
  state : StopLimit.State := .armed
  orderId : Json := .null
  reason : String := ""
  stopsLevel : Decimal := 0

/-- What the journal callback is given. -/
structure WatchEntry where
  instrument : String
  side : String
  state : String
  reason : String
  orderId : Json

namespace StopLimitWatcher

open StopLimit

inductive Effect where
  | journal (entry : WatchEntry)
  | write (call : Call)
  | cancel (fields : CancelFields)

/-- What one call of the watcher returned, left and did, in order. -/
structure Reaction where
  result : Except Exc State
  after : StopLimitWatcher
  effects : List Effect

def entry (w : StopLimitWatcher) : WatchEntry :=
  ⟨w.plan.instrument, w.plan.orderSide.text, w.state.text, w.reason, w.orderId⟩

/-- The state is set before the journal callback, which may raise, is called. -/
def record (w : StopLimitWatcher) (state : State) (reason : String) (answer : Except Exc Unit) : Reaction :=
  let w := { w with state, reason }
  if w.journal then ⟨answer.map fun _ => state, w, [.journal w.entry]⟩ else ⟨.ok state, w, []⟩

/-- Cache the destination stops level once so the hot path makes no extra call. -/
def loadLimits (w : StopLimitWatcher) (instruments : Except Exc (List LimitRow)) :
    Except Exc Decimal × StopLimitWatcher :=
  match instruments with
  | .error e => (.error e, w)
  | .ok rows =>
    match rows.filter fun r => r.symbol = w.plan.instrument with
    | [found] =>
      let level := (found.stopsLevel.filter fun d => !d.isZero).getD 0
      (.ok level, { w with stopsLevel := level })
    | _ => (.error (Exc.value "Destination instrument is not uniquely available"), w)

/-- The first row of the feed that is the instrument's, or that names none. -/
def quote (plan : StopLimitPlan) (quotes : Except Exc (List FeedRow)) : Except Exc FeedRow := do
  match (← quotes).find? fun row => row.symbol = some plan.instrument ∨ row.symbol = none with
  | some row => return row
  | none => throw (Exc.value "Quote feed returned no row for the destination instrument")

/-- The trigger window has elapsed; a plan without one reads no clock. -/
def windowElapsed (plan : StopLimitPlan) (elapsed : Except Exc Number) : Except Exc Bool :=
  if plan.expireAfterSeconds.isZero then .ok false
  else do arith ((Number.finite plan.expireAfterSeconds).lt (← elapsed))

/-- The opening write of a route. -/
def opening (plan : StopLimitPlan) (route : Route) : Call :=
  let request := OpenRequest.mk plan.instrument plan.orderSide.text plan.volume plan.slPrice plan.tpPrice
  if route = .market then .openPosition (request none)
  else .createPendingOrder (request (some ("LIMIT", plan.limitPrice)))

def either (a b : Json) : Json := if a.truthy then a else b

def text? (s : Option String) : Json := s.elim .null .str

/-- The order id that a reply to the write of a route is taken to give. -/
def orderIdOf (route : Route) (reply : WriteReply) : Json :=
  if route = .market then either (text? reply.operation.positionId) (text? reply.operation.orderId)
  else either (text? reply.operation.orderId) reply.id

section Reasons

variable [WatchHost]

def unconfirmedSummary (e : Exc) : String :=
  let detail := if e.message ≠ "" then WatchHost.scrub e.message else ""
  "Outcome unconfirmed after " ++ e.name ++ (if detail ≠ "" then ": " ++ detail else "")
    ++ "; the failure phase (broker, wire or local) could not be established"

def heldText (origin code summary evidence : String) : String :=
  "Dispatch outcome unverified (" ++ origin ++ "/" ++ code ++ "): "
    ++ (if summary ≠ "" then summary else if evidence ≠ "" then evidence else "no further detail available")

def unconfirmedText (e : Exc) (plan : StopLimitPlan) : String :=
  heldText "unconfirmed" e.name (unconfirmedSummary e)
    ("no structured broker or wire evidence was attached; reconcile using " ++ plan.instrument ++ "/"
      ++ plan.orderSide.text ++ " stop-limit watcher")

/-- Why a watcher is held after its write failed: the reason the error carries where it is complete. -/
def heldReason (plan : StopLimitPlan) (e : Exc) : String :=
  match e.reason with
  | some r =>
    if r.origin ≠ "" ∧ r.code ≠ "" ∧ r.evidence ≠ "" then heldText r.origin r.code (WatchHost.summary r) r.evidence
    else unconfirmedText e plan
  | none => unconfirmedText e plan

end Reasons

structure PollAnswers where
  /-- The time since the watcher was made. -/
  elapsed : Except Exc Number
  quotes : Except Exc (List FeedRow)
  /-- The journal callback, called the first time. -/
  committed : Except Exc Unit
  write : Except Exc WriteReply
  /-- The journal callback, called after the write. -/
  journaled : Except Exc Unit

variable [WatchHost]

/-- After the write: neither state depends on what the journal callback answers. -/
def settle (w : StopLimitWatcher) (route : Route) (write : Except Exc WriteReply) (journaled : Except Exc Unit) :
    Reaction :=
  let r : Reaction := match write with
    | .error e => w.record .held (heldReason w.plan e) journaled
    | .ok reply =>
      let w := { w with orderId := orderIdOf route reply }
      if route = .market then w.record .filled "Filled at market within the limit price" journaled
      else w.record .working "Resting LIMIT placed after the trigger" journaled
  { r with result := .ok r.after.state }

/-- Commit the attempt before the broker write; an unknown outcome is never retried. -/
def act (w : StopLimitWatcher) (d : StopLimit.Decision) (a : PollAnswers) : Reaction :=
  let committed := w.record .dispatching d.reason a.committed
  match committed.result with
  | .error _ => committed
  | .ok _ =>
    let settled := committed.after.settle d.route a.write a.journaled
    { settled with effects := committed.effects ++ .write (opening w.plan d.route) :: settled.effects }

/-- The decision on the quote that the feed answers. -/
def consider (w : StopLimitWatcher) (quotes : Except Exc (List FeedRow)) : Except Exc StopLimit.Decision := do
  decideAt w.plan (← (← quote w.plan quotes).market w.plan.orderSide) w.stopsLevel

/-- Evaluate one quote and act at most once. -/
def poll (w : StopLimitWatcher) (a : PollAnswers) : Reaction :=
  if w.state ≠ .armed then ⟨.ok w.state, w, []⟩
  else
    match windowElapsed w.plan a.elapsed with
    | .error e => ⟨.error e, w, []⟩
    | .ok true => w.record .expired "Trigger window elapsed before the stop price" a.committed
    | .ok false =>
      match w.consider a.quotes with
      | .error e => ⟨.error e, w, []⟩
      | .ok d =>
        match d.route with
        | .wait => ⟨.ok w.state, w, []⟩
        | .hold => w.record .held d.reason a.committed
        | _ => w.act d a

omit [WatchHost] in
/-- The reply to the cancel of a resting order is not looked at. -/
def cancel (w : StopLimitWatcher) (sent : CancelFields → Except Exc Operation) (journaled : Except Exc Unit) : Reaction :=
  match w.state with
  | .armed => w.record .cancelled "Cancelled before the stop price was reached" journaled
  | .working =>
    if w.orderId.truthy then
      let fields : CancelFields := { instrument := w.plan.instrument, id := w.orderId }
      match sent fields with
      | .error e => ⟨.error e, w, [.cancel fields]⟩
      | .ok _ =>
        let r := w.record .cancelled "Resting LIMIT cancelled at the broker" journaled
        { r with effects := .cancel fields :: r.effects }
    else ⟨.ok w.state, w, []⟩
  | _ => ⟨.ok w.state, w, []⟩

/-- The calls on a watcher, each with the answers it gets. -/
inductive Op where
  | poll (a : PollAnswers)
  | cancel (sent : CancelFields → Except Exc Operation) (journaled : Except Exc Unit)
  | loadLimits (instruments : Except Exc (List LimitRow))

def step (w : StopLimitWatcher) : Op → StopLimitWatcher × List Effect
  | .poll a => ((w.poll a).after, (w.poll a).effects)
  | .cancel sent journaled => ((w.cancel sent journaled).after, (w.cancel sent journaled).effects)
  | .loadLimits instruments => ((w.loadLimits instruments).2, [])

/-- The watcher after any order of calls, which its lock makes one after the other. -/
def after (w : StopLimitWatcher) (ops : List Op) : StopLimitWatcher := ops.foldl (fun w op => (w.step op).1) w

def effects (w : StopLimitWatcher) : List Op → List Effect
  | [] => []
  | op :: rest => (w.step op).2 ++ effects (w.step op).1 rest

/-- A turn of the polling loop: calls of other threads, its poll, its sleep, and calls of other
threads before the loop reads the state it returns. -/
structure Round where
  others : List Op
  poll : PollAnswers
  slept : Except Exc Unit
  later : List Op

/-- The results of the polls of the loop, and how it ended, if it has. -/
def run (w : StopLimitWatcher) : List Round → List (Except Exc State) × Option (Except Exc State)
  | [] => ([], none)
  | r :: rest =>
    let polled := (w.after r.others).poll r.poll
    match polled.result with
    | .error e => ([.error e], some (.error e))
    | .ok .armed =>
      match r.slept with
      | .error e => ([.ok .armed], some (.error e))
      | .ok _ => let next := run polled.after rest; (.ok .armed :: next.1, next.2)
    | .ok s => ([.ok s], some (.ok (polled.after.after r.later).state))

end StopLimitWatcher

end MatchTrader
