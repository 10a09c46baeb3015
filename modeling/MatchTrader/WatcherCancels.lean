import MatchTrader.Watches

/-! The cancel of a watcher's resting order goes through the request model of the endpoint, which
requires the side and the type of the order; the watcher names neither. -/

namespace MatchTrader

namespace CancelPendingOrderRequest

def textErrors (field : String) : Json → List String
  | .str s => if trim s = "" then [field ++ ": String should have at least 1 character"] else []
  | _ => [field ++ ": Input should be a valid string"]

def literalErrors (field : String) (a b : String) : Option String → List String
  | none => [field ++ ": Field required"]
  | some s => if s = a ∨ s = b then [] else [field ++ ": Input should be '" ++ a ++ "' or '" ++ b ++ "'"]

/-- The errors of the fields, in the order of the model. -/
def errors (f : CancelFields) : List String :=
  textErrors "instrument" (.str f.instrument) ++ textErrors "id" f.id ++ literalErrors "orderSide" "BUY" "SELL" f.orderSide
    ++ literalErrors "type" "LIMIT" "STOP" f.type

def validate (f : CancelFields) : Except Exc CancelRequest :=
  match errors f with
  | [] => .ok ⟨trim f.instrument, trim (f.id.text?.getD ""), f.orderSide.getD "", f.type.getD ""⟩
  | es => .error (StopLimitPlan.invalid (String.intercalate "\n" es))

/-- The endpoint: the request is validated, and what the connection answers is an operation. -/
def execute (connection : CancelRequest → Except Exc Operation) (f : CancelFields) : Except Exc Operation := do
  connection (← validate f)

end CancelPendingOrderRequest

namespace StopLimitWatcher

open StopLimit CancelPendingOrderRequest

/-- A call on a watcher whose broker is the client, with what its connection answers. -/
inductive ClientOp where
  | poll (a : PollAnswers)
  | cancel (connection : CancelRequest → Except Exc Operation) (journaled : Except Exc Unit)
  | loadLimits (instruments : Except Exc (List LimitRow))

def ClientOp.op : ClientOp → Op
  | poll a => .poll a
  | cancel connection journaled => .cancel (execute connection) journaled
  | loadLimits instruments => .loadLimits instruments

def cancels (effects : List Effect) : List CancelFields :=
  effects.filterMap fun e => match e with | .cancel f => some f | _ => none

variable [WatchHost]

/-- The watcher and the effects of a run of calls with the client. -/
def reached (w : StopLimitWatcher) (ops : List ClientOp) : StopLimitWatcher := w.after (ops.map ClientOp.op)

def sentBy (w : StopLimitWatcher) (ops : List ClientOp) : List Call := writes (w.effects (ops.map ClientOp.op))

/-- A cancel with an order resting at the broker. -/
def Resting (w : StopLimitWatcher) : Prop := w.state = .working ∧ w.orderId.truthy = true

/-- Each cancel of a resting order asks once, acceptably, for that order, with its side and type. -/
def CancelPossible (w : StopLimitWatcher) (ops : List ClientOp) : Prop :=
  ∀ before connection journaled later, ops = before ++ .cancel connection journaled :: later →
    Resting (w.reached before) →
    ∃ f request, cancels ((w.reached before).step (.cancel (execute connection) journaled)).2 = [f]
      ∧ validate f = .ok request ∧ f.id = (w.reached before).orderId
      ∧ request.orderSide = w.plan.orderSide.text ∧ request.type = "LIMIT"

/-- The broker answered the cancel of the resting order with status OK. -/
def Confirmed (w : StopLimitWatcher) (ops : List ClientOp) : Prop :=
  ∃ before connection journaled later, ops = before ++ .cancel connection journaled :: later
    ∧ Resting (w.reached before) ∧ ∃ f request reply,
      cancels ((w.reached before).step (.cancel (execute connection) journaled)).2 = [f] ∧ validate f = .ok request
        ∧ connection request = .ok reply ∧ reply.status = some "OK"

/-- A watcher is cancelled only if it issued no opening write, or the broker confirmed the cancel. -/
def CancelTruthful (w : StopLimitWatcher) (ops : List ClientOp) : Prop :=
  ∀ before later, ops = before ++ later → (w.reached before).state = .cancelled →
    w.sentBy before = [] ∨ Confirmed w before

/-- No cancel is asked for while an order rests at the broker. -/
def NoRestingCancel (w : StopLimitWatcher) (ops : List ClientOp) : Prop :=
  ∀ before connection journaled later, ops = before ++ .cancel connection journaled :: later →
    ¬ Resting (w.reached before)

omit [WatchHost] in
/-- The fields a watcher cancels with lack the side, whatever the order. -/
theorem validate_watcher (instrument : String) (id : Json) :
    ∃ e, validate { instrument, id } = .error e := by
  unfold validate
  split
  · next h =>
    have hmem : "orderSide: Field required" ∈ errors { instrument, id } := by
      simp [errors, literalErrors]
    rw [h] at hmem
    cases hmem
  · exact ⟨_, rfl⟩

omit [WatchHost] in
theorem execute_watcher (connection : CancelRequest → Except Exc Operation) (instrument : String) (id : Json) :
    ∃ e, execute connection { instrument, id } = .error e := by
  obtain ⟨e, he⟩ := validate_watcher instrument id
  exact ⟨e, by rw [execute, he]; rfl⟩

variable {w : StopLimitWatcher} {op : ClientOp} {ops : List ClientOp}

omit [WatchHost] in
theorem cancel_resting (h : Resting w) (connection : CancelRequest → Except Exc Operation) (journaled : Except Exc Unit) :
    ∃ e, w.cancel (execute connection) journaled
      = ⟨.error e, w, [.cancel { instrument := w.plan.instrument, id := w.orderId }]⟩ := by
  obtain ⟨e, he⟩ := execute_watcher connection w.plan.instrument w.orderId
  refine ⟨e, ?_⟩
  unfold cancel
  simp only [h.1, h.2, if_true, he]

/-- With the client, only an armed watcher changes its state. -/
theorem client_step (h : w.state ≠ .armed) : (w.step op.op).1.state = w.state := by
  rcases step_cases w op.op with ⟨-, hsame | harmed | ⟨hworking, hcancelled⟩⟩ | ⟨a, -, hwrote⟩
  · exact hsame
  · exact absurd harmed h
  · cases op with
    | poll a =>
      have hpoll : w.poll a = ⟨.ok w.state, w, []⟩ := if_pos h
      exact congrArg (fun r : Reaction => r.after.state) hpoll
    | cancel connection journaled =>
      by_cases hid : w.orderId.truthy = true
      · obtain ⟨e, he⟩ := cancel_resting ⟨hworking, hid⟩ connection journaled
        exact congrArg (fun r : Reaction => r.after.state) he
      · have hkeep : w.cancel (execute connection) journaled = ⟨.ok w.state, w, []⟩ := by
          unfold cancel
          simp only [hworking, hid]
          rfl
        exact congrArg (fun r : Reaction => r.after.state) hkeep
    | loadLimits instruments => exact (loadLimits_after w instruments).1
  · exact absurd hwrote.armed h

theorem reached_spent (h : w.state ≠ .armed) : (w.reached ops).state = w.state := by
  induction ops generalizing w with
  | nil => rfl
  | cons op rest ih =>
    have hstep : (w.step op.op).1.state = w.state := client_step h
    have hrest : ((w.step op.op).1.reached rest).state = (w.step op.op).1.state := ih (hstep ▸ h)
    exact hrest.trans hstep

/-- A cancelled watcher issued no opening write. -/
theorem cancelled_unsent (harmed : w.state = .armed) (h : (w.reached ops).state = .cancelled) : w.sentBy ops = [] := by
  induction ops generalizing w with
  | nil => rfl
  | cons op rest ih =>
    have hsent : w.sentBy (op :: rest) = writes (w.step op.op).2 ++ (w.step op.op).1.sentBy rest :=
      writes_append ..
    have hreached : w.reached (op :: rest) = (w.step op.op).1.reached rest := rfl
    rw [hreached] at h
    by_cases hnext : (w.step op.op).1.state = .armed
    · rcases step_cases w op.op with ⟨hnone, -⟩ | ⟨a, hop, hwrote⟩
      · rw [hsent, hnone, List.nil_append, ih hnext h]
      · obtain ⟨route, -, hstate⟩ := hwrote.act
        rw [hop] at hnext
        exact absurd (hstate.symm.trans hnext) settled_ne_armed
    · rw [reached_spent hnext] at h
      rcases step_cases w op.op with ⟨hnone, -⟩ | ⟨a, hop, hwrote⟩
      · have hrest : (w.step op.op).1.sentBy rest = [] := spent_writes hnext
        rw [hsent, hnone, hrest, List.nil_append]
      · obtain ⟨route, -, hstate⟩ := hwrote.act
        rw [hop] at h
        have hcancelled : settled route a.write = .cancelled := hstate.symm.trans h
        unfold settled at hcancelled
        split at hcancelled
        · cases hcancelled
        · split at hcancelled <;> cases hcancelled

/-- The cancel of a resting order is impossible with the client; a cancelled state never hides one. -/
theorem cancels_iff (plan : StopLimitPlan) (journal : Bool) (ops : List ClientOp) :
    CancelPossible { plan, journal } ops ∧ CancelTruthful { plan, journal } ops ↔ NoRestingCancel { plan, journal } ops := by
  constructor
  · rintro ⟨hpossible, -⟩ before connection journaled later rfl hresting
    obtain ⟨f, request, hone, hvalid, -⟩ := hpossible before connection journaled later rfl hresting
    obtain ⟨e, he⟩ := cancel_resting hresting connection journaled
    have hf := congrArg (fun r : Reaction => cancels r.effects) he
    have hfields : [f] = [{ instrument := _, id := _ }] := hone.symm.trans hf
    obtain rfl := List.singleton_inj.mp hfields
    obtain ⟨e', he'⟩ := validate_watcher (reached { plan, journal } before).plan.instrument
      (reached { plan, journal } before).orderId
    exact absurd (he'.symm.trans hvalid) nofun
  · intro hclear
    refine ⟨fun before connection journaled later hops hresting => ?_, fun before later hops hcancelled => ?_⟩
    · exact absurd hresting (hclear before connection journaled later hops)
    · exact Or.inl (cancelled_unsent rfl hcancelled)

end StopLimitWatcher

namespace StopLimitWatcher

section Sample

open StopLimit CancelPendingOrderRequest

/-- A buy triggered at 100 that is not worth more than 101. -/
def samplePlan : StopLimitPlan := {
  instrument := "EURUSD", orderSide := .buy, volume := ⟨false, 1, 0⟩, stopPrice := ⟨false, 100, 0⟩, limitPrice := ⟨false, 101, 0⟩
  volume_pos := Decimal.one_pos, slPrice_nonneg := Decimal.zero_nonneg, tpPrice_nonneg := Decimal.zero_nonneg
  expireAfterSeconds_nonneg := Decimal.zero_nonneg }

def sampleWatcher : StopLimitWatcher := { plan := samplePlan, journal := true }

/-- The market gapped to 105, so that a limit order is to rest. -/
def gappedPoll (write : Except Exc WriteReply) : PollAnswers := {
  elapsed := .ok (.finite ⟨false, 0, 0⟩)
  quotes := .ok [⟨some "EURUSD", .ok (.finite ⟨false, 105, 0⟩), .ok (.finite ⟨false, 105, 0⟩)⟩]
  committed := .ok (), write, journaled := .ok () }

def restedPoll : PollAnswers := gappedPoll (.ok { operation := ⟨some "OK", some "O-1", none, by decide⟩ })

attribute [local instance] sampleWatchHost

/-- The broker would cancel the order, and is never asked to. -/
theorem resting_order_uncancellable :
    ¬ CancelPossible sampleWatcher
      [.poll restedPoll, .cancel (fun _ => .ok ⟨some "OK", none, none, by decide⟩) (.ok ())] := by
  intro hpossible
  have hresting : Resting (sampleWatcher.reached [.poll restedPoll]) := by
    constructor <;> decide +kernel
  obtain ⟨f, request, hone, hvalid, -⟩ := hpossible [.poll restedPoll] _ _ [] rfl hresting
  obtain ⟨e, he⟩ := cancel_resting hresting (fun _ => .ok ⟨some "OK", none, none, by decide⟩) (.ok ())
  have hfields := hone.symm.trans (congrArg (fun r : Reaction => cancels r.effects) he)
  obtain rfl := List.singleton_inj.mp hfields
  obtain ⟨e', he'⟩ := validate_watcher samplePlan.instrument (.str "O-1")
  exact absurd (he'.symm.trans hvalid) nofun

end Sample

end StopLimitWatcher

end MatchTrader
