import MatchTrader.Dispatches
import MatchTrader.Lanes
import MatchTrader.Recordings

/-! What the programs leave alone. A frame is an invariant with a guarantee that the journal's
transactions, the updates of some kinds among them, and the writes of some kinds meet; every program
of the stores, the removals and the lanes then keeps the one and meets the other. -/

namespace MatchTrader

open Durable

/-- The event is a broker write. -/
def Event.writes : Event → Bool
  | .sent .. => true
  | _ => false

/-- The columns an update leaves alone when it follows up on a trade that was sent. -/
structure TradeUpdate.Mild (u : TradeUpdate) : Prop where
  destination : u.destination = none
  lots : u.lots = none
  brokerOrderId : u.brokerOrderId = none
  symbol : u.symbol = none
  side : u.side = none
  orderType : u.orderType = none

theorem TradeUpdate.Mild.state {s : Option TradeState} {resolvedAt : Option String} :
    TradeUpdate.Mild { state := s, resolvedAt } := ⟨rfl, rfl, rfl, rfl, rfl, rfl⟩

theorem TradeUpdate.Mild.position {p : Option String} {s : Option TradeState} :
    TradeUpdate.Mild { brokerPositionId := p, state := s } := ⟨rfl, rfl, rfl, rfl, rfl, rfl⟩

/-- The operation, if it is an update, is one of these. -/
def StoreOp.Within (U : TradeUpdate → Prop) : StoreOp → Prop
  | .update _ u => U u
  | _ => True

/-- The store's transactions, with these updates, do not concern the invariant and the guarantee. -/
structure JournalRule [Host] (U : TradeUpdate → Prop) (I : World → Prop) (G : World → World → Prop) : Prop where
  journal : ∀ w (op : StoreOp) j, op.Within U → op.Moves w.journal j → I w → G w { w with journal := j } ∧ I { w with journal := j }
  fault : ∀ w, I w → G w { w with faulted := true } ∧ I { w with faulted := true }
  mild : ∀ u : TradeUpdate, u.Mild → U u

/-- Nor does an event that `B` allows. -/
structure FrameRule [Host] (U : TradeUpdate → Prop) (I : World → Prop) (G : World → World → Prop) (B : Event → Prop) : Prop
    extends JournalRule U I G where
  say : ∀ w e, B e → I w → G w (w.said [e]) ∧ I (w.said [e])
  heard : ∀ e, e.writes = false → B e
  removes : ∀ v api call j, call.opens = false → B (.sent (.trade v) api call j)

/-- Nor does the row of one signal, in its lane. -/
structure RowFrame (I : World → Prop) (G : World → World → Prop) (l : LaneId) (key : String) : Prop where
  appear : ∀ w a, I w → G w (setLane w l { w.lanes l with appearances := (w.lanes l).appearances ++ [a] })
    ∧ I (setLane w l { w.lanes l with appearances := (w.lanes l).appearances ++ [a] })
  insert : ∀ w r, r.id = key → I w → G w (setLane w l { w.lanes l with signals := (w.lanes l).signals ++ [r] })
    ∧ I (setLane w l { w.lanes l with signals := (w.lanes l).signals ++ [r] })
  update : ∀ w (f : SignalRow → SignalRow), (∀ r, (f r).id = r.id) → I w →
    G w (setLane w l { w.lanes l with signals := Rows.updateWhere (fun r => r.id = key) f (w.lanes l).signals })
    ∧ I (setLane w l { w.lanes l with signals := Rows.updateWhere (fun r => r.id = key) f (w.lanes l).signals })

/-- Nor does any lane. -/
def LanesFree (I : World → Prop) (G : World → World → Prop) : Prop := ∀ w l d, I w → G w (setLane w l d) ∧ I (setLane w l d)

theorem LanesFree.row {I : World → Prop} {G : World → World → Prop} (h : LanesFree I G) (l : LaneId) (key : String) :
    RowFrame I G l key := ⟨fun w _ => h w l _, fun w _ _ => h w l _, fun w _ _ => h w l _⟩

/-- What a lane may issue for a signal is allowed. -/
structure Licensed [Host] (B : Event → Prop) (c : LaneCall) (destination key : String) (raw : Json) : Prop where
  opens : c.copyMode = some .paper ∨ ∀ api call j, call.opens = true →
    B (.sent (.signal ⟨c.lane, key, SignalCopy.scope raw, destination⟩) api call j)
  cancels : ∀ api call j, call.cancels = true → B (.sent (.signal ⟨c.lane, key, SignalCopy.scope raw, destination⟩) api call j)

namespace FrameRule

variable {α : Type} {U : TradeUpdate → Prop} {I : World → Prop} {G : World → World → Prop} {B : Event → Prop}

section Programs

theorem ask (q : Query) : Prog.Keeps I G (Prog.query q : Act (Reply q)) := (Prog.quiet_query q).keeps

theorem now : Prog.Keeps I G MatchTrader.now := ask _

theorem raiseIf {c : Prop} [Decidable c] {e : Exc} : Prog.Keeps I G (MatchTrader.raiseIf c e : Act Unit) := quiet_raiseIf.keeps

theorem ofExcept (r : Except Exc α) : Prog.Keeps I G (Prog.ofExcept r : Act α) := (Prog.quiet_ofExcept r).keeps

theorem reads {β : Type} {f : World → β} {p : β → Act α} (h : ∀ b, Prog.Keeps I G (p b)) :
    Prog.Keeps I G (MatchTrader.reads f >>= p) := Prog.keeps_reads fun w _ => h (f w)

end Programs

end FrameRule

namespace JournalRule

variable [Host] {α : Type} {U : TradeUpdate → Prop} {I : World → Prop} {G : World → World → Prop}

theorem guarded (F : JournalRule U I G) {p : Act α} (h : p.Keeps I G) : Prog.Keeps I G (MatchTrader.guarded p) := by
  refine Prog.Keeps.bind (FrameRule.ask _) fun fails => ?_
  cases fails with
  | true =>
    refine Prog.Keeps.bind (Prog.keeps_commit F.fault) fun _ => ?_
    exact Prog.Keeps.bind (Prog.keeps_throw _) fun _ => h
  | false => exact h

theorem transact (F : JournalRule U I G) {f : Tx α} {o : StoreOp} (hu : o.Within U)
    (hf : ∀ j a k, f j = .ok (a, k) → o.Moves j k) : Prog.Keeps I G (MatchTrader.transact f) := by
  refine F.guarded (Prog.keeps_attempt fun w a v hI hv => ?_)
  cases hr : f w.journal with
  | error e =>
    rw [hr] at hv
    cases hv
  | ok r =>
    rw [hr] at hv
    obtain ⟨rfl, rfl⟩ := Prod.mk.inj (Except.ok.inj hv)
    exact F.journal w o _ hu (hf _ _ _ hr) hI

theorem change (F : JournalRule U I G) {f : Journal → Except Exc Journal} {o : StoreOp} (hu : o.Within U)
    (hf : ∀ j k, f j = .ok k → o.Moves j k) : Prog.Keeps I G (Store.change f) := by
  refine F.transact hu fun j a k hk => ?_
  cases hr : f j with
  | error e =>
    rw [hr] at hk
    cases hk
  | ok l =>
    rw [hr] at hk
    obtain ⟨-, rfl⟩ := Prod.mk.inj (Except.ok.inj hk)
    exact hf j l hr

theorem recordEvent (F : JournalRule U I G) (e : CaptureEvent) : Prog.Keeps I G (Store.record e) :=
  Prog.Keeps.bind FrameRule.now fun _ => Prog.Keeps.bind (FrameRule.ask _) fun _ =>
    F.transact (o := .record e) True.intro fun _ _ _ h => .record h

theorem update (F : JournalRule U I G) (identity : String) {u : TradeUpdate} (hu : U u) :
    Prog.Keeps I G (Store.update identity u) :=
  Prog.Keeps.bind FrameRule.now fun _ => F.change (o := .update identity u) hu fun _ _ h => Except.ok.inj h ▸ .update ..

theorem claim (F : JournalRule U I G) (identity : String) (key : ActionKey) (requestId : String) (action : Action)
    (destination : String) (request : Call) :
    Prog.Keeps I G (Store.claim identity key requestId action destination request) :=
  Prog.Keeps.bind FrameRule.now fun _ =>
    F.transact (o := .claim identity key requestId action destination request) True.intro fun _ _ _ h => .claim h

theorem finish (F : JournalRule U I G) (identity : String) (key : ActionKey) (state : Outcome) :
    Prog.Keeps I G (Store.finish identity key state) :=
  Prog.Keeps.bind FrameRule.now fun _ => F.change (o := .finish identity key state) True.intro fun _ _ h => .finish h

theorem recordReason (F : JournalRule U I G) (identity : String) (key : ActionKey) (attempt : Nat) (outcome : Outcome)
    (reason : Reason) : Prog.Keeps I G (Store.recordReason identity key attempt outcome reason) :=
  Prog.Keeps.bind FrameRule.now fun _ =>
    F.change (o := .recordReason identity key attempt outcome reason) True.intro fun _ _ h => .recordReason h

theorem observePositions (F : JournalRule U I G) (identity destination : String) (positions : List Position) :
    Prog.Keeps I G (Store.observePositions identity destination positions) :=
  Prog.Keeps.bind FrameRule.now fun _ =>
    F.change (o := .observePositions identity destination positions) True.intro fun _ _ h => Except.ok.inj h ▸ .observePositions ..

theorem observeClosed (F : JournalRule U I G) (identity destination : String) (trades : List ClosedTrade) :
    Prog.Keeps I G (Store.observeClosed identity destination trades) :=
  Prog.Keeps.bind FrameRule.now fun _ =>
    F.change (o := .observeClosed identity destination trades) True.intro fun _ _ h => Except.ok.inj h ▸ .observeClosed ..

theorem decision (F : JournalRule U I G) (seq : Nat) (status : Decision) (reason : String) :
    Prog.Keeps I G (Store.decision seq status reason) :=
  F.change (o := .decision seq status reason) True.intro fun _ _ h => Except.ok.inj h ▸ .decision ..

theorem paper (F : JournalRule U I G) (p : ManualSend.Prepared) (destination : String) :
    Prog.Keeps I G (ManualSend.paper p destination) := by
  refine Prog.Keeps.bind FrameRule.now fun _ => Prog.Keeps.bind ?_ fun _ => Prog.keeps_pure _
  refine F.change (o := .paper p destination) True.intro fun j k h => ?_
  split at h
  · cases h
  · exact Except.ok.inj h ▸ .paper ..

theorem openJournal (F : JournalRule U I G) (broker : String) : Prog.Keeps I G (Store.openJournal broker) := by
  refine Prog.Keeps.bind (F.change (o := .openJournal broker) True.intro fun _ _ h => .initMapping h) fun _ => ?_
  refine Prog.Keeps.bind (F.transact (o := .openJournal broker) True.intro fun j a k h => ?_) fun interrupted => ?_
  · obtain ⟨-, rfl⟩ := Prod.mk.inj (Except.ok.inj h)
    exact .recover j
  · exact Prog.keeps_forM _ fun a _ => F.recordReason _ _ _ _ _

theorem recordFailure (F : JournalRule U I G) (identity : String) (key : ActionKey) (e : Exc) :
    Prog.Keeps I G (MatchTrader.recordFailure identity key e) := by
  refine Prog.Keeps.bind (Prog.Keeps.tryCatch (F.recordReason _ _ _ _ _) fun _ => Prog.keeps_pure _) fun _ => ?_
  refine Prog.Keeps.bind (F.update _ (F.mild _ .state)) fun _ => Prog.Keeps.bind (F.finish _ _ _) fun _ => ?_
  exact Prog.keeps_pure _

theorem fail (F : JournalRule U I G) (identity : String) (key : ActionKey) (call : Call)
    (correlation : String) (response : Option Operation) (exc : Exc) :
    Prog.Keeps I G (Unwind.fail identity key call correlation response exc) :=
  Prog.Keeps.bind (F.recordFailure _ _ _) fun _ => Prog.keeps_pure _

theorem release (F : JournalRule U I G) (t : TradeRow) (key : ActionKey) (call : Call)
    (action : Action) (correlation : String) (exc : Exc) : Prog.Keeps I G (Unwind.release t key call action correlation exc) :=
  Prog.Keeps.bind (F.update _ (F.mild _ .state)) fun _ => Prog.Keeps.bind (F.finish _ _ _) fun _ =>
    Prog.Keeps.bind (F.recordReason _ _ _ _ _) fun _ => Prog.keeps_pure _

end JournalRule

namespace FrameRule

variable [Host] {α : Type} {U : TradeUpdate → Prop} {I : World → Prop} {G : World → World → Prop} {B : Event → Prop}

section Programs

theorem record (F : FrameRule U I G B) {e : Event} (h : B e) : Prog.Keeps I G (MatchTrader.record e) :=
  Prog.keeps_commit fun w hI => F.say w e h hI

theorem transactLane (F : FrameRule U I G B) {l : LaneId} {f : LaneDb → LaneDb}
    (h : ∀ w, I w → G w (setLane w l (f (w.lanes l))) ∧ I (setLane w l (f (w.lanes l)))) :
    Prog.Keeps I G (MatchTrader.transactLane l f) := F.guarded (Prog.keeps_commit h)

theorem invoke (F : FrameRule U I G B) {owner : Owner} {api : Api} {call : Call} (h : ∀ j, B (.sent owner api call j)) :
    Prog.Keeps I G (MatchTrader.invoke owner api call) := by
  refine Prog.keeps_reads fun w _ => Prog.Keeps.bind (F.record (h _)) fun _ => Prog.Keeps.bind (ask _) fun reply => ?_
  exact Prog.Keeps.bind (F.record (F.heard _ rfl)) fun _ => ofExcept _

theorem openPositions (F : FrameRule U I G B) (api : Api) (account : String) :
    Prog.Keeps I G (MatchTrader.openPositions api account) := by
  refine Prog.Keeps.bind (ask _) fun reply => Prog.Keeps.bind (ofExcept _) fun positions => ?_
  exact Prog.Keeps.bind (F.record (F.heard _ rfl)) fun _ => Prog.keeps_pure _

theorem closedPositions (F : FrameRule U I G B) (api : Api) (account : String) (until_ : Instant) :
    Prog.Keeps I G (MatchTrader.closedPositions api account until_) := by
  refine Prog.Keeps.bind (ask _) fun reply => Prog.Keeps.bind (ofExcept _) fun trades => ?_
  exact Prog.Keeps.bind (F.record (F.heard _ rfl)) fun _ => Prog.keeps_pure _

end Programs

section Sends

theorem live (F : FrameRule U I G B) {owner : Owner} {p : ManualSend.Prepared} {request : OpenRequest} {api : Api} {tradeId : String}
    (hU : ∀ u, U u) (h : ∀ call j, B (.sent owner api call j)) :
    Prog.Keeps I G (ManualSend.live owner p request api tradeId) := by
  unfold ManualSend.live
  refine Prog.Keeps.bind (Prog.Keeps.tryCatch ?_ fun e => F.recordFailure _ _ _) fun outcome => ?_
  · refine Prog.Keeps.bind (F.invoke (h _)) fun reply => Prog.Keeps.bind (ofExcept _) fun values => ?_
    refine Prog.Keeps.bind (Prog.Keeps.tryCatch ?_ fun e => Prog.keeps_throw _) fun _ => Prog.keeps_pure _
    exact Prog.Keeps.bind (F.update _ (hU _)) fun _ => F.finish _ _ _
  · refine reads fun t => ?_
    cases t with
    | none => exact Prog.keeps_throw _
    | some t => exact Prog.keeps_pure _

theorem send (F : FrameRule U I G B) {entry : Entry} {controls : Controls} {tradeId : String} {volume : Json} {api : Option Api}
    {destination : String} {route : Option RouteConfig}
    (hU : ∀ u, U u) (h : controls.mode = .paper ∨ ∀ v a call j, B (.sent (.trade v) a call j)) :
    Prog.Keeps I G (ManualSend.send entry controls tradeId volume api destination route) := by
  unfold ManualSend.send
  refine reads fun journal => Prog.Keeps.bind (ofExcept _) fun p => ?_
  split
  · exact F.paper _ _
  · next hlive =>
    have hall := h.resolve_left hlive
    cases api with
    | none => exact Prog.keeps_throw _
    | some api =>
      have hgrid := Prog.Quiet.tryCatch (quiet_validateInstrument api p.symbol p.lots p.event.priced) (f := fun exc =>
        if exc.isValueError then throw exc
        else throw (Exc.value ("Preflight instrument read failed (" ++ exc.name ++ "); no broker write attempted"))) fun e => by
          split <;> exact Prog.quiet_throw _
      refine Prog.Keeps.bind hgrid.keeps fun grid => Prog.Keeps.bind (F.claim _ _ _ _ _ _) fun claimed => ?_
      refine Prog.Keeps.bind raiseIf fun _ => Prog.Keeps.bind (F.update _ (hU _)) fun _ => ?_
      exact F.live hU fun call j => hall _ _ call j

theorem route (F : FrameRule U I G B) {arming : Arming} {route : Option RouteConfig} {e : CaptureEvent} {api : Option Api}
    {destination : String} (h : arming.armed = false) : Prog.Keeps I G (Router.receive arming route e api destination) := by
  unfold Router.receive
  refine Prog.Keeps.bind (F.recordEvent e) fun recorded => ?_
  obtain ⟨row, duplicate⟩ := recorded
  cases duplicate with
  | true =>
    refine reads fun journal => Prog.Keeps.bind ?_ fun _ => Prog.keeps_pure _
    unfold Router.recoverDecision
    split
    · exact Prog.Keeps.bind (F.decision _ _ _) fun _ => Prog.keeps_pure _
    · exact Prog.keeps_pure _
  | false =>
    refine Prog.Keeps.bind ?_ fun outcome => Prog.Keeps.bind (F.decision _ _ _) fun _ => reads fun _ => Prog.keeps_pure _
    unfold Router.dispatchOnArrival
    split
    · refine Prog.Keeps.tryCatch ?_ fun exc => ?_
      · simp only [Router.dispatch, h, Bool.false_eq_true, false_and, if_false]
        exact Prog.keeps_throw _
      · split <;> exact Prog.keeps_pure _
    · exact Prog.keeps_pure _

end Sends

end FrameRule

section Unwinds

variable [Host]

namespace Unwind

/-- The plan opens nothing, and follows up on a trade that was sent. -/
structure Plan.Removes (p : Plan) : Prop where
  call : p.call.opens = false
  values : p.values.Mild

theorem planCancel_removes (t : TradeRow) (api : Api) (label because : String) :
    (planCancel t api label because).Yields Plan.Removes := by
  unfold planCancel
  refine Prog.yields_bind fun journal => ?_
  refine Prog.yields_bind fun request => Prog.yields_bind fun at_ => Prog.yields_pure ⟨rfl, ?_⟩
  dsimp only
  split <;> exact .state

theorem planClose_removes (t : TradeRow) (api : Api) (destination label : String) :
    (planClose t api destination label).Yields Plan.Removes := by
  unfold planClose
  refine Prog.yields_bind fun _ => Prog.yields_bind fun positions => ?_
  generalize relatedPositions t t.symbol t.side (leavesAll positions) = related
  refine Prog.yields_bind fun _ => ?_
  split
  · exact Prog.yields_bind fun _ => Prog.yields_bind fun at_ => Prog.yields_pure ⟨rfl, .state⟩
  · split
    · exact planCancel_removes _ _ _ _
    · exact Prog.yields_throw _
  · exact Prog.yields_throw _

theorem prepare_removes (t : TradeRow) (s : Ending) (api : Option Api) (destination : String) (verified : Bool) (action : Action) :
    (prepare t s api destination verified action).Yields fun r => r.2.Removes := by
  unfold prepare
  refine Prog.yields_bind fun journal => Prog.yields_bind fun api => ?_
  split
  · refine Prog.yields_bind fun _ => (planCancel_removes _ _ _ _).bind fun p hp => Prog.yields_pure hp
  · exact (planClose_removes _ _ _ _).bind fun p hp => Prog.yields_pure hp

theorem preflight_removes (t : TradeRow) (s : Ending) (api : Option Api) (destination : String) (verified : Bool) :
    (preflight t s api destination verified).Yields fun r => ∀ q, r = .ok q → q.2.Removes := by
  refine Prog.Yields.tryCatch ?_ fun e => ?_
  · refine (prepare_removes t s api destination verified (actionOf s)).bind fun r hr => Prog.yields_pure fun q hq => ?_
    obtain rfl := Except.ok.inj hq
    exact hr
  · split
    · exact Prog.yields_bind fun _ => Prog.yields_pure fun q hq => by simp at hq
    · exact Prog.yields_bind fun _ => Prog.yields_pure fun q hq => by simp at hq

end Unwind

namespace FrameRule

variable {U : TradeUpdate → Prop} {I : World → Prop} {G : World → World → Prop} {B : Event → Prop}

theorem planCancel (t : TradeRow) (api : Api) (label because : String) :
    Prog.Keeps I G (Unwind.planCancel t api label because) := by
  unfold Unwind.planCancel
  refine reads fun journal => Prog.Keeps.bind ?_ fun _ => Prog.Keeps.bind now fun _ => Prog.keeps_pure _
  refine Prog.Keeps.tryCatch (Unwind.quiet_pendingOrderRequest _ _ _ _ _).keeps fun e => ?_
  split <;> exact Prog.keeps_throw _

theorem planClose (F : FrameRule U I G B) (t : TradeRow) (api : Api) (destination label : String) :
    Prog.Keeps I G (Unwind.planClose t api destination label) := by
  unfold Unwind.planClose
  refine Prog.Keeps.bind (Unwind.quiet_guardAgain _ _).keeps fun _ => Prog.Keeps.bind (F.openPositions _ _) fun positions => ?_
  generalize relatedPositions t t.symbol t.side (leavesAll positions) = related
  refine Prog.Keeps.bind ?_ fun _ => ?_
  · unfold Unwind.observeRelated
    split
    · exact Prog.keeps_pure _
    · exact Prog.Keeps.bind (F.observePositions _ _ _) fun _ => (Unwind.quiet_guardAgain _ _).keeps
  · split
    · refine Prog.Keeps.bind ?_ fun _ => Prog.Keeps.bind now fun _ => Prog.keeps_pure _
      unfold Unwind.noteRelated
      split
      · exact F.update _ (F.mild _ .position)
      · exact Prog.keeps_pure _
    · split
      · exact planCancel _ _ _ _
      · exact Prog.keeps_throw _
    · exact Prog.keeps_throw _

theorem prepare (F : FrameRule U I G B) (t : TradeRow) (s : Ending) (api : Option Api) (destination : String) (verified : Bool)
    (action : Action) : Prog.Keeps I G (Unwind.prepare t s api destination verified action) := by
  unfold Unwind.prepare
  refine reads fun journal => Prog.Keeps.bind (ofExcept _) fun api => ?_
  split
  · exact Prog.Keeps.bind raiseIf fun _ => Prog.Keeps.bind (planCancel _ _ _ _) fun _ => Prog.keeps_pure _
  · exact Prog.Keeps.bind (F.planClose _ _ _ _) fun _ => Prog.keeps_pure _

theorem perform (F : FrameRule U I G B) {v : TradeWrite} {t : TradeRow} {key : ActionKey} {api : Api} {plan : Unwind.Plan} {action : Action}
    {correlation : String} (h : plan.Removes) :
    Prog.Keeps I G (Unwind.perform (.trade v) t key api plan action correlation) := by
  unfold Unwind.perform
  refine Prog.Keeps.bind (Prog.Keeps.tryCatch (Prog.Keeps.map (F.invoke fun j => F.removes v api _ j h.call)) fun e => ?_) fun reply => ?_
  · refine Prog.Keeps.map ?_
    split
    · exact Prog.Keeps.tryCatch (F.release _ _ _ _ _ _) fun e => F.fail _ _ _ _ _ _
    · exact F.fail _ _ _ _ _ _
  · cases reply with
    | error outcome => exact Prog.keeps_pure _
    | ok reply =>
      refine Prog.Keeps.tryCatch (Prog.Keeps.bind raiseIf fun _ => Prog.Keeps.bind ?_ fun _ => Prog.keeps_pure _)
        fun e => F.fail _ _ _ _ _ _
      refine Prog.Keeps.tryCatch ?_ fun e => Prog.keeps_throw _
      refine Prog.Keeps.bind (F.update _ (F.mild _ h.values)) fun _ => Prog.Keeps.bind (F.finish _ _ _) fun _ => ?_
      exact F.recordReason _ _ _ _ _

theorem preflight (F : FrameRule U I G B) (t : TradeRow) (s : Ending) (api : Option Api) (destination : String) (verified : Bool) :
    Prog.Keeps I G (Unwind.preflight t s api destination verified) := by
  refine Prog.Keeps.tryCatch (Prog.Keeps.map (F.prepare _ _ _ _ _ _)) fun e => ?_
  split
  · exact Prog.Keeps.bind (F.recordReason _ _ _ _ _) fun _ => Prog.keeps_pure _
  · exact Prog.Keeps.bind (F.recordReason _ _ _ _ _) fun _ => Prog.keeps_pure _

theorem commit (F : FrameRule U I G B) {t : TradeRow} {s : Ending} {api : Api} {plan : Unwind.Plan} {destination : String}
    (h : plan.Removes) : Prog.Keeps I G (Unwind.commit t s api plan destination) := by
  unfold Unwind.commit
  refine Prog.Keeps.bind (F.claim _ _ _ _ _ _) fun claimed => ?_
  split
  · exact Prog.Keeps.bind (F.recordReason _ _ _ _ _) fun _ => Prog.keeps_pure _
  · exact Prog.Keeps.bind (F.update _ (F.mild _ ⟨rfl, rfl, rfl, rfl, rfl, rfl⟩)) fun _ => F.perform h

theorem apply (F : FrameRule U I G B) (s : Ending) (api : Option Api) (destination : String) (verified : Bool) (tradeId : Option String) :
    Prog.Keeps I G (Unwind.apply s api destination verified tradeId) := by
  unfold Unwind.apply
  refine reads fun journal => ?_
  split
  · exact Prog.keeps_pure _
  · next t _ =>
    refine Prog.Keeps.bind ?_ fun _ => Prog.keeps_pure _
    refine Prog.Keeps.bind_yields (F.preflight t s api destination verified)
      (Unwind.preflight_removes t s api destination verified) fun r hr => ?_
    cases r with
    | error o => exact Prog.keeps_pure _
    | ok q => exact F.commit (hr q rfl)
  · refine Prog.Keeps.bind (Prog.keeps_forM _ fun t _ => ?_) fun _ => Prog.keeps_pure _
    exact F.recordReason _ _ _ _ _

theorem visit (F : FrameRule U I G B) (destination : String) (positions : List Position) (pending : List Order) (t : TradeRow) :
    Prog.Keeps I G (Reconcile.visit destination positions pending t) := by
  unfold Reconcile.visit
  generalize relatedPositions t t.symbol t.side positions = candidates
  refine Prog.Keeps.bind (F.observePositions _ _ _) fun _ => ?_
  split
  · exact Prog.Keeps.bind (F.update _ (F.mild _ .position)) fun _ => Prog.keeps_pure _
  · exact Prog.keeps_pure _

theorem collect (F : FrameRule U I G B) (destination : String) (positions : List Position) (pending : List Order) (trades : List TradeRow) :
    Prog.Keeps I G (Reconcile.collect destination positions pending trades) := by
  induction trades with
  | nil => exact Prog.keeps_pure _
  | cons t rest ih => exact Prog.Keeps.bind (F.visit _ _ _ _) fun _ => Prog.Keeps.bind ih fun _ => Prog.keeps_pure _

theorem settle (F : FrameRule U I G B) (destination : String) (now : Instant) (history : List ClosedTrade) (t : TradeRow) :
    Prog.Keeps I G (Reconcile.settle destination now history t) := by
  unfold Reconcile.settle
  refine reads fun journal => ?_
  split
  · exact Prog.keeps_pure _
  · extract_lets found
    split
    · refine Prog.Keeps.bind (F.observeClosed _ _ _) fun _ => Prog.Keeps.bind (ofExcept _) fun total =>
        Prog.Keeps.bind (ofExcept _) fun lots => ?_
      split
      · exact F.update _ (F.mild _ .state)
      · exact Prog.keeps_pure _
    · exact Prog.keeps_pure _

theorem reconcile (F : FrameRule U I G B) (api : Api) (destination : String) (positions : List Position) :
    Prog.Keeps I G (Reconcile.reconcile api destination positions) := by
  unfold Reconcile.reconcile
  refine reads fun journal => ?_
  extract_lets trades
  split
  · refine Prog.Keeps.bind (quiet_activeOrders api).keeps fun pending => Prog.Keeps.bind (F.collect _ _ _ _) fun missing => ?_
    split
    · refine Prog.Keeps.bind now fun at_ => Prog.Keeps.bind (F.closedPositions _ _ _) fun history => ?_
      exact Prog.keeps_forM _ fun t _ => F.settle _ _ _ _
    · exact Prog.keeps_pure _
  · exact Prog.keeps_pure _

theorem pass (F : FrameRule U I G B) (api : Api) (destination : String) : Prog.Keeps I G (Reconcile.pass api destination) :=
  Prog.Keeps.bind (F.openPositions _ _) fun _ => F.reconcile _ _ _

end FrameRule

end Unwinds

section Lanes

variable [Host] {U : TradeUpdate → Prop} {I : World → Prop} {G : World → World → Prop} {B : Event → Prop} {l : LaneId} {c : LaneCall} {symbols : SymbolMap}
  {s : Signal} {raw : Json} {closed : List (List (Option String))} {api : Option Api} {destination : String} {verified : Bool}
  {at_ : Instant}

theorem SignalEngine.quiet_decide (lane : Option Lane) (symbols : SymbolMap) (s : Signal) (c : Context) :
    (SignalEngine.decide lane symbols s c).Quiet := by
  unfold decide
  split
  · exact Prog.quiet_throw _
  · refine (Prog.quiet_ofExcept _).bind fun _ => ?_
    split
    · exact Prog.quiet_throw _
    · exact quiet_raiseIf.bind fun _ => (Prog.quiet_ofExcept _).bind fun _ => (Prog.quiet_ofExcept _).bind fun _ =>
        quiet_raiseIf.bind fun _ => (quiet_orderType _ _ _ _).bind fun _ => (quiet_fit _ _ _ _ _ _).bind fun _ =>
          Prog.quiet_pure _

omit [Host] in
theorem SignalCopy.quiet_prepareCancel (l : LaneId) (s : Signal) (raw : Json) (api : Option Api) (destination : String)
    (verified : Bool) : (SignalCopy.prepareCancel l s raw api destination verified).Quiet := by
  unfold prepareCancel
  split
  · exact Prog.quiet_throw _
  · refine quiet_raiseIf.bind fun _ => quiet_raiseIf.bind fun _ => (Prog.quiet_reads _).bind fun rows => quiet_raiseIf.bind fun _ => ?_
    split
    · refine quiet_raiseIf.bind fun _ => ?_
      split
      · exact quiet_raiseIf.bind fun _ => (Unwind.quiet_pendingOrderRequest _ _ _ _ _).bind fun _ => Prog.quiet_pure _
      · exact Prog.quiet_throw _
    · exact Prog.quiet_throw _

namespace FrameRule

theorem recordRow (F : FrameRule U I G B) {key : String} (hrow : RowFrame I G l key) {f : SignalRow → SignalRow}
    (hf : ∀ r, (f r).id = r.id) : Prog.Keeps I G (SignalCopy.recordRow l key f) := F.transactLane fun w hI => hrow.update w f hf hI

theorem dispatch (F : FrameRule U I G B) {owner : Owner} {call : Call} {accepted : Operation → Bool} {ok correlation : String}
    (h : ∀ api j, B (.sent owner api call j)) : Prog.Keeps I G (SignalCopy.dispatch owner api call accepted ok correlation) := by
  unfold SignalCopy.dispatch
  refine Prog.Keeps.tryCatch ?_ fun e => Prog.keeps_pure _
  cases api with
  | none => exact Prog.keeps_throw _
  | some api => exact Prog.Keeps.bind (F.invoke (h api)) fun reply => Prog.keeps_pure _

theorem openCopy (F : FrameRule U I G B) {key : String} (hrow : RowFrame I G c.lane key) (h : Licensed B c destination key raw) :
    Prog.Keeps I G (SignalCopy.openCopy c symbols key s raw closed api destination verified at_) := by
  unfold SignalCopy.openCopy
  refine reads fun ctx => Prog.Keeps.bind (F.record (F.heard _ rfl)) fun _ => Prog.Keeps.bind_yields (Prog.Quiet.keeps ?_)
    (B := fun r => ∀ p : OrderPlan, r = .ok p → p.call.opens = true) ?_ fun decided hd => ?_
  · have hdecide := SignalEngine.quiet_decide c.config symbols s ctx
    exact Prog.Quiet.tryCatch (hdecide.bind fun p => Prog.quiet_pure _) fun e => Prog.quiet_pure _
  · refine Prog.Yields.tryCatch (Prog.yields_bind fun p => Prog.yields_pure fun q _ => SignalCopy.opens_call q) fun e => ?_
    exact Prog.yields_pure fun q hq => by simp at hq
  cases decided with
  | error e => exact F.recordRow hrow fun _ => rfl
  | ok plan =>
    simp only
    split
    · exact F.recordRow hrow fun _ => rfl
    · next hp =>
      have hopens := h.opens.resolve_left hp
      refine Prog.Keeps.bind (F.recordRow hrow fun _ => rfl) fun _ => Prog.Keeps.bind (F.dispatch fun a j => ?_) fun o => ?_
      · exact hopens a plan.call j (hd plan rfl)
      · exact F.recordRow hrow fun _ => rfl

theorem cancelOwnCopy (F : FrameRule U I G B) {key : String} (hrow : RowFrame I G l key)
    (h : ∀ api call j, call.cancels = true → B (.sent (.signal ⟨l, key, SignalCopy.scope raw, destination⟩) api call j)) :
    Prog.Keeps I G (SignalCopy.cancelOwnCopy l key s raw api destination verified) := by
  unfold SignalCopy.cancelOwnCopy
  refine Prog.Keeps.bind (Prog.Quiet.keeps (Prog.Quiet.tryCatch ?_ fun e => ?_)) fun prepared => ?_
  · exact (SignalCopy.quiet_prepareCancel l s raw api destination verified).bind fun _ => Prog.quiet_pure _
  · split
    · exact Prog.quiet_pure _
    · exact Prog.quiet_throw _
  · cases prepared with
    | error e => exact F.recordRow hrow fun _ => rfl
    | ok r =>
      refine Prog.Keeps.bind (F.recordRow hrow fun _ => rfl) fun _ => Prog.Keeps.bind (F.dispatch fun a j => ?_) fun o => ?_
      · exact h a (.cancelPendingOrder r.2) j rfl
      · exact F.recordRow hrow fun _ => rfl

theorem unwind (F : FrameRule U I G B) {key : String} (hrow : RowFrame I G l key)
    (h : ∀ api call j, call.cancels = true → B (.sent (.signal ⟨l, key, SignalCopy.scope raw, destination⟩) api call j)) :
    Prog.Keeps I G (SignalCopy.unwind l key s raw api destination verified) := by
  unfold SignalCopy.unwind
  refine reads fun d => ?_
  split
  · exact F.cancelOwnCopy hrow h
  · refine Prog.Keeps.bind ?_ fun o => ?_
    · unfold SignalCopy.applyToLedger
      split
      · exact Prog.keeps_pure _
      · exact Prog.Keeps.tryCatch (F.apply _ _ _ _ _) fun e => Prog.keeps_pure _
    · cases o <;> exact F.recordRow hrow fun _ => rfl

theorem act (F : FrameRule U I G B) (hrow : RowFrame I G c.lane (SignalCopy.signalKey s))
    (h : Licensed B c destination (SignalCopy.signalKey s) raw) :
    Prog.Keeps I G (SignalCopy.act c symbols s raw closed api destination verified at_) := by
  unfold SignalCopy.act
  refine reads fun d => ?_
  split
  · exact F.openCopy hrow h
  · split
    · exact Prog.keeps_pure _
    · split
      · exact Prog.keeps_pure _
      · split
        · exact F.unwind hrow h.cancels
        · exact Prog.keeps_pure _

theorem receiveSignal (F : FrameRule U I G B) (hrow : RowFrame I G c.lane (SignalCopy.signalKey s))
    (h : Licensed B c destination (SignalCopy.signalKey s) raw) :
    Prog.Keeps I G (SignalCopy.receiveSignal c symbols s raw closed api destination verified) := by
  unfold SignalCopy.receiveSignal
  refine Prog.Keeps.bind now fun at_ => Prog.Keeps.bind raiseIf fun _ => reads fun previous => ?_
  refine Prog.Keeps.bind (F.transactLane fun w hI => hrow.appear w _ hI) fun _ => ?_
  cases previous with
  | some row => exact Prog.keeps_pure _
  | none =>
    refine Prog.Keeps.bind (F.transactLane fun w hI => hrow.insert w _ rfl hI) fun _ => Prog.Keeps.bind (F.act hrow h) fun _ => ?_
    refine reads fun r => ?_
    cases r with
    | none => exact Prog.keeps_throw _
    | some r => exact Prog.keeps_pure _

theorem receiveElement (F : FrameRule U I G B) (h : ∀ s, Signal.parseSignal raw = .ok s →
      RowFrame I G c.lane (SignalCopy.signalKey s) ∧ Licensed B c destination (SignalCopy.signalKey s) raw) :
    Prog.Keeps I G (SignalCopy.receiveElement c symbols closed api destination verified raw) := by
  unfold SignalCopy.receiveElement
  refine Prog.Keeps.tryCatch ?_ fun e => ?_
  · cases hp : Signal.parseSignal raw with
    | error e => exact Prog.keeps_throw e
    | ok s => exact F.receiveSignal (h s hp).1 (h s hp).2
  · split
    · exact Prog.keeps_pure _
    · exact Prog.keeps_throw _

theorem receive (F : FrameRule U I G B) {payload : List Json} (h : ∀ raw ∈ payload, ∀ s, Signal.parseSignal raw = .ok s →
      RowFrame I G c.lane (SignalCopy.signalKey s) ∧ Licensed B c destination (SignalCopy.signalKey s) raw) :
    Prog.Keeps I G (SignalCopy.receive c symbols payload api destination verified) := by
  unfold SignalCopy.receive
  refine Prog.Keeps.bind raiseIf fun _ => Prog.Keeps.bind (ofExcept _) fun closed => ?_
  exact Prog.keeps_mapM payload fun raw hr => F.receiveElement (h raw hr)

end FrameRule

end Lanes

end MatchTrader
