import MatchTrader.LivePlans

/-! Paper mode: the engine decides, and the bridge records, without the session. Two runs that
differ in the session only are compared step by step. -/

namespace MatchTrader

open Durable

/-- The query calls a method of a session. -/
def Query.ofApi : Query → Bool
  | .clock | .uuid4 | .commitFails => false
  | _ => true

def withApi (a : Option Api) (w : World) : World := { w with mem := { w.mem with api := a } }

/-- Two programs do the same whatever the session is: they call none of its methods, commit no attempt and leave the
memory as it is. -/
def Alike {α : Type} (a : Option Api) (p q : Act α) (w : World) : Prop :=
  p.Twin (withApi a) (fun q => q.ofApi = false) (fun w v => v.journal.attempts = w.journal.attempts) q
    (fun _ v => v.mem = w.mem) (fun _ v => v.mem = w.mem) w

namespace Alike

variable {α β : Type} {a : Option Api} {w : World}

theorem bind {p q : Act β} {g h : β → Act α} (hp : Alike a p q w)
    (hg : ∀ b v, v.mem = w.mem → Alike a (g b) (h b) v) : Alike a (p >>= g) (q >>= h) w := by
  refine Prog.Twin.bind (Prog.Twin.consequence hp (fun b v hv => ?_) fun _ _ he => he)
  exact Prog.Twin.consequence (hg b v hv) (fun _ _ ht => ht.trans hv) fun _ _ ht => ht.trans hv

theorem tryCatch {p q : Act α} {g h : Exc → Act α} (hp : Alike a p q w)
    (hg : ∀ e v, v.mem = w.mem → Alike a (g e) (h e) v) : Alike a (tryCatch p g) (tryCatch q h) w := by
  refine Prog.Twin.tryCatch (Prog.Twin.consequence hp (fun _ _ hv => hv) fun e v hv => ?_)
  exact Prog.Twin.consequence (hg e v hv) (fun _ _ ht => ht.trans hv) fun _ _ ht => ht.trans hv

theorem pure (x : α) : Alike a (pure x) (pure x) w := ⟨rfl, rfl⟩

theorem throw (e : Exc) : Alike a (throw e : Act α) (throw e) w := ⟨rfl, rfl⟩

theorem ofExcept (r : Except Exc α) : Alike a (Prog.ofExcept r) (Prog.ofExcept r) w := by
  cases r <;> exact ⟨rfl, rfl⟩

theorem raiseIf {c : Prop} [Decidable c] {e : Exc} : Alike a (raiseIf c e : Act Unit) (raiseIf c e) w := by
  unfold MatchTrader.raiseIf
  split
  · exact throw e
  · exact pure ()

theorem now : Alike a now now w := ⟨_, rfl, rfl, fun _ => ⟨rfl, rfl⟩⟩

theorem uuid4 : Alike a uuid4 uuid4 w := ⟨_, rfl, rfl, fun _ => ⟨rfl, rfl⟩⟩

/-- What is read need not be the same, if what is made of it does the same. -/
theorem reads {f : World → β} {g : β → Act α} (h : Alike a (g (f w)) (g (f (withApi a w))) w) :
    Alike a (MatchTrader.reads f >>= g) (MatchTrader.reads f >>= g) w := ⟨_, rfl, h⟩

theorem transact {f : Tx α} (h : ∀ j x k, f j = .ok (x, k) → k.attempts = j.attempts) :
    Alike a (transact f) (transact f) w := by
  refine ⟨_, rfl, rfl, fun b => ?_⟩
  cases b with
  | true => exact ⟨_, _, rfl, rfl, rfl, rfl, rfl⟩
  | false =>
    refine Prog.twin_attempt ?_ (fun x v hv => ?_) fun e _ => rfl
    · simp only [withApi]
      cases f w.journal <;> rfl
    · split at hv
      · simp at hv
      · next x k hf =>
        obtain ⟨rfl, rfl⟩ := Prod.mk.inj (Except.ok.inj hv)
        exact ⟨h _ _ _ hf, rfl⟩

theorem change {f : Journal → Except Exc Journal} (h : ∀ j k, f j = .ok k → k.attempts = j.attempts) :
    Alike a (Store.change f) (Store.change f) w := by
  refine transact fun j x k hk => ?_
  cases hf : f j with
  | error e => simp [hf, Except.map] at hk
  | ok l =>
    rw [hf] at hk
    obtain ⟨rfl, rfl⟩ := Prod.mk.inj (Except.ok.inj hk)
    exact h j l hf

end Alike

section Bridge

variable [Host] {a : Option Api} {w : World} {e : CaptureEvent}

omit [Host] in
theorem alike_decision {seq : Nat} {status : Decision} {reason : String} :
    Alike a (Store.decision seq status reason) (Store.decision seq status reason) w :=
  .change fun _ _ h => by rw [← Except.ok.inj h]

theorem alike_record : Alike a (Store.record e) (Store.record e) w :=
  .bind .now fun _ _ _ => .bind .uuid4 fun _ _ _ => .transact fun _ _ _ h => Journal.recordEvent_attempts h

omit [Host] in
theorem alike_receiveAgain {row : EventRow} : Alike a (Router.receiveAgain e row) (Router.receiveAgain e row) w := by
  refine .reads (.bind ?_ fun _ _ _ => .pure _)
  unfold Router.recoverDecision
  split
  · exact .bind alike_decision fun _ _ _ => .pure _
  · exact .pure _

theorem alike_router {route : Option RouteConfig} {destination : String} :
    Alike a (Router.receive disarmed route e none destination) (Router.receive disarmed route e none destination) w := by
  refine .bind alike_record fun r v _ => ?_
  obtain ⟨row, duplicate⟩ := r
  cases duplicate with
  | true => exact alike_receiveAgain
  | false =>
    refine .bind ?_ fun _ _ _ => .bind alike_decision fun _ _ _ => .reads (.pure _)
    unfold Router.dispatchOnArrival
    split
    · exact .tryCatch (.throw _) fun e _ _ => by split <;> exact .pure _
    · exact .pure _

omit [Host] in
theorem alike_paper {p : ManualSend.Prepared} {destination : String} :
    Alike a (ManualSend.paper p destination) (ManualSend.paper p destination) w := by
  refine .bind .now fun _ _ _ => .bind (.change fun j k h => ?_) fun _ _ _ => .pure _
  split at h
  · simp at h
  · rw [← Except.ok.inj h]

theorem alike_send {entry : Entry} {controls : Controls} {tradeId destination : String} {volume : Json}
    {api : Option Api} {route : Option RouteConfig} (hc : controls.mode = .paper) :
    Alike a (ManualSend.send entry controls tradeId volume api destination route)
      (ManualSend.send entry controls tradeId volume api destination route) w := by
  refine .reads (.bind (.ofExcept _) fun p _ _ => ?_)
  rw [if_pos hc]
  exact alike_paper

omit [Host] in
theorem alike_recordDecision {r : NativeResult} :
    Alike a (Automatic.recordDecision e r) (Automatic.recordDecision e r) w := by
  have hjournal : (withApi a w).journal = w.journal := rfl
  refine .reads ?_
  rw [hjournal]
  cases w.journal.event? (e.machine, e.eventId) with
  | none => exact .throw _
  | some row => exact alike_decision

omit [Host] in
theorem alike_settle {r : NativeResult} {p q : Act NativeResult} (h : Alike a p q w) :
    Alike a (Automatic.settle e r p) (Automatic.settle e r q) w :=
  .bind (.tryCatch h fun _ _ _ => .pure _) fun _ _ _ => .bind alike_recordDecision fun _ _ _ => .pure _

theorem alike_create {identity : String} {r : NativeResult} (hm : w.mem.mode = .paper) :
    Alike a (Automatic.create e identity r) (Automatic.create e identity r) w := by
  refine .reads (.bind .raiseIf fun _ _ _ => ?_)
  simp only [id, withApi, hm, reduceCtorEq, false_and, if_false]
  split
  · exact .throw _
  · refine .bind (.ofExcept _) fun mapping _ _ => .bind .raiseIf fun _ _ _ => .bind .now fun _ _ _ =>
      .bind .raiseIf fun _ _ _ => .bind .raiseIf fun _ _ _ => .bind (.ofExcept _) fun lots _ _ =>
        .bind .raiseIf fun _ _ _ => .bind (alike_send rfl) fun _ _ _ => .pure _

theorem alike_act {identity : String} {r : NativeResult} (hm : w.mem.mode = .paper) :
    Alike a (Automatic.act e identity r) (Automatic.act e identity r) w := by
  refine .reads ?_
  have hpaper : w.mem.mode ≠ .live := by simp [hm]
  have hpaper' : (withApi a w).mem.mode ≠ .live := hpaper
  simp only [id, hpaper, hpaper', ne_eq, not_false_eq_true, if_true]
  split
  · exact alike_settle (.pure _)
  · exact alike_settle (alike_create hm)

theorem alike_receive (hm : w.mem.mode = .paper) : Alike a (Automatic.receive e) (Automatic.receive e) w := by
  refine .reads (.bind alike_router fun result v hv => ?_)
  split
  · exact .pure _
  · next identity _ =>
    split
    · exact .pure _
    · exact alike_act (hv ▸ hm)

end Bridge

section Engine

variable {ι α β : Type}

/-- Whatever the parameter is, the program is the same result. -/
def Fixed (p : ι → Act α) : Prop := ∃ r, ∀ i, p i = Prog.ofExcept r

namespace Fixed

theorem pure (x : α) : Fixed fun _ : ι => (pure x : Act α) := ⟨.ok x, fun _ => rfl⟩

theorem throw (e : Exc) : Fixed fun _ : ι => (throw e : Act α) := ⟨.error e, fun _ => rfl⟩

theorem ofExcept (r : Except Exc α) : Fixed fun _ : ι => (Prog.ofExcept r : Act α) := ⟨r, fun _ => rfl⟩

theorem raiseIf {c : Prop} [Decidable c] {e : Exc} : Fixed fun _ : ι => (raiseIf c e : Act Unit) := by
  unfold MatchTrader.raiseIf
  split
  · exact throw e
  · exact pure ()

theorem bind {p : ι → Act β} {f : ι → β → Act α} (hp : Fixed p) (hf : ∀ b, Fixed fun i => f i b) :
    Fixed fun i => p i >>= f i := by
  obtain ⟨r, hr⟩ := hp
  cases r with
  | error e => exact ⟨.error e, fun i => congrArg (· >>= f i) (hr i)⟩
  | ok b =>
    obtain ⟨r', hr'⟩ := hf b
    exact ⟨r', fun i => (congrArg (· >>= f i) (hr i)).trans (hr' i)⟩

end Fixed

variable [Host] {lane : Option Lane} {symbols : SymbolMap} {s : Signal} {c : Context}

def Context.withApi (c : Context) (a : Option Api) : Context := { c with api := a }

theorem admission_withApi {l : Lane} (hp : c.paper = true) (a : Option Api) :
    SignalEngine.admission l s (c.withApi a) = SignalEngine.admission l s c := by
  have hp' : (c.withApi a).paper = true := hp
  simp only [SignalEngine.admission, hp, hp', Bool.not_true, Bool.false_eq_true, false_and, or_false]
  rfl

omit [Host] in
theorem pendingTypeFromQuote_paper {m : SymbolMapping} {side : String} (hp : c.paper = true) :
    SignalEngine.pendingTypeFromQuote s m side c = Prog.ofExcept
      (.error (SignalEngine.refusal "Paper preview needs an explicit source Limit or Stop order type")) := by
  rw [SignalEngine.pendingTypeFromQuote, raiseIf, if_pos hp]
  rfl

omit [Host] in
theorem fit_paper {l : Lane} {m : SymbolMapping} {side type : String} (hp : c.paper = true) :
    SignalEngine.fit l m s side type c = pure (s.entry, s.stopLoss, s.takeProfit, m.lots) := by
  rw [SignalEngine.fit, if_pos hp]

theorem decide_fixed (hp : c.paper = true) : Fixed fun a => SignalEngine.decide lane symbols s (c.withApi a) := by
  have hp' (a : Option Api) : (c.withApi a).paper = true := hp
  have harmed (a : Option Api) : (c.withApi a).armed = c.armed := rfl
  unfold SignalEngine.decide
  simp only [harmed]
  cases (if c.armed = true then lane else none) with
  | none => exact .throw _
  | some l =>
    refine .bind ?_ fun _ => ?_
    · simp only [admission_withApi hp]
      exact .ofExcept _
    cases symbols.lookup s.symbol with
    | none => exact .throw _
    | some m =>
      refine .bind .raiseIf fun _ => .bind (.ofExcept _) fun _ => .bind (.ofExcept _) fun box => .bind .raiseIf fun _ =>
        .bind ?_ fun type => .bind ?_ fun _ => .pure _
      · refine .bind ?_ fun type => .bind .raiseIf fun _ => .pure _
        unfold SignalEngine.resolvedType
        split
        · exact ⟨_, fun a => pendingTypeFromQuote_paper (hp' a)⟩
        · exact .pure _
      · simp only [fit_paper (hp' _)]
        exact .pure _

end Engine

section Both

variable [Host]

/-- The engine on paper comes to one result, whatever the session and its answers are, and asks nothing. -/
def DecidesBlindly (lane : Option Lane) (symbols : SymbolMap) (s : Signal) (c : Context) : Prop :=
  ∃ r : Except Exc OrderPlan, ∀ (a : Option Api) (env : Answers) (w : World),
    (SignalEngine.decide lane symbols s (c.withApi a)).eval env w = (w, r)
      ∧ (SignalEngine.decide lane symbols s (c.withApi a)).asked env w = []

/-- The bridge on paper leaves one journal with the attempts that it had, whatever the session and its answers are, and
calls no method of the session. -/
def ReceivesBlindly (e : CaptureEvent) (w : World) (env : Answers) : Prop :=
  (∀ q ∈ (Automatic.receive e).asked env w, q.ofApi = false)
    ∧ ((Automatic.receive e).eval env w).1.journal.attempts = w.journal.attempts
    ∧ ∀ (a : Option Api) (env' : Answers), (∀ i q, q.ofApi = false → env i q = env' i q) →
      ((Automatic.receive e).eval env' (withApi a w)).1.journal = ((Automatic.receive e).eval env w).1.journal
        ∧ ((Automatic.receive e).eval env' (withApi a w)).2 = ((Automatic.receive e).eval env w).2
        ∧ ∀ q ∈ (Automatic.receive e).asked env' (withApi a w), q.ofApi = false

theorem paper_without_session :
    (∀ (lane : Option Lane) (symbols : SymbolMap) (s : Signal) (c : Context), c.paper = true →
      DecidesBlindly lane symbols s c)
    ∧ ∀ (e : CaptureEvent) (w : World) (env : Answers), w.mem.mode = .paper → ReceivesBlindly e w env := by
  constructor
  · intro lane symbols s c hp
    obtain ⟨r, hr⟩ : Fixed fun a => SignalEngine.decide lane symbols s (c.withApi a) := decide_fixed hp
    refine ⟨r, fun a env w => ?_⟩
    rw [show SignalEngine.decide lane symbols s (c.withApi a) = Prog.ofExcept r from hr a]
    cases r <;> exact ⟨rfl, rfl⟩
  · intro e w env hm
    have hreceive (a : Option Api) : Alike a (Automatic.receive e) (Automatic.receive e) w := alike_receive hm
    obtain ⟨_, _, hasked, hsteps⟩ := (hreceive none).eval env
    refine ⟨hasked, ?_, fun a env' he => ?_⟩
    · exact invariant_of_reflTransGen (I := fun v => v.journal.attempts = w.journal.attempts) hsteps
        (fun u v hu huv => huv.trans hu) rfl
    · obtain ⟨hr, _, hasked', _⟩ := (hreceive a).eval env'
      have henv : (Automatic.receive e).eval env w = (Automatic.receive e).eval env' w :=
        Prog.eval_congr fun q hq i => he i q (hasked q hq)
      obtain ⟨_, ha, hb, _⟩ := (hreceive a).eval env'
      rw [hr, henv]
      exact ⟨rfl, rfl, ha ▸ hb⟩

end Both

section Sample

attribute [local instance] sampleHost

theorem paper_without_session_sample :
    DecidesBlindly (some sampleLane) sampleMemory.symbols sampleIntent { sampleContext with mode := some .paper }
      ∧ ReceivesBlindly sampleEvent (started { bridgeMemory with mode := .paper }) sampleAnswers :=
  ⟨paper_without_session.1 _ _ _ _ rfl, paper_without_session.2 _ _ _ rfl⟩

end Sample

end MatchTrader
