import MatchTrader.LivePlans

/-! The stop and the target that an opening write carries. Both live paths round them to the
price grid of the destination after they were found to be there, and zero is the wire's word
for none: less than half a unit of the grid vanishes. -/

namespace MatchTrader

open Durable

/-- The price is none, or at least half a unit of the price grid. -/
def Visible (precision : Option Int) (value : Decimal) : Prop :=
  value.isZero = true ∨ ∀ p, precision = some p → (10 : ℚ) ^ max (-p) Decimal.etiny ≤ 2 * |value.toRat|

/-- A price that is there is still there when it is sent. -/
def Kept (source sent : Decimal) : Prop := source.isZero = false → sent.isZero = false

/-- The stop and the target of an opening write. -/
def Call.brackets : Call → Option (Decimal × Decimal)
  | .openPosition r | .createPendingOrder r => some (r.slPrice, r.tpPrice)
  | _ => none

theorem onGrid_kept {precision : Option Int} {value r : Decimal} (h : onGrid precision value = .ok r) :
    Kept value r ↔ Visible precision value := by
  cases hz : value.isZero with
  | true => exact iff_of_true (fun hn => by simp [hz] at hn) (Or.inl hz)
  | false =>
    have hc : value.coeff ≠ 0 := by simpa [Decimal.isZero] using hz
    cases precision with
    | none =>
      obtain rfl := Except.ok.inj h
      exact iff_of_true id (Or.inr fun p hp => by simp at hp)
    | some p =>
      simp only [onGrid, hz, Bool.false_eq_true, if_false] at h
      rw [bind_eq_ok] at h
      obtain ⟨quantum, hq, h⟩ := h
      rw [arith_eq_ok] at hq h
      have hhalf := Decimal.quantize_halfUp_isZero hc h
      rw [Decimal.scaleb_exp hq] at hhalf
      simp only [Kept, Visible, hz, true_imp_iff, hhalf, Bool.false_eq_true, false_or, Option.some.injEq, forall_eq']

/-- The query is no call of a broker write method. -/
def Query.reading : Query → Bool
  | .write _ _ => false
  | _ => true

section Questions

variable {A : (q : Query) → Reply q → Prop} {B : Query → Prop} {α : Type} {P : α → World → Prop}
  {E : Exc → World → Prop} {w : World}
  (hB : ∀ q : Query, q.reading = true → B q)

include hB

theorem asks_now {P : Instant → World → Prop} (h : ∀ t, P t w) : (now : Act Instant).Asks A B P E w :=
  ⟨hB _ rfl, fun t _ => h t⟩

theorem asks_transact {f : Tx α} (h : ∀ a v, P a v) (he : ∀ e v, E e v) : (transact f).Asks A B P E w := by
  refine ⟨hB _ rfl, fun b _ => ?_⟩
  cases b with
  | true => exact he _ _
  | false => exact Prog.asks_attempt h he

theorem asks_change {f : Journal → Except Exc Journal} {P : Unit → World → Prop} (h : ∀ v, P () v)
    (he : ∀ e v, E e v) : (Store.change f).Asks A B P E w :=
  asks_transact hB (fun _ v => h v) he

variable {identity : String} {key : ActionKey}

theorem asks_claim {requestId destination : String} {action : Action} {call : Call} :
    (Store.claim identity key requestId action destination call).Asks A B (fun _ _ => True) (fun _ _ => True) w :=
  .bind (asks_now hB fun _ => trivial) fun _ _ => asks_transact hB (fun _ _ => trivial) fun _ _ => trivial

theorem asks_update {u : TradeUpdate} :
    (Store.update identity u).Asks A B (fun _ _ => True) (fun _ _ => True) w :=
  .bind (asks_now hB fun _ => trivial) fun _ _ => asks_change hB (fun _ => trivial) fun _ _ => trivial

theorem asks_finish {state : Outcome} :
    (Store.finish identity key state).Asks A B (fun _ _ => True) (fun _ _ => True) w :=
  .bind (asks_now hB fun _ => trivial) fun _ _ => asks_change hB (fun _ => trivial) fun _ _ => trivial

theorem asks_recordReason {attempt : Nat} {outcome : Outcome} {reason : Reason} :
    (Store.recordReason identity key attempt outcome reason).Asks A B (fun _ _ => True) (fun _ _ => True) w :=
  .bind (asks_now hB fun _ => trivial) fun _ _ => asks_change hB (fun _ => trivial) fun _ _ => trivial

theorem asks_recordFailure {e : Exc} :
    (recordFailure identity key e).Asks A B (fun _ _ => True) (fun _ _ => True) w :=
  .bind (.tryCatch (asks_recordReason hB) fun _ _ => trivial) fun _ _ => .bind (asks_update hB) fun _ _ =>
    .bind (asks_finish hB) fun _ _ => trivial

omit hB in
theorem asks_invoke {owner : Owner} {api : Api} {call : Call} (h : B (.write api call)) :
    (invoke owner api call).Asks A B (fun _ _ => True) (fun _ _ => True) w := by
  refine ⟨h, fun r _ => ?_⟩
  cases r with
  | error e => exact trivial
  | ok reply => exact trivial

theorem asks_live {owner : Owner} {p : ManualSend.Prepared} {request : OpenRequest} {api : Api} {tradeId : String}
    (h : B (.write api (if p.event.orderType = .market then Call.openPosition request else .createPendingOrder request))) :
    (ManualSend.live owner p request api tradeId).Asks A B (fun _ _ => True) (fun _ _ => True) w := by
  refine .bind (.tryCatch (.bind (asks_invoke h) fun reply _ => .bind ?_ fun values _ => .bind
    (.tryCatch (.bind (asks_update hB) fun _ _ => asks_finish hB) fun _ _ => trivial) fun _ _ => trivial)
      fun _ _ => asks_recordFailure hB) fun r v => ?_
  · exact (Prog.asks_ofExcept _).mpr ⟨fun _ _ => trivial, fun _ _ => trivial⟩
  · have hread (g : Option TradeRow → Act ManualSend.SendResult) :
        Prog.Asks A B (Store.trade tradeId >>= g) (fun _ _ => True) (fun _ _ => True) v
          = Prog.Asks A B (g (v.journal.trade? tradeId)) (fun _ _ => True) (fun _ _ => True) v := rfl
    rw [hread]
    cases v.journal.trade? tradeId with
    | none => exact trivial
    | some t => exact trivial

end Questions

section Paths

variable [Host] {env : Answers} {w : World}

/-- The write carries what the accepted signal's brackets become on the destination's grid, and keeps them just when
they can be seen there. -/
def HandedOn (env : Answers) (j : Journal) (tradeId : String) (q : Query) : Prop :=
  ∀ api call, q = .write api call → ∃ event info sl tp, j.candidateEvent tradeId = some event
    ∧ AnswersInstrument env api call.instrument info ∧ call.brackets = some (sl, tp)
    ∧ (Kept event.sl sl ∧ Kept event.tp tp ↔
      Visible info.pricePrecision event.sl ∧ Visible info.pricePrecision event.tp)

omit [Host] in
theorem checkInstrument_ok {info : Instrument} {lots : Decimal} {p r : Priced} (h : checkInstrument info lots p = .ok r) :
    onGrid info.pricePrecision p.sl = .ok r.sl ∧ onGrid info.pricePrecision p.tp = .ok r.tp := by
  simp only [checkInstrument, bind_eq_ok, raiseIf_eq_ok] at h
  obtain ⟨q, hq, _, _, _, _, _, _, _, _, _, _, _, _, _, _, hr⟩ := h
  simp only [quantisePrices, bind_eq_ok] at hq
  obtain ⟨price, _, sl, hsl, tp, htp, hq⟩ := hq
  obtain rfl := Except.ok.inj hq
  have hrq : r.sl = sl ∧ r.tp = tp := by
    split at hr
    · simp only [bind_eq_ok, raiseIf_eq_ok] at hr
      obtain ⟨_, _, _, _, _, _, hr⟩ := hr
      obtain rfl := Except.ok.inj hr
      exact ⟨rfl, rfl⟩
    · obtain rfl := Except.ok.inj hr
      exact ⟨rfl, rfl⟩
  rw [hrq.1, hrq.2]
  exact ⟨hsl, htp⟩

omit [Host] in
theorem validateInstrument_asks {api : Api} {symbol : String} {lots : Decimal} {p : Priced} {B : Query → Prop}
    (hB : ∀ q : Query, q.reading = true → B q) :
    (validateInstrument api symbol lots p).Asks (Given env) B (fun r _ => ∃ info, AnswersInstrument env api symbol info
      ∧ onGrid info.pricePrecision p.sl = .ok r.sl ∧ onGrid info.pricePrecision p.tp = .ok r.tp)
      (fun _ _ => True) w := by
  refine .tryCatch ((Prog.asks_bind _ _).mpr ?_) fun e _ => ?_
  · have hinfo : (instrumentInfo api symbol).Asks (Given env) B (fun info _ => AnswersInstrument env api symbol info)
        (fun _ _ => True) w := by
      refine ⟨hB _ rfl, fun r hr => ?_⟩
      cases r with
      | error e => exact trivial
      | ok list =>
        dsimp only [Prog.bind, Prog.ofExcept]
        split
        · next info hone =>
          obtain ⟨i, hi⟩ := hr
          exact ⟨i, list, hi, hone⟩
        · exact trivial
    refine Prog.asks_consequence hinfo (fun info v hi => ?_) fun _ _ _ => trivial
    rw [Prog.asks_ofExcept]
    exact ⟨fun r hr => ⟨info, hi, checkInstrument_ok hr⟩, fun _ _ => trivial⟩
  · split <;> trivial

theorem prepare_ok {j : Journal} {controls : Controls} {tradeId destination : String} {volume : Json}
    {route : Option RouteConfig} {p : ManualSend.Prepared}
    (h : ManualSend.prepare j controls tradeId volume destination route = .ok p) :
    j.candidateEvent tradeId = some p.event ∧ p.request.instrument = p.symbol := by
  unfold ManualSend.prepare at h
  split at h
  · simp at h
  simp only [bind_eq_ok, raiseIf_eq_ok] at h
  obtain ⟨_, _, _, _, _, _, _, _, _, _, _, _, h⟩ := h
  split at h
  · simp at h
  next event he =>
  simp only [bind_eq_ok, raiseIf_eq_ok] at h
  obtain ⟨_, _, _, _, _, _, lots, _, _, _, h⟩ := h
  obtain rfl := Except.ok.inj h
  exact ⟨he, rfl⟩

theorem send_hands_on {controls : Controls} {entry : Entry} {tradeId destination : String} {volume : Json}
    {api : Option Api} {route : Option RouteConfig} :
    (ManualSend.send entry controls tradeId volume api destination route).Asks (Given env)
      (HandedOn env w.journal tradeId) (fun _ _ => True) (fun _ _ => True) w := by
  have hB : ∀ q : Query, q.reading = true → HandedOn env w.journal tradeId q := by
    rintro _ hq api call rfl
    simp [Query.reading] at hq
  unfold ManualSend.send
  rw [Prog.asks_bind]
  change Prog.Asks _ _ (Prog.ofExcept (ManualSend.prepare w.journal controls tradeId volume destination route) >>= _) _ _ w
  rw [Prog.asks_bind, Prog.asks_ofExcept]
  refine ⟨fun p hp => ?_, fun _ _ => trivial⟩
  obtain ⟨hevent, hsymbol⟩ := prepare_ok hp
  split
  · exact .bind (asks_now hB fun _ => trivial) fun _ _ => .bind (asks_change hB (fun _ => trivial) fun _ _ => trivial)
      fun _ _ => trivial
  split
  · exact trivial
  next api =>
  rw [Prog.asks_bind]
  refine Prog.asks_consequence (P := fun r _ => ∃ info, AnswersInstrument env api p.symbol info
      ∧ onGrid info.pricePrecision p.event.sl = .ok r.sl ∧ onGrid info.pricePrecision p.event.tp = .ok r.tp)
    (.tryCatch (validateInstrument_asks hB) fun e v => ?_) (fun grid v hgrid => ?_) fun _ _ h => h
  · split <;> trivial
  obtain ⟨info, hinfo, hsl, htp⟩ := hgrid
  refine .bind (asks_claim hB) fun claimed v => .bind ?_ fun _ v => .bind (asks_update hB) fun _ v => asks_live hB ?_
  · unfold raiseIf
    split <;> trivial
  · intro a call hcall
    have hkept := and_congr (onGrid_kept hsl) (onGrid_kept htp)
    split at hcall <;> obtain ⟨rfl, rfl⟩ := Query.write.inj hcall <;>
      exact ⟨p.event, info, grid.sl, grid.tp, hevent, by simpa [Call.instrument, hsymbol] using hinfo, rfl, hkept⟩

/-- A live plan carries what the signal's brackets become on the destination's grid, and keeps them just when they can be
seen there. -/
def PlanKeeps (env : Answers) (s : Signal) (p : OrderPlan) : Prop :=
  ∃ api info, AnswersInstrument env api p.instrument info ∧ p.call.brackets = some (p.sl, p.tp)
    ∧ (Kept s.stopLoss p.sl ∧ Kept s.takeProfit p.tp ↔
      Visible info.pricePrecision s.stopLoss ∧ Visible info.pricePrecision s.takeProfit)

/-- On both live paths, what opens a copy has the source's stop and target just when the destination's grid shows them. -/
theorem brackets_kept_iff :
    (∀ (lane : Option Lane) (symbols : SymbolMap) (s : Signal) (c : Context) (env : Answers) (w : World) (p : OrderPlan),
      c.paper = false → ((SignalEngine.decide lane symbols s c).eval env w).2 = .ok p → PlanKeeps env s p)
    ∧ ∀ (entry : Entry) (controls : Controls) (tradeId : String) (volume : Json) (api : Option Api) (destination : String)
      (route : Option RouteConfig) (env : Answers) (w : World),
      ∀ q ∈ (ManualSend.send entry controls tradeId volume api destination route).asked env w,
        HandedOn env w.journal tradeId q := by
  constructor
  · intro lane symbols s c env w p hp h
    obtain ⟨_, l, m, api, info, equity, entry, _, _, hplan⟩ := decide_planned hp h
    obtain ⟨list, ⟨i, hi⟩, hlist⟩ := hplan.fitted.answered
    have hbrackets : p.call.brackets = some (p.sl, p.tp) := by
      unfold OrderPlan.call
      split <;> rfl
    exact ⟨api, info, ⟨i, list, hi, hplan.symbol ▸ hlist⟩, hbrackets,
      and_congr (onGrid_kept hplan.fitted.slGrid) (onGrid_kept hplan.fitted.tpGrid)⟩
  · intro entry controls tradeId volume api destination route env w
    exact send_hands_on.asked env fun i _ => ⟨i, rfl⟩

end Paths

section Sample

attribute [local instance] sampleHost

/-- A buy whose stop is less than half a unit of whole prices. -/
def faintIntent : Signal :=
  { sampleIntent with entry := .ofNat 10, stopLoss := ⟨false, 4, -1⟩, takeProfit := .ofNat 12 }

def faintEvent : CaptureEvent :=
  { sampleEvent with price := .ofNat 10, sl := ⟨false, 4, -1⟩, tp := .ofNat 12, amounts_nonneg := by decide }

/-- The source's order is a candidate, and its owner sends it. -/
def faintWorld : World := served [.native faintEvent none] (started sampleMemory)

def faintSend : Act ManualSend.SendResult :=
  ManualSend.send .manual ⟨.live, fun _ => true⟩ "t1" (.num (.ofNat 1)) (some sampleApi) "A" none

theorem brackets_kept_iff_sample :
    (∃ p, samplePlan sampleLane sampleMemory.symbols sampleIntent sampleAnswers = .ok p ∧ PlanKeeps sampleAnswers sampleIntent p)
      ∧ ∃ q, (∃ api call, q = .write api call) ∧ q ∈ faintSend.asked (instrumentAnswers wholePrices) faintWorld
        ∧ HandedOn (instrumentAnswers wholePrices) faintWorld.journal "t1" q := by
  have hplan : (samplePlan sampleLane sampleMemory.symbols sampleIntent sampleAnswers).toOption.any (fun _ => true) = true := by
    decide +kernel
  obtain ⟨p, hp, _⟩ := exists_ok hplan
  have hasked : (faintSend.asked (instrumentAnswers wholePrices) faintWorld).any (fun q => !q.reading) = true := by
    decide +kernel
  obtain ⟨q, hq, hr⟩ := List.any_eq_true.mp hasked
  refine ⟨⟨p, hp, brackets_kept_iff.1 _ _ _ _ _ _ p rfl hp⟩, q, ?_, hq, brackets_kept_iff.2 _ _ _ _ _ _ _ _ _ q hq⟩
  cases q with
  | write api call => exact ⟨api, call, rfl⟩
  | _ => simp [Query.reading] at hr

/-- On both paths a stop of 0.4 is sent as none to an instrument in whole prices. -/
theorem brackets_vanish :
    (∃ p, samplePlan sampleLane sampleMemory.symbols faintIntent (instrumentAnswers wholePrices) = .ok p
      ∧ p.call.brackets = some (⟨false, 0, 0⟩, .ofNat 12) ∧ ¬ Kept faintIntent.stopLoss ⟨false, 0, 0⟩)
    ∧ ∃ call, .write sampleApi call ∈ faintSend.asked (instrumentAnswers wholePrices) faintWorld
      ∧ call.brackets = some (⟨false, 0, 0⟩, .ofNat 12) ∧ ¬ Kept faintEvent.sl ⟨false, 0, 0⟩ := by
  have hkept : ¬ Kept ⟨false, 4, -1⟩ ⟨false, 0, 0⟩ := by simp [Kept, Decimal.isZero]
  have hplan : (samplePlan sampleLane sampleMemory.symbols faintIntent (instrumentAnswers wholePrices)).toOption.any
      (fun p => p.call.brackets = some (⟨false, 0, 0⟩, .ofNat 12)) = true := by decide +kernel
  obtain ⟨p, hp, hb⟩ := exists_ok hplan
  have hasked : (faintSend.asked (instrumentAnswers wholePrices) faintWorld).any (fun q => match q with
      | .write api call => api = sampleApi ∧ call.brackets = some (⟨false, 0, 0⟩, .ofNat 12)
      | _ => false) = true := by decide +kernel
  obtain ⟨q, hq, hr⟩ := List.any_eq_true.mp hasked
  refine ⟨⟨p, hp, by simpa using hb, hkept⟩, ?_⟩
  cases q with
  | write api call =>
    simp only [decide_eq_true_eq] at hr
    exact ⟨call, hr.1 ▸ hq, hr.2, hkept⟩
  | _ => simp at hr

end Sample

end MatchTrader
