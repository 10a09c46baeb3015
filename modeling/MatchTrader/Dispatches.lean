import MatchTrader.StoreRules

/-! The dispatching programs take only steps: the sends, the removals of exposure, the
router, the reconciliation, and the opening of the journal. -/

namespace MatchTrader

open Durable

variable [Host] {R : Rules} {w v : World} {A : (q : Query) → Reply q → Prop} {i : String} {key : ActionKey}

omit [Host] in
theorem Landing.update {u : TradeUpdate} {at_ : String} (h : Landing w i key)
    (hu : w.faulted = true ∨ u.state ≠ some .resolved) :
    Landing { w with journal := w.journal.update i u at_ } i key := by
  obtain ⟨t, ht, hs⟩ := h.trade
  refine ⟨⟨u.apply at_ t, Journal.update_trade?_self _ _ ht, ?_⟩, by simpa using h.alone⟩
  rcases hu with hf | hu
  · exact Or.inl hf
  · refine hs.imp_right fun hs => ?_
    cases hc : u.state with
    | none => simpa [TradeUpdate.apply, hc] using hs
    | some s => simpa [TradeUpdate.apply, hc] using fun he => hu (hc.trans (congrArg some he))

omit [Host] in
theorem Flying.update {u : TradeUpdate} {at_ : String} (h : Flying w i key) (hu : u.state = none) :
    Flying { w with journal := w.journal.update i u at_ } i key := by
  obtain ⟨t, ht, hs⟩ := h.trade
  refine ⟨⟨u.apply at_ t, Journal.update_trade?_self _ _ ht, ?_⟩, by simpa using h.attempted, by simpa using h.alone, h.first⟩
  simpa [TradeUpdate.apply, hu] using hs

/-- A trade without a broker identity may be given its account, instrument and side. -/
theorem TradeChange.of_unplaced {t : TradeRow} {u : TradeUpdate} {at_ : String} (hI : Inv w)
    (ht : w.journal.trade? t.tradeId = some t) (hp : ¬ t.placed) (ho : u.brokerOrderId = none)
    (hb : u.brokerPositionId = none) (hs : u.state = none) : TradeChange w t (u.apply at_ t) where
  tradeId := rfl
  final := by
    simp only [TradeUpdate.apply, hs, Option.getD_none]
    exact Or.inr ⟨id, Or.inl⟩
  located h := by
    simp only [TradeUpdate.apply, TradeRow.placed, ho, hb, Option.getD_none] at h
    exact absurd h hp
  placed h := absurd h hp
  evidence := by
    rintro ⟨o, hm, hi⟩
    exact absurd hi (hI.unobserved ht (Or.inl hp) o hm)

theorem recordFailure_idle {e : Exc} (hI : Inv w) (hl : Landing w i key) :
    (recordFailure i key e).wp A (Local R) (fun r v => r.1 = .uncertain ∧ Idle v) (fun _ v => Idle v) w := by
  unfold recordFailure
  refine wp_then (M := fun _ v => Landing v i key) (F := fun _ _ => False) hI ?_ ?_ fun _ _ _ _ h => h.elim
  · obtain ⟨t, ht, _⟩ := hl.trade
    rw [Prog.wp_tryCatch]
    exact Store.wp_recordReason (.fault ht) (fun _ _ => hl) fun _ => ⟨hl.trade, hl.alone⟩
  · intro _ v _ hI hl
    obtain ⟨t, ht, hs⟩ := hl.trade
    refine wp_then (M := fun _ v => Landing v i key) (F := fun _ v => Idle v) hI ?_ ?_ fun _ _ _ _ h => h
    · refine Store.wp_update (fun u at_ hu => ?_) (Or.inl rfl) fun _ => hl.update (Or.inr (by simp))
      obtain rfl := Option.some.inj (ht.symm.trans hu)
      exact .of_update ⟨rfl, rfl, rfl⟩ (Or.inl ⟨rfl, rfl⟩)
        (hs.imp_right fun hs => Or.inr (Or.inr (Or.inl ⟨rfl, hs⟩)))
    · intro _ v _ hI hl
      obtain ⟨t, ht, hs⟩ := hl.trade
      rw [Prog.wp_bind]
      exact Store.wp_finish (by simp) (by simp [ht]) hl.alone (Or.inl rfl) fun _ hi _ => ⟨rfl, hi⟩

/-- Landing an accepted reply closes the attempt, or leaves it to be landed as a failure. -/
theorem landAccepted_idle {values : TradeUpdate} (hl : Landing w i key)
    (hu : ∀ t at_, w.journal.trade? i = some t → TradeChange w t (values.apply at_ t)) :
    Prog.wp A (Local R) (tryCatch (do
      Store.update i values
      Store.finish i key .accepted) fun e => throw (persistenceFailed e))
      (fun _ v => Idle v ∧ (v.journal.trade? i).isSome = true) (fun _ v => Landing v i key) w := by
  obtain ⟨t, ht, _⟩ := hl.trade
  rw [Prog.wp_tryCatch, Prog.wp_bind]
  refine Store.wp_update hu (.fault ht) fun at_ => ?_
  have ht' : (w.journal.update i values at_).trade? i = some (values.apply at_ t) :=
    Journal.update_trade?_self _ _ ht
  refine Store.wp_finish (by simp) (by simp [ht']) (by simpa using hl.alone) (.fault ht') fun j hi hj => ⟨hi, ?_⟩
  simp only [Journal.trade?, hj]
  exact Option.isSome_of_eq_some ht'

omit [Host] in
theorem quiet_validateInstrument (api : Api) (symbol : String) (lots : Decimal) (p : Priced) :
    (validateInstrument api symbol lots p).Quiet := by
  refine Prog.Quiet.tryCatch (Prog.Quiet.bind (Prog.Quiet.bind (quiet_instruments api) fun found => ?_) fun _ =>
    Prog.quiet_ofExcept _) fun e => ?_
  · split
    · exact Prog.quiet_pure _
    · exact Prog.quiet_throw _
  · split <;> exact Prog.quiet_throw _

namespace ManualSend

omit [Host] in
theorem acceptedValues_ok {event : CaptureEvent} {reply : Operation} {values : TradeUpdate}
    (h : acceptedValues event reply = .ok values) :
    values.Plain ∧ ∃ s, values.state = some s ∧ (s = .opened ∨ s = .pending) := by
  simp only [acceptedValues, bind_eq_ok, raiseIf_eq_ok] at h
  obtain ⟨_, _, _, _, h⟩ := h
  obtain rfl := Except.ok.inj h
  refine ⟨⟨rfl, rfl, rfl⟩, _, rfl, ?_⟩
  split
  · exact Or.inl rfl
  · exact Or.inr rfl

theorem live_idle {tw : TradeWrite} {p : Prepared} {request : OpenRequest} {api : Api} {t : TradeRow} (hI : Inv w)
    (hs : ∀ call, TradeSend R w tw call) (hk : tw.actionKey = .create)
    (ht : w.journal.trade? tw.tradeId = some t) (hp : ¬ t.placed) (hd : t.destination ≠ "") :
    (live (.trade tw) p request api tw.tradeId).wp A (Local R) (fun _ v => Idle v) (fun _ v => Idle v) w := by
  unfold live
  have hl := hk ▸ (hs (.openPosition request)).flying.aloft.landing
  refine wp_then (M := fun _ v => Idle v) (F := fun _ v => Idle v) hI ?_ ?_ fun _ _ _ _ h => h
  · refine wp_try (F := fun _ v => Landing v tw.tradeId .create) hI ?_ fun e v _ hI hl =>
      Prog.wp_consequence (recordFailure_idle hI hl) (fun _ _ h => h.2) fun _ _ h => h
    rw [Prog.wp_bind]
    refine wp_invoke (.trade (hs _)) (fun reply => ?_) fun _ => ⟨hl.trade, hl.alone⟩
    rw [Prog.wp_bind, Prog.wp_ofExcept]
    refine ⟨fun values hv => ?_, fun _ _ => ⟨hl.trade, hl.alone⟩⟩
    obtain ⟨hu, s, hc, _⟩ := acceptedValues_ok hv
    rw [Prog.wp_bind]
    refine Prog.wp_consequence (landAccepted_idle ⟨hl.trade, hl.alone⟩ fun u at_ hu' => ?_) (fun _ _ h => h.1)
      fun _ _ h => h
    obtain rfl := Option.some.inj (ht.symm.trans hu')
    obtain ⟨u, hu', hst⟩ := (hs (.openPosition request)).flying.trade
    obtain rfl := Option.some.inj (ht.symm.trans hu')
    exact .of_update hu (Or.inr ⟨hp, hd⟩) (hst.imp_right fun hst => Or.inl ⟨by simp [hst], by simp [hst]⟩)
  · rintro ⟨status, reason⟩ v _ hI hi
    refine Prog.Quiet.wp ((Prog.quiet_reads _).bind fun u => ?_) (fun _ => hi) fun _ => hi
    cases u with
    | none => exact Prog.quiet_throw _
    | some u => exact Prog.quiet_pure _

theorem prepare_ok {j : Journal} {controls : Controls} {tradeId : String} {volume : Json} {destination : String}
    {route : Option RouteConfig} {p : Prepared}
    (h : prepare j controls tradeId volume destination route = .ok p) :
    j.trade? tradeId = some p.trade ∧ p.trade.state = .observed ∧ ¬ p.trade.placed
      ∧ (p.trade.destination = "" ∨ p.trade.destination = destination) ∧ j.alreadySent tradeId = false
      ∧ j.candidateEvent tradeId = some p.event := by
  unfold prepare at h
  split at h
  · simp at h
  · next t ht =>
    simp only [bind_eq_ok, raiseIf_eq_ok] at h
    obtain ⟨_, _, verdict, _, _, hc, _, hb, _, hd, _, ha, h⟩ := h
    split at h
    · simp at h
    · next e he =>
      simp only [bind_eq_ok, raiseIf_eq_ok] at h
      obtain ⟨_, _, _, _, _, _, lots, _, _, _, h⟩ := h
      obtain rfl := Except.ok.inj h
      exact ⟨ht, by grind, hb, by grind, by simpa using ha, he⟩

omit [Host] in
theorem candidateEvent_linked {j : Journal} {tradeId : String} {e : CaptureEvent}
    (h : j.candidateEvent tradeId = some e) : j.Linked tradeId e.machine e.sourceLabel := by
  simp only [Journal.candidateEvent, Option.map_eq_some_iff] at h
  obtain ⟨row, hr, rfl⟩ := h
  have hm := List.mem_of_getLast? hr
  simp only [List.mem_filter, decide_eq_true_eq] at hm
  exact ⟨row, hm.1, hm.2.1, hm.2.2.1, hm.2.2.2, rfl, rfl⟩

theorem paper_idle {p : Prepared} {destination : String} (hi : Idle w)
    (hn : w.journal.alreadySent p.trade.tradeId = false) :
    (paper p destination).wp A (Local R) (fun _ v => Idle v) (fun _ v => Idle v) w := by
  unfold paper
  rw [Prog.wp_bind, wp_now]
  intro at_ _
  rw [Prog.wp_bind]
  refine Store.wp_change .fault (Or.inl rfl) (fun _ _ => hi) fun j hj => ?_
  split at hj
  · simp at hj
  · obtain rfl := Except.ok.inj hj
    exact ⟨.journal (.single (.paperSend hn)), hi⟩

/-- What a send needs of its caller: a live send names its account, and a bridge event whose
label was copied by the lane is not sent. -/
structure Asked (w : World) (entry : Entry) (api : Option Api) (destination tradeId : String) : Prop where
  account : api.isSome = true → destination ≠ ""
  copied : ∀ e, entry = .bridge → w.journal.candidateEvent tradeId = some e → e.sourceLabel ≠ "" →
    Automatic.copies (w.lanes .main) e.machine e.sourceLabel destination = []

theorem send_idle {entry : Entry} {controls : Controls} {tradeId : String} {volume : Json} {api : Option Api}
    {destination : String} {route : Option RouteConfig} (hI : Inv w) (hi : Idle w)
    (ha : Asked w entry api destination tradeId) :
    (send entry controls tradeId volume api destination route).wp A (Local R) (fun _ v => Idle v)
      (fun _ v => Idle v) w := by
  unfold send
  rw [Prog.wp_bind, wp_readsWorld, Prog.wp_bind, Prog.wp_ofExcept]
  refine ⟨fun p hp => ?_, fun _ _ => hi⟩
  obtain ⟨ht, hs, hb, hd, hn, hc⟩ := prepare_ok hp
  have hk : p.trade.tradeId = tradeId := (Rows.lookup_mem ht).2
  split
  · exact paper_idle hi (hk ▸ hn)
  · cases api with
    | none => exact hi
    | some api =>
      simp only
      rw [Prog.wp_bind]
      refine Prog.Quiet.wp (Prog.Quiet.tryCatch (quiet_validateInstrument api p.symbol p.lots p.event.priced) fun e => ?_) (fun grid => ?_)
        fun _ => hi
      · split <;> exact Prog.quiet_throw _
      refine wp_then (F := fun _ v => Idle v) hI
        (M := fun granted v => (granted = false → Idle v) ∧ (granted = true → Flying v tradeId .create
          ∧ (∃ t, v.journal.trade? tradeId = some t ∧ t.state = .dispatching ∧ ¬ t.placed)
          ∧ v.journal.papers = w.journal.papers ∧ v.journal.events = w.journal.events)) ?_ ?_ fun _ _ _ _ h => h
      · refine Store.wp_claim (fun _ _ => ?_) (Or.inl rfl) hi (by simpa using hi) fun at_ j hj => ?_
        · simp only [Journal.alreadySent, Bool.or_eq_false_iff] at hn
          exact hn.1
        · refine ⟨by simp, fun _ => ⟨.of_claim hI hi hj, ?_⟩⟩
          obtain ⟨_, _, rfl⟩ := Journal.claim_ok hj
          exact ⟨⟨p.trade.setState .dispatching, by simp [ht], rfl, hb⟩, rfl, rfl⟩
      · intro granted v hl hI hv
        rw [Prog.wp_bind, wp_raiseIf]
        cases granted with
        | false => exact ⟨fun _ => hv.1 rfl, by simp⟩
        | true =>
          refine ⟨by simp, fun _ => ?_⟩
          obtain ⟨hf, ⟨t, ht, hs, hb⟩, hpp, hev⟩ := hv.2 rfl
          refine wp_then (F := fun _ v => Idle v) hI
            (M := fun _ v => Flying v tradeId .create
              ∧ (∃ t, v.journal.trade? tradeId = some t ∧ ¬ t.placed ∧ t.destination = destination)
              ∧ v.journal.papers = w.journal.papers ∧ v.journal.events = w.journal.events) ?_ ?_ fun _ _ _ _ h => h
          · refine Store.wp_update (fun u at_ hu => ?_) (Or.inl rfl) fun at_ => ?_
            · obtain rfl := Option.some.inj (ht.symm.trans hu)
              exact .of_unplaced hI ((Rows.lookup_mem ht).2.symm ▸ ht) hb rfl rfl rfl
            · exact ⟨hf.update rfl, ⟨_, Journal.update_trade?_self _ _ ht, hb, rfl⟩, by simpa using hpp, by simpa using hev⟩
          · rintro _ u hl' hI ⟨hf, ⟨t, ht, hb, hd⟩, hpp, hev⟩
            refine live_idle hI (fun call => ?_) rfl ht hb (hd ▸ ha.account rfl)
            refine ⟨hf, fun _ => rfl, fun _ _ => ?_, fun he hx => ?_, fun _ => ?_⟩
            · simp only [Journal.alreadySent, Bool.or_eq_false_iff] at hn
              simpa only [Journal.paperSent, hpp] using hn.1
            · rw [hl'.lanes, hl.lanes]
              exact ha.copied p.event he hc hx
            · obtain ⟨row, hr, hh⟩ := candidateEvent_linked hc
              exact ⟨row, hev ▸ hr, hh⟩

end ManualSend

omit [Host] in
theorem mem_relatedPositions {t : TradeRow} {symbol side : String} {ps : List Position} {p : Position}
    (h : p ∈ relatedPositions t symbol side ps) :
    p ∈ ps ∧ t.placed ∧ (p.id ≠ "" ∨ t.brokerOrderId ≠ "") ∧ p.symbol = symbol ∧ p.side = side := by
  simp only [relatedPositions, List.mem_filter, decide_eq_true_eq] at h
  obtain ⟨hm, ⟨hb, hi⟩ | ⟨ho, _⟩, hs, hx⟩ := h
  · exact ⟨hm, Or.inr hb, Or.inl (hi ▸ hb), hs, hx⟩
  · exact ⟨hm, Or.inl ho, Or.inr ho, hs, hx⟩

omit [Host] in
/-- The position that a read relates to a trade may be noted as the trade's own. -/
theorem TradeChange.of_related {t : TradeRow} {u : TradeUpdate} {p : Position} {at_ : String} (hu : u.Plain)
    (ho : u.brokerOrderId = none) (hb : u.brokerPositionId = some p.id) (hp : t.placed)
    (hi : p.id ≠ "" ∨ t.brokerOrderId ≠ "") (hr : t.state ≠ .resolved)
    (hs : u.state = none ∨ t.state ≠ .uncertain) : TradeChange w t (u.apply at_ t) where
  tradeId := rfl
  final := by
    refine Or.inr ⟨fun h => absurd h hr, fun h => Or.inl ?_⟩
    rcases hs with hs | hs
    · simpa [TradeUpdate.apply, hs] using h
    · exact absurd h hs
  located _ := Or.inr ⟨hp, by simp [TradeUpdate.apply, hu.destination]⟩
  placed _ := by
    simp only [TradeUpdate.apply, TradeRow.placed, ho, hb, Option.getD_none, Option.getD_some]
    exact hi.symm
  evidence _ := by simp [TradeUpdate.apply, hu.destination, hu.symbol, hu.side]

omit [Host] in
/-- The positions related to a trade were reported by the read at hand. -/
theorem reported_positions {t : TradeRow} {account : String} {ps : List Position} {p : Position}
    (h : p ∈ relatedPositions t t.symbol t.side ps) (hv : .readPositions account ps ∈ w.trace) :
    t.placed ∧ p.symbol = t.symbol ∧ p.side = t.side
      ∧ Reported w.trace account p.id p.symbol p.side p.openTime p.openTimeMillis := by
  obtain ⟨hm, hp, _, hs, hx⟩ := mem_relatedPositions h
  exact ⟨hp, hs, hx, Or.inl ⟨_, hv, p, hm, rfl, rfl, rfl, rfl, rfl⟩⟩

namespace Unwind

structure Plan.Sound (p : Plan) : Prop where
  opens : p.call.opens = false
  plain : p.values.Plain
  brokerOrderId : p.values.brokerOrderId = none
  brokerPositionId : p.values.brokerPositionId = none

omit [Host] in
theorem quiet_pendingOrderRequest (api : Api) (orderId instrument side : String) (type : Option String) :
    (pendingOrderRequest api orderId instrument side type).Quiet := by
  refine (quiet_activeOrders api).bind fun found => ?_
  split
  · exact quiet_raiseIf.bind fun _ => Prog.quiet_pure _
  · exact Prog.quiet_throw _

theorem planCancel_sound {t : TradeRow} {api : Api} {label because : String} :
    (planCancel t api label because).wp A (Local R) (fun p v => v = w ∧ p.Sound) (fun _ v => v = w) w := by
  unfold planCancel
  rw [Prog.wp_bind, wp_readsWorld]
  simp only
  rw [Prog.wp_bind]
  refine Prog.Quiet.wp (Prog.Quiet.tryCatch (quiet_pendingOrderRequest _ _ _ _ _) fun e => ?_) (fun request => ?_)
    fun _ => rfl
  · split <;> exact Prog.quiet_throw _
  · rw [Prog.wp_bind, wp_now]
    intro at_ _
    refine ⟨rfl, rfl, ?_, ?_, ?_⟩ <;> dsimp only <;> split
    all_goals first | rfl | exact ⟨rfl, rfl, rfl⟩

omit [Host] in
theorem quiet_guardAgain (identity : String) (refusal : String → Exc) : (guardAgain identity refusal).Quiet := by
  refine (Prog.quiet_reads _).bind fun journal => ?_
  split
  · exact Prog.quiet_pure _
  · exact Prog.quiet_throw _

theorem observeRelated_idle {t : TradeRow} {destination : String} {ps : List Position} (hi : Idle w)
    (ht : w.journal.trade? t.tradeId = some t) (hd : t.destination = destination)
    (hv : .readPositions destination (leavesAll ps) ∈ w.trace) :
    (observeRelated t destination (relatedPositions t t.symbol t.side (leavesAll ps))).wp A (Local R)
      (fun _ v => Idle v ∧ v.journal.trade? t.tradeId = some t) (fun _ v => Idle v) w := by
  unfold observeRelated
  split
  · exact ⟨hi, ht⟩
  · rw [Prog.wp_bind]
    refine Store.wp_observePositions ht hd (fun q hq => ?_) (Or.inl rfl) fun j hj => ?_
    · exact reported_positions hq hv
    · have hi' : Idle { w with journal := j } := hi.imp_right fun h a ha => h a (hj.attempts ▸ ha)
      exact Prog.Quiet.wp (quiet_guardAgain _ _) (fun _ => ⟨hi', (hj.trade? _).trans ht⟩) fun _ => hi'

theorem noteRelated_idle {t : TradeRow} {p : Position} (hi : Idle w) (ht : w.journal.trade? t.tradeId = some t)
    (hp : t.placed) (hn : p.id ≠ "" ∨ t.brokerOrderId ≠ "") (hr : t.state ≠ .resolved) :
    (noteRelated t p).wp A (Local R) (fun _ v => Idle v) (fun _ v => Idle v) w := by
  unfold noteRelated
  split
  · refine Store.wp_update (fun u at_ hu => ?_) (Or.inl rfl) fun at_ => by simpa [Idle] using hi
    obtain rfl := Option.some.inj (ht.symm.trans hu)
    exact .of_related ⟨rfl, rfl, rfl⟩ rfl rfl hp hn hr (Or.inl rfl)
  · exact hi

theorem planClose_sound {t : TradeRow} {api : Api} {destination label : String} (hI : Inv w) (hi : Idle w)
    (ht : w.journal.trade? t.tradeId = some t) (hd : t.destination = destination) (hr : t.state ≠ .resolved) :
    (planClose t api destination label).wp A (Local R) (fun p v => Idle v ∧ p.Sound) (fun _ v => Idle v) w := by
  unfold planClose
  rw [Prog.wp_bind]
  refine Prog.Quiet.wp (quiet_guardAgain _ _) (fun _ => ?_) fun _ => hi
  refine wp_then (F := fun _ v => Idle v) hI (M := fun ps v => v = w.said [.readPositions destination (leavesAll ps)])
    (wp_openPositions (fun _ => hi) fun ps => rfl) ?_ fun _ _ _ _ h => h
  rintro ps _ _ hI rfl
  have hv : .readPositions destination (leavesAll ps) ∈ (w.said [.readPositions destination (leavesAll ps)]).trace :=
    List.mem_append_right _ (List.mem_singleton_self _)
  refine wp_then hI (observeRelated_idle hi ht hd hv) ?_ fun _ _ _ _ h => h
  rintro _ v _ hI ⟨hi, ht⟩
  split
  · next p hp =>
    obtain ⟨_, hp, hn, _⟩ := mem_relatedPositions (hp ▸ List.mem_singleton_self p)
    refine wp_then hI (noteRelated_idle hi ht hp hn hr) ?_ fun _ _ _ _ h => h
    intro _ v _ _ hi
    rw [Prog.wp_bind, wp_now]
    exact fun at_ _ => ⟨hi, rfl, ⟨rfl, rfl, rfl⟩, rfl, rfl⟩
  · split
    · exact Prog.wp_consequence planCancel_sound (fun p u h => ⟨h.1 ▸ hi, h.2⟩) fun _ u h => h ▸ hi
    · exact hi
  · exact hi

theorem check_ok {j : Journal} {t : TradeRow} {s : Ending} {api : Option Api} {destination : String} {verified : Bool}
    {action : Action} {a : Api} (h : check j t s api destination verified action = .ok a) :
    t.placed ∧ t.destination = destination ∧ t.state ≠ .uncertain ∧ t.state ≠ .dispatching ∧ t.state ≠ .resolved
      ∧ verified = true ∧ api = some a ∧ a.accountId = destination := by
  simp only [check, bind_eq_ok, raiseIf_eq_ok] at h
  obtain ⟨_, _, _, hp, _, hd, _, hu, _, hr, h⟩ := h
  split at h
  · simp at h
  · next b hb =>
    simp only [bind_eq_ok, raiseIf_eq_ok] at h
    obtain ⟨_, ha, _, _, h⟩ := h
    obtain rfl := Except.ok.inj h
    simp only [not_or] at hu
    split at hb
    · next hv => exact ⟨by grind [TradeRow.placed], not_not.mp hd, hu.1, hu.2, hr, hv, hb, not_not.mp ha⟩
    · simp at hb

/-- The state of a trade whose exposure may be removed. -/
def Removable (t : TradeRow) : Prop := t.state ≠ .uncertain ∧ t.state ≠ .dispatching ∧ t.state ≠ .resolved

theorem prepare_sound {t : TradeRow} {s : Ending} {api : Option Api} {destination : String} {verified : Bool}
    {action : Action} (hI : Inv w) (hi : Idle w) (ht : w.journal.trade? t.tradeId = some t) :
    (prepare t s api destination verified action).wp A (Local R) (fun r v => Idle v ∧ r.2.Sound ∧ Removable t)
      (fun _ v => Idle v) w := by
  unfold prepare
  rw [Prog.wp_bind, wp_readsWorld, Prog.wp_bind, Prog.wp_ofExcept]
  refine ⟨fun a ha => ?_, fun _ _ => hi⟩
  obtain ⟨_, hd, hu, hn, hr, _⟩ := check_ok ha
  split
  · rw [Prog.wp_bind, wp_raiseIf]
    refine ⟨fun _ => hi, fun _ => ?_⟩
    rw [Prog.wp_bind]
    exact Prog.wp_consequence planCancel_sound (fun p u h => ⟨h.1 ▸ hi, h.2, hu, hn, hr⟩) fun _ u h => h ▸ hi
  · rw [Prog.wp_bind]
    exact Prog.wp_consequence (planClose_sound hI hi ht hd hr) (fun p u h => ⟨h.1, h.2, hu, hn, hr⟩) fun _ u h => h

/-- An outcome that says what became of the signal. -/
def Settled (o : Outcome) : Prop := o.decision ≠ .captured ∧ o.decision ≠ .dispatching

theorem fail_idle {call : Call} {correlation : String} {response : Option Operation} {exc : Exc} (hI : Inv w)
    (hl : Landing w i key) :
    (fail i key call correlation response exc).wp A (Local R) (fun o v => Settled o ∧ Idle v) (fun _ v => Idle v) w := by
  unfold fail
  rw [Prog.wp_bind]
  refine Prog.wp_consequence (recordFailure_idle hI hl) (fun r v h => ?_) fun _ _ h => h
  obtain ⟨decision, reason⟩ := r
  obtain ⟨rfl, hi⟩ := h
  exact ⟨⟨by simp, by simp⟩, hi⟩

theorem release_idle {t : TradeRow} {call : Call} {action : Action} {correlation : String} {exc : Exc}
    (hf : Aloft w t.tradeId key) (hr : Removable t) :
    (release t key call action correlation exc).wp A (Local R) (fun o v => Settled o ∧ Idle v)
      (fun _ v => Landing v t.tradeId key) w := by
  obtain ⟨u, hu, hs⟩ := hf.trade
  unfold release
  rw [Prog.wp_bind]
  refine Store.wp_update (fun q at_ hq => ?_) (.fault hu) fun at_ => ?_
  · obtain rfl := Option.some.inj (hu.symm.trans hq)
    exact .of_update ⟨rfl, rfl, rfl⟩ (Or.inl ⟨rfl, rfl⟩) (hs.imp_right fun hs => Or.inl ⟨by simp [hs], by simp [hs]⟩)
  have hu' := Journal.update_trade?_self { state := some t.state } at_ hu
  rw [Prog.wp_bind]
  refine Store.wp_finish (by simp) (by simp [hu']) (by simpa using hf.alone) (.fault hu') fun j hi hj => ?_
  have hj' : j.trade? t.tradeId = some (({ state := some t.state } : TradeUpdate).apply at_ u) := by
    simpa only [Journal.trade?, hj] using hu'
  rw [Prog.wp_bind]
  refine Store.wp_recordReason (.fault hj') (fun _ _ => ⟨⟨_, hj', Or.inr hr.2.2⟩, ?_⟩) fun _ => ?_
  · exact hi.imp_right fun h a ha hd => absurd hd (h a ha)
  · exact ⟨⟨by simp, by simp⟩, hi⟩

omit [Host] in
theorem blank_append {a b : String} {c : Char} {cs : List Char} (ha : a.toList = c :: cs) (hc : isSpace c = false) :
    blank (a ++ b) = false := by
  simp [blank, String.toList_append, ha, hc]

/-- After the write: an outcome and an idle world, or a reply that is still to be recorded. -/
def Concluded (i : String) (key : ActionKey) : Except Outcome Operation → World → Prop
  | .error o, w => Settled o ∧ Idle w
  | .ok _, w => Aloft w i key

theorem perform_idle {tw : TradeWrite} {t : TradeRow} {api : Api} {plan : Plan} {action : Action} {correlation : String}
    (hI : Inv w) (hs : TradeSend R w tw plan.call) (hi : tw.tradeId = t.tradeId) (hk : tw.actionKey = key)
    (hp : plan.Sound) (hr : Removable t) :
    (perform (.trade tw) t key api plan action correlation).wp A (Local R) (fun o v => Settled o ∧ Idle v)
      (fun _ v => Idle v) w := by
  have hf : Aloft w t.tradeId key := hi ▸ hk ▸ hs.flying.aloft
  unfold perform
  refine wp_then (F := fun _ v => Idle v) hI
    (M := Concluded t.tradeId key) ?_ ?_ fun _ _ _ _ h => h
  · refine wp_try (F := fun _ v => Aloft v t.tradeId key) hI ?_ fun e v _ hI hf => ?_
    · rw [Prog.wp_map]
      exact wp_invoke (.trade hs) (fun _ => ⟨hf.trade, hf.alone⟩) fun _ => ⟨hf.trade, hf.alone⟩
    · rw [Prog.wp_map]
      split
      · exact wp_try hI (release_idle hf hr) fun e v _ hI hl => fail_idle hI hl
      · exact fail_idle hI hf.landing
  · intro r v _ hI hf
    cases r with
    | error o => exact hf
    | ok reply =>
      refine wp_try (F := fun _ v => Landing v t.tradeId key) hI ?_ fun e v _ hI hl => fail_idle hI hl
      rw [Prog.wp_bind, wp_raiseIf]
      refine ⟨fun _ => hf.landing, fun _ => ?_⟩
      rw [Prog.wp_bind, Prog.wp_tryCatch, Prog.wp_bind]
      obtain ⟨u, hu, hst⟩ := hf.trade
      refine Store.wp_update (fun q at_ hq => ?_) (.fault hu) fun at_ => ?_
      · obtain rfl := Option.some.inj (hu.symm.trans hq)
        exact .of_update hp.plain (Or.inl ⟨hp.brokerOrderId, hp.brokerPositionId⟩)
          (hst.imp_right fun hs => Or.inl ⟨by simp [hs], by simp [hs]⟩)
      have hu' := Journal.update_trade?_self plan.values at_ hu
      rw [Prog.wp_bind]
      refine Store.wp_finish (by simp) (by simp [hu']) (by simpa using hf.alone) (.fault hu') fun j hi hj => ?_
      have hj' : j.trade? t.tradeId = some (plan.values.apply at_ u) := by simpa only [Journal.trade?, hj] using hu'
      refine Store.wp_recordReason (.fault hj') (fun _ hb => ?_) fun _ => ⟨⟨by simp, by simp⟩, hi⟩
      rcases hb with hb | hb | hb
      · exact absurd (show blank "broker" = true from hb) (by decide)
      · exact absurd (show blank "OK" = true from hb) (by decide)
      · simp only [String.append_assoc] at hb
        rw [blank_append (c := 'b') rfl (by decide)] at hb
        simp at hb

theorem refuse_idle {code correlation : String} (hi : Idle w) :
    (refuse i key code correlation).wp A (Local R) (fun _ v => Idle v) (fun _ v => Idle v) w :=
  Store.wp_recordReason (Or.inl rfl) (fun _ _ => hi) fun _ => hi

omit [Host] in
theorem trade?_of_mem_linkedTrades {j : Journal} {machine label : String} {t : TradeRow}
    (h : t ∈ j.linkedTrades machine label) : j.trade? t.tradeId = some t := by
  unfold Journal.linkedTrades at h
  split at h
  · simp at h
  · obtain ⟨i, _, hi⟩ := List.mem_filterMap.mp h
    exact (Rows.lookup_mem hi).2 ▸ hi

variable {s : Ending} {destination : String} {verified : Bool} {t : TradeRow}

theorem preflight_idle {api : Option Api} (hI : Inv w) (hi : Idle w) (ht : w.journal.trade? t.tradeId = some t) :
    (preflight t s api destination verified).wp A (Local R)
      (fun r v => Idle v ∧ match r with
        | .error o => Settled o
        | .ok (_, plan) => plan.Sound ∧ Removable t) (fun _ v => Idle v) w := by
  refine wp_try (F := fun _ v => Idle v) hI ?_ fun e v _ hI hi => ?_
  · rw [Prog.wp_map]
    exact prepare_sound hI hi ht
  · split
    · rw [Prog.wp_bind]
      exact Prog.wp_consequence (refuse_idle hi) (fun _ _ h => ⟨h, by simp, by simp⟩) fun _ _ h => h
    · rw [Prog.wp_bind]
      exact Store.wp_recordReason (Or.inl rfl) (fun _ _ => hi) fun _ => ⟨hi, by simp, by simp⟩

theorem commit_idle {api : Api} {plan : Plan} (hI : Inv w) (hi : Idle w) (hp : plan.Sound) (hr : Removable t) :
    (commit t s api plan destination).wp A (Local R) (fun o v => Settled o ∧ Idle v) (fun _ v => Idle v) w := by
  unfold commit
  refine wp_then (F := fun _ v => Idle v) hI
    (M := fun granted v => if granted then Flying v t.tradeId (keyOf s) else Idle v) ?_ ?_ fun _ _ _ _ h => h
  · refine Store.wp_claim (fun _ hk => by simp [keyOf] at hk) (Or.inl rfl) hi (by simpa using hi) fun at_ j hj => ?_
    simpa using Flying.of_claim hI hi hj
  · intro granted v _ hI hf
    cases granted with
    | false =>
      simp only [Bool.not_false, if_true]
      rw [Prog.wp_bind]
      exact Prog.wp_consequence (refuse_idle (by simpa using hf)) (fun _ _ h => ⟨⟨by simp, by simp⟩, h⟩)
        fun _ _ h => h
    | true =>
      simp only [if_true] at hf
      simp only [Bool.not_true, Bool.false_eq_true, if_false]
      refine wp_then (M := fun _ v => Flying v t.tradeId (keyOf s)) (F := fun _ v => Idle v) hI ?_ ?_
        fun _ _ _ _ h => h
      · refine Store.wp_update (fun u at_ hu => ?_) (Or.inl rfl) fun at_ => hf.update rfl
        exact .of_update ⟨rfl, rfl, rfl⟩ (Or.inl ⟨rfl, rfl⟩) (Or.inr (Or.inr (Or.inl rfl)))
      · intro _ v _ hI hf
        refine perform_idle hI ⟨hf, fun ho => ?_, fun _ hk => ?_, fun he => ?_, fun he => ?_⟩ rfl rfl hp hr
        · simp [hp.opens] at ho
        · simp [keyOf] at hk
        · simp at he
        · simp at he

theorem apply_idle {api : Option Api} {tradeId : Option String} (hI : Inv w) (hi : Idle w) :
    (apply s api destination verified tradeId).wp A (Local R) (fun r v => (∀ o ∈ r, Settled o) ∧ Idle v)
      (fun _ v => Idle v) w := by
  unfold apply
  rw [Prog.wp_bind, wp_readsWorld]
  split
  · exact ⟨by simp, hi⟩
  · next t hts =>
    have ht : w.journal.trade? t.tradeId = some t := by
      have hm := hts ▸ List.mem_singleton_self t
      split at hm
      · have hh := Option.mem_toList.mp hm
        exact (Rows.lookup_mem hh).2 ▸ hh
      · exact trade?_of_mem_linkedTrades hm
    rw [Prog.wp_bind]
    refine Prog.wp_consequence (P := fun o v => Settled o ∧ Idle v) (E := fun _ v => Idle v) ?_
      (fun o _ h => ⟨fun _ ho => Option.some.inj ho ▸ h.1, h.2⟩) fun _ _ h => h
    refine wp_then hI (preflight_idle hI hi ht) (fun r v _ hI hr => ?_) fun _ _ _ _ h => h
    cases r with
    | error o => exact ⟨hr.2, hr.1⟩
    | ok r => exact commit_idle hI hr.1 hr.2.1 hr.2.2
  · rw [Prog.wp_bind]
    refine Prog.wp_consequence (Prog.wp_forM (I := fun _ v => Idle v) _ (fun t _ v hi => refuse_idle hi) hi)
      (fun _ v hi => ⟨?_, hi⟩) fun _ _ h => h
    rintro o ⟨⟩
    exact ⟨by simp, by simp⟩

end Unwind

namespace Reconcile

variable {destination : String}

/-- The trades are distinct, and the journal still has them as they were read. -/
structure Current (w : World) (ts : List TradeRow) : Prop where
  row : ∀ t ∈ ts, w.journal.trade? t.tradeId = some t
  distinct : (ts.map TradeRow.tradeId).Nodup

omit [Host] in
theorem Current.mono {ts us : List TradeRow} (h : Current w ts) (hs : us.Sublist ts) : Current w us where
  row t ht := h.row t (hs.subset ht)
  distinct := h.distinct.sublist (hs.map _)

omit [Host] in
theorem Current.of_trades {ts : List TradeRow} (h : Current w ts) (ht : v.journal.trades = w.journal.trades) :
    Current v ts where
  row t hm := by
    have := h.row t hm
    simpa only [Journal.trade?, ht] using this
  distinct := h.distinct

omit [Host] in
theorem Current.update {t : TradeRow} {ts : List TradeRow} {u : TradeUpdate} {at_ : String} (h : Current w (t :: ts)) :
    Current { w with journal := w.journal.update t.tradeId u at_ } ts where
  row s hs := by
    have hne : s.tradeId ≠ t.tradeId := fun he =>
      (List.nodup_cons.mp h.distinct).1 (he ▸ List.mem_map_of_mem hs)
    simpa [hne] using h.row s (List.mem_cons_of_mem _ hs)
  distinct := (List.nodup_cons.mp h.distinct).2

theorem visit_idle {ps : List Position} {pending : List Order} {t : TradeRow} {ts : List TradeRow} (hI : Inv w)
    (hi : Idle w) (hc : Current w (t :: ts)) (hd : t.destination = destination) (hr : t.state ≠ .resolved)
    (hv : .readPositions destination ps ∈ w.trace) :
    (visit destination ps pending t).wp A (Local R)
      (fun missing v => Idle v ∧ Current v (if missing then t :: ts else ts) ∧ (missing = true → t.placed))
      (fun _ v => Idle v) w := by
  have ht := hc.row t List.mem_cons_self
  unfold visit
  refine wp_then (F := fun _ v => Idle v) hI (M := fun _ v => Idle v ∧ Current v (t :: ts)) ?_ ?_ fun _ _ _ _ h => h
  · refine Store.wp_observePositions ht hd (fun p hp => reported_positions hp hv) (Or.inl rfl) fun j hj => ?_
    exact ⟨hi.imp_right fun h a ha => h a (hj.attempts ▸ ha), hc.of_trades hj.trades⟩
  · rintro _ v _ _ ⟨hi, hc⟩
    split
    · next p hp =>
      obtain ⟨_, hp, hn, _⟩ := mem_relatedPositions (hp ▸ List.mem_singleton_self p)
      rw [Prog.wp_bind]
      refine Store.wp_update (fun u at_ hu => ?_) (Or.inl rfl) fun at_ => ⟨by simpa [Idle] using hi, hc.update, ?_⟩
      · obtain rfl := Option.some.inj ((hc.row t List.mem_cons_self).symm.trans hu)
        refine .of_related ⟨rfl, rfl, rfl⟩ rfl rfl hp hn hr ?_
        by_cases hs : t.state = .uncertain
        · exact Or.inl (by simp [hs])
        · exact Or.inr hs
      · simp
    · refine ⟨hi, ?_, fun hm => ?_⟩
      · split
        · exact hc
        · exact hc.mono (List.sublist_cons_self _ _)
      · simp only [Bool.and_eq_true, decide_eq_true_eq] at hm
        exact Or.inr hm.2

omit [Host] in
theorem Current.perm {ts us : List TradeRow} (h : Current w ts) (hp : ts.Perm us) : Current w us where
  row t ht := h.row t (hp.mem_iff.mpr ht)
  distinct := (hp.map _).nodup_iff.mp h.distinct

theorem collect_idle {ps : List Position} {pending : List Order} {ts d : List TradeRow} (hI : Inv w) (hi : Idle w)
    (hc : Current w (ts ++ d)) (ht : ∀ t ∈ ts, t.destination = destination ∧ t.state ≠ .resolved)
    (hv : .readPositions destination ps ∈ w.trace) :
    (collect destination ps pending ts).wp A (Local R)
      (fun ms v => Idle v ∧ Current v (ms ++ d) ∧ ms ⊆ ts ∧ ∀ m ∈ ms, m.placed) (fun _ v => Idle v) w := by
  induction ts generalizing w d with
  | nil => exact ⟨hi, hc, by simp, by simp⟩
  | cons t ts ih =>
    obtain ⟨hd, hr⟩ := ht t List.mem_cons_self
    refine wp_then hI (visit_idle hI hi hc hd hr hv) ?_ fun _ _ _ _ h => h
    rintro missing v hl hI ⟨hi, hc, hp⟩
    have hts := fun s hs => ht s (List.mem_cons_of_mem _ hs)
    rw [Prog.wp_bind]
    cases missing with
    | false =>
      refine Prog.wp_consequence (ih hI hi hc hts (hl.steps.trace_subset hv)) ?_ fun _ _ h => h
      rintro ms u ⟨hi, hc, hs, hm⟩
      exact ⟨hi, hc, List.subset_cons_of_subset _ hs, hm⟩
    | true =>
      have hc' : Current v (ts ++ t :: d) := hc.perm List.perm_middle.symm
      refine Prog.wp_consequence (ih hI hi hc' hts (hl.steps.trace_subset hv)) ?_ fun _ _ h => h
      rintro ms u ⟨hi, hc, hs, hm⟩
      refine ⟨hi, hc.perm List.perm_middle, List.cons_subset_cons _ hs, fun m hmem => ?_⟩
      rcases List.mem_cons.mp hmem with rfl | hmem
      · exact hp rfl
      · exact hm m hmem

theorem settle_idle {at_ : Instant} {history : List ClosedTrade} {t : TradeRow} {ts : List TradeRow} (hI : Inv w)
    (hi : Idle w) (hc : Current w (t :: ts)) (hd : t.destination = destination) (hp : t.placed)
    (hv : .readClosed destination history ∈ w.trace) :
    (settle destination at_ history t).wp A (Local R) (fun _ v => Idle v ∧ Current v ts) (fun _ v => Idle v) w := by
  have ht := hc.row t List.mem_cons_self
  have hc' := hc.mono (List.sublist_cons_self _ _)
  unfold settle
  rw [Prog.wp_bind, wp_readsWorld]
  split
  · exact ⟨hi, hc'⟩
  · simp only
    split
    · refine wp_then (F := fun _ v => Idle v) hI (M := fun _ v => Idle v ∧ Current v (t :: ts)) ?_ ?_ fun _ _ _ _ h => h
      · refine Store.wp_observeClosed ht hd (fun c hm => ?_) (Or.inl rfl) fun j hj => ?_
        · simp only [List.mem_filter, decide_eq_true_eq] at hm
          exact ⟨hp, hm.2.2.1, hm.2.2.2, history, hv, hm.1⟩
        · exact ⟨hi.imp_right fun h a ha => h a (hj.attempts ▸ ha), hc.of_trades hj.trades⟩
      · rintro _ v _ _ ⟨hi, hc⟩
        rw [Prog.wp_bind]
        refine Prog.Quiet.wp (Prog.quiet_ofExcept _) (fun total => ?_) fun _ => hi
        rw [Prog.wp_bind]
        refine Prog.Quiet.wp (Prog.quiet_ofExcept _) (fun lots => ?_) fun _ => hi
        split
        · refine Store.wp_update (fun u at_ _ => ?_) (Or.inl rfl) fun at_ => ⟨by simpa [Idle] using hi, hc.update⟩
          exact .of_update ⟨rfl, rfl, rfl⟩ (Or.inl ⟨rfl, rfl⟩) (Or.inr (Or.inr (Or.inr (Or.inr rfl))))
        · exact ⟨hi, hc.mono (List.sublist_cons_self _ _)⟩
    · exact ⟨hi, hc'⟩

theorem reconcile_idle {api : Api} {positions : List Position} (hI : Inv w) (hi : Idle w)
    (hv : .readPositions destination (leavesAll positions) ∈ w.trace) :
    (reconcile api destination positions).wp A (Local R) (fun _ v => Idle v) (fun _ v => Idle v) w := by
  unfold reconcile
  rw [Prog.wp_bind, wp_readsWorld]
  simp only
  split
  · rw [Prog.wp_bind]
    refine Prog.Quiet.wp (quiet_activeOrders _) (fun pending => ?_) fun _ => hi
    have hc : Current w (w.journal.trades.filter fun t => t.destination = destination ∧ t.state ≠ .observed
        ∧ t.state ≠ .resolved) := by
      refine Current.mono ⟨fun t ht => ?_, hI.tradeIds⟩ List.filter_sublist
      exact Rows.lookup_of_mem hI.tradeIds ht
    refine wp_then hI (collect_idle (d := []) hI hi (by simpa using hc) (fun t ht => ?_) hv) ?_ fun _ _ _ _ h => h
    · simp only [List.mem_filter, decide_eq_true_eq] at ht
      exact ⟨ht.2.1, ht.2.2.2⟩
    · rintro ms v _ hI ⟨hi, hc, hs, hm⟩
      split
      · rw [Prog.wp_bind, wp_now]
        intro at_ _
        refine wp_then (F := fun _ v => Idle v) hI
          (M := fun cs u => u = v.said [.readClosed destination cs])
          (wp_closedPositions (fun _ => hi) fun cs => rfl) ?_ fun _ _ _ _ h => h
        rintro cs _ _ hI rfl
        refine Prog.wp_consequence (wp_each (F := fun _ v => Idle v)
          (I := fun rest u => Idle u ∧ Current u rest ∧ rest ⊆ ms ∧ .readClosed destination cs ∈ u.trace) ms hI
          (fun t rest u _ hI h => ?_) ⟨hi, ?_, List.Subset.refl _, ?_⟩) (fun _ _ h => h.1) fun _ _ h => h
        · obtain ⟨hi, hc, hr, hv⟩ := h
          have hmem := hr List.mem_cons_self
          have ht := (List.mem_filter.mp (hs hmem)).2
          simp only [decide_eq_true_eq] at ht
          refine Prog.wp_consequence (wp_framed hI (settle_idle hI hi hc ht.1 (hm t hmem) hv)) (fun _ u h => ?_)
            fun _ _ h => h.2
          exact ⟨h.2.1, h.2.2, fun s hs => hr (List.mem_cons_of_mem _ hs), h.1.1.steps.trace_subset hv⟩
        · simpa using hc.of_trades (v := v.said [.readClosed destination cs]) rfl
        · exact List.mem_append_right _ (List.mem_singleton_self _)
      · exact hi
  · exact hi

theorem pass_idle {api : Api} (hI : Inv w) (hi : Idle w) :
    (pass api destination).wp A (Local R) (fun _ v => Idle v) (fun _ v => Idle v) w := by
  unfold pass
  refine wp_then (F := fun _ v => Idle v) hI
    (M := fun ps v => v = w.said [.readPositions destination (leavesAll ps)])
    (wp_openPositions (fun _ => hi) fun ps => rfl) ?_ fun _ _ _ _ h => h
  rintro ps _ _ hI rfl
  exact reconcile_idle hI hi (List.mem_append_right _ (List.mem_singleton_self _))

end Reconcile

omit [Host] in
theorem RouteConfig.destinationAccount_ne (r : RouteConfig) : r.destinationAccount ≠ "" := by
  intro h
  simpa [h] using r.destinationAccount_pos

namespace Router

variable {e : CaptureEvent} {t : TradeRow} {symbol destination : String} {lots : Decimal} {p : Priced} {api : Api}

/-- A change acts on a placed trade, under the account, instrument and side that it has. -/
structure Change (w : World) (t : TradeRow) (symbol side : String) (call : Call) (s : Settled) : Prop where
  opens : call.opens = false
  settled : s ≠ .create
  symbol : t.symbol = symbol
  side : t.side = side
  row : ∃ u, w.journal.trade? t.tradeId = some u ∧ u.placed ∧ u.symbol = t.symbol ∧ u.side = t.side
    ∧ u.destination = t.destination

omit [Host] in
theorem Change.of_row {side : String} {call : Call} {s : Settled} (h : Change w t symbol side call s)
    (hj : ∀ u, w.journal.trade? t.tradeId = some u → ∃ q, v.journal.trade? t.tradeId = some q
      ∧ (u.placed → q.placed) ∧ q.symbol = u.symbol ∧ q.side = u.side ∧ q.destination = u.destination) :
    Change v t symbol side call s where
  opens := h.opens
  settled := h.settled
  symbol := h.symbol
  side := h.side
  row := by
    obtain ⟨u, hu, hp, hs, hx, hd⟩ := h.row
    obtain ⟨q, hq, hp', hs', hx', hd'⟩ := hj u hu
    exact ⟨q, hq, hp' hp, hs'.trans hs, hx'.trans hx, hd'.trans hd⟩

omit [Host] in
theorem planPosition_change {position : Position} {orderLeft : Bool} {r : Call × Settled}
    (h : planPosition e p symbol lots position orderLeft = .ok r) : r.1.opens = false ∧ r.2 ≠ .create := by
  unfold planPosition at h
  split at h
  · simp only [bind_eq_ok, raiseIf_eq_ok] at h
    obtain ⟨_, _, h⟩ := h
    obtain rfl := Except.ok.inj h
    exact ⟨by dsimp only; split <;> rfl, by simp⟩
  · simp only [bind_eq_ok, raiseIf_eq_ok] at h
    obtain ⟨_, _, h⟩ := h
    obtain rfl := Except.ok.inj h
    exact ⟨rfl, by simp⟩

theorem noteRelated_row {ps qs : List Position} {side : String} (hi : Idle w) (ht : w.journal.trade? t.tradeId = some t)
    (hq : qs = relatedPositions t symbol side ps) (hp : t.placed) (hr : t.state ≠ .resolved) :
    (noteRelated t.tradeId qs).wp A (Local R)
      (fun _ v => Idle v ∧ ∃ u, v.journal.trade? t.tradeId = some u ∧ u.placed ∧ u.symbol = t.symbol
        ∧ u.side = t.side ∧ u.destination = t.destination) (fun _ v => Idle v) w := by
  unfold noteRelated
  split
  · next p =>
    obtain ⟨_, _, hn, _⟩ := mem_relatedPositions (hq ▸ List.mem_singleton_self p)
    have hc {w : World} (at_ : String) : TradeChange w t (({ brokerPositionId := some p.id } : TradeUpdate).apply at_ t) :=
      .of_related ⟨rfl, rfl, rfl⟩ rfl rfl hp hn hr (Or.inl rfl)
    refine Store.wp_update (fun u at_ hu => ?_) (Or.inl rfl) fun at_ => ⟨by simpa [Idle] using hi, ?_⟩
    · obtain rfl := Option.some.inj (ht.symm.trans hu)
      exact hc at_
    · exact ⟨_, Journal.update_trade?_self _ at_ ht, (hc (w := w) at_).placed hp, rfl, rfl, rfl⟩
  · exact ⟨hi, t, ht, hp, rfl, rfl, rfl⟩

theorem planChange_change (hI : Inv w) (hi : Idle w) (ht : w.journal.trade? t.tradeId = some t) (hp : t.placed)
    (hd : t.destination = destination) (hr : t.state ≠ .resolved) :
    (planChange e p t symbol destination lots api).wp A (Local R)
      (fun r v => Idle v ∧ Change v t symbol e.side.text r.1 r.2) (fun _ v => Idle v) w := by
  unfold planChange
  rw [Prog.wp_bind, wp_raiseIf]
  refine ⟨fun _ => hi, fun hs => ?_⟩
  simp only [not_or, not_not] at hs
  obtain ⟨hs, hx⟩ := hs
  rw [Prog.wp_bind]
  refine Prog.Quiet.wp (quiet_activeOrders _) (fun pending => ?_) fun _ => hi
  refine wp_then (F := fun _ v => Idle v) hI (M := fun ps v => v = w.said [.readPositions destination (leavesAll ps)])
    (wp_openPositions (fun _ => hi) fun ps => rfl) ?_ fun _ _ _ _ h => h
  rintro ps _ _ hI rfl
  have hv : .readPositions destination (leavesAll ps) ∈ (w.said [.readPositions destination (leavesAll ps)]).trace :=
    List.mem_append_right _ (List.mem_singleton_self _)
  refine wp_then (F := fun _ v => Idle v) hI (M := fun _ v => Idle v ∧ v.journal.trade? t.tradeId = some t) ?_ ?_
    fun _ _ _ _ h => h
  · refine Store.wp_observePositions (w := w.said _) ht hd (fun q hq => ?_) (Or.inl rfl) fun j hj => ?_
    · rw [← hs, ← hx] at hq
      exact reported_positions hq hv
    · exact ⟨hi.imp_right fun h a ha => h a (hj.attempts ▸ ha), (hj.trade? _).trans ht⟩
  · rintro _ v _ hI ⟨hi, ht⟩
    refine wp_then hI (noteRelated_row hi ht rfl hp hr) ?_ fun _ _ _ _ h => h
    rintro _ v _ hI ⟨hi, hu⟩
    simp only
    split
    · exact hi
    · exact ⟨hi, rfl, by simp, hs, hx, hu⟩
    · split
      · exact ⟨hi, rfl, by simp, hs, hx, hu⟩
      · rw [Prog.wp_bind, wp_readsWorld, Prog.wp_bind]
        refine Prog.Quiet.wp (Prog.quiet_ofExcept _) (fun _ => ?_) fun _ => hi
        refine (Prog.wp_ofExcept _).mpr ⟨fun r hr => ?_, fun _ _ => hi⟩
        obtain ⟨ho, hc⟩ := planPosition_change hr
        exact ⟨hi, ho, hc, hs, hx, hu⟩
      · exact hi

omit [Host] in
theorem settle_ok {reply : Operation} {s : Settled} {now : Instant} {j : Journal} {values : TradeUpdate}
    (h : settle e i reply s now j = .ok values) :
    values.Plain ∧ (∃ x, values.state = some x) ∧
      (s ≠ .create → values.brokerOrderId = none ∧ values.brokerPositionId = none) := by
  unfold settle at h
  simp only at h
  split at h
  · split at h
    · simp at h
    · obtain rfl := Except.ok.inj h
      exact ⟨⟨rfl, rfl, rfl⟩, ⟨_, rfl⟩, fun hs => absurd rfl hs⟩
  · obtain rfl := Except.ok.inj h
    exact ⟨⟨rfl, rfl, rfl⟩, ⟨_, rfl⟩, fun _ => ⟨rfl, rfl⟩⟩
  · split at h <;> obtain rfl := Except.ok.inj h <;> exact ⟨⟨rfl, rfl, rfl⟩, ⟨_, rfl⟩, fun _ => ⟨rfl, rfl⟩⟩
  · split at h <;> obtain rfl := Except.ok.inj h <;> exact ⟨⟨rfl, rfl, rfl⟩, ⟨_, rfl⟩, fun _ => ⟨rfl, rfl⟩⟩

theorem perform_idle {tw : TradeWrite} {call : Call} {s : Settled} (hI : Inv w) (hs : TradeSend R w tw call)
    (hi : tw.tradeId = i) (hk : tw.actionKey = actionKey e)
    (ht : ∀ t, w.journal.trade? i = some t → s ≠ .create ∨ (¬ t.placed ∧ t.destination ≠ "")) :
    (perform e (.trade tw) i api call s).wp A (Local R) (fun _ v => Idle v) (fun _ v => Idle v) w := by
  have hf : Aloft w i (actionKey e) := hi ▸ hk ▸ hs.flying.aloft
  unfold perform
  refine wp_try (F := fun _ v => Landing v i (actionKey e)) hI ?_ fun e v _ hI hl =>
    Prog.wp_consequence (recordFailure_idle hI hl) (fun _ _ h => h.2) fun _ _ h => h
  rw [Prog.wp_bind]
  refine wp_invoke (.trade hs) (fun reply => ?_) fun _ => ⟨hf.landing.trade, hf.alone⟩
  have hl (es : List Event) : Landing (w.said es) i (actionKey e) := ⟨hf.landing.trade, hf.alone⟩
  rw [Prog.wp_bind, wp_raiseIf]
  refine ⟨fun _ => hl _, fun _ => ?_⟩
  rw [Prog.wp_bind, wp_raiseIf]
  refine ⟨fun _ => hl _, fun _ => ?_⟩
  rw [Prog.wp_bind, wp_now]
  intro at_ _
  rw [Prog.wp_bind, wp_readsWorld, Prog.wp_bind, Prog.wp_ofExcept]
  refine ⟨fun values hv => ?_, fun _ _ => hl _⟩
  obtain ⟨hp, _, hn⟩ := settle_ok hv
  rw [Prog.wp_bind]
  refine Prog.wp_consequence (landAccepted_idle (hl _) fun t at_ hu => ?_) (fun _ _ h => h.1) fun _ _ h => h
  obtain ⟨u, hu', hst⟩ := hf.trade
  obtain rfl := Option.some.inj (hu.symm.trans hu')
  refine .of_update hp ((ht t hu).imp hn id) (hst.imp_right fun h => Or.inl ⟨by simp [h], by simp [h]⟩)

omit [Host] in
theorem actionKey_eq_create (e : CaptureEvent) : actionKey e = .create ↔ e.action = .create := by
  unfold actionKey
  split <;> simp_all

/-- The update that follows a router's claim. -/
def columns (e : CaptureEvent) (t : TradeRow) (symbol destination : String) (lots : Decimal) : TradeUpdate :=
  { destination := some destination, symbol := some symbol, side := some e.side.text
    lots := some (if e.action = .create ∨ e.action = .edit then some lots else t.lots)
    orderType := some e.orderType.text, lastRequest := some e.requestId, lastEventAt := some e.emittedAt }

theorem commit_idle {call : Call} {s : Settled} (hR : R.routed = true) (hI : Inv w) (hi : Idle w)
    (hd : destination ≠ "") (hc : e.action ≠ .create → Change w t symbol e.side.text call s ∧ t.destination = destination) :
    (commit e t symbol destination lots api call s).wp A (Local R) (fun _ v => Idle v) (fun _ v => Idle v) w := by
  unfold commit
  refine wp_then (F := fun _ v => Idle v) hI
    (M := fun granted v => if granted then Flying v t.tradeId (actionKey e)
        ∧ (e.action = .create → ∀ u, v.journal.trade? t.tradeId = some u → ¬ u.placed)
        ∧ (e.action ≠ .create → Change v t symbol e.side.text call s) else Idle v) ?_ ?_ fun _ _ _ _ h => h
  · refine Store.wp_claim (fun h => by simp [hR] at h) (Or.inl rfl) hi (by simpa using hi) fun at_ j hj => ?_
    refine ⟨.of_claim hI hi hj, fun he u hu => ?_, fun he => ?_⟩
    · obtain ⟨⟨q, hq, _, _, _, hp⟩, _, rfl⟩ := Journal.claim_ok hj
      simp only [Journal.trade?_dispatching, if_true, hq, Option.map_some, Option.some.injEq] at hu
      subst hu
      exact hp ((actionKey_eq_create e).mpr he)
    · refine (hc he).1.of_row fun u hu => ?_
      obtain ⟨_, _, rfl⟩ := Journal.claim_ok hj
      exact ⟨u.setState .dispatching, by simp [hu], id, rfl, rfl, rfl⟩
  · intro granted v _ hI hf
    rw [Prog.wp_bind, wp_raiseIf]
    cases granted with
    | false => exact ⟨fun _ => by simpa using hf, by simp⟩
    | true =>
      refine ⟨by simp, fun _ => ?_⟩
      simp only [if_true] at hf
      obtain ⟨hf, hb, hc'⟩ := hf
      refine wp_then (F := fun _ v => Idle v) hI
        (M := fun _ v => Flying v t.tradeId (actionKey e)
          ∧ (e.action = .create → ∀ u, v.journal.trade? t.tradeId = some u → ¬ u.placed ∧ u.destination ≠ "")) ?_ ?_
        fun _ _ _ _ h => h
      · refine Store.wp_update (u := columns e t symbol destination lots) (fun u at_ hu => ?_) (Or.inl rfl) fun at_ => ?_
        · by_cases he : e.action = .create
          · exact .of_unplaced hI ((Rows.lookup_mem hu).2.symm ▸ hu) (hb he u hu) rfl rfl rfl
          · obtain ⟨q, hq, hp, hs, hx, hq'⟩ := (hc' he).row
            obtain rfl := Option.some.inj (hu.symm.trans hq)
            have hd' : destination = u.destination := (hc he).2.symm.trans hq'.symm
            refine ⟨rfl, Or.inr ⟨id, Or.inl⟩, fun _ => Or.inl hd, id, fun _ => ⟨?_, ?_, hd'⟩⟩
            · exact ((hc' he).symbol.symm.trans hs.symm)
            · exact ((hc' he).side.symm.trans hx.symm)
        · refine ⟨hf.update rfl, fun he u hu => ?_⟩
          obtain ⟨q, hq, _⟩ := hf.trade
          obtain rfl := Option.some.inj ((Journal.update_trade?_self _ at_ hq).symm.trans hu)
          exact ⟨hb he q hq, hd⟩
      · rintro _ v _ hI ⟨hf, hb⟩
        refine perform_idle hI ⟨hf, fun ho => ?_, fun h => by simp [hR] at h, fun h => by simp at h,
          fun h => by simp at h⟩ rfl rfl fun u hu => ?_
        · by_cases he : e.action = .create
          · exact (actionKey_eq_create e).mpr he
          · simp [(hc' he).opens] at ho
        · by_cases he : e.action = .create
          · exact Or.inr (hb he u hu)
          · exact Or.inl (hc' he).settled

omit [Host] in
theorem admission_ok {route : RouteConfig} {r : SymbolRoute × Decimal} (h : admission route e t destination = .ok r) :
    t.state ≠ .resolved ∧ (t.destination = "" ∨ t.destination = destination) ∧ (e.action ≠ .create → t.placed) := by
  simp only [admission, bind_eq_ok, raiseIf_eq_ok] at h
  obtain ⟨_, _, _, _, _, hs, _, hd, _, _, _, hp, _⟩ := h
  exact ⟨by grind, by grind, fun he => by grind [TradeRow.placed]⟩

omit [Host] in
theorem quiet_priced (mapping : SymbolRoute) : (priced e mapping lots api).Quiet := by
  unfold priced
  split
  · exact quiet_raiseIf.bind fun _ => quiet_validateInstrument _ _ _ _
  · exact Prog.quiet_pure _

theorem dispatch_idle {arming : Arming} {route : Option RouteConfig} {identity : Option String} {api : Option Api}
    (hR : R.routed = true ∨ arming.armed = false) (hI : Inv w) (hi : Idle w) :
    (dispatch arming route e identity api destination).wp A (Local R) (fun _ v => Idle v) (fun _ v => Idle v) w := by
  unfold dispatch
  split
  · next route api hr =>
    have hR : R.routed = true := by
      rcases hR with h | h
      · exact h
      · simp [h] at hr
    rw [Prog.wp_bind, wp_raiseIf]
    refine ⟨fun _ => hi, fun hd => ?_⟩
    rw [Prog.wp_bind, wp_now]
    intro at_ _
    rw [Prog.wp_bind, wp_raiseIf]
    refine ⟨fun _ => hi, fun _ => ?_⟩
    rw [Prog.wp_bind, wp_raiseIf]
    refine ⟨fun _ => hi, fun _ => ?_⟩
    split
    · exact hi
    · next identity _ =>
      rw [Prog.wp_bind]
      change Prog.wp _ _ (reads _) _ _ _
      rw [wp_readsWorld]
      split
      · exact hi
      · next t ht =>
        have hk : t.tradeId = identity := (Rows.lookup_mem ht).2
        rw [Prog.wp_bind, Prog.wp_ofExcept]
        refine ⟨fun r hr => ?_, fun _ _ => hi⟩
        obtain ⟨hs, hd', hp⟩ := admission_ok hr
        obtain ⟨mapping, lots⟩ := r
        have hn : destination ≠ "" := by
          rw [not_not.mp hd]
          exact route.destinationAccount_ne
        rw [Prog.wp_bind]
        refine Prog.Quiet.wp (quiet_priced mapping) (fun p => ?_) fun _ => hi
        have hloc (he : e.action ≠ .create) : t.destination = destination :=
          hd'.resolve_left (hI.located _ t ht (hp he))
        refine wp_then (F := fun _ v => Idle v) hI
          (M := fun r v => Idle v ∧ (e.action ≠ .create → Change v t mapping.destination e.side.text r.1 r.2)) ?_ ?_
          fun _ _ _ _ h => h
        · unfold plan
          split
          · next he => exact ⟨hi, fun h => absurd he h⟩
          · next he =>
            exact Prog.wp_consequence (planChange_change hI hi (hk.symm ▸ ht) (hp he) (hloc he) hs)
              (fun r v h => ⟨h.1, fun _ => h.2⟩) fun _ _ h => h
        · rintro ⟨call, settled⟩ v _ hI ⟨hi, hc⟩
          exact commit_idle hR hI hi hn fun he => ⟨hc he, hloc he⟩
  · exact hi

theorem receiveAgain_idle {row : EventRow} (hi : Idle w) :
    (receiveAgain e row).wp A (Local R) (fun _ v => Idle v) (fun _ v => Idle v) w := by
  unfold receiveAgain
  rw [Prog.wp_bind, wp_readsWorld]
  simp only
  rw [Prog.wp_bind]
  unfold recoverDecision
  split
  · rw [Prog.wp_bind]
    exact Store.wp_decision (Or.inl rfl) hi
  · exact hi

theorem receive_idle {arming : Arming} {route : Option RouteConfig} {api : Option Api}
    (hR : R.routed = true ∨ arming.armed = false) (hI : Inv w) (hi : Idle w) :
    (receive arming route e api destination).wp A (Local R) (fun _ v => Idle v) (fun _ v => Idle v) w := by
  unfold receive
  refine wp_then (M := fun _ v => Idle v) (F := fun _ v => Idle v) hI ?_ ?_ fun _ _ _ _ h => h
  · exact Store.wp_record hI (Or.inl rfl) (fun _ => hi) fun a j hj _ => hi.imp_right fun h a ha => h a (hj.attempts ▸ ha)
  · rintro ⟨row, duplicate⟩ v _ hI hi
    simp only
    split
    · exact receiveAgain_idle hi
    · refine wp_then (M := fun _ v => Idle v) (F := fun _ v => Idle v) hI ?_ ?_ fun _ _ _ _ h => h
      · unfold dispatchOnArrival
        split
        · refine wp_try hI (dispatch_idle hR hI hi) fun e v _ _ hi => ?_
          split <;> exact hi
        · exact hi
      · rintro ⟨status, reason⟩ v _ _ hi
        rw [Prog.wp_bind]
        exact Store.wp_decision (Or.inl rfl) hi

end Router

namespace Store

variable {broker : String}

/-- The ledger's start on a journal of the current schema closes the action history only. -/
theorem initMapping_steps {j : Journal} (hI : Inv w) (h : w.journal.initMapping broker = .ok j) :
    Steps R w { w with journal := j } := by
  obtain ⟨hb, hm⟩ := hI.opened
  obtain ⟨b, hb⟩ := Option.isSome_iff_exists.mp hb
  obtain rfl := (Journal.initMapping_inv h).1 b hb
  obtain rfl := Journal.initMapping_current hm h
  rw [← hb]
  exact (Relation.ReflTransGen.single (.passive w.journal.links w.journal.fills w.journal.quantities
    w.journal.positions (some mappingSchemaVersion))).tail .interrupt

omit [Host] in
theorem idle_recover : Idle { w with journal := w.journal.recover } := by
  refine Or.inr fun a ha => ?_
  obtain ⟨b, _, rfl⟩ := Rows.mem_updateWhere.mp ha
  split
  · simp
  · next h => simpa using h

theorem openJournal_idle (hI : Inv w) :
    (openJournal broker).wp A (Local R) (fun _ v => Idle v) (fun _ _ => True) w := by
  unfold openJournal
  refine wp_then (M := fun _ _ => True) (F := fun _ _ => True) hI ?_ ?_ fun _ _ _ _ h => h
  · exact wp_change .fault trivial (fun _ _ => trivial) fun j hj => ⟨.journal (initMapping_steps hI hj), trivial⟩
  · intro _ v _ hI _
    refine wp_then (M := fun _ v => Idle v) (F := fun _ _ => True) hI ?_ ?_ fun _ _ _ _ h => h
    · refine wp_transact .fault trivial (fun _ _ => trivial) fun ts j hj => ?_
      simp only [Except.ok.injEq, Prod.mk.injEq] at hj
      obtain ⟨rfl, rfl⟩ := hj
      exact ⟨.journal (.single .recover), idle_recover⟩
    · intro ts v _ hI hi
      exact wp_each (I := fun _ v => Idle v) ts hI
        (fun a _ v _ _ hi => wp_recordReason trivial (fun _ _ => trivial) fun _ => hi) hi

end Store

end MatchTrader
