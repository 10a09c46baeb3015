import MatchTrader.Dispatches

/-! The programs of a signal lane take only steps: what is on record when a signal is
opened or cancelled meets the guards of its row. -/

namespace MatchTrader

open Durable

variable [Host] {R : Rules} {w v : World} {A : (q : Query) → Reply q → Prop}

namespace Signal

omit [Host] in
theorem textField_ok {raw : Json} {name : String} {lo hi : Nat} {default : Option String}
    {r : { s : String // lo ≤ s.length ∧ s.length ≤ hi }} (h : textField raw name lo hi default = .ok r) :
    (raw.get? name).elim default Json.text? = some r.1 := by
  unfold textField at h
  split at h
  · simp at h
  · next s hs =>
    split at h
    · obtain rfl := Except.ok.inj h
      exact hs
    · simp at h

omit [Host] in
theorem bind_text {o : Option Json} {default : Option String} {s : String} (h : o.elim default Json.text? = some s)
    (hs : default ≠ some s) : o.bind Json.text? = some s ∧ o.elim (some "") Json.text? = some s := by
  cases o with
  | none => exact absurd h hs
  | some v => exact ⟨h, h⟩

/-- What the lane reads of a raw payload is what its validated signal says. -/
theorem parseSignal_ok {raw : Json} {s : Signal} (h : parseSignal raw = .ok s) :
    SignalCopy.scope raw = s.scope ∧ (raw.get? "machineId").bind Json.text? = some s.machineId
      ∧ (raw.get? "source").bind Json.text? = some s.source
      ∧ (s.label ≠ "" → (raw.get? "label").bind Json.text? = some s.label) := by
  simp only [parseSignal, bind_eq_ok] at h
  obtain ⟨_, _, _, _, m, hm, src, hs, c, hc, a, ha, _, _, l, hl, sym, hsym, h⟩ := h
  obtain ⟨_, _, _, _, _, _, _, _, _, _, _, _, _, _, _, _, _, _, _, _, _, _, h⟩ := h
  obtain rfl := Except.ok.inj h
  have hm := textField_ok hm
  have hs := textField_ok hs
  have hc := textField_ok hc
  have ha := textField_ok ha
  have hl := textField_ok hl
  have hsym := textField_ok hsym
  refine ⟨?_, (bind_text hm (by simp)).1, (bind_text hs (by simp)).1, fun hn => (bind_text hl ?_).1⟩
  · simp only [SignalCopy.scope, SignalCopy.scopeFields, Signal.scope, List.map_cons, List.map_nil, hc, ha, hl, hsym,
      (bind_text hm (by simp)).2, (bind_text hs (by simp)).2]
  · simpa using hn.symm

end Signal

namespace SignalEngine

omit [Host] in
theorem quiet_resolvedType (s : Signal) (m : SymbolMapping) (side : String) (c : Context) :
    (resolvedType s m side c).Quiet := by
  have hq : (destinationQuotes c m.destination).Quiet := by
    unfold destinationQuotes
    split
    · exact quiet_quotes _ _
    · exact Prog.quiet_throw _
  unfold resolvedType
  split
  · refine quiet_raiseIf.bind fun _ => hq.bind fun found => ?_
    split
    · exact quiet_raiseIf.bind fun _ => quiet_raiseIf.bind fun _ => quiet_raiseIf.bind fun _ => Prog.quiet_pure _
    · exact Prog.quiet_throw _
  · exact Prog.quiet_pure _

omit [Host] in
theorem quiet_orderType (s : Signal) (m : SymbolMapping) (side : String) (c : Context) :
    (orderType s m side c).Quiet :=
  (quiet_resolvedType s m side c).bind fun _ => quiet_raiseIf.bind fun _ => Prog.quiet_pure _

omit [Host] in
theorem quiet_instrument (api : Api) (symbol : String) : (instrument api symbol).Quiet := by
  refine (quiet_instruments api).bind fun found => ?_
  split
  · exact Prog.quiet_pure _
  · exact Prog.quiet_throw _

omit [Host] in
theorem quiet_sizingEquity (lane : Lane) (api : Api) : (sizingEquity lane api).Quiet := by
  unfold sizingEquity
  split
  · exact (Prog.Quiet.tryCatch (quiet_equity api) fun _ => Prog.quiet_throw _).bind fun _ =>
      quiet_raiseIf.bind fun _ => Prog.quiet_pure _
  · exact Prog.quiet_pure _

omit [Host] in
theorem quiet_checkNotThroughMarket (c : Context) (api : Api) (symbol side orderType : String) (level : Decimal) :
    (checkNotThroughMarket c api symbol side orderType level).Quiet := by
  unfold checkNotThroughMarket
  split
  · exact Prog.quiet_pure _
  · refine (Prog.Quiet.tryCatch (quiet_quotes _ _) fun _ => Prog.quiet_pure _).bind fun found => ?_
    split
    · exact quiet_raiseIf
    · exact Prog.quiet_pure _

omit [Host] in
theorem quiet_fit (lane : Lane) (m : SymbolMapping) (s : Signal) (side orderType : String) (c : Context) :
    (fit lane m s side orderType c).Quiet := by
  unfold fit
  split
  · exact Prog.quiet_pure _
  · exact (quiet_instrument _ _).bind fun _ => (Prog.quiet_ofExcept _).bind fun _ => (Prog.quiet_ofExcept _).bind
      fun _ => (Prog.quiet_ofExcept _).bind fun _ => (Prog.quiet_ofExcept _).bind fun _ =>
        (quiet_sizingEquity _ _).bind fun _ => (Prog.quiet_ofExcept _).bind fun _ => (Prog.quiet_ofExcept _).bind
          fun _ => (quiet_checkNotThroughMarket _ _ _ _ _ _).bind fun _ => Prog.quiet_pure _

theorem admission_ok {lane : Lane} {s : Signal} {c : Context} (h : admission lane s c = .ok ()) :
    c.bridgeRequestExists = false ∧ s.label ≠ "" ∧ c.endedInBatch = false ∧ c.laterEndRecorded = false
      ∧ c.alreadyAttempted = false := by
  simp only [admission, bind_eq_ok, raiseIf_eq_ok] at h
  obtain ⟨_, _, _, _, _, _, _, _, _, hb, _, hl, _, _, _, he, _, ha, _, hd, _⟩ := h
  simp only [Bool.not_eq_true] at hb he ha hd
  exact ⟨hb, hl, he, ha, hd⟩

omit [Host] in
theorem orderType_yields (s : Signal) (m : SymbolMapping) (side : String) (c : Context) :
    (orderType s m side c).Yields fun type => type = "MARKET" ∨ type = "LIMIT" ∨ type = "STOP" :=
  Prog.yields_bind fun _ => yields_raiseIf.bind fun _ h => Prog.yields_pure (not_not.mp h)

/-- A resting order is planned as a limit or a stop. -/
theorem decide_yields (lane : Option Lane) (symbols : SymbolMap) (s : Signal) (c : Context) :
    (decide lane symbols s c).Yields fun p => ∀ type, p.call.type? = some type → type = "LIMIT" ∨ type = "STOP" := by
  unfold decide
  split
  · exact Prog.yields_throw _
  · refine Prog.yields_bind fun _ => ?_
    split
    · exact Prog.yields_throw _
    · refine Prog.yields_bind fun _ => Prog.yields_bind fun _ => Prog.yields_bind fun _ => Prog.yields_bind fun _ =>
        (orderType_yields _ _ _ _).bind fun type ht => Prog.yields_bind fun fitted => Prog.yields_pure fun found hf => ?_
      by_cases hm : type = "MARKET"
      · simp [OrderPlan.call, Call.type?, hm] at hf
      · simp only [OrderPlan.call, hm, if_false, Call.type?, Option.map_some, Option.some.injEq] at hf
        exact hf ▸ ht.resolve_left hm

/-- A plan comes of an admitted signal only. -/
theorem decide_admitted {lane : Option Lane} {symbols : SymbolMap} {s : Signal} {c : Context}
    {G : World → World → Prop} :
    (decide lane symbols s c).wp A G (fun _ v => v = w ∧ ∃ lane, admission lane s c = .ok ()) (fun _ v => v = w) w := by
  unfold decide
  split
  · exact rfl
  · next lane _ =>
    rw [Prog.wp_bind, Prog.wp_ofExcept]
    refine ⟨fun _ ha => ?_, fun _ _ => rfl⟩
    split
    · exact rfl
    · refine Prog.Quiet.wp ?_ (fun _ => ⟨rfl, lane, ha⟩) fun _ => rfl
      exact quiet_raiseIf.bind fun _ => (Prog.quiet_ofExcept _).bind fun _ => (Prog.quiet_ofExcept _).bind fun _ =>
        quiet_raiseIf.bind fun _ => (quiet_orderType _ _ _ _).bind fun _ => (quiet_fit _ _ _ _ _ _).bind fun _ =>
          Prog.quiet_pure _

end SignalEngine

namespace SignalCopy

section Rows

variable {l : LaneId} {key : String}

omit [Host] in
@[simp] theorem lanes_setLane (d : LaneDb) (k : LaneId) : (setLane w l d).lanes k = if k = l then d else w.lanes k := rfl

omit [Host] in
/-- A change of one row, found by its identity. -/
theorem signal?_updateWhere {d : LaneDb} {f : SignalRow → SignalRow} (hf : ∀ r, (f r).id = r.id) :
    LaneDb.signal? { d with signals := Rows.updateWhere (fun r => r.id = key) f d.signals } key
      = (d.signal? key).map f := by
  simp only [LaneDb.signal?, Rows.lookup_updateKey hf, if_true]

theorem wp_transactLane {f : LaneDb → LaneDb} {P : Unit → World → Prop} {E : Exc → World → Prop}
    (h : Steps R w (setLane w l (f (w.lanes l)))) (hs : E .sqlite { w with faulted := true })
    (hP : P () (setLane w l (f (w.lanes l)))) : (transactLane l f).wp A (Within R l) P E w :=
  wp_guarded (Hosting.ofLocal .fault) hs ⟨.setLane h, hP⟩

theorem wp_recordRow {f : SignalRow → SignalRow} {P : Unit → World → Prop} {E : Exc → World → Prop}
    (hf : ∀ r, (f r).id = r.id) (h : ∀ r, (w.lanes l).signal? key = some r → RowStep R w l r (f r))
    (hs : E .sqlite { w with faulted := true })
    (hP : P () (setLane w l { w.lanes l with
      signals := Rows.updateWhere (fun r => r.id = key) f (w.lanes l).signals })) :
    (recordRow l key f).wp A (Within R l) P E w :=
  wp_transactLane (.single (.row h hf)) hs hP

end Rows

/-- A signal on record whose outcome is not. -/
def Captured (w : World) (l : LaneId) (s : Signal) (raw : Json) : Prop :=
  ∃ r, (w.lanes l).signal? (signalKey s) = some r ∧ r.decision = .captured ∧ r.machine = s.machineId
    ∧ r.label = s.label ∧ r.kind = s.kind ∧ r.emitted = s.timestampUtc.isoformat ∧ r.payload = raw

/-- A captured signal whose processing has not begun. -/
structure Held (w : World) (l : LaneId) (s : Signal) (raw : Json) : Prop where
  row : Captured w l s raw
  undecided : ∀ m c, .decided l m c ∈ w.trace → signalId m c ≠ signalKey s

/-- A request on record whose write has not been issued. -/
structure Sending (R : Rules) (w : World) (l : LaneId) (s : Signal) (raw : Json) (call : Call) (destination : String) :
    Prop where
  row : ∃ r, (w.lanes l).signal? (signalKey s) = some r ∧ r.decision = .dispatching ∧ r.kind = s.kind
    ∧ r.payload = raw ∧ r.request = some call ∧ r.destination = some destination
  unsent : ∀ v api c j, .sent (.signal v) api c j ∈ w.trace → v.lane = l → v.key ≠ signalKey s
  clear : R.legacy = false → call.opens = true → ∀ machine label, OfLifecycle (scope raw) machine label →
    ∀ t ∈ w.journal.linkedTrades machine label, w.journal.alreadySent t.tradeId = false

theorem mem_related {d : LaneDb} {raw : Json} {s : Signal} {q : SignalRow} (hs : Signal.parseSignal raw = .ok s)
    (hl : s.label ≠ "") (hq : q ∈ d.signals) (hf : q.Formed) (h : scope q.payload = scope raw) : q ∈ related d raw := by
  obtain ⟨hsc, hm, hsrc, hlab⟩ := Signal.parseSignal_ok hs
  obtain ⟨account, connection, symbol, hf⟩ := hf.scope
  rw [hf, hsc, Signal.scope] at h
  simp only [List.cons.injEq, Option.some.injEq] at h
  obtain ⟨hqm, hqs, _, _, _, hql, _⟩ := h
  simp only [related, List.mem_filter, decide_eq_true_eq, hm, hsrc, hlab hl, hqm, hqs, hql, true_and]
  exact ⟨hq, by rw [hf, hsc, Signal.scope]; simp [*]⟩

variable {c : LaneCall} {l : LaneId} {s : Signal} {raw : Json} {call : Call} {api : Option Api} {destination : String}
  {verified : Bool} {closed : List (List (Option String))} {at_ : Instant}

omit [Host] in
theorem opens_call (p : OrderPlan) : p.call.opens = true := by
  unfold OrderPlan.call
  split <;> rfl

theorem openOk {lane : Lane} {r : SignalRow} (hI : Inv w) (hp : Signal.parseSignal raw = .ok s) (hk : s.kind = "intent")
    (hc : ∀ x ∈ R.closed, x ∈ closed) (hl : R.legacy = false → c.copyMode.isSome = true)
    (ha : SignalEngine.admission lane s (context w c s raw closed api destination verified at_) = .ok ())
    (hm : r.machine = s.machineId) (hlab : r.label = s.label) (hkind : r.kind = s.kind)
    (hem : r.emitted = s.timestampUtc.isoformat) (hpay : r.payload = raw) (ho : call.opens = true)
    (ht : ∀ type, call.type? = some type → type = "LIMIT" ∨ type = "STOP") :
    OpenOk R w c.lane r call destination := by
  obtain ⟨hb, hn, he, hlater, hatt⟩ := SignalEngine.admission_ok ha
  simp only [context, Bool.or_eq_false_iff, decide_eq_false_iff_not, List.any_eq_false] at hb he hlater hatt
  refine ⟨hkind.trans hk, ho, ht, hlab ▸ hn, fun q hq hcop hsc => ?_, fun hx => ?_, fun q hq hend hsc hle => ?_, fun hleg => ?_⟩
  · exact hatt q (mem_related hp hn hq (hI.formed _ q hq) (hpay ▸ hsc)) hcop
  · exact he.1 (hc _ (hpay ▸ hx))
  · have hh := hlater q (mem_related hp hn hq (hI.formed _ q hq) (hpay ▸ hsc))
    rw [hend, ← hem, decide_eq_true hle] at hh
    simp at hh
  · rw [hl hleg] at hb
    simp only [Bool.true_and, List.any_eq_false, Bool.not_eq_true] at hb
    intro t ht
    exact hb t (hm ▸ hlab ▸ ht)

/-- What became of a write that a lane issued. -/
structure Landed (w : World) (l : LaneId) (s : Signal) (raw : Json) (destination : String) (o : Sent) : Prop where
  decision : o.decision = .accepted ∨ o.decision = .uncertain
  answered : ∀ reply, o.response = .ok reply →
    .answered (.signal ⟨l, signalKey s, scope raw, destination⟩) (.ok reply) ∈ w.trace
  accepted : o.decision = .accepted → ∃ reply, o.response = .ok reply

theorem dispatch_landed {accepted : Operation → Bool} {ok correlation : String} (hn : signalKey s ∉ R.known)
    (hw : Sending R w l s raw call destination)
    (hk : (s.kind = "intent" ∧ call.opens = true) ∨ (isCancelKind s.kind = true ∧ call.cancels = true)) :
    (dispatch (.signal ⟨l, signalKey s, scope raw, destination⟩) api call accepted ok correlation).wp A (Local R)
      (fun o v => v.journal = w.journal ∧ v.faulted = w.faulted ∧ Landed v l s raw destination o) (fun _ _ => False) w := by
  obtain ⟨r, hr, hdec, hkind, hpay, hreq, hdest⟩ := hw.row
  have hmem := Rows.lookup_mem hr
  unfold dispatch
  rw [Prog.wp_tryCatch]
  cases api with
  | none => exact ⟨rfl, rfl, Or.inr rfl, fun _ h => by simp at h, fun h => by simp at h⟩
  | some api =>
    simp only
    rw [Prog.wp_bind]
    refine wp_invoke (.signal ⟨⟨r, hmem.1, hmem.2, hreq, hdest, hdec, by rw [hpay], hkind ▸ hk⟩, hw.unsent, hn, hw.clear⟩) (fun reply => ?_)
      fun e => ⟨rfl, rfl, Or.inr rfl, fun _ h => by simp at h, fun h => by simp at h⟩
    refine ⟨rfl, rfl, ?_⟩
    split
    · refine ⟨Or.inl rfl, fun q hq => ?_, fun _ => ⟨reply, rfl⟩⟩
      obtain rfl := Except.ok.inj hq
      exact List.mem_append_right _ (by simp)
    · refine ⟨Or.inr rfl, fun q hq => ?_, fun h => by simp at h⟩
      obtain rfl := Except.ok.inj hq
      exact List.mem_append_right _ (by simp)

theorem unsent_of_captured {key : String} {r : SignalRow} (hI : Inv w) (hr : (w.lanes l).signal? key = some r)
    (hd : r.decision = .captured) :
    ∀ v api c j, .sent (.signal v) api c j ∈ w.trace → v.lane = l → v.key ≠ key := by
  rintro v api c j he rfl rfl
  obtain ⟨q, hq, hk, hn⟩ := hI.sentRow v api c j he
  have hq' := Rows.lookup_of_mem (hI.rowIds v.lane) hq
  rw [hk] at hq'
  exact hn (Option.some.inj (hq'.symm.trans hr) ▸ hd)

theorem wp_commit {P : Unit → World → Prop} {E : Exc → World → Prop} (hI : Inv w) (hh : Captured w l s raw)
    (hs : E .sqlite { w with faulted := true })
    (hr : ∀ r, (w.lanes l).signal? (signalKey s) = some r → RowStep R w l r (committed destination call r))
    (hb : R.legacy = false → call.opens = true → ∀ machine label, OfLifecycle (scope raw) machine label →
      ∀ t ∈ w.journal.linkedTrades machine label, w.journal.alreadySent t.tradeId = false)
    (hP : ∀ v, Sending R v l s raw call destination → v.journal = w.journal → v.faulted = w.faulted → P () v) :
    (recordRow l (signalKey s) (committed destination call)).wp A (Within R l) P E w := by
  refine wp_recordRow (fun _ => rfl) hr hs (hP _ ?_ rfl rfl)
  obtain ⟨r, hr, hd, _, _, hk, _, hp⟩ := hh
  have hu := unsent_of_captured hI hr hd
  refine ⟨⟨committed destination call r, ?_, rfl, hk, hp, rfl, rfl⟩, hu, hb⟩
  simp only [lanes_setLane, if_true]
  rw [signal?_updateWhere (f := committed destination call) fun _ => rfl, hr]
  rfl

theorem dispatch_land_idle {accepted : Operation → Bool} {ok correlation : String} (hI : Inv w) (hi : Idle w)
    (hn : signalKey s ∉ R.known) (hw : Sending R w l s raw call destination)
    (hk : (s.kind = "intent" ∧ call.opens = true) ∨ (isCancelKind s.kind = true ∧ call.cancels = true)) :
    (do
      let outcome ← dispatch (.signal ⟨l, signalKey s, scope raw, destination⟩) api call accepted ok correlation
      land l (signalKey s) outcome : Act Unit).wp A (Within R l) (fun _ v => Idle v) (fun _ v => Idle v) w := by
  refine wp_then hI (wp_local hI (dispatch_landed hn hw hk)) ?_ fun _ _ _ _ h => h.2.elim
  rintro o v _ _ ⟨hl, hj, hf, ho⟩
  have hi : Idle v := by rwa [Idle, hj, hf]
  refine wp_recordRow (fun _ => rfl) (fun q hq => ?_) (Or.inl rfl) hi
  obtain ⟨r, hr, hd, _, hp, _, hdest⟩ := hw.row
  rw [hl.lanes] at hq
  obtain rfl := Option.some.inj (hq.symm.trans hr)
  refine .land hd ho.decision (fun reply hy d hd' => ?_) ho.accepted
  obtain rfl := Option.some.inj (hdest.symm.trans hd')
  rw [hp, show q.id = signalKey s from (Rows.lookup_mem hq).2]
  exact ho.answered reply hy

theorem openCopy_idle {symbols : SymbolMap} (hI : Inv w) (hi : Idle w) (hn : signalKey s ∉ R.known) (hh : Held w c.lane s raw)
    (hp : Signal.parseSignal raw = .ok s) (hk : s.kind = "intent") (hc : ∀ x ∈ R.closed, x ∈ closed)
    (hl : R.legacy = false → c.copyMode.isSome = true) :
    (openCopy c symbols (signalKey s) s raw closed api destination verified at_).wp A (Within R c.lane) (fun _ v => Idle v)
      (fun _ v => Idle v) w := by
  obtain ⟨r, hr, hd, hm, hlab, hkind, hem, hpay⟩ := hh.row
  unfold openCopy
  rw [Prog.wp_bind, wp_readsWorld, Prog.wp_bind, wp_record]
  have hdec : Speaks R w (.decided c.lane s.machineId s.clientEventId) :=
    .decided ⟨r, (Rows.lookup_mem hr).1, (Rows.lookup_mem hr).2⟩ hh.undecided
  refine ⟨Hosting.ofLocal (.said hdec), ?_⟩
  have hI' := hI.step (.say hdec)
  rw [Prog.wp_bind, Prog.wp_tryCatch, Prog.wp_map]
  refine Prog.wp_consequence ((SignalEngine.decide_yields _ _ _ _).wp SignalEngine.decide_admitted) (fun plan v hv => ?_)
    fun e v hv => ?_
  · obtain ⟨⟨rfl, lane, ha⟩, htype⟩ := hv
    have hok {q : SignalRow} (hq : (w.lanes c.lane).signal? (signalKey s) = some q) :
        OpenOk R (w.said [.decided c.lane s.machineId s.clientEventId]) c.lane q plan.call destination := by
      obtain rfl := Option.some.inj (hq.symm.trans hr)
      exact openOk hI' hp hk hc hl ha hm hlab hkind hem hpay (opens_call plan) htype
    simp only
    split
    · refine wp_recordRow (fun _ => rfl) (fun q hq => ?_) (Or.inl rfl) hi
      obtain rfl := Option.some.inj (hq.symm.trans hr)
      exact .paper hd (hok hq)
    · refine wp_then (M := fun _ v => Idle v ∧ Sending R v c.lane s raw plan.call destination) (F := fun _ v => Idle v)
        hI' ?_ ?_ fun _ _ _ _ h => h
      · refine wp_commit hI' hh.row (Or.inl rfl) (fun q hq => ?_) (fun hleg _ machine label hof => ?_)
          fun v hv hj hf => ⟨by rwa [Idle, hj, hf], hv⟩
        · obtain rfl := Option.some.inj (hq.symm.trans hr)
          exact .commit hd (hok hq)
        · obtain ⟨_, _, _, _, hof⟩ := hof
          rw [(Signal.parseSignal_ok hp).1] at hof
          simp only [Signal.scope, List.cons.injEq, Option.some.injEq] at hof
          have hb := (hok hr).bridge hleg
          rwa [hm, hlab, hof.1, hof.2.2.2.2.2.1] at hb
      · rintro _ v _ hI ⟨hi, hw⟩
        exact dispatch_land_idle hI hi hn hw (Or.inl ⟨hk, opens_call plan⟩)
  · obtain rfl := hv
    refine wp_recordRow (fun _ => rfl) (fun q hq => ?_) (Or.inl rfl) hi
    obtain rfl := Option.some.inj (hq.symm.trans hr)
    exact .note hd (Or.inl rfl)

omit [Host] in
/-- The cancel that a read of the resting orders yields names the order that was asked for. -/
theorem pendingOrderRequest_ok {G : World → World → Prop} {api : Api} {orderId instrument side : String}
    {type : Option String} :
    (Unwind.pendingOrderRequest api orderId instrument side type).wp A G
      (fun c v => v = w ∧ c.id = orderId ∧ c.instrument = instrument ∧ c.orderSide = side ∧ some c.type = type)
      (fun _ v => v = w) w := by
  unfold Unwind.pendingOrderRequest
  rw [Prog.wp_bind]
  refine Prog.Quiet.wp (quiet_activeOrders _) (fun orders => ?_) fun _ => rfl
  split
  · next o ho =>
    have hm := ho ▸ List.mem_singleton_self o
    simp only [List.mem_filter, decide_eq_true_eq] at hm
    rw [Prog.wp_bind, wp_raiseIf]
    refine ⟨fun _ => rfl, fun h => ?_⟩
    simp only [not_or, not_not] at h
    exact ⟨rfl, hm.2, h⟩
  · exact rfl

/-- A prepared cancel names the order that the broker returned for the lane's own copy. -/
theorem prepareCancel_ok {G : World → World → Prop} {r : SignalRow} (hI : Inv w) (hp : Signal.parseSignal raw = .ok s)
    (hk : isCancelKind r.kind = true) (hpay : r.payload = raw) :
    (prepareCancel l s raw api destination verified).wp A G (fun p v => v = w ∧ CancelOk w l r p.2 destination)
      (fun _ v => v = w) w := by
  unfold prepareCancel
  split
  · exact rfl
  rw [Prog.wp_bind, wp_raiseIf]
  refine ⟨fun _ => rfl, fun _ => ?_⟩
  rw [Prog.wp_bind, wp_raiseIf]
  refine ⟨fun _ => rfl, fun hn => ?_⟩
  rw [Prog.wp_bind, wp_readsWorld, Prog.wp_bind, wp_raiseIf]
  refine ⟨fun _ => rfl, fun ht => ?_⟩
  split
  · next q hq =>
    have hm := hq ▸ List.mem_singleton_self q
    rw [List.mem_filter] at hm
    obtain ⟨hrel, hcop⟩ := hm
    simp only [related, List.mem_filter, decide_eq_true_eq] at hrel
    rw [Prog.wp_bind, wp_raiseIf]
    refine ⟨fun _ => rfl, fun hacc => ?_⟩
    split
    · next o response ho hres =>
      rw [Prog.wp_bind, wp_raiseIf]
      refine ⟨fun _ => rfl, fun hid => ?_⟩
      rw [Prog.wp_bind]
      refine Prog.wp_consequence pendingOrderRequest_ok ?_ fun _ _ h => h
      rintro c v ⟨rfl, hc, hi, hsd, hty⟩
      simp only [not_or] at hid
      refine ⟨rfl, hk, fun x hx htr hsc => ?_, q, hrel.1, o, ?_⟩
      · exact ht (List.any_eq_true.mpr ⟨x, mem_related hp hn hx (hI.formed _ x hx) (hpay ▸ hsc), htr⟩)
      · cases response with
        | error e => simp [Except.toOption] at hid
        | ok reply =>
          simp only [Except.toOption, Option.bind_some] at hc hid
          refine ⟨reply, hcop, hpay ▸ hrel.2.2.2.2, not_not.mp hacc, ho, hres, ?_, hc ▸ hid.1, hi.symm, hsd.symm,
            hty.symm⟩
          cases ho' : reply.orderId with
          | none => simp [ho'] at hid
          | some x => simp [hc, ho']
    · exact rfl
  · exact rfl

theorem cancelOwnCopy_idle (hI : Inv w) (hi : Idle w) (hn : signalKey s ∉ R.known) (hh : Captured w l s raw) (hp : Signal.parseSignal raw = .ok s)
    (hk : isCancelKind s.kind = true) :
    (cancelOwnCopy l (signalKey s) s raw api destination verified).wp A (Within R l) (fun _ v => Idle v)
      (fun _ v => Idle v) w := by
  obtain ⟨r, hr, hd, _, _, hkind, _, hpay⟩ := id hh
  unfold cancelOwnCopy
  rw [Prog.wp_bind, Prog.wp_tryCatch, Prog.wp_map]
  refine Prog.wp_consequence (prepareCancel_ok hI hp (hkind ▸ hk) hpay) (fun p v hv => ?_) fun e v hv => ?_
  · obtain ⟨rfl, hc⟩ := hv
    simp only
    refine wp_then (M := fun _ v => Idle v ∧ Sending R v l s raw (.cancelPendingOrder p.2) destination)
      (F := fun _ v => Idle v) hI ?_ ?_ fun _ _ _ _ h => h
    · refine wp_commit hI hh (Or.inl rfl) (fun q hq => ?_) (fun _ ho => by simp [Call.opens] at ho)
        fun v hv hj hf => ⟨by rwa [Idle, hj, hf], hv⟩
      obtain rfl := Option.some.inj (hq.symm.trans hr)
      exact .commitCancel hd hc
    · rintro _ v _ hI ⟨hi, hw⟩
      exact dispatch_land_idle hI hi hn hw (Or.inr ⟨hk, rfl⟩)
  · obtain rfl := hv
    split
    · refine wp_recordRow (fun _ => rfl) (fun q hq => ?_) (Or.inl rfl) hi
      obtain rfl := Option.some.inj (hq.symm.trans hr)
      exact .note hd (Or.inl rfl)
    · exact hi

theorem applyToLedger_idle (hI : Inv w) (hi : Idle w) :
    (applyToLedger s api destination verified).wp A (Local R) (fun r v => (∀ o ∈ r, Unwind.Settled o) ∧ Idle v)
      (fun _ v => Idle v) w := by
  unfold applyToLedger
  split
  · exact ⟨by simp, hi⟩
  · refine wp_try hI (Unwind.apply_idle hI hi) fun e v _ _ hi => ⟨?_, hi⟩
    rintro o ⟨⟩
    exact ⟨by simp, by simp⟩

theorem unwind_idle (hI : Inv w) (hi : Idle w) (hn : signalKey s ∉ R.known) (hh : Captured w l s raw) (hp : Signal.parseSignal raw = .ok s)
    (hk : isEndKind s.kind = true) :
    (unwind l (signalKey s) s raw api destination verified).wp A (Within R l) (fun _ v => Idle v) (fun _ v => Idle v)
      w := by
  obtain ⟨r, hr, hd, _, _, hkind, _, hpay⟩ := id hh
  unfold unwind
  rw [Prog.wp_bind, wp_readsWorld]
  split
  · next h => exact cancelOwnCopy_idle hI hi hn hh hp h.1
  · refine wp_then hI (wp_local hI (applyToLedger_idle hI hi)) ?_ fun _ _ _ _ h => h.2
    rintro o v _ _ ⟨hl, ho, hi⟩
    cases o with
    | some o =>
      refine wp_recordRow (fun _ => rfl) (fun q hq => ?_) (Or.inl rfl) hi
      rw [hl.lanes] at hq
      obtain rfl := Option.some.inj (hq.symm.trans hr)
      exact .unwound hd (hkind ▸ hk) (ho o rfl)
    | none =>
      refine wp_recordRow (fun _ => rfl) (fun q hq => ?_) (Or.inl rfl) hi
      rw [hl.lanes] at hq
      obtain rfl := Option.some.inj (hq.symm.trans hr)
      exact .note hd (Or.inr rfl)

theorem act_idle {symbols : SymbolMap} (hI : Inv w) (hi : Idle w) (hn : signalKey s ∉ R.known) (hh : Held w c.lane s raw)
    (hp : Signal.parseSignal raw = .ok s) (hc : ∀ x ∈ R.closed, x ∈ closed)
    (hl : R.legacy = false → c.copyMode.isSome = true) :
    (act c symbols s raw closed api destination verified at_).wp A (Within R c.lane) (fun _ v => Idle v) (fun _ v => Idle v)
      w := by
  unfold act
  rw [Prog.wp_bind, wp_readsWorld]
  split
  · next hk => exact openCopy_idle hI hi hn hh hp hk hc hl
  · split
    · exact hi
    · split
      · exact hi
      · split
        · next hk => exact unwind_idle hI hi hn hh.row hp hk
        · exact hi

theorem bornRow_born (hp : Signal.parseSignal raw = .ok s) : RowBorn (bornRow s raw at_) :=
  ⟨rfl, rfl, rfl, ⟨⟨s.accountId, s.connectionName, s.symbol, (Signal.parseSignal_ok hp).1⟩, ⟨_, rfl⟩⟩⟩

/-- A signal of a new identity is held when its row has been inserted. -/
theorem held_insert (hI : Inv w) (hn : (w.lanes l).signal? (signalKey s) = none) :
    Held (setLane w l { w.lanes l with signals := (w.lanes l).signals ++ [bornRow s raw at_] }) l s raw where
  row := by
    refine ⟨bornRow s raw at_, ?_, rfl, rfl, rfl, rfl, rfl, rfl⟩
    simp only [LaneDb.signal?] at hn
    simp only [LaneDb.signal?, lanes_setLane, if_true, Rows.lookup_append, hn, Option.none_or]
    exact if_pos rfl
  undecided m c he hk := by
    obtain ⟨r, hm, hid⟩ := hI.decidedRow l m c he
    exact Rows.lookup_eq_none_iff.mp hn r hm (hid.trans hk)

theorem receiveSignal_idle {symbols : SymbolMap} (hI : Inv w) (hi : Idle w)
    (hkn : ∀ k ∈ R.known, ∃ r ∈ (w.lanes c.lane).signals, r.id = k) (hp : Signal.parseSignal raw = .ok s)
    (hc : ∀ x ∈ R.closed, x ∈ closed) (hl : R.legacy = false → c.copyMode.isSome = true) :
    (receiveSignal c symbols s raw closed api destination verified).wp A (Within R c.lane) (fun _ v => Idle v)
      (fun _ v => Idle v) w := by
  unfold receiveSignal
  rw [Prog.wp_bind, wp_now]
  intro at_ _
  rw [Prog.wp_bind, wp_raiseIf]
  refine ⟨fun _ => hi, fun _ => ?_⟩
  rw [Prog.wp_bind, wp_readsWorld, Prog.wp_bind]
  refine wp_transactLane (.single (.appear _ _)) (Or.inl rfl) ?_
  have hI' := hI.step (R := R) (.appear c.lane ⟨signalKey s, at_.isoformat, raw,
    ((w.lanes c.lane).signal? (signalKey s)).any fun r => r.digest ≠ Host.sha256 s.modelDumpJson⟩)
  cases hq : (w.lanes c.lane).signal? (signalKey s) with
  | some row => simp only; split <;> exact hi
  | none =>
    rw [hq] at hI'
    simp only
    have hnew : signalKey s ∉ R.known := fun hk => by
      obtain ⟨r, hr, he⟩ := hkn _ hk
      exact Rows.lookup_eq_none_iff.mp hq r hr he
    have hn : ((setLane w c.lane { w.lanes c.lane with appearances := (w.lanes c.lane).appearances
        ++ [⟨signalKey s, at_.isoformat, raw, false⟩] }).lanes c.lane).signal? (signalKey s) = none := by
      simpa only [lanes_setLane, if_true, LaneDb.signal?] using hq
    rw [Prog.wp_bind]
    refine wp_transactLane (.single (.insert hn (bornRow_born hp))) (Or.inl rfl) ?_
    refine wp_then (M := fun _ v => Idle v) (F := fun _ v => Idle v) (hI'.step (R := R) (.insert hn (bornRow_born hp)))
      (act_idle (hI'.step (R := R) (.insert hn (bornRow_born hp))) hi hnew (held_insert hI' hn) hp hc hl) ?_ fun _ _ _ _ h => h
    intro _ v _ _ hi
    refine Prog.Quiet.wp ((Prog.quiet_reads _).bind fun r => ?_) (fun _ => hi) fun _ => hi
    split
    · exact Prog.quiet_pure _
    · exact Prog.quiet_throw _

theorem receiveElement_idle {symbols : SymbolMap} (hI : Inv w) (hi : Idle w) (hc : ∀ x ∈ R.closed, x ∈ closed)
    (hkn : ∀ k ∈ R.known, ∃ r ∈ (w.lanes c.lane).signals, r.id = k)
    (hl : R.legacy = false → c.copyMode.isSome = true) :
    (receiveElement c symbols closed api destination verified raw).wp A (Within R c.lane) (fun _ v => Idle v)
      (fun _ v => Idle v) w := by
  refine wp_try (F := fun _ v => Idle v) hI ?_ fun e v _ _ hi => ?_
  · rw [Prog.wp_bind, Prog.wp_ofExcept]
    exact ⟨fun s hp => receiveSignal_idle hI hi hkn hp hc hl, fun _ _ => hi⟩
  · split <;> exact hi

theorem receive_idle {symbols : SymbolMap} {payload : List Json} (hI : Inv w) (hi : Idle w)
    (hc : ∀ closed, endedScopes payload = .ok closed → ∀ x ∈ R.closed, x ∈ closed)
    (hkn : ∀ k ∈ R.known, ∃ r ∈ (w.lanes c.lane).signals, r.id = k)
    (hl : R.legacy = false → c.copyMode.isSome = true) :
    (receive c symbols payload api destination verified).wp A (Within R c.lane) (fun _ v => Idle v) (fun _ v => Idle v)
      w := by
  unfold receive
  rw [Prog.wp_bind, wp_raiseIf]
  refine ⟨fun _ => hi, fun _ => ?_⟩
  rw [Prog.wp_bind, Prog.wp_ofExcept]
  refine ⟨fun closed hcl => ?_, fun _ _ => hi⟩
  exact wp_collect (I := fun _ v => Idle v) payload hI
    (fun raw _ v hs hI' hi => receiveElement_idle hI' hi (hc closed hcl) (fun k hk => hs.steps.signal hI (hkn k hk)) hl) hi

theorem openLane_idle (hi : Idle w) :
    (openLane l).wp A (Within R l) (fun _ v => Idle v) (fun _ v => Idle v) w :=
  wp_transactLane (.single (.reopen l)) (Or.inl rfl) hi

end SignalCopy

namespace Rules.Plain

omit [Host] in
theorem closed (h : R.Plain) {payload : List Json} (ended : List (List (Option String)))
    (_ : SignalCopy.endedScopes payload = .ok ended) : ∀ x ∈ R.closed, x ∈ ended := by
  simp [h.1]

omit [Host] in
theorem known (h : R.Plain) {l : LaneId} : ∀ k ∈ R.known, ∃ r ∈ (w.lanes l).signals, r.id = k := by
  simp [h.2]

end Rules.Plain

end MatchTrader
