import Mathlib.Data.List.ReduceOption
import MatchTrader.LaneOnce

/-! A lifecycle that a batch ends, or that ended at the time of an intent or later, is not
opened: its intent gets no request, on paper or to the broker. -/

namespace MatchTrader

open Durable

section Batches

variable [Host]

/-- An element anywhere in the batch ends the lifecycle. -/
def EndsInBatch (payload : List Json) (raw : Json) : Prop :=
  ∃ x ∈ payload, ((x.get? "kind").getD .null).text?.any isEndKind = true ∧ SignalCopy.scope x = SignalCopy.scope raw

/-- The lane has an end of the lifecycle on record, at the time or later. -/
def EndOnRecord (w : World) (l : LaneId) (raw : Json) (t : Instant) : Prop :=
  ∃ q ∈ (w.lanes l).signals, isEndKind q.kind = true ∧ SignalCopy.scope q.payload = SignalCopy.scope raw
    ∧ ∃ u : Instant, q.emitted = u.isoformat ∧ t ≤ u

/-- No intent of the lifecycle and the time was given a request, or had its write issued. -/
structure Unopened (w v : World) (l : LaneId) (raw : Json) (t : Instant) : Prop where
  requests : ∀ r ∈ (v.lanes l).signals, r.kind = "intent" → SignalCopy.scope r.payload = SignalCopy.scope raw →
    r.emitted = t.isoformat → r.request ≠ none → ∃ p ∈ (w.lanes l).signals, p.id = r.id ∧ p.request = r.request
  writes : ∀ r ∈ (v.lanes l).signals, r.kind = "intent" → SignalCopy.scope r.payload = SignalCopy.scope raw →
    r.emitted = t.isoformat → ∀ x api call j, .sent (.signal x) api call j ∈ v.trace → x.lane = l → x.key = r.id →
    .sent (.signal x) api call j ∈ w.trace

/-- The rules of a batch: the lifecycles it ends, and the signals that were on record before it. -/
def batchRules (closed : List (List (Option String))) (known : List String) : Rules :=
  { unrestricted with closed, known }

/-- What a batch that began in `w` has given requests to. -/
structure BatchInv (R : Rules) (w : World) (l : LaneId) (v : World) : Prop where
  requests : ∀ r ∈ (v.lanes l).signals, r.kind = "intent" → r.request ≠ none →
    (∃ p ∈ (w.lanes l).signals, p.id = r.id ∧ p.request = r.request)
      ∨ (SignalCopy.scope r.payload ∉ R.closed ∧ ∀ q ∈ (w.lanes l).signals, isEndKind q.kind = true →
          SignalCopy.scope q.payload = SignalCopy.scope r.payload → ¬ r.emitted ≤ q.emitted)
  ends : ∀ q ∈ (w.lanes l).signals, ∃ p ∈ (v.lanes l).signals,
    p.kind = q.kind ∧ p.payload = q.payload ∧ p.emitted = q.emitted
  writes : ∀ x api call j, .sent (.signal x) api call j ∈ v.trace → x.lane = l →
    .sent (.signal x) api call j ∈ w.trace ∨ x.key ∉ R.known

variable {R : Rules} {w u v : World} {l : LaneId}

namespace BatchInv

omit [Host] in
theorem start : BatchInv R w l w where
  requests r hr _ _ := Or.inl ⟨r, hr, rfl, rfl⟩
  ends q hq := ⟨q, hq, rfl, rfl, rfl⟩
  writes _ _ _ _ he _ := Or.inl he

theorem step (hI : Inv u) (h : BatchInv R w l u) (hs : Step R u v) : BatchInv R w l v where
  requests r hr hk hreq := by
    rcases hs.row_new (hI.rowIds l) hr with ⟨r₀, hr₀, hkept⟩ | ⟨_, hb⟩
    · have hk₀ : r₀.kind = "intent" := hkept.kind ▸ hk
      rcases hkept.requested (hI.captured l r₀ hr₀) hk₀ with ⟨he, _⟩ | ⟨_, call, d, ho, _⟩
      · rw [he] at hreq ⊢
        rw [hkept.id, hkept.payload, hkept.emitted]
        exact h.requests r₀ hr₀ hk₀ hreq
      · right
        rw [hkept.payload, hkept.emitted]
        refine ⟨ho.closed, fun q hq hend hsc => ?_⟩
        obtain ⟨p, hp, hpk, hpp, hpe⟩ := h.ends q hq
        have hlater := ho.later p hp (hpk ▸ hend) (hpp ▸ hsc)
        rwa [hpe] at hlater
    · exact absurd hb.request hreq
  ends q hq := by
    obtain ⟨p, hp, hpk, hpp, hpe⟩ := h.ends q hq
    obtain ⟨p', hp', hkept⟩ := hs.row_old (hI.rowIds l) hp
    exact ⟨p', hp', hkept.kind.trans hpk, hkept.payload.trans hpp, hkept.emitted.trans hpe⟩
  writes x api call j he hl := by
    rcases hs.mem_trace he with he | he
    · exact h.writes x api call j he hl
    · cases he with
      | signal hsend => exact Or.inr hsend.fresh

theorem steps (hI : Inv w) (hs : Steps R w v) : BatchInv R w l v :=
  (invariant_of_reflTransGen (I := fun u => Inv u ∧ BatchInv R w l u) hs
    (fun _ _ hu h => ⟨hu.1.step h, hu.2.step hu.1 h⟩) ⟨hI, start⟩).2

end BatchInv

omit [Host] in
theorem mapM_ok {α β : Type} {f : α → Except Exc β} {l : List α} {bs : List β} {a : α} (h : l.mapM f = .ok bs)
    (ha : a ∈ l) : ∃ b ∈ bs, f a = .ok b := by
  induction l generalizing bs with
  | nil => simp at ha
  | cons y ys ih =>
    rw [List.mapM_cons, bind_eq_ok] at h
    obtain ⟨b, hb, h⟩ := h
    rw [bind_eq_ok] at h
    obtain ⟨rest, hrest, h⟩ := h
    obtain rfl := Except.ok.inj h
    rcases List.mem_cons.mp ha with rfl | ha
    · exact ⟨b, List.mem_cons_self, hb⟩
    · obtain ⟨b', hb', he⟩ := ih hrest ha
      exact ⟨b', List.mem_cons_of_mem _ hb', he⟩

/-- The scope of an element that ends a lifecycle is among those the pre-pass collects. -/
theorem mem_endedScopes {payload : List Json} {raw : Json} {s : Signal} {closed : List (List (Option String))}
    (hp : Signal.parseSignal raw = .ok s) (hl : s.label ≠ "") (hb : EndsInBatch payload raw)
    (hc : SignalCopy.endedScopes payload = .ok closed) : SignalCopy.scope raw ∈ closed := by
  obtain ⟨x, hx, hk, hsc⟩ := hb
  have hlabel : (x.get? "label").elim (some "") Json.text? = some s.label := by
    have hh := hsc.trans (Signal.parseSignal_ok hp).1
    simp only [SignalCopy.scope, SignalCopy.scopeFields, Signal.scope, List.map_cons, List.cons.injEq] at hh
    exact hh.2.2.2.2.2.1
  have htruthy : ((x.get? "label").getD .null).truthy = true := by
    cases hx : x.get? "label" with
    | none => simp [hx, hl.symm] at hlabel
    | some v => cases v <;> simp_all [Json.text?, Json.truthy]
  have hended : ∀ o, SignalCopy.endedScope x = .ok o → o = some (SignalCopy.scope raw) := by
    intro o ho
    unfold SignalCopy.endedScope at ho
    simp only [hk, htruthy, and_self, if_true] at ho
    split at ho
    · simp at ho
    · split at ho
      · rw [← hsc]
        exact (Except.ok.inj ho).symm
      · simp at ho
  unfold SignalCopy.endedScopes at hc
  cases hm : payload.mapM SignalCopy.endedScope with
  | error e => simp [hm, Except.map] at hc
  | ok os =>
    simp only [hm, Except.map, Except.ok.injEq] at hc
    subst hc
    obtain ⟨o, ho, he⟩ := mapM_ok hm hx
    rw [hended o he] at ho
    simpa [List.reduceOption] using ho

/-- However a batch is served and wherever its process stops, an intent whose lifecycle the batch ends, or
has an end of that time or later on record, gets no request and no write. -/
theorem ended_never_opened {c : LaneCall} {symbols : SymbolMap} {payload : List Json} {api : Option Api}
    {destination : String} {verified : Bool} {raw : Json} {s : Signal} (h : Reachable unrestricted ⟨true, w⟩)
    (hv : Leaves (SignalCopy.receive c symbols payload api destination verified) w v)
    (hp : Signal.parseSignal raw = .ok s) (hl : s.label ≠ "")
    (hb : EndsInBatch payload raw ∨ EndOnRecord w c.lane raw s.timestampUtc) :
    Unopened w v c.lane raw s.timestampUtc := by
  obtain ⟨hI, hi⟩ := h.sound ⟨rfl, rfl⟩
  -- The batch binds itself to the ended lifecycle and to the signals that are on record when it begins.
  obtain ⟨closed, hclosed, hbarred⟩ : ∃ closed : List (List (Option String)),
      (∀ ended, SignalCopy.endedScopes payload = .ok ended → ∀ x ∈ closed, x ∈ ended)
        ∧ (SignalCopy.scope raw ∈ closed ∨ EndOnRecord w c.lane raw s.timestampUtc) := by
    rcases hb with hb | hb
    · refine ⟨[SignalCopy.scope raw], fun ended he x hx => ?_, Or.inl (by simp)⟩
      rw [List.mem_singleton.mp hx]
      exact mem_endedScopes hp hl hb he
    · exact ⟨[], by simp, Or.inr hb⟩
  have hst : Steps (batchRules closed ((w.lanes c.lane).signals.map SignalRow.id)) w v := by
    refine hv.steps (wp_steps (SignalCopy.receive_idle hI (hi rfl) hclosed (fun k hk => ?_) fun hl => ?_))
    · simpa [batchRules] using hk
    · simp [batchRules, unrestricted] at hl
  have hbatch := BatchInv.steps (l := c.lane) hI hst
  have hreqs : ∀ r ∈ (v.lanes c.lane).signals, r.kind = "intent" → SignalCopy.scope r.payload = SignalCopy.scope raw →
      r.emitted = s.timestampUtc.isoformat → r.request ≠ none →
      ∃ p ∈ (w.lanes c.lane).signals, p.id = r.id ∧ p.request = r.request := by
    intro r hr hk hsc hem hreq
    rcases hbatch.requests r hr hk hreq with hh | ⟨hn, hlater⟩
    · exact hh
    · rcases hbarred with hb | ⟨q, hq, hend, hsq, u, hu, hle⟩
      · exact absurd (hsc ▸ hb) hn
      · refine absurd ?_ (hlater q hq hend (hsq.trans hsc.symm))
        rw [hem, hu]
        exact (Instant.isoformat_le_iff _ _).mpr hle
  refine ⟨hreqs, fun r hr hk hsc hem x session call j he hx hid => ?_⟩
  rcases hbatch.writes x session call j he hx with hw | hn
  · exact hw
  -- The row of a write has a request, so a write of this batch is for a signal the batch brought.
  · have hleaves : Leaves (Op.batch c symbols payload api destination verified).run w v := hv.discard
    obtain ⟨_, hreach⟩ := h.leaves (by simp [Op.Allowed, unrestricted]) hleaves
    obtain ⟨p, hpm, hsp⟩ := (hreach.laneInv ⟨rfl, rfl⟩ c.lane).sent x session call j he hx
    obtain rfl := (hreach.sound ⟨rfl, rfl⟩).inv.row_eq hpm hr (hsp.id.trans hid)
    obtain ⟨q, hq, hqid, _⟩ := hreqs p hr hk hsc hem (by simp [hsp.request])
    exact absurd (List.mem_map.mpr ⟨q, hq, hqid.trans hid.symm⟩) hn

end Batches

attribute [local instance] sampleHost

/-- The sample intent as it is read. -/
def sampleIntent : Signal where
  shape := .p01
  clientEventId := "s1"
  machineId := "PC"
  source := "panel"
  connectionName := ""
  accountId := ""
  kind := "intent"
  label := "P01RR_1"
  timestampUtc := noon 20
  symbol := "EURUSD"
  side := "BUY"
  entry := .ofNat 2
  stopLoss := .ofNat 1
  takeProfit := .ofNat 3
  copyOrderType := ""
  clientEventId_bounds := by decide
  machineId_bounds := sampleEvent.machine_bounds
  source_bounds := by decide
  kind_bounds := by decide

/-- The intent stands before its cancel in the batch. -/
theorem ended_never_opened_batch :
    Unopened (started sampleMemory)
      ((SignalCopy.receive (Controller.mainCall sampleMemory) sampleMemory.symbols
        [sampleSignal "intent" "s1" 20, sampleSignal "cancelled" "s2" 25] sampleMemory.api "A" true).eval sampleAnswers
          (started sampleMemory)).1 .main (sampleSignal "intent" "s1" 20) (noon 20) :=
  ended_never_opened (s := sampleIntent) (reachable_started unrestricted sampleMemory) (.done sampleAnswers) rfl
    (by decide) (Or.inl ⟨sampleSignal "cancelled" "s2" 25, by simp, by decide, by decide⟩)

end MatchTrader
