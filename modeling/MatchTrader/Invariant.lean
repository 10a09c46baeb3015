import MatchTrader.Transitions

/-! The invariant that the programs themselves rely on: keys are unique, a placed trade
has its account, evidence belongs to placed trades, and whatever was sent or decided
left its row behind. -/

namespace MatchTrader

open Durable

namespace ObservationRow

variable (o r : ObservationRow)

@[simp] theorem cleaned_key : o.cleaned.key = o.key := rfl

@[simp] theorem refresh_key : (o.refresh r).key = r.key := by unfold refresh; split <;> rfl

@[simp] theorem fillTimes_key : (o.fillTimes r).key = r.key := rfl

end ObservationRow

namespace Journal

/-- A stored read-back is an old row left alone, an old row of the same key brought up to
date, or the first of its key. -/
theorem mem_observeDestination {j : Journal} {o r : ObservationRow} (h : r ∈ (j.observeDestination o).observations) :
    (r ∈ j.observations ∧ r.key ≠ o.key)
      ∨ (∃ q ∈ j.observations, q.key = o.key ∧ r = o.cleaned.fillTimes (o.cleaned.refresh q))
      ∨ ((∀ q ∈ j.observations, q.key ≠ o.key) ∧ r = o.cleaned.fillTimes o.cleaned) := by
  simp only [observeDestination, Rows.mem_updateWhere, ObservationRow.cleaned_key] at h
  obtain ⟨q, hq, rfl⟩ := h
  rcases Rows.mem_upsert hq with ⟨s, hs, rfl⟩ | ⟨rfl, hn⟩
  · by_cases hk : s.key = o.key
    · exact Or.inr (Or.inl ⟨s, hs, hk, by simp [hk]⟩)
    · exact Or.inl (by simp [hk, hs])
  · exact Or.inr (Or.inr ⟨hn, by simp⟩)

@[simp] theorem trade?_dispatching (j : Journal) (identity requestId destination now : String) (key : ActionKey)
    (action : Action) (request : Call) (i : String) :
    (j.dispatching identity key requestId action destination request now).trade? i =
      if i = identity then (j.trade? identity).map (TradeRow.setState .dispatching) else j.trade? i :=
  trade?_updateTrade j identity i fun _ => rfl

theorem claim_ok {j j' : Journal} {identity requestId destination now : String} {key : ActionKey}
    {action : Action} {request : Call}
    (h : claim identity key requestId action destination request now j = .ok (true, j')) :
    (∃ t, j.trade? identity = some t ∧ t.state ≠ .uncertain ∧ t.state ≠ .dispatching ∧ t.state ≠ .resolved
      ∧ (key = .create → ¬ t.placed))
      ∧ (∀ a ∈ j.attempts, a.key ≠ (identity, key))
      ∧ j' = j.dispatching identity key requestId action destination request now := by
  unfold claim at h
  split at h
  · simp at h
  · next t ht =>
    split at h
    · simp at h
    next hs =>
    split at h
    · simp at h
    next hc =>
    split at h
    · simp at h
    next ha =>
    split at h
    · simp at h
    simp only [not_or] at hs
    simp only [Bool.not_eq_true, Rows.has_eq_false_iff] at ha
    simp only [Except.ok.injEq, Prod.mk.injEq, true_and] at h
    exact ⟨⟨t, ht, hs.1, hs.2.1, hs.2.2, fun hk hp => hc ⟨hk, hp⟩⟩, ha, h.symm⟩

theorem finish_ok {j j' : Journal} {identity now : String} {key : ActionKey} {state : Outcome}
    (h : j.finish identity key state now = .ok j') :
    ∃ t, j.trade? identity = some t ∧ j' = { j with
      attempts := Rows.updateWhere (fun a => a.key = (identity, key)) (fun a => { a with state }) j.attempts
      actions := Rows.updateWhere (fun a => a.key = (identity, key))
        (fun a => { a with outcome := state, brokerOrderId := t.brokerOrderId,
                           brokerPositionId := t.brokerPositionId, updatedAt := now }) j.actions } := by
  unfold finish at h
  split at h
  · simp at h
  · next t ht => exact ⟨t, ht, by simpa using h.symm⟩

theorem trade?_recover (j : Journal) (i : String) :
    j.recover.trade? i = (j.trade? i).map fun t => if t.state = .dispatching then t.setState .uncertain else t := by
  simp only [trade?, recover]
  rw [Rows.lookup_updateWhere (f := TradeRow.setState .uncertain) fun _ => rfl]
  simp only [decide_eq_true_eq]

end Journal

variable {w v : World}

/-- A change of a trade that leaves its identity alone. -/
theorem TradeChange.of_same {t u : TradeRow} (hi : u.tradeId = t.tradeId) (hd : u.destination = t.destination)
    (ho : u.brokerOrderId = t.brokerOrderId) (hp : u.brokerPositionId = t.brokerPositionId)
    (hs : u.symbol = t.symbol) (hx : u.side = t.side)
    (hf : w.faulted = true ∨ (t.state = .resolved → u.state = .resolved) ∧
      (t.state = .uncertain → u.state = .uncertain ∨ u.state = .resolved)) : TradeChange w t u where
  tradeId := hi
  final := hf
  located h := Or.inr ⟨by simpa only [TradeRow.placed, ho, hp] using h, hd⟩
  placed h := by simpa only [TradeRow.placed, ho, hp] using h
  evidence _ := ⟨hs, hx, hd⟩

/-- A change of a trade that leaves its state alone, too. -/
theorem TradeChange.of_kept {t u : TradeRow} (hi : u.tradeId = t.tradeId) (hd : u.destination = t.destination)
    (ho : u.brokerOrderId = t.brokerOrderId) (hp : u.brokerPositionId = t.brokerPositionId)
    (hs : u.symbol = t.symbol) (hx : u.side = t.side) (hk : u.state = t.state) : TradeChange w t u :=
  .of_same hi hd ho hp hs hx (Or.inr ⟨fun h => hk.trans h, fun h => Or.inl (hk.trans h)⟩)

theorem TradeChange.refl (t : TradeRow) : TradeChange w t t := .of_kept rfl rfl rfl rfl rfl rfl rfl

variable [Host] {R : Rules}

structure Inv (w : World) : Prop where
  opened : w.journal.broker.isSome = true ∧ w.journal.legacyMigrated = true
  tradeIds : (w.journal.trades.map TradeRow.tradeId).Nodup
  located : ∀ i t, w.journal.trade? i = some t → t.placed → t.destination ≠ ""
  evidenced : ∀ o ∈ w.journal.observations, ∃ t, w.journal.trade? o.tradeId = some t ∧ t.placed
  attempted : ∀ tw api c j, .sent (.trade tw) api c j ∈ w.trace →
    ∃ a ∈ w.journal.attempts, a.key = (tw.tradeId, tw.actionKey)
  rowIds : ∀ l, ((w.lanes l).signals.map SignalRow.id).Nodup
  formed : ∀ l, ∀ r ∈ (w.lanes l).signals, r.Formed
  captured : ∀ l, ∀ r ∈ (w.lanes l).signals, r.decision = .captured → r.request = none
  sentRow : ∀ sw api c j, .sent (.signal sw) api c j ∈ w.trace →
    ∃ r ∈ (w.lanes sw.lane).signals, r.id = sw.key ∧ r.decision ≠ .captured
  decidedRow : ∀ l m c, .decided l m c ∈ w.trace → ∃ r ∈ (w.lanes l).signals, r.id = signalId m c

namespace Step

theorem trade (h : Step R w v) {i : String} {t : TradeRow} (ht : w.journal.trade? i = some t) :
    ∃ u, v.journal.trade? i = some u ∧ TradeChange w t u := by
  cases h with
  | newTrade hf hb hs =>
    refine ⟨t, ?_, .refl t⟩
    simp only [Journal.trade?, Rows.lookup_append] at ht ⊢
    rw [ht, Option.some_or]
  | @change identity f hf h =>
    rw [Journal.trade?_updateTrade _ _ _ hf]
    by_cases hi : i = identity
    · subst hi
      exact ⟨f t, by simp [ht], h t ht⟩
    · exact ⟨t, by simp [hi, ht], .refl t⟩
  | @claim identity _ _ _ _ _ _ j h hp =>
    obtain ⟨⟨q, hq, hu, _, hr, _⟩, _, rfl⟩ := Journal.claim_ok h
    simp only [Journal.trade?_dispatching]
    by_cases hi : i = identity
    · subst hi
      obtain rfl : q = t := Option.some.inj (hq.symm.trans ht)
      refine ⟨q.setState .dispatching, by simp [hq], .of_same rfl rfl rfl rfl rfl rfl (Or.inr ?_)⟩
      exact ⟨fun he => absurd he hr, fun he => absurd he hu⟩
    · exact ⟨t, by simp [hi, ht], .refl t⟩
  | finish h hs =>
    obtain ⟨_, _, rfl⟩ := Journal.finish_ok h
    exact ⟨t, ht, .refl t⟩
  | recover =>
    simp only [Journal.trade?_recover, ht, Option.map_some, Option.some.injEq, exists_eq_left']
    split
    · next hd => exact .of_same rfl rfl rfl rfl rfl rfl (Or.inr ⟨by simp [hd], by simp [hd]⟩)
    · exact .refl t
  | _ => exact ⟨t, ht, .refl t⟩

/-- A trade that appears has no broker identity yet. -/
theorem trade_new (h : Step R w v) {i : String} {u : TradeRow} (hn : w.journal.trade? i = none)
    (hu : v.journal.trade? i = some u) : ¬ u.placed ∧ u.state = .observed := by
  cases h with
  | @newTrade t hf hb hs =>
    simp only [Journal.trade?, Rows.lookup_append] at hn hu
    rw [hn, Option.none_or] at hu
    split at hu
    · obtain rfl := Option.some.inj hu
      exact ⟨hb, hs⟩
    · simp at hu
  | @change identity f hf h =>
    rw [Journal.trade?_updateTrade _ _ _ hf] at hu
    split at hu
    · next hi => subst hi; simp [hn] at hu
    · rw [hn] at hu; simp at hu
  | @claim identity _ _ _ _ _ _ j h hp =>
    obtain ⟨⟨q, hq, _⟩, _, rfl⟩ := Journal.claim_ok h
    simp only [Journal.trade?_dispatching] at hu
    split at hu
    · next hi => subst hi; simp [hn] at hq
    · rw [hn] at hu; simp at hu
  | finish h hs =>
    obtain ⟨_, _, rfl⟩ := Journal.finish_ok h
    exact absurd (hn.symm.trans hu) (by simp)
  | recover => simp [Journal.trade?_recover, hn] at hu
  | _ => exact absurd (hn.symm.trans hu) (by simp)

theorem tradeIds (h : Step R w v) (hn : (w.journal.trades.map TradeRow.tradeId).Nodup) :
    (v.journal.trades.map TradeRow.tradeId).Nodup := by
  cases h with
  | newTrade hf hb hs => exact Rows.nodup_append hn (Rows.lookup_eq_none_iff.mp hf)
  | change hf h => exact (Rows.keys_updateWhere hf).symm ▸ hn
  | @claim identity _ _ _ _ _ _ _ h hp =>
    obtain ⟨_, _, rfl⟩ := Journal.claim_ok h
    change ((Rows.updateWhere _ (TradeRow.setState .dispatching) w.journal.trades).map TradeRow.tradeId).Nodup
    rwa [Rows.keys_updateWhere (f := TradeRow.setState .dispatching) fun _ => rfl]
  | finish h hs =>
    obtain ⟨_, _, rfl⟩ := Journal.finish_ok h
    exact hn
  | recover =>
    change ((Rows.updateWhere _ (TradeRow.setState .uncertain) w.journal.trades).map TradeRow.tradeId).Nodup
    rwa [Rows.keys_updateWhere (f := TradeRow.setState .uncertain) fun _ => rfl]
  | _ => exact hn

theorem attempt (h : Step R w v) {a : AttemptRow} (ha : a ∈ w.journal.attempts) :
    ∃ b ∈ v.journal.attempts, b.key = a.key := by
  cases h with
  | claim h hp =>
    obtain ⟨_, _, rfl⟩ := Journal.claim_ok h
    exact ⟨a, List.mem_append_left _ ha, rfl⟩
  | finish h hs =>
    obtain ⟨_, _, rfl⟩ := Journal.finish_ok h
    exact ⟨_, Rows.mem_updateWhere_of_mem ha, by split <;> rfl⟩
  | recover => exact ⟨_, Rows.mem_updateWhere_of_mem ha, by split <;> rfl⟩
  | _ => exact ⟨a, ha, rfl⟩

theorem observation (h : Step R w v) {o : ObservationRow} (ho : o ∈ v.journal.observations) :
    (∃ q ∈ w.journal.observations, q.tradeId = o.tradeId) ∨ ∃ t, w.journal.trade? o.tradeId = some t ∧ t.placed := by
  cases h with
  | claim h hp =>
    obtain ⟨_, _, rfl⟩ := Journal.claim_ok h
    exact Or.inl ⟨o, ho, rfl⟩
  | finish h hs =>
    obtain ⟨_, _, rfl⟩ := Journal.finish_ok h
    exact Or.inl ⟨o, ho, rfl⟩
  | @observe q h =>
    obtain ⟨t, ht, hp, _⟩ := h.trade
    rcases Journal.mem_observeDestination ho with ⟨ho, _⟩ | ⟨p, hp, _, rfl⟩ | ⟨_, rfl⟩
    · exact Or.inl ⟨o, ho, rfl⟩
    · exact Or.inl ⟨p, hp, by simp [ObservationRow.fillTimes, ObservationRow.refresh]; split <;> rfl⟩
    · exact Or.inr ⟨t, ht, hp⟩
  | _ => exact Or.inl ⟨o, ho, rfl⟩

theorem trace (h : Step R w v) : v.trace = w.trace ∨ ∃ e, Speaks R w e ∧ v.trace = w.trace ++ [e] := by
  cases h with
  | say h => exact Or.inr ⟨_, h, rfl⟩
  | _ => exact Or.inl rfl

theorem mem_trace (h : Step R w v) {e : Event} (he : e ∈ v.trace) : e ∈ w.trace ∨ Speaks R w e := by
  rcases h.trace with ht | ⟨f, hf, ht⟩
  · exact Or.inl (ht ▸ he)
  · rw [ht] at he
    rcases List.mem_append.mp he with he | he
    · exact Or.inl he
    · exact Or.inr (List.mem_singleton.mp he ▸ hf)

/-- A step that adds an event changes nothing else. -/
theorem mem_said (h : Step R w v) {e : Event} (he : e ∈ v.trace) :
    e ∈ w.trace ∨ (Speaks R w e ∧ v = { w with trace := w.trace ++ [e] }) := by
  cases h with
  | say h =>
    rcases List.mem_append.mp he with he | he
    · exact Or.inl he
    · obtain rfl := List.mem_singleton.mp he
      exact Or.inr ⟨h, rfl⟩
  | _ => exact Or.inl he

theorem trace_subset (h : Step R w v) {e : Event} (he : e ∈ w.trace) : e ∈ v.trace := by
  rcases h.trace with ht | ⟨f, _, ht⟩ <;> rw [ht]
  · exact he
  · exact List.mem_append_left _ he

end Step

omit [Host] in
theorem RowStep.id {l : LaneId} {r q : SignalRow} (h : RowStep R w l r q) : q.id = r.id := by cases h <;> rfl

/-- What a step leaves of a row. -/
inductive RowKept (R : Rules) (w : World) (l : LaneId) (r : SignalRow) : SignalRow → Prop
  | same : RowKept R w l r r
  | step {q : SignalRow} (h : RowStep R w l r q) : RowKept R w l r q
  | reopened (hd : r.decision = .dispatching) :
    RowKept R w l r { r with decision := .uncertain, reason := "Interrupted write; no automatic retry" }

omit [Host] in
theorem RowKept.id {l : LaneId} {r q : SignalRow} (h : RowKept R w l r q) : q.id = r.id := by
  cases h with
  | step h => exact h.id
  | _ => rfl

omit [Host] in
theorem RowKept.formed {l : LaneId} {r q : SignalRow} (h : RowKept R w l r q) (hf : r.Formed) : q.Formed := by
  cases h with
  | step h => cases h <;> exact ⟨hf.scope, hf.emitted⟩
  | _ => exact ⟨hf.scope, hf.emitted⟩

omit [Host] in
/-- A row never returns to its first state. -/
theorem RowKept.captured {l : LaneId} {r q : SignalRow} (h : RowKept R w l r q) (hq : q.decision = .captured) :
    r.decision = .captured ∧ (q.request = r.request) := by
  cases h with
  | same => exact ⟨hq, rfl⟩
  | step h =>
    cases h with
    | note hc hd => exact ⟨hc, rfl⟩
    | land hc hd ha hr => rcases hd with rfl | rfl <;> exact absurd hq (by simp)
    | unwound hc hk hd => exact absurd hq hd.1
    | paper => simp at hq
    | commit => simp at hq
    | commitCancel => simp at hq
  | reopened hd => exact absurd hq (by simp)

namespace Step

variable {l : LaneId}

theorem signals (h : Step R w v) (l : LaneId) :
    (v.lanes l).signals = (w.lanes l).signals
      ∨ (∃ r, (w.lanes l).signal? r.id = none ∧ RowBorn r ∧ (v.lanes l).signals = (w.lanes l).signals ++ [r])
      ∨ (∃ key f, (∀ r, (w.lanes l).signal? key = some r → RowStep R w l r (f r)) ∧ (∀ r, (f r).id = r.id)
        ∧ (v.lanes l).signals = Rows.updateWhere (fun r => r.id = key) f (w.lanes l).signals)
      ∨ (v.lanes l).signals = Rows.updateWhere (fun r => r.decision = .dispatching)
        (fun r => { r with decision := .uncertain, reason := "Interrupted write; no automatic retry" })
        (w.lanes l).signals := by
  cases h with
  | appear k a =>
    left
    simp only [setLane]
    split <;> simp_all
  | @insert k r hf hb =>
    by_cases hk : l = k
    · subst hk
      exact Or.inr (Or.inl ⟨r, hf, hb, by simp [setLane]⟩)
    · exact Or.inl (by simp [setLane, hk])
  | @row k key f h hf =>
    by_cases hk : l = k
    · subst hk
      exact Or.inr (Or.inr (Or.inl ⟨key, f, h, hf, by simp [setLane]⟩))
    · exact Or.inl (by simp [setLane, hk])
  | reopen k =>
    by_cases hk : l = k
    · subst hk
      exact Or.inr (Or.inr (Or.inr (by simp [setLane])))
    · exact Or.inl (by simp [setLane, hk])
  | _ => exact Or.inl rfl

theorem rowIds (h : Step R w v) (hn : ((w.lanes l).signals.map SignalRow.id).Nodup) :
    ((v.lanes l).signals.map SignalRow.id).Nodup := by
  rcases h.signals l with he | ⟨r, hf, _, he⟩ | ⟨key, f, _, hf, he⟩ | he <;> rw [he]
  · exact hn
  · exact Rows.nodup_append hn (Rows.lookup_eq_none_iff.mp hf)
  · rwa [Rows.keys_updateWhere hf]
  · rwa [Rows.keys_updateWhere
      (f := fun r : SignalRow => { r with decision := .uncertain, reason := "Interrupted write; no automatic retry" })
      fun _ => rfl]

/-- Every row after a step was kept from before it or has just been inserted. -/
theorem row_new (h : Step R w v) (hn : ((w.lanes l).signals.map SignalRow.id).Nodup) {q : SignalRow}
    (hq : q ∈ (v.lanes l).signals) :
    (∃ r ∈ (w.lanes l).signals, RowKept R w l r q) ∨ ((w.lanes l).signal? q.id = none ∧ RowBorn q) := by
  rcases h.signals l with he | ⟨r, hf, hb, he⟩ | ⟨key, f, hr, hf, he⟩ | he <;> rw [he] at hq
  · exact Or.inl ⟨q, hq, .same⟩
  · rcases List.mem_append.mp hq with hq | hq
    · exact Or.inl ⟨q, hq, .same⟩
    · obtain rfl := List.mem_singleton.mp hq
      exact Or.inr ⟨hf, hb⟩
  · obtain ⟨r, hm, rfl⟩ := Rows.mem_updateWhere.mp hq
    refine Or.inl ⟨r, hm, ?_⟩
    split
    · next hk => exact .step (hr r (Rows.lookup_eq_some_iff hn |>.mpr ⟨hm, by simpa using hk⟩))
    · exact .same
  · obtain ⟨r, hm, rfl⟩ := Rows.mem_updateWhere.mp hq
    refine Or.inl ⟨r, hm, ?_⟩
    split
    · next hd => exact .reopened (by simpa using hd)
    · exact .same

theorem row_old (h : Step R w v) (hn : ((w.lanes l).signals.map SignalRow.id).Nodup) {r : SignalRow}
    (hr : r ∈ (w.lanes l).signals) : ∃ q ∈ (v.lanes l).signals, RowKept R w l r q := by
  rcases h.signals l with he | ⟨s, _, _, he⟩ | ⟨key, f, hs, hf, he⟩ | he <;> rw [he]
  · exact ⟨r, hr, .same⟩
  · exact ⟨r, List.mem_append_left _ hr, .same⟩
  · refine ⟨_, Rows.mem_updateWhere_of_mem hr, ?_⟩
    split
    · next hk => exact .step (hs r (Rows.lookup_eq_some_iff hn |>.mpr ⟨hr, by simpa using hk⟩))
    · exact .same
  · refine ⟨_, Rows.mem_updateWhere_of_mem hr, ?_⟩
    split
    · next hd => exact .reopened (by simpa using hd)
    · exact .same

theorem opened (h : Step R w v)
    (ho : w.journal.broker.isSome = true ∧ w.journal.legacyMigrated = true) :
    v.journal.broker = w.journal.broker ∧ v.journal.legacyMigrated = true := by
  cases h with
  | claim h hp =>
    obtain ⟨_, _, rfl⟩ := Journal.claim_ok h
    exact ⟨rfl, ho.2⟩
  | finish h hs =>
    obtain ⟨_, _, rfl⟩ := Journal.finish_ok h
    exact ⟨rfl, ho.2⟩
  | _ => exact ⟨rfl, ho.2⟩

end Step

theorem Inv.step (hI : Inv w) (h : Step R w v) : Inv v where
  opened := by
    obtain ⟨hb, hm⟩ := h.opened hI.opened
    exact ⟨hb ▸ hI.opened.1, hm⟩
  tradeIds := h.tradeIds hI.tradeIds
  located i u hu hp := by
    cases ht : w.journal.trade? i with
    | none => exact absurd hp (h.trade_new ht hu).1
    | some t =>
      obtain ⟨u', hu', hc⟩ := h.trade ht
      obtain rfl := Option.some.inj (hu.symm.trans hu')
      rcases hc.located hp with hd | ⟨hp', hd⟩
      · exact hd
      · exact hd ▸ hI.located i t ht hp'
  evidenced o ho := by
    have hh : ∃ t, w.journal.trade? o.tradeId = some t ∧ t.placed := by
      rcases h.observation ho with ⟨q, hq, he⟩ | hh
      · exact he ▸ hI.evidenced q hq
      · exact hh
    obtain ⟨t, ht, hp⟩ := hh
    obtain ⟨u, hu, hc⟩ := h.trade ht
    exact ⟨u, hu, hc.placed hp⟩
  attempted tw api c j he := by
    have hh : ∃ a ∈ w.journal.attempts, a.key = (tw.tradeId, tw.actionKey) := by
      rcases h.mem_trace he with he | he
      · exact hI.attempted tw api c j he
      · cases he with
        | trade h =>
          obtain ⟨a, ha, hk, _⟩ := h.flying.attempted
          exact ⟨a, ha, hk⟩
    obtain ⟨a, ha, hk⟩ := hh
    obtain ⟨b, hb, hk'⟩ := h.attempt ha
    exact ⟨b, hb, hk'.trans hk⟩
  rowIds l := h.rowIds (hI.rowIds l)
  formed l q hq := by
    rcases h.row_new (hI.rowIds l) hq with ⟨r, hr, hk⟩ | ⟨_, hb⟩
    · exact hk.formed (hI.formed l r hr)
    · exact hb.formed
  captured l q hq hd := by
    rcases h.row_new (hI.rowIds l) hq with ⟨r, hr, hk⟩ | ⟨_, hb⟩
    · obtain ⟨hc, he⟩ := hk.captured hd
      rw [he]
      exact hI.captured l r hr hc
    · exact hb.request
  sentRow sw api c j he := by
    have hh : ∃ r ∈ (w.lanes sw.lane).signals, r.id = sw.key ∧ r.decision ≠ .captured := by
      rcases h.mem_trace he with he | he
      · exact hI.sentRow sw api c j he
      · cases he with
        | signal h =>
          obtain ⟨r, hr, hk, hq, _⟩ := h.row
          refine ⟨r, hr, hk, fun hd => ?_⟩
          rw [hI.captured _ r hr hd] at hq
          simp at hq
    obtain ⟨r, hr, hk, hd⟩ := hh
    obtain ⟨q, hq, hkq⟩ := h.row_old (hI.rowIds _) hr
    exact ⟨q, hq, hkq.id.trans hk, fun hc => hd (hkq.captured hc).1⟩
  decidedRow l m c he := by
    have hh : ∃ r ∈ (w.lanes l).signals, r.id = signalId m c := by
      rcases h.mem_trace he with he | he
      · exact hI.decidedRow l m c he
      · cases he with
        | decided row first => exact row
    obtain ⟨r, hr, hk⟩ := hh
    obtain ⟨q, hq, hkq⟩ := h.row_old (hI.rowIds _) hr
    exact ⟨q, hq, hkq.id.trans hk⟩

theorem Inv.steps (hI : Inv w) (h : Steps R w v) : Inv v :=
  invariant_of_reflTransGen h (fun _ _ hI h => hI.step h) hI

theorem Steps.signal {l : LaneId} (hI : Inv w) (h : Steps R w v) {k : String}
    (hk : ∃ r ∈ (w.lanes l).signals, r.id = k) : ∃ r ∈ (v.lanes l).signals, r.id = k :=
  (invariant_of_reflTransGen (I := fun u => Inv u ∧ ∃ r ∈ (u.lanes l).signals, r.id = k) h
    (fun _ _ hu hs => by
      obtain ⟨r, hr, he⟩ := hu.2
      obtain ⟨q, hq, hkept⟩ := hs.row_old (hu.1.rowIds l) hr
      exact ⟨hu.1.step hs, q, hq, hkept.id.trans he⟩) ⟨hI, hk⟩).2

theorem Steps.trace_subset (h : Steps R w v) {e : Event} (he : e ∈ w.trace) : e ∈ v.trace :=
  invariant_of_reflTransGen (I := fun u => e ∈ u.trace) h (fun _ _ he h => h.trace_subset he) he

end MatchTrader
