import MatchTrader.Invariant

/-! What the transactions of the capture store commit, as steps, and the rules for the
programs that run them. -/

namespace MatchTrader

open Durable

theorem arith_eq_ok {α : Type} {x : Except Decimal.Signal α} {a : α} : arith x = .ok a ↔ x = .ok a := by
  cases x <;> simp [arith, Except.mapError]

/-- The journals agree on all that guards a step. -/
def Journal.Passive (j k : Journal) : Prop :=
  k = { j with links := k.links, fills := k.fills, quantities := k.quantities, positions := k.positions,
               schemaVersion := k.schemaVersion }

namespace Journal.Passive

variable {j k l : Journal}

theorem refl (j : Journal) : j.Passive j := rfl

theorem trans (h : j.Passive k) (hh : k.Passive l) : j.Passive l := by
  unfold Journal.Passive at *
  rw [hh, h]

theorem trades (h : j.Passive k) : k.trades = j.trades := by rw [h]

theorem events (h : j.Passive k) : k.events = j.events := by rw [h]

theorem attempts (h : j.Passive k) : k.attempts = j.attempts := by rw [h]

theorem papers (h : j.Passive k) : k.papers = j.papers := by rw [h]

theorem observations (h : j.Passive k) : k.observations = j.observations := by rw [h]

theorem actions (h : j.Passive k) : k.actions = j.actions := by rw [h]

theorem reasons (h : j.Passive k) : k.reasons = j.reasons := by rw [h]

theorem broker (h : j.Passive k) : k.broker = j.broker := by rw [h]

theorem trade? (h : j.Passive k) (i : String) : k.trade? i = j.trade? i := by rw [Journal.trade?, h.trades]; rfl

theorem link (j : Journal) (trade nativeId evidence at_ : String) (side : Leg) (scope : LegScope) (kind : Kind) :
    j.Passive (j.link trade side scope kind nativeId evidence at_) := by
  unfold Journal.link
  split <;> rfl

theorem observeQuantities (j : Journal) (q : QuantityRow) : j.Passive (j.observeQuantities q) := by
  unfold Journal.observeQuantities
  split
  · split <;> rfl
  · rfl

theorem observePosition (j : Journal) (p : PositionRow) : j.Passive (j.observePosition p) := rfl

theorem fill {f : FillRow} (h : j.fill f = .ok k) : j.Passive k := by
  unfold Journal.fill at h
  split at h
  · split at h
    · obtain rfl := Except.ok.inj h
      rfl
    · simp at h
  · obtain rfl := Except.ok.inj h
    exact .trans (k := { j with fills := j.fills ++ [f] }) rfl (.trans (.link ..) (.link ..))

theorem sourceEvent {trade : String} {e : CaptureEvent} (h : j.sourceEvent trade e = .ok k) :
    j.Passive k := by
  let first := j.link trade .source (.source e.scope) .order e.orderId "native order" e.emittedAt.isoformat
  let second := if e.positionId ≠ "" ∧ (e.kind = .fill ∨ e.kind = .position) then
      first.link trade .source (.source e.scope) .position e.positionId "native relationship" e.emittedAt.isoformat
    else first
  have hs : j.Passive second := by
    unfold second
    split
    · exact .trans (.link ..) (.link ..)
    · exact .link ..
  have ht : ∃ l, second.Passive l ∧ ∃ q, k = (l.observed e).observeQuantities q := by
    by_cases hf : e.kind = .fill ∧ e.executionId ≠ ""
    · simp only [Journal.sourceEvent, if_pos hf, bind_eq_ok] at h
      obtain ⟨l, hl, h⟩ := h
      exact ⟨l, .fill hl, _, (Except.ok.inj h).symm⟩
    · simp only [Journal.sourceEvent, if_neg hf, bind_eq_ok] at h
      obtain ⟨l, hl, h⟩ := h
      exact ⟨l, Except.ok.inj hl ▸ .refl _, _, (Except.ok.inj h).symm⟩
  obtain ⟨l, hl, q, rfl⟩ := ht
  refine hs.trans (hl.trans (.trans ?_ (.observeQuantities ..)))
  unfold Journal.observed
  split
  · split
    · exact .observePosition ..
    · exact .refl _
  · exact .refl _

theorem update (j : Journal) (i : String) (u : TradeUpdate) (now : String) :
    (j.updateTrade i (u.apply now)).Passive (j.update i u now) := by
  unfold Journal.update
  simp only
  split
  · exact .refl _
  · split
    · exact .refl _
    · split
      · exact .trans (.trans (.link ..) (.link ..)) (.observeQuantities ..)
      · exact .trans (.link ..) (.link ..)

end Journal.Passive

namespace Journal

variable (j : Journal) (i : String) (u : TradeUpdate) (now : String)

@[simp] theorem update_trade? (k : String) :
    (j.update i u now).trade? k = if k = i then (j.trade? i).map (u.apply now) else j.trade? k :=
  (Passive.update j i u now).trade? k ▸ trade?_updateTrade j i k fun _ => rfl

variable {j i} in
theorem update_trade?_self {t : TradeRow} (h : j.trade? i = some t) :
    (j.update i u now).trade? i = some (u.apply now t) := by simp [h]

@[simp] theorem update_attempts : (j.update i u now).attempts = j.attempts := (Passive.update j i u now).attempts

@[simp] theorem update_papers : (j.update i u now).papers = j.papers := (Passive.update j i u now).papers

@[simp] theorem update_events : (j.update i u now).events = j.events := (Passive.update j i u now).events

@[simp] theorem update_observations : (j.update i u now).observations = j.observations :=
  (Passive.update j i u now).observations

@[simp] theorem update_actions : (j.update i u now).actions = j.actions := (Passive.update j i u now).actions

@[simp] theorem update_reasons : (j.update i u now).reasons = j.reasons := (Passive.update j i u now).reasons

end Journal

variable [Host] {R : Rules} {w v : World} {j k : Journal}

theorem Journal.Passive.step (h : w.journal.Passive j) : Step R w { w with journal := j } := by
  rw [h]
  exact .passive ..

/-- The journal is reached from the world's own, by steps that leave attempts and evidence alone. -/
structure Recorded (R : Rules) (w : World) (j : Journal) : Prop where
  steps : Steps R w { w with journal := j }
  attempts : j.attempts = w.journal.attempts
  observations : j.observations = w.journal.observations

namespace Recorded

theorem refl : Recorded R w w.journal := ⟨.refl, rfl, rfl⟩

theorem passive (h : Recorded R w j) (hp : j.Passive k) : Recorded R w k where
  steps := h.steps.tail (Journal.Passive.step (w := { w with journal := j }) hp)
  attempts := hp.attempts.trans h.attempts
  observations := hp.observations.trans h.observations

theorem change (h : Recorded R w j) {i : String} {f : TradeRow → TradeRow} (hf : ∀ t, (f t).tradeId = t.tradeId)
    (hc : ∀ t, j.trade? i = some t → TradeChange { w with journal := j } t (f t)) :
    Recorded R w (j.updateTrade i f) where
  steps := h.steps.tail (.change (w := { w with journal := j }) hf hc)
  attempts := h.attempts
  observations := h.observations

theorem newTrade (h : Recorded R w j) {t : TradeRow} (hf : j.trade? t.tradeId = none) (hb : ¬ t.placed)
    (hs : t.state = .observed) : Recorded R w { j with trades := j.trades ++ [t] } where
  steps := h.steps.tail (.newTrade (w := { w with journal := j }) hf hb hs)
  attempts := h.attempts
  observations := h.observations

theorem event (h : Recorded R w j) (row : EventRow) : Recorded R w { j with events := j.events ++ [row] } where
  steps := h.steps.tail (.event (w := { w with journal := j }) row)
  attempts := h.attempts
  observations := h.observations

end Recorded

theorem Journal.recordTrade_recorded {w₀ : World} {t : TradeRow} {e : CaptureEvent} {now : String}
    (hj : Recorded R w₀ j) (hn : t.destination = "" → ∀ o ∈ j.observations, o.tradeId ≠ t.tradeId)
    (h : j.recordTrade t e now = .ok k) : Recorded R w₀ k := by
  unfold Journal.recordTrade at h
  rw [bind_eq_ok] at h
  obtain ⟨j₁, h₁, h⟩ := h
  extract_lets j₂ j₃ j₄ j₅ position j₆ at h
  obtain rfl := Except.ok.inj h
  have h₂ : Recorded R w₀ j₂ :=
    (hj.passive (.sourceEvent h₁)).change (fun _ => rfl) fun _ _ => .of_kept rfl rfl rfl rfl rfl rfl rfl
  have h₃ : Recorded R w₀ j₃ := by
    unfold j₃
    split
    · exact h₂.change (fun _ => rfl) fun _ _ => .of_kept rfl rfl rfl rfl rfl rfl rfl
    · exact h₂
  have h₄ (hd : t.destination = "") : Recorded R w₀ j₄ := by
    refine h₃.change (fun _ => rfl) fun r hr => ⟨rfl, Or.inr ⟨id, Or.inl⟩, fun hp => Or.inr ⟨hp, rfl⟩, id, ?_⟩
    rintro ⟨o, ho, hi⟩
    refine absurd ?_ (hn hd o ((h₃.observations.trans hj.observations.symm) ▸ ho))
    exact hi.trans (Rows.lookup_mem hr).2
  have h₅ : Recorded R w₀ j₅ := by
    unfold j₅
    split
    · next hd =>
      split
      · refine (h₄ hd).change (fun _ => rfl) fun _ _ => .of_same rfl rfl rfl rfl rfl rfl (Or.inr ⟨?_, ?_⟩)
        · exact fun _ => rfl
        · exact fun _ => Or.inr rfl
      · exact h₄ hd
    · exact h₃
  have h₆ : Recorded R w₀ j₆ := by
    unfold j₆
    split
    · exact h₅.change (fun _ => rfl) fun _ _ => .of_kept rfl rfl rfl rfl rfl rfl rfl
    · exact h₅
  split
  · exact h₆.change (fun _ => rfl) fun _ _ => .of_kept rfl rfl rfl rfl rfl rfl rfl
  · exact h₆

/-- A trade without a broker identity or without an account has no read-back. -/
theorem Inv.unobserved (hI : Inv w) {t : TradeRow} (ht : w.journal.trade? t.tradeId = some t)
    (h : ¬ t.placed ∨ t.destination = "") : ∀ o ∈ w.journal.observations, o.tradeId ≠ t.tradeId := by
  intro o ho hi
  obtain ⟨u, hu, hp⟩ := hI.evidenced o ho
  obtain rfl : u = t := Option.some.inj (hu.symm.trans (hi ▸ ht))
  rcases h with h | h
  · exact h hp
  · exact hI.located _ u ht hp h

omit [Host] in
theorem Journal.mem_of_tradeOf {e : CaptureEvent} {t : TradeRow} (h : j.tradeOf e = some t) : t ∈ j.trades := by
  unfold Journal.tradeOf at h
  split at h
  · exact (Rows.lookup_mem h).1
  · split at h
    · split at h
      · next u hu =>
        obtain rfl := Option.some.inj h
        have hm := List.mem_filterMap.mp (hu ▸ List.mem_singleton_self u)
        obtain ⟨l, _, hl⟩ := hm
        exact (Rows.lookup_mem hl).1
      · simp at h
    · simp at h

theorem Journal.recordEvent_recorded (hI : Inv w) {e : CaptureEvent} {now identity : String} {a : EventRow × Bool}
    (h : w.journal.recordEvent e now identity = .ok (a, k)) : Recorded R w k := by
  unfold Journal.recordEvent at h
  extract_lets digest key rest t₀ at h
  have hr (trade : Option TradeRow) (j : Journal) (hj : Recorded R w j)
      (hn : ∀ t, trade = some t → t.destination = "" → ∀ o ∈ j.observations, o.tradeId ≠ t.tradeId)
      (h : rest (trade, j) = .ok (a, k)) : Recorded R w k := by
    cases trade with
    | none =>
      simp only [rest, bind_eq_ok] at h
      obtain ⟨l, hl, h⟩ := h
      obtain rfl := Except.ok.inj hl
      simp only [Except.ok.injEq, Prod.mk.injEq] at h
      exact h.2 ▸ hj.event _
    | some t =>
      simp only [rest, bind_eq_ok] at h
      obtain ⟨l, hl, h⟩ := h
      simp only [Except.ok.injEq, Prod.mk.injEq] at h
      exact h.2 ▸ (Journal.recordTrade_recorded hj (hn t rfl) hl).event _
  split at h
  · split at h
    · simp at h
    · simp only [Except.ok.injEq, Prod.mk.injEq] at h
      exact h.2 ▸ .refl
  split at h
  · next t ht =>
    refine hr (some t) w.journal .refl (fun u hu hd => ?_) h
    obtain rfl := Option.some.inj hu
    exact hI.unobserved (Rows.lookup_of_mem hI.tradeIds (Journal.mem_of_tradeOf ht)) (Or.inr hd)
  · split at h
    · exact hr none w.journal .refl (fun u hu => by simp at hu) h
    · split at h
      · simp [bind, Except.bind] at h
      · next hn =>
        have hf : w.journal.trade? identity = none := by
          simpa only [Journal.trade?, Rows.lookup_eq_none_iff, Bool.not_eq_true, Rows.has_eq_false_iff] using hn
        have hj : Recorded R w { w.journal with trades := w.journal.trades ++ [t₀] } :=
          Recorded.refl.newTrade hf (by simp [TradeRow.placed, t₀]) rfl
        refine hr (some t₀) _ hj (fun u hu _ o ho hi => ?_) h
        obtain rfl := Option.some.inj hu
        obtain ⟨v, hv, _⟩ := hI.evidenced o ho
        rw [hi, hf] at hv
        simp at hv

omit [Host] in
theorem Journal.recordTrade_kept {t : TradeRow} {e : CaptureEvent} {now : String}
    (h : j.recordTrade t e now = .ok k) : k.events = j.events ∧ k.attempts = j.attempts := by
  unfold Journal.recordTrade at h
  rw [bind_eq_ok] at h
  obtain ⟨j₁, h₁, h⟩ := h
  have hp := Journal.Passive.sourceEvent h₁
  have hs := And.intro hp.events hp.attempts
  extract_lets j₂ j₃ j₄ j₅ position j₆ at h
  obtain rfl := Except.ok.inj h
  have h₃ : j₃.events = j.events ∧ j₃.attempts = j.attempts := by unfold j₃; split <;> exact hs
  have h₅ : j₅.events = j.events ∧ j₅.attempts = j.attempts := by
    unfold j₅
    split
    · split <;> exact h₃
    · exact h₃
  have h₆ : j₆.events = j.events ∧ j₆.attempts = j.attempts := by unfold j₆; split <;> exact h₅
  split <;> exact h₆

theorem Journal.recordEvent_attempts {e : CaptureEvent} {now identity : String} {a : EventRow × Bool}
    (h : j.recordEvent e now identity = .ok (a, k)) : k.attempts = j.attempts := by
  unfold Journal.recordEvent at h
  extract_lets digest key rest t₀ at h
  have hr (trade : Option TradeRow) (l : Journal) (hl : l.attempts = j.attempts)
      (h : rest (trade, l) = .ok (a, k)) : k.attempts = j.attempts := by
    cases trade with
    | none =>
      simp only [rest, bind_eq_ok] at h
      obtain ⟨m, hm, h⟩ := h
      obtain rfl := Except.ok.inj hm
      exact (congrArg (fun r => r.2.attempts) (Except.ok.inj h)).symm.trans hl
    | some t =>
      simp only [rest, bind_eq_ok] at h
      obtain ⟨m, hm, h⟩ := h
      exact (congrArg (fun r => r.2.attempts) (Except.ok.inj h)).symm.trans ((Journal.recordTrade_kept hm).2.trans hl)
  split at h
  · split at h
    · simp at h
    · exact (congrArg (fun r => r.2.attempts) (Except.ok.inj h)).symm
  split at h
  · next t _ => exact hr (some t) j rfl h
  · split at h
    · exact hr none j rfl h
    · split at h
      · simp [bind, Except.bind] at h
      · exact hr (some t₀) { j with trades := j.trades ++ [t₀] } rfl h

/-- Recording an event finds the row with its key, or puts one with a new key last. -/
theorem Journal.recordEvent_cases {e : CaptureEvent} {now identity : String} {row : EventRow} {again : Bool}
    (h : j.recordEvent e now identity = .ok ((row, again), k)) : row.eventKey = (e.machine, e.eventId)
      ∧ (again = true ∧ row ∈ j.events ∧ k = j ∨ again = false ∧ row.payload = e ∧ k.events = j.events ++ [row]
        ∧ ∀ r ∈ j.events, r.eventKey ≠ row.eventKey) := by
  unfold Journal.recordEvent at h
  extract_lets digest key rest t₀ at h
  have hr (trade : Option TradeRow) (l : Journal) (hl : l.events = j.events)
      (h : rest (trade, l) = .ok ((row, again), k)) :
      row.eventKey = (e.machine, e.eventId) ∧ again = false ∧ row.payload = e ∧ k.events = j.events ++ [row] := by
    have hh : ∃ m : Journal, m.events = j.events ∧ row.eventKey = (e.machine, e.eventId) ∧ again = false
        ∧ row.payload = e ∧ k.events = m.events ++ [row] := by
      cases trade with
      | none =>
        simp only [rest, bind_eq_ok] at h
        obtain ⟨m, hm, h⟩ := h
        obtain rfl := Except.ok.inj hm
        simp only [Except.ok.injEq, Prod.mk.injEq] at h
        obtain ⟨⟨rfl, rfl⟩, rfl⟩ := h
        exact ⟨l, hl, rfl, rfl, rfl, rfl⟩
      | some t =>
        simp only [rest, bind_eq_ok] at h
        obtain ⟨m, hm, h⟩ := h
        simp only [Except.ok.injEq, Prod.mk.injEq] at h
        obtain ⟨⟨rfl, rfl⟩, rfl⟩ := h
        exact ⟨m, (Journal.recordTrade_kept hm).1.trans hl, rfl, rfl, rfl, rfl⟩
    obtain ⟨m, hm, hkey, ha, hp, hk⟩ := hh
    exact ⟨hkey, ha, hp, hk.trans (by rw [hm])⟩
  split at h
  · next old hold =>
    split at h
    · simp at h
    · simp only [Except.ok.injEq, Prod.mk.injEq] at h
      obtain ⟨⟨rfl, rfl⟩, rfl⟩ := h
      obtain ⟨hm, hkey⟩ := Rows.lookup_mem hold
      exact ⟨hkey, Or.inl ⟨rfl, hm, rfl⟩⟩
  next hnone =>
  suffices hnew : row.eventKey = key ∧ again = false ∧ row.payload = e ∧ k.events = j.events ++ [row] by
    obtain ⟨hkey, ha, hp, hk⟩ := hnew
    refine ⟨hkey, Or.inr ⟨ha, hp, hk, fun r hm heq => ?_⟩⟩
    have hne := List.find?_eq_none.mp hnone r hm
    exact hne (decide_eq_true (heq.trans hkey))
  split at h
  · next t _ => exact hr (some t) j rfl h
  · split at h
    · exact hr none j rfl h
    · split at h
      · simp [bind, Except.bind] at h
      · exact hr (some t₀) { j with trades := j.trades ++ [t₀] } rfl h

/-- An event that was not on record before is the last on record. -/
theorem Journal.recordEvent_new {e : CaptureEvent} {now identity : String} {row : EventRow}
    (h : j.recordEvent e now identity = .ok ((row, false), k)) : row.payload = e ∧ k.events = j.events ++ [row] := by
  rcases (Journal.recordEvent_cases h).2 with ⟨hf, _⟩ | ⟨_, hp, hk, _⟩
  · cases hf
  · exact ⟨hp, hk⟩

/-- The journal is reached from the world's own by storing read-backs. -/
structure Observed (R : Rules) (w : World) (j : Journal) : Prop where
  steps : Steps R w { w with journal := j }
  trades : j.trades = w.journal.trades
  events : j.events = w.journal.events
  attempts : j.attempts = w.journal.attempts
  papers : j.papers = w.journal.papers
  broker : j.broker = w.journal.broker

namespace Observed

theorem refl : Observed R w w.journal := ⟨.refl, rfl, rfl, rfl, rfl, rfl⟩

theorem trade? (h : Observed R w j) (i : String) : j.trade? i = w.journal.trade? i := by
  rw [Journal.trade?, h.trades]
  rfl

theorem passive (h : Observed R w j) (hp : j.Passive k) : Observed R w k where
  steps := h.steps.tail (Journal.Passive.step (w := { w with journal := j }) hp)
  trades := hp.trades.trans h.trades
  events := hp.events.trans h.events
  attempts := hp.attempts.trans h.attempts
  papers := hp.papers.trans h.papers
  broker := hp.broker.trans h.broker

theorem observe (h : Observed R w j) {o : ObservationRow} (ho : Observes w o) :
    Observed R w (j.observeDestination o) where
  steps := by
    refine h.steps.tail (.observe (w := { w with journal := j }) ⟨?_⟩)
    obtain ⟨t, ht, hp, hs, hh⟩ := ho.trade
    exact ⟨t, (h.trade? _).trans ht, hp, by simpa only [Journal.destinationScope, h.broker] using hs, hh⟩
  trades := h.trades
  events := h.events
  attempts := h.attempts
  papers := h.papers
  broker := h.broker

end Observed

section ReadBacks

variable {t : TradeRow} {destination now : String}

theorem Journal.observePositions_observed (ht : w.journal.trade? t.tradeId = some t)
    (hd : t.destination = destination) {ps : List Position}
    (hps : ∀ p ∈ ps, t.placed ∧ p.symbol = t.symbol ∧ p.side = t.side
      ∧ Reported w.trace destination p.id p.symbol p.side p.openTime p.openTimeMillis) (hj : Observed R w j) :
    Observed R w (ps.foldl (Journal.observePositionOf t.tradeId destination now) j) := by
  induction ps generalizing j with
  | nil => exact hj
  | cons p ps ih =>
    refine ih (fun q hq => hps q (List.mem_cons_of_mem _ hq)) ?_
    obtain ⟨hp, hs, hx, hr⟩ := hps p List.mem_cons_self
    have hk := (hj.passive (.link _ t.tradeId p.id "broker order/position relationship" now .destination
      (j.destinationScope destination) .position)).passive (.observePosition _
        ⟨.destination, j.destinationScope destination, p.id, p.volume, now⟩)
    refine hk.observe ⟨t, ht, hp, ?_, hs, hx, hd ▸ hr, fun hc => by simp at hc⟩
    simp only [Journal.destinationScope, hj.broker, hd]

theorem Journal.observeClosed_observed (ht : w.journal.trade? t.tradeId = some t)
    (hd : t.destination = destination) {cs : List ClosedTrade}
    (hcs : ∀ c ∈ cs, t.placed ∧ c.symbol = t.symbol ∧ c.side = t.side
      ∧ ∃ all, .readClosed destination all ∈ w.trace ∧ c ∈ all) (hj : Observed R w j) :
    Observed R w (cs.foldl (Journal.observeClosedOf t.tradeId destination now) j) := by
  induction cs generalizing j with
  | nil => exact hj
  | cons c cs ih =>
    refine ih (fun q hq => hcs q (List.mem_cons_of_mem _ hq)) ?_
    obtain ⟨hp, hs, hx, all, hr, hc⟩ := hcs c List.mem_cons_self
    rw [← hd] at hr
    refine hj.observe ⟨t, ht, hp, ?_, hs, hx, Or.inr ⟨all, hr, c, hc, rfl, rfl, rfl, rfl, rfl⟩,
      fun _ => ⟨all, hr, c, hc, rfl, rfl, rfl, rfl, rfl⟩⟩
    simp only [Journal.destinationScope, hj.broker, hd]

end ReadBacks

end MatchTrader
