import MatchTrader.ExactSums
import MatchTrader.Recordings

/-! The totals that a snapshot derives from the executions on record, and what they are after FILLs
were delivered in any order and any number of times. -/

namespace MatchTrader

theorem Rows.filter_key {α κ : Type} [DecidableEq κ] {key : α → κ} {rows : List α} {r : α} {k : κ} (hn : (rows.map key).Nodup)
    (hr : r ∈ rows) (hk : key r = k) : rows.filter (fun q => key q = k) = [r] := by
  induction rows with
  | nil => exact absurd hr List.not_mem_nil
  | cons q rows ih =>
    obtain ⟨hq, hn⟩ := List.nodup_cons.mp hn
    rcases List.mem_cons.mp hr with rfl | hr
    · rw [List.filter_cons_of_pos (by simpa using hk), List.filter_eq_nil_iff.mpr]
      intro p hp hpk
      exact hq (List.mem_map.mpr ⟨p, hp, (of_decide_eq_true hpk).trans hk.symm⟩)
    · have hne : key q ≠ k := fun h => hq (List.mem_map.mpr ⟨r, hr, hk.trans h.symm⟩)
      rw [List.filter_cons_of_neg (by simpa using hne)]
      exact ih hn hr

/-- The order in which a snapshot reads executions. -/
def FillRow.before (a b : FillRow) : Bool :=
  a.emittedAt < b.emittedAt || (a.emittedAt = b.emittedAt && a.executionId ≤ b.executionId)

/-- What a snapshot reports of quantities, with the totals of the executions of that side and scope. -/
structure QuantityView where
  row : QuantityRow
  openFilled : Decimal
  closeFilled : Decimal
  unknownEffectFills : Nat
  isPartial : Bool

/-- What a snapshot reports of a position link. -/
structure PositionView where
  row : LinkRow
  contributors : List String
  positionSnapshot : Option (Decimal × String)
  observedOpenContribution : Decimal
  observedCloseContribution : Decimal
  allocationConfirmed : Bool

/-- A snapshot with what it derives from executions. -/
structure FilledSnapshot where
  rows : Snapshot
  quantities : List QuantityView
  positions : List PositionView

namespace Journal

def fillsOf (j : Journal) (trade : String) : List FillRow :=
  (j.fills.filter fun f => f.tradeId = trade).insertionSort fun a b => a.before b

def filled (fills : List FillRow) (effect : FillEffect) : Except Exc Decimal :=
  arith (Decimal.sum ((fills.filter fun f => f.effect = effect).map FillRow.quantity) 0)

def quantityView (j : Journal) (q : QuantityRow) : Except Exc QuantityView := do
  let known := (j.fillsOf q.tradeId).filter fun f => f.side = q.side ∧ f.scope = q.scope
  let openFilled ← filled known .opens
  let closeFilled ← filled known .closes
  return {
    row := q, openFilled, closeFilled
    unknownEffectFills := (known.filter fun f => f.effect = .unknown).length
    isPartial := q.cumulative.any (fun d => 0 < d) && q.remaining.any fun d => 0 < d }

def positionView [Host] (j : Journal) (l : LinkRow) : Except Exc PositionView := do
  let evidence := (j.fillsOf l.tradeId).filter fun f => f.side = l.side ∧ f.scope = l.scope ∧ f.positionId = l.nativeId
  let observedOpenContribution ← filled evidence .opens
  let observedCloseContribution ← filled evidence .closes
  return {
    row := l, contributors := j.owners l.side l.scope l.nativeId
    positionSnapshot := (Rows.lookup PositionRow.key (l.side, l.scope, l.nativeId) j.positions).map fun p =>
      (p.volume, p.updatedAt)
    observedOpenContribution, observedCloseContribution
    -- Observed fills alone do not prove complete allocation.
    allocationConfirmed := false }

def filledSnapshot [Host] (j : Journal) (t : TradeRow) : Except Exc FilledSnapshot := do
  let rows := j.snapshot t
  let quantities ← rows.quantities.mapM j.quantityView
  let positions ← ((rows.links.map LinkView.row).filter fun l => l.kind = .position).mapM j.positionView
  return { rows, quantities, positions }

end Journal

/-- The rows tell the same of one execution: the same trade, order, position and effect, and equal amounts. -/
def FillRow.Agrees (f g : FillRow) : Prop :=
  f.tradeId = g.tradeId ∧ f.orderId = g.orderId ∧ f.positionId = g.positionId ∧ f.effect = g.effect
    ∧ f.quantity.same g.quantity = true ∧ f.price.same g.price = true

theorem FillRow.Agrees.refl (f : FillRow) : f.Agrees f := ⟨rfl, rfl, rfl, rfl, Decimal.same_refl _, Decimal.same_refl _⟩

/-- The event is a FILL that names its execution. -/
def CaptureEvent.Executes (e : CaptureEvent) : Prop := e.kind = .fill ∧ e.executionId ≠ ""

/-- Two FILLs tell the same of an execution. -/
def CaptureEvent.Agrees (a b : CaptureEvent) : Prop :=
  a.orderId = b.orderId ∧ a.positionId = b.positionId ∧ a.fillEffect = b.fillEffect ∧ a.quantity.same b.quantity = true
    ∧ a.price.same b.price = true

/-- Every FILL names an order and an execution, and FILLs of one execution agree. -/
structure FillsAgreed (S : Set CaptureEvent) : Prop where
  named : ∀ e ∈ S, e.kind = .fill → e.orderId ≠ "" ∧ e.executionId ≠ ""
  agree : ∀ a ∈ S, ∀ b ∈ S, a.kind = .fill → b.kind = .fill → a.scope = b.scope → a.executionId = b.executionId → a.Agrees b

/-- No event id of a machine is used for two events. -/
def IdsHonest (S : Set CaptureEvent) : Prop :=
  ∀ a ∈ S, ∀ b ∈ S, a.machine = b.machine → a.eventId = b.eventId → a.same b = true

namespace Journal

variable {j k l : Journal} {f : FillRow}

theorem fill_ok (h : j.fill f = .ok k) : (k = j ∧ ∃ old ∈ j.fills, old.key = f.key ∧ old.Agrees f)
    ∨ (∀ g ∈ j.fills, g.key ≠ f.key) ∧ ({ j with fills := j.fills ++ [f] } : Journal).Aside k := by
  unfold Journal.fill at h
  split at h
  · next old hold =>
    split at h
    · next hagree =>
      obtain ⟨hmem, hkey⟩ := Rows.lookup_mem hold
      exact Or.inl ⟨(Except.ok.inj h).symm, old, hmem, hkey, hagree⟩
    · simp at h
  · next hnone =>
    obtain rfl := Except.ok.inj h
    exact Or.inr ⟨Rows.lookup_eq_none_iff.mp hnone, (Aside.link ..).trans (Aside.link ..)⟩

theorem fill_returns (h : ∀ old ∈ j.fills, old.key = f.key → old.Agrees f) : ∃ k, j.fill f = .ok k := by
  unfold Journal.fill
  split
  · next old hold =>
    obtain ⟨hmem, hkey⟩ := Rows.lookup_mem hold
    exact ⟨j, if_pos (h old hmem hkey)⟩
  · exact ⟨_, rfl⟩

/-- The executions and the events on record are in step. -/
structure Booked [Host] (S : Set CaptureEvent) (j : Journal) : Prop where
  sound : j.Sound
  given : ∀ r ∈ j.events, r.payload ∈ S
  origin : ∀ f ∈ j.fills, ∃ r ∈ j.events, r.payload.Executes ∧ r.tradeId = some f.tradeId ∧ f = execution f.tradeId r.payload
  filed : ∀ r ∈ j.events, r.payload.Executes → ∀ i, r.tradeId = some i →
    ∃ f ∈ j.fills, f.key = (execution i r.payload).key ∧ f.Agrees (execution i r.payload)
  counted : ∀ r ∈ j.events, ∀ i, r.tradeId = some i →
    ∃ q ∈ j.quantities, q.key = (i, .source, .source r.payload.scope)

variable [Host] {S : Set CaptureEvent} {e : CaptureEvent} {now identity : String}

theorem booked_created (S : Set CaptureEvent) (broker : String) : (created broker).Booked S where
  sound := sound_created broker
  given _ h := absurd h (by simp [created])
  origin _ h := absurd h (by simp [created])
  filed _ h := absurd h (by simp [created])
  counted _ h := absurd h (by simp [created])

omit [Host] in
theorem Upkeep.event_of (h : j.Upkeep k) {r : EventRow} (hr : r ∈ k.events) :
    ∃ q ∈ j.events, q.tradeId = r.tradeId ∧ q.payload = r.payload := by
  have hm : r.filed ∈ j.events.map EventRow.filed := h.filed ▸ List.mem_map_of_mem hr
  obtain ⟨q, hq, hf⟩ := List.mem_map.mp hm
  simp only [EventRow.filed, Prod.mk.injEq] at hf
  exact ⟨q, hq, hf.2.2.1, hf.2.2.2⟩

omit [Host] in
theorem Upkeep.event_to (h : j.Upkeep k) {r : EventRow} (hr : r ∈ j.events) :
    ∃ q ∈ k.events, q.tradeId = r.tradeId ∧ q.payload = r.payload := by
  have hm : r.filed ∈ k.events.map EventRow.filed := h.filed ▸ List.mem_map_of_mem hr
  obtain ⟨q, hq, hf⟩ := List.mem_map.mp hm
  simp only [EventRow.filed, Prod.mk.injEq] at hf
  exact ⟨q, hq, hf.2.2.1, hf.2.2.2⟩

theorem Booked.upkeep (hb : j.Booked S) (h : j.Upkeep k) (ha : j.Aside k) : k.Booked S := by
  refine ⟨h.sound hb.sound, fun r hr => ?_, fun f hf => ?_, fun r hr he i hi => ?_, fun r hr i hi => ?_⟩
  · obtain ⟨q, hq, _, hp⟩ := h.event_of hr
    exact hp ▸ hb.given q hq
  · rw [ha.fills] at hf
    obtain ⟨r, hr, he, ht, hx⟩ := hb.origin f hf
    obtain ⟨q, hq, hqt, hqp⟩ := h.event_to hr
    exact ⟨q, hq, hqp ▸ he, hqt.trans ht, hqp ▸ hx⟩
  · obtain ⟨q, hq, ht, hp⟩ := h.event_of hr
    rw [ha.fills, ← hp]
    exact hb.filed q hq (hp ▸ he) i (ht.trans hi)
  · obtain ⟨q, hq, ht, hp⟩ := h.event_of hr
    obtain ⟨c, hc, hk⟩ := hb.counted q hq i (ht.trans hi)
    obtain ⟨d, hd, hdk⟩ := ha.quantities c hc
    exact ⟨d, hd, hp ▸ hdk.trans hk⟩

omit [Host] in
/-- What recording adds to the executions of a known trade: that of the event, unless it is on record. -/
theorem recordTrade_books {t : TradeRow} (h : j.recordTrade t e now = .ok k) :
    (∀ q ∈ j.quantities, ∃ r ∈ k.quantities, r.key = q.key) ∧ (∃ q ∈ k.quantities, q.key = (t.tradeId, .source, .source e.scope))
      ∧ (k.fills = j.fills ∨ e.Executes ∧ k.fills = j.fills ++ [execution t.tradeId e])
      ∧ (e.Executes → ∃ f ∈ k.fills, f.key = (execution t.tradeId e).key ∧ f.Agrees (execution t.tradeId e)) := by
  obtain ⟨m, hm, -, hmk⟩ := recordTrade_sourced h
  obtain ⟨a, b, hja, -, -, hbm, ⟨q, hq, hkey⟩, hfill⟩ := sourceEvent_ok hm
  have hrow : ∃ r ∈ k.quantities, r.key = (t.tradeId, .source, .source e.scope) := by
    obtain ⟨r, hr, hrq⟩ := hmk.quantities q hq
    exact ⟨r, hr, hrq.trans hkey⟩
  have hbk := hbm.trans hmk
  by_cases hx : e.kind = .fill ∧ e.executionId ≠ ""
  · rw [if_pos hx] at hfill
    rcases fill_ok hfill with ⟨rfl, old, hold, hk, hagree⟩ | ⟨-, hadd⟩
    · have hjk := hja.trans hbk
      exact ⟨hjk.quantities, hrow, Or.inl hjk.fills, fun _ => ⟨old, hbk.fills ▸ hold, hk, hagree⟩⟩
    · have hak := hadd.trans hbk
      have hfills : k.fills = j.fills ++ [execution t.tradeId e] := by rw [hak.fills, ← hja.fills]
      have hquantities : j.Aside { k with fills := j.fills } :=
        hja.trans ⟨hja.fills.symm, hak.quantities, hak.reasons⟩
      refine ⟨hquantities.quantities, hrow, Or.inr ⟨hx, hfills⟩, fun _ => ⟨execution t.tradeId e, ?_, rfl, .refl _⟩⟩
      rw [hfills]
      exact List.mem_append_right _ List.mem_cons_self
  · rw [if_neg hx] at hfill
    have hjk := hja.trans (hfill ▸ hbk)
    exact ⟨hjk.quantities, hrow, Or.inl hjk.fills, fun h => absurd h hx⟩

theorem Booked.recordEvent {a : EventRow × Bool} (hb : j.Booked S) (he : e ∈ S) (h : j.recordEvent e now identity = .ok (a, k)) :
    k.Booked S := by
  obtain ⟨row, again⟩ := a
  cases again with
  | true =>
    obtain ⟨_, ⟨_, _, rfl⟩ | ⟨ha, _⟩⟩ := recordEvent_cases h
    · exact hb
    · cases ha
  | false =>
    have hsound := hb.sound.recordEvent h
    obtain ⟨-, trade, l, m, ha, hm, hn, -, -, htrade, hpayload, rfl⟩ := recordEvent_filed h
    have hl : l.events = j.events ∧ l.fills = j.fills ∧ l.quantities = j.quantities := by
      cases ha <;> exact ⟨rfl, rfl, rfl⟩
    have hlm : l.Upkeep m := by
      cases trade with
      | none => exact hn rfl ▸ .refl l
      | some t => exact .recordTrade (hm t rfl)
    have hevents {r : EventRow} (hr : r ∈ m.events) : ∃ q ∈ j.events, q.tradeId = r.tradeId ∧ q.payload = r.payload :=
      hl.1 ▸ hlm.event_of hr
    have hback {r : EventRow} (hr : r ∈ j.events) : ∃ q ∈ m.events ++ [row], q.tradeId = r.tradeId ∧ q.payload = r.payload := by
      obtain ⟨q, hq, h⟩ := hlm.event_to (hl.1.symm ▸ hr)
      exact ⟨q, List.mem_append_left _ hq, h⟩
    have hbooks : (∀ q ∈ j.quantities, ∃ r ∈ m.quantities, r.key = q.key)
        ∧ (∀ i, row.tradeId = some i → ∃ q ∈ m.quantities, q.key = (i, .source, .source e.scope))
        ∧ (m.fills = j.fills ∨ ∃ i, row.tradeId = some i ∧ e.Executes ∧ m.fills = j.fills ++ [execution i e])
        ∧ (e.Executes → ∀ i, row.tradeId = some i → ∃ f ∈ m.fills, f.key = (execution i e).key ∧ f.Agrees (execution i e)) := by
      cases trade with
      | none =>
        have hnone (i : String) : row.tradeId ≠ some i := by simp [htrade]
        rw [hn rfl, ← hl.2.1, ← hl.2.2]
        exact ⟨fun q hq => ⟨q, hq, rfl⟩, fun i hi => absurd hi (hnone i), Or.inl rfl, fun _ i hi => absurd hi (hnone i)⟩
      | some t =>
        obtain ⟨hq, hr, hf, hx⟩ := recordTrade_books (hm t rfl)
        have hid (i : String) (hi : row.tradeId = some i) : t.tradeId = i := Option.some.inj (htrade.symm.trans hi)
        rw [hl.2.1] at hf
        refine ⟨hl.2.2 ▸ hq, fun i hi => hid i hi ▸ hr, hf.imp id fun hf => ⟨t.tradeId, htrade, hf⟩, fun he i hi => hid i hi ▸ hx he⟩
    obtain ⟨hquantities, hrow, hfills, hexec⟩ := hbooks
    refine ⟨hsound, fun r hr => ?_, fun f hf => ?_, fun r hr hre i hi => ?_, fun r hr i hi => ?_⟩
    · rcases List.mem_append.mp hr with hr | hr
      · obtain ⟨q, hq, -, hp⟩ := hevents hr
        exact hp ▸ hb.given q hq
      · rw [List.mem_singleton.mp hr, hpayload]
        exact he
    · have hold (hf : f ∈ j.fills) : ∃ r ∈ m.events ++ [row], r.payload.Executes ∧ r.tradeId = some f.tradeId
          ∧ f = execution f.tradeId r.payload := by
        obtain ⟨r, hr, hx, ht, hfr⟩ := hb.origin f hf
        obtain ⟨q, hq, hqt, hqp⟩ := hback hr
        exact ⟨q, hq, hqp ▸ hx, hqt.trans ht, hqp ▸ hfr⟩
      rcases hfills with hsame | ⟨i, hi, hx, hadd⟩
      · exact hold (hsame ▸ hf)
      · rcases List.mem_append.mp (hadd ▸ hf) with hf | hf
        · exact hold hf
        · obtain rfl := List.mem_singleton.mp hf
          exact ⟨row, List.mem_append_right _ List.mem_cons_self, hpayload ▸ hx, hi, hpayload ▸ rfl⟩
    · rcases List.mem_append.mp hr with hr | hr
      · obtain ⟨q, hq, ht, hp⟩ := hevents hr
        obtain ⟨f, hf, hagree⟩ := hb.filed q hq (hp ▸ hre) i (ht.trans hi)
        refine ⟨f, ?_, hp ▸ hagree⟩
        rcases hfills with hsame | ⟨_, _, _, hadd⟩
        · exact hsame ▸ hf
        · exact hadd ▸ List.mem_append_left _ hf
      · obtain rfl := List.mem_singleton.mp hr
        rw [hpayload] at hre ⊢
        exact hexec hre i hi
    · rcases List.mem_append.mp hr with hr | hr
      · obtain ⟨q, hq, ht, hp⟩ := hevents hr
        obtain ⟨c, hc, hk⟩ := hb.counted q hq i (ht.trans hi)
        obtain ⟨d, hd, hdk⟩ := hquantities c hc
        exact ⟨d, hd, hp ▸ hdk.trans hk⟩
      · obtain rfl := List.mem_singleton.mp hr
        rw [hpayload]
        exact hrow i hi

omit [Host] in
theorem recordTrade_returns {t : TradeRow} (now : String)
    (h : e.Executes → ∀ old ∈ j.fills, old.key = (execution t.tradeId e).key → old.Agrees (execution t.tradeId e)) :
    ∃ k, j.recordTrade t e now = .ok k := by
  have hlink {l : Journal} (native evidence at_ : String) (kind : Kind) (hl : l.fills = j.fills) :
      (l.link t.tradeId .source (.source e.scope) kind native evidence at_).fills = j.fills := (Aside.link ..).fills.trans hl
  obtain ⟨l, hl⟩ : ∃ l, j.sourceEvent t.tradeId e = .ok l := by
    unfold sourceEvent
    extract_lets scope at_ a b
    have hb : b.fills = j.fills := by
      unfold b
      split
      · exact hlink _ _ _ _ (hlink _ _ _ _ rfl)
      · exact hlink _ _ _ _ rfl
    split
    · next hx =>
      obtain ⟨m, hm⟩ := fill_returns (j := b) (f := execution t.tradeId e) (hb ▸ h hx)
      refine ⟨_, bind_eq_ok.mpr ⟨m, hm, rfl⟩⟩
    · exact ⟨_, rfl⟩
  unfold recordTrade
  exact ⟨_, bind_eq_ok.mpr ⟨l, hl, rfl⟩⟩

/-- An event of a set whose fills agree is accepted, unless the new trade's identity is taken. -/
theorem Booked.accepts (hb : j.Booked S) (ha : FillsAgreed S) (hi : IdsHonest S) (he : e ∈ S) (now identity : String) :
    (∃ a, j.recordEvent e now identity = .ok a) ∨ j.recordEvent e now identity = .error .integrity := by
  -- A FILL on record of the same execution has the same order, so it is filed under the same trade.
  have hagree {l : Journal} {trade : Option TradeRow} {t : TradeRow} (hatt : j.Attributes e trade l) (ht : trade = some t)
      (hx : e.Executes) (old : FillRow) (hold : old ∈ l.fills) (hkey : old.key = (execution t.tradeId e).key) :
      old.Agrees (execution t.tradeId e) := by
    obtain ⟨r, hr, hrx, hrt, hf⟩ := hb.origin old (hatt.events.2 ▸ hold)
    rw [hf] at hkey
    simp only [FillRow.key, execution, Prod.mk.injEq, true_and, LegScope.source.injEq] at hkey
    obtain ⟨horder, hposition, heffect, hquantity, hprice⟩ :=
      ha.agree _ (hb.given r hr) e he hrx.1 hx.1 hkey.1 hkey.2
    obtain ⟨u, hu, rfl, hut⟩ := hatt.ordered (ha.named e he hx.1).1
    obtain ⟨v, hv, hrv, hvk⟩ := hb.sound.attached r hr (ha.named _ (hb.given r hr) hrx.1).1
    have hvl : v ∈ l.trades := by
      cases hatt with
      | known => exact hv
      | opened => exact List.mem_append_left _ hv
    have huv : v = u := List.inj_on_of_nodup_map (hatt.sound hb.sound).sourceKeys hvl hu (by rw [hvk, hut, hkey.1, horder])
    have hid : old.tradeId = t.tradeId := by
      rw [← Option.some.inj ht, ← huv]
      exact Option.some.inj (hrt.symm.trans hrv)
    rw [hf]
    exact ⟨hid, horder, hposition, heffect, hquantity, hprice⟩
  unfold Journal.recordEvent
  extract_lets digest key rest t₀
  split
  · next old hold =>
    obtain ⟨hmem, hkey⟩ := Rows.lookup_mem hold
    have hids : old.payload.machine = e.machine ∧ old.payload.eventId = e.eventId :=
      Prod.mk.inj ((hb.sound.keyed old hmem).symm.trans hkey)
    have hsame := hi _ (hb.given old hmem) e he hids.1 hids.2
    refine Or.inl ⟨((old, true), j), if_neg fun h => ?_⟩
    simp [hsame] at h
  have hrest {l : Journal} {trade : Option TradeRow} (hatt : j.Attributes e trade l) : ∃ a, rest (trade, l) = .ok a := by
    cases trade with
    | none => exact ⟨_, rfl⟩
    | some t =>
      obtain ⟨m, hm⟩ := recordTrade_returns (j := l) (t := t) now (hagree hatt rfl)
      refine ⟨_, bind_eq_ok.mpr ⟨m, hm, rfl⟩⟩
  split
  · next t ht => exact Or.inl (hrest (.known ht))
  next ht =>
  split
  · next ho => exact Or.inl (hrest (.unknown ht ho))
  next ho =>
  split
  · exact Or.inr rfl
  · next hid =>
    simp only [Bool.not_eq_true, Rows.has_eq_false_iff] at hid
    exact Or.inl (hrest (.opened ht ho hid rfl ⟨rfl, rfl, rfl, rfl⟩))

/-- The events are the distinct executions on record of a trade's order. -/
structure Represents (j : Journal) (t : TradeRow) (xs : List CaptureEvent) : Prop where
  recorded : ∀ x ∈ xs, x.Executes ∧ (x.scope, x.orderId) = t.sourceKey ∧ ∃ r ∈ j.events, r.payload.same x = true
  distinct : (xs.map CaptureEvent.executionId).Nodup
  complete : ∀ r ∈ j.events, r.payload.Executes → (r.payload.scope, r.payload.orderId) = t.sourceKey →
    ∃ x ∈ xs, x.executionId = r.payload.executionId

end Journal

/-- What totals read of an execution. -/
structure Execution where
  side : Leg
  scope : LegScope
  executionId : String
  positionId : String
  effect : FillEffect
  amount : ℚ

def FillRow.read (f : FillRow) : Execution := ⟨f.side, f.scope, f.executionId, f.positionId, f.effect, f.quantity.toRat⟩

def CaptureEvent.read (e : CaptureEvent) : Execution :=
  ⟨.source, .source e.scope, e.executionId, e.positionId, e.fillEffect, e.quantity.toRat⟩

def total (xs : List CaptureEvent) (p : CaptureEvent → Bool) : ℚ := ((xs.filter p).map fun x => x.quantity.toRat).sum

namespace Journal

variable [Host] {j : Journal} {S : Set CaptureEvent} {t : TradeRow} {xs : List CaptureEvent} {x : CaptureEvent}

omit [Host] in
theorem same_read {a b : CaptureEvent} (h : a.same b = true) : a.kind = b.kind ∧ a.orderId = b.orderId ∧ a.read = b.read := by
  simp only [CaptureEvent.same, Bool.and_eq_true, decide_eq_true_eq, Decimal.same_iff] at h
  simp only [CaptureEvent.read, Execution.mk.injEq, LegScope.source.injEq, true_and]
  tauto

/-- A trade's execution rows are those of its order's FILLs on record, each once. -/
theorem Booked.reads (hb : j.Booked S) (ha : FillsAgreed S) (ht : t ∈ j.trades) (hx : j.Represents t xs) :
    ((j.fillsOf t.tradeId).map FillRow.read).Perm (xs.map CaptureEvent.read) := by
  have hmem (f : FillRow) : f ∈ j.fillsOf t.tradeId ↔ f ∈ j.fills ∧ f.tradeId = t.tradeId := by
    simp [fillsOf, List.mem_insertionSort]
  have hrows : ((j.fillsOf t.tradeId).map FillRow.read).Nodup := by
    have hkeys : ((j.fillsOf t.tradeId).map FillRow.key).Nodup := by
      have hperm := (List.perm_insertionSort (fun a b : FillRow => a.before b) (j.fills.filter fun f => f.tradeId = t.tradeId)).map
        FillRow.key
      exact hperm.nodup_iff.mpr (hb.sound.fills.sublist (List.filter_sublist.map _))
    refine List.Nodup.of_map (fun x : Execution => (x.side, x.scope, x.executionId)) ?_
    rw [List.map_map]
    exact hkeys
  have hevents : (xs.map CaptureEvent.read).Nodup := by
    refine List.Nodup.of_map Execution.executionId ?_
    rw [List.map_map]
    exact hx.distinct
  refine (List.perm_ext_iff_of_nodup hrows hevents).mpr fun c => ⟨fun hc => ?_, fun hc => ?_⟩
  · obtain ⟨f, hf, rfl⟩ := List.mem_map.mp hc
    obtain ⟨hf, hft⟩ := (hmem f).mp hf
    obtain ⟨r, hr, hrx, hrt, hfr⟩ := hb.origin f hf
    obtain ⟨u, hu, hru, huk⟩ := hb.sound.attached r hr (ha.named _ (hb.given r hr) hrx.1).1
    have hut : u = t := by
      refine List.inj_on_of_nodup_map hb.sound.tradeIds hu ht ?_
      rw [← hft]
      exact Option.some.inj (hru.symm.trans hrt)
    obtain ⟨x, hxs, hid⟩ := hx.complete r hr hrx (by rw [← huk, hut])
    obtain ⟨hxx, hxk, q, hq, hqx⟩ := hx.recorded x hxs
    obtain ⟨hkind, horder, hread⟩ := same_read hqx
    simp only [CaptureEvent.read, Execution.mk.injEq, LegScope.source.injEq, true_and] at hread
    have hscope : r.payload.scope = x.scope := congrArg Prod.fst ((huk.symm.trans (congrArg _ hut)).trans hxk.symm)
    have hagree := ha.agree _ (hb.given r hr) _ (hb.given q hq) hrx.1 (hkind.trans hxx.1) (hscope.trans hread.1.symm)
      (hid.symm.trans hread.2.1.symm)
    refine List.mem_map.mpr ⟨x, hxs, ?_⟩
    rw [hfr]
    simp only [CaptureEvent.read, FillRow.read, execution, Execution.mk.injEq, LegScope.source.injEq, true_and]
    obtain ⟨-, hposition, heffect, hquantity, -⟩ := hagree
    exact ⟨hscope.symm, hid, hread.2.2.1.symm.trans hposition.symm, hread.2.2.2.1.symm.trans heffect.symm,
      hread.2.2.2.2.symm.trans (Decimal.same_iff.mp hquantity).symm⟩
  · obtain ⟨x, hxs, rfl⟩ := List.mem_map.mp hc
    obtain ⟨hxx, hxk, r, hr, hrx⟩ := hx.recorded x hxs
    obtain ⟨hkind, horder, hread⟩ := same_read hrx
    have hre : r.payload.Executes := by
      refine ⟨hkind.trans hxx.1, ?_⟩
      rw [show r.payload.executionId = x.executionId from congrArg Execution.executionId hread]
      exact hxx.2
    obtain ⟨u, hu, hru, huk⟩ := hb.sound.attached r hr (ha.named _ (hb.given r hr) hre.1).1
    have hscope : r.payload.scope = x.scope := LegScope.source.inj (congrArg Execution.scope hread)
    have hut : u = t := by
      refine List.inj_on_of_nodup_map hb.sound.sourceKeys hu ht ?_
      rw [huk, ← hxk, hscope, horder]
    obtain ⟨f, hf, hkey, hagree⟩ := hb.filed r hr hre u.tradeId hru
    refine List.mem_map.mpr ⟨f, (hmem f).mpr ⟨hf, hagree.1.trans (congrArg TradeRow.tradeId hut)⟩, ?_⟩
    obtain ⟨-, -, hposition, heffect, hquantity, -⟩ := hagree
    simp only [FillRow.key, execution, Prod.mk.injEq] at hkey
    rw [← hread]
    simp only [CaptureEvent.read, FillRow.read, Execution.mk.injEq]
    exact ⟨hkey.1, hkey.2.1, hkey.2.2, hposition, heffect, Decimal.same_iff.mp hquantity⟩

theorem Booked.nonneg (hb : j.Booked S) {f : FillRow} (hf : f ∈ j.fills) : 0 ≤ f.quantity.toRat := by
  obtain ⟨r, -, -, -, hfr⟩ := hb.origin f hf
  rw [hfr, ← Decimal.toRat_zero]
  exact Decimal.le_iff.mp r.payload.amounts_nonneg.1

/-- A total over the rows is exact, and is the sum over the executions that it is about. -/
theorem Booked.filled (hb : j.Booked S) (ha : FillsAgreed S) (ht : t ∈ j.trades) (hx : j.Represents t xs)
    (hheld : Decimal.Held (xs.map fun x => x.quantity.toRat)) (p : Execution → Bool) (effect : FillEffect) :
    ∃ d, filled ((j.fillsOf t.tradeId).filter fun f => p f.read) effect = .ok d
      ∧ d.toRat = total xs fun x => p x.read && x.fillEffect = effect := by
  have hperm := hb.reads ha ht hx
  let chosen := ((j.fillsOf t.tradeId).filter fun f => p f.read).filter fun f => f.effect = effect
  have hsub : chosen.Sublist (j.fillsOf t.tradeId) := List.filter_sublist.trans List.filter_sublist
  have hnonneg (f : FillRow) (hf : f ∈ j.fillsOf t.tradeId) : 0 ≤ f.quantity.toRat :=
    hb.nonneg (List.mem_of_mem_filter (List.mem_insertionSort _ |>.mp hf))
  have hamounts : ((j.fillsOf t.tradeId).map fun f => f.quantity.toRat).Perm (xs.map fun x => x.quantity.toRat) := by
    have hm := hperm.map Execution.amount
    rwa [List.map_map, List.map_map] at hm
  have hsum : (chosen.map fun f => f.quantity.toRat).sum = total xs fun x => p x.read && x.fillEffect = effect := by
    have hm := ((hperm.filter fun c => p c && c.effect = effect).map Execution.amount).sum_eq
    rw [List.filter_map, List.filter_map, List.map_map, List.map_map] at hm
    have hchosen : chosen = (j.fillsOf t.tradeId).filter fun f => p f.read && f.effect = effect := by
      unfold chosen
      rw [List.filter_filter]
      exact List.filter_congr fun f _ => Bool.and_comm ..
    rw [hchosen]
    exact hm
  have hall : Decimal.Held ((chosen.map FillRow.quantity).map Decimal.toRat) := by
    rw [List.map_map]
    refine (hheld.perm hamounts.symm).sublist (hsub.map _) fun q hq => ?_
    obtain ⟨f, hf, rfl⟩ := List.mem_map.mp hq
    exact hnonneg f hf
  obtain ⟨d, hd, hrat⟩ := hall.sum fun d hd => by
    obtain ⟨f, hf, rfl⟩ := List.mem_map.mp hd
    exact hnonneg f (hsub.subset hf)
  refine ⟨d, arith_eq_ok.mpr hd, ?_⟩
  rw [hrat, List.map_map]
  exact hsum

omit [Host] in
theorem mapM_returns {α β : Type} {f : α → Except Exc β} {P : α → β → Prop} {l : List α} (h : ∀ a ∈ l, ∃ b, f a = .ok b ∧ P a b) :
    ∃ bs, l.mapM f = .ok bs ∧ List.Forall₂ P l bs := by
  induction l with
  | nil => exact ⟨[], rfl, .nil⟩
  | cons a l ih =>
    obtain ⟨b, hb, hp⟩ := h a List.mem_cons_self
    obtain ⟨bs, hbs, hps⟩ := ih fun a ha => h a (List.mem_cons_of_mem _ ha)
    refine ⟨b :: bs, ?_, .cons hp hps⟩
    rw [List.mapM_cons, hb, hbs]
    rfl

def QuantityTotals (xs : List CaptureEvent) (q : QuantityRow) (v : QuantityView) : Prop :=
  v.row = q
    ∧ v.openFilled.toRat = total xs (fun x => decide (q.side = .source ∧ q.scope = .source x.scope) && x.fillEffect = .opens)
    ∧ v.closeFilled.toRat = total xs (fun x => decide (q.side = .source ∧ q.scope = .source x.scope) && x.fillEffect = .closes)

def PositionTotals (xs : List CaptureEvent) (l : LinkRow) (v : PositionView) : Prop :=
  v.row = l
    ∧ v.observedOpenContribution.toRat = total xs (fun x =>
        decide (l.side = .source ∧ l.scope = .source x.scope ∧ l.nativeId = x.positionId) && x.fillEffect = .opens)
    ∧ v.observedCloseContribution.toRat = total xs (fun x =>
        decide (l.side = .source ∧ l.scope = .source x.scope ∧ l.nativeId = x.positionId) && x.fillEffect = .closes)

theorem Booked.quantityView (hb : j.Booked S) (ha : FillsAgreed S) (ht : t ∈ j.trades) (hx : j.Represents t xs)
    (hheld : Decimal.Held (xs.map fun x => x.quantity.toRat)) {q : QuantityRow} (hq : q.tradeId = t.tradeId) :
    ∃ v, j.quantityView q = .ok v ∧ QuantityTotals xs q v := by
  let p (c : Execution) : Bool := c.side = q.side ∧ c.scope = q.scope
  obtain ⟨opened, hopened, hopen⟩ := hb.filled ha ht hx hheld p .opens
  obtain ⟨closed, hclosed, hclose⟩ := hb.filled ha ht hx hheld p .closes
  have hp (x : CaptureEvent) : p x.read = decide (q.side = .source ∧ q.scope = .source x.scope) := by
    simp only [p, CaptureEvent.read, eq_comm]
  simp only [hp] at hopen hclose
  unfold Journal.quantityView
  rw [hq]
  exact ⟨_, bind_eq_ok.mpr ⟨opened, hopened, bind_eq_ok.mpr ⟨closed, hclosed, rfl⟩⟩, rfl, hopen, hclose⟩

theorem Booked.positionView (hb : j.Booked S) (ha : FillsAgreed S) (ht : t ∈ j.trades) (hx : j.Represents t xs)
    (hheld : Decimal.Held (xs.map fun x => x.quantity.toRat)) {l : LinkRow} (hl : l.tradeId = t.tradeId) :
    ∃ v, j.positionView l = .ok v ∧ PositionTotals xs l v := by
  let p (c : Execution) : Bool := c.side = l.side ∧ c.scope = l.scope ∧ c.positionId = l.nativeId
  obtain ⟨opened, hopened, hopen⟩ := hb.filled ha ht hx hheld p .opens
  obtain ⟨closed, hclosed, hclose⟩ := hb.filled ha ht hx hheld p .closes
  have hp (x : CaptureEvent) : p x.read = decide (l.side = .source ∧ l.scope = .source x.scope ∧ l.nativeId = x.positionId) := by
    simp only [p, CaptureEvent.read, eq_comm]
  simp only [hp] at hopen hclose
  unfold Journal.positionView
  rw [hl]
  exact ⟨_, bind_eq_ok.mpr ⟨opened, hopened, bind_eq_ok.mpr ⟨closed, hclosed, rfl⟩⟩, rfl, hopen, hclose⟩

/-- A snapshot is returned, and what it derives from executions are the sums over the distinct ones. -/
theorem Booked.filledSnapshot (hb : j.Booked S) (ha : FillsAgreed S) (ht : t ∈ j.trades) (hx : j.Represents t xs)
    (hheld : Decimal.Held (xs.map fun x => x.quantity.toRat)) :
    ∃ s, j.filledSnapshot t = .ok s
      ∧ List.Forall₂ (QuantityTotals xs) (j.snapshot t).quantities s.quantities
      ∧ List.Forall₂ (PositionTotals xs) (((j.snapshot t).links.map LinkView.row).filter fun l => l.kind = .position) s.positions := by
  have hquantities (q : QuantityRow) (hq : q ∈ (j.snapshot t).quantities) : ∃ v, j.quantityView q = .ok v ∧ QuantityTotals xs q v := by
    have hid : q ∈ j.quantities ∧ q.tradeId = t.tradeId := by simpa [snapshot] using hq
    exact hb.quantityView ha ht hx hheld hid.2
  have hpositions (l : LinkRow) (hl : l ∈ ((j.snapshot t).links.map LinkView.row).filter fun l => l.kind = .position) :
      ∃ v, j.positionView l = .ok v ∧ PositionTotals xs l v := by
    have hid : l.tradeId = t.tradeId := by
      obtain ⟨v, hv, rfl⟩ := List.mem_map.mp (List.mem_of_mem_filter hl)
      simp only [snapshot, List.mem_map, List.mem_filter, decide_eq_true_eq] at hv
      obtain ⟨m, ⟨-, hm⟩, rfl⟩ := hv
      exact hm
    exact hb.positionView ha ht hx hheld hid
  obtain ⟨quantities, hmq, hq⟩ := mapM_returns hquantities
  obtain ⟨positions, hmp, hp⟩ := mapM_returns hpositions
  unfold Journal.filledSnapshot
  exact ⟨_, bind_eq_ok.mpr ⟨quantities, hmq, bind_eq_ok.mpr ⟨positions, hmp, rfl⟩⟩, hq, hp⟩

def Holds (j : Journal) (es : List CaptureEvent) : Prop := ∀ e ∈ es, ∃ r ∈ j.events, r.payload.same e = true

variable {k : Journal} {es : List CaptureEvent} {e : CaptureEvent}

omit [Host] in
theorem Holds.upkeep (h : j.Holds es) (hk : j.Upkeep k) : k.Holds es := by
  intro e he
  obtain ⟨r, hr, hs⟩ := h e he
  obtain ⟨q, hq, -, hp⟩ := hk.event_to hr
  exact ⟨q, hq, hp ▸ hs⟩

theorem Booked.recorded {now identity : String} {a : EventRow × Bool} (hb : j.Booked S) (hi : IdsHonest S) (he : e ∈ S)
    (h : j.recordEvent e now identity = .ok (a, k)) (hh : j.Holds es) : k.Holds (e :: es) := by
  obtain ⟨row, again⟩ := a
  cases again with
  | true =>
    obtain ⟨hkey, ⟨_, hrow, rfl⟩ | ⟨ha, _⟩⟩ := recordEvent_cases h
    · have hids := Prod.mk.inj ((hb.sound.keyed row hrow).symm.trans hkey)
      exact List.forall_mem_cons.mpr ⟨⟨row, hrow, hi _ (hb.given row hrow) e he hids.1 hids.2⟩, hh⟩
    · cases ha
  | false =>
    obtain ⟨-, trade, l, m, ha, hm, hn, -, -, -, hpayload, rfl⟩ := recordEvent_filed h
    have hlm : l.Upkeep m := by
      cases trade with
      | none => exact hn rfl ▸ .refl l
      | some t => exact .recordTrade (hm t rfl)
    have hl : l.Holds es := fun e he => by rw [ha.events.1]; exact hh e he
    refine List.forall_mem_cons.mpr ⟨⟨row, List.mem_append_right _ List.mem_cons_self, ?_⟩, fun x hx => ?_⟩
    · rw [hpayload]
      exact CaptureEvent.same_refl e
    · obtain ⟨r, hr, hs⟩ := hl.upkeep hlm x hx
      exact ⟨r, List.mem_append_left _ hr, hs⟩

end Journal

section Deliveries

variable [Host] {S : Set CaptureEvent} {delivered : List CaptureEvent} {w : World}

/-- Events of the set are delivered in any order and any number of times, between whatever else the store does. A delivery
counts once the store has returned its row; one that raises or is cut off may or may not have been recorded. -/
inductive Store.Fed (S : Set CaptureEvent) : List CaptureEvent → World → Prop
  | fresh (broker : String) (m : Memory) : Fed S [] (.fresh broker m)
  | delivered {es : List CaptureEvent} {w : World} {e : CaptureEvent} {a : EventRow × Bool} (h : Fed S es w) (he : e ∈ S)
      (env : Answers) (hr : ((Store.record e).eval env w).2 = .ok a) : Fed S (e :: es) ((Store.record e).eval env w).1
  | served {es : List CaptureEvent} {w v : World} (h : Fed S es w) (op : StoreOp) (hop : ∀ e, op = .record e → e ∈ S)
      (hl : Leaves op.run w v) : Fed S es v

theorem Store.Fed.booked (h : Store.Fed S delivered w) (hi : IdsHonest S) : w.journal.Booked S ∧ w.journal.Holds delivered := by
  induction h with
  | fresh broker m => exact ⟨Journal.booked_created S broker, fun e he => absurd he List.not_mem_nil⟩
  | @delivered es w e a h he env hr ih =>
    obtain ⟨now, identity, hrec⟩ := (Store.record_outcome w e env).1 a hr
    exact ⟨ih.1.recordEvent he hrec, ih.1.recorded hi he hrec ih.2⟩
  | @served es w v h op hop hl ih =>
    refine hl.keepsJournal (P := fun j => j.Booked S ∧ j.Holds es) (op.keepsJournal (fun j k hk ha hj => ?_) ?_) ih
    · exact ⟨hj.1.upkeep hk ha, hj.2.upkeep hk⟩
    · intro e he j a k now identity hj hrec
      exact ⟨hj.1.recordEvent (hop e he) hrec, fun x hx =>
        hj.1.recorded hi (hop e he) hrec hj.2 x (List.mem_cons_of_mem _ hx)⟩

/-- The rows of the execution that a FILL names. -/
def Journal.executionRows (j : Journal) (e : CaptureEvent) : List FillRow :=
  j.fills.filter fun f => f.key = (.source, .source e.scope, e.executionId)

/-- What deliveries leave behind: only the database refuses one, an execution has one row, and the totals are those of the
distinct executions, as long as the context holds their sum. -/
structure Store.FillLaw (S : Set CaptureEvent) (delivered : List CaptureEvent) (w : World) : Prop where
  accepts : ∀ e ∈ S, ∀ env x, ((Store.record e).eval env w).2 = .error x → x = .sqlite ∨ x = .integrity
  filed : ∀ e ∈ delivered, e.kind = .fill → ∃ f, w.journal.executionRows e = [f] ∧ f.read = e.read ∧ f.orderId = e.orderId
  known : ∀ f ∈ w.journal.fills, ∃ e ∈ S, e.Executes ∧ f.read = e.read ∧ f.orderId = e.orderId
  totals : ∀ t ∈ w.journal.trades, ∀ xs, w.journal.Represents t xs → Decimal.Held (xs.map fun x => x.quantity.toRat) →
    ∃ s, w.journal.filledSnapshot t = .ok s
      ∧ List.Forall₂ (Journal.QuantityTotals xs) (w.journal.snapshot t).quantities s.quantities
      ∧ List.Forall₂ (Journal.PositionTotals xs)
          (((w.journal.snapshot t).links.map LinkView.row).filter fun l => l.kind = .position) s.positions
  counted : ∀ e ∈ delivered, e.kind = .fill → ∃ t ∈ w.journal.trades, t.sourceKey = (e.scope, e.orderId)
    ∧ ∃ q ∈ (w.journal.snapshot t).quantities, q.side = .source ∧ q.scope = .source e.scope

/-- Fill totals do not depend on delivery. -/
theorem fill_totals (ha : FillsAgreed S) (hi : IdsHonest S) (h : Store.Fed S delivered w) : Store.FillLaw S delivered w := by
  obtain ⟨hb, hh⟩ := h.booked hi
  have hrow (e : CaptureEvent) (he : e ∈ delivered) (hk : e.kind = .fill) : ∃ r ∈ w.journal.events, r.payload.Executes
      ∧ r.payload.read = e.read ∧ r.payload.orderId = e.orderId ∧ r.payload.orderId ≠ "" := by
    obtain ⟨r, hr, hs⟩ := hh e he
    obtain ⟨hkind, horder, hread⟩ := Journal.same_read hs
    have hnamed := ha.named _ (hb.given r hr) (hkind.trans hk)
    exact ⟨r, hr, ⟨hkind.trans hk, hnamed.2⟩, hread, horder, hnamed.1⟩
  refine ⟨fun e he env x hx => ?_, fun e he hk => ?_, fun f hf => ?_, fun t ht xs hxs hheld => hb.filledSnapshot ha ht hxs hheld,
    fun e he hk => ?_⟩
  · obtain ⟨-, hsql | ⟨now, identity, hrec⟩⟩ := (Store.record_outcome w e env).2 x hx
    · exact Or.inl hsql
    · rcases hb.accepts ha hi he now identity with ⟨a, hok⟩ | herr
      · rw [hok] at hrec
        cases hrec
      · exact Or.inr (Except.error.inj (hrec.symm.trans herr))
  · obtain ⟨r, hr, hre, hread, horder, hne⟩ := hrow e he hk
    obtain ⟨t, ht, hrt, -⟩ := hb.sound.attached r hr hne
    obtain ⟨f, hf, hkey, hagree⟩ := hb.filed r hr hre t.tradeId hrt
    obtain ⟨-, hforder, hposition, heffect, hquantity, -⟩ := hagree
    have hfread : f.read = e.read := by
      rw [← hread]
      simp only [FillRow.key, Journal.execution, Prod.mk.injEq] at hkey
      simp only [CaptureEvent.read, FillRow.read, Execution.mk.injEq]
      exact ⟨hkey.1, hkey.2.1, hkey.2.2, hposition, heffect, Decimal.same_iff.mp hquantity⟩
    have hkeyed : f.key = (.source, .source e.scope, e.executionId) := by
      simp only [CaptureEvent.read, FillRow.read, Execution.mk.injEq] at hfread
      simp only [FillRow.key, hfread]
    refine ⟨f, ?_, hfread, hforder.trans horder⟩
    exact Rows.filter_key hb.sound.fills hf hkeyed
  · obtain ⟨r, hr, hre, -, hfr⟩ := hb.origin f hf
    rw [hfr]
    exact ⟨r.payload, hb.given r hr, hre, rfl, rfl⟩
  · obtain ⟨r, hr, hre, hread, horder, hne⟩ := hrow e he hk
    obtain ⟨t, ht, hrt, htk⟩ := hb.sound.attached r hr hne
    have hscope : r.payload.scope = e.scope := LegScope.source.inj (congrArg Execution.scope hread)
    obtain ⟨q, hq, hkey⟩ := hb.counted r hr t.tradeId hrt
    simp only [QuantityRow.key, Prod.mk.injEq] at hkey
    refine ⟨t, ht, by rw [htk, hscope, horder], q, ?_, hkey.2.1, hscope ▸ hkey.2.2⟩
    simp [Journal.snapshot, hq, hkey.1]

end Deliveries

section Sample

attribute [local instance] sampleHost

def deliver (e : CaptureEvent) (w : World) : World := ((Store.record e).eval sampleAnswers w).1

def closeFill : CaptureEvent := { fillEvent with
  eventId := "e2", executionId := "x2", fillEffect := .closes
  eventId_bounds := second_bounds, executionId_le := by decide }

def fedAgain : World := deliver fillEvent (deliver closeFill (deliver fillEvent (.fresh "fx" bridgeMemory)))

theorem fillsAgreed_pair {a b : CaptureEvent} (ha : a.orderId ≠ "" ∧ a.executionId ≠ "") (hb : b.orderId ≠ "" ∧ b.executionId ≠ "")
    (hne : a.executionId ≠ b.executionId) : FillsAgreed {a, b} where
  named e he _ := by
    rcases he with rfl | rfl
    · exact ha
    · exact hb
  agree x hx y hy _ _ _ hid := by
    have hrefl (e : CaptureEvent) : e.Agrees e := ⟨rfl, rfl, rfl, Decimal.same_refl _, Decimal.same_refl _⟩
    rcases hx with rfl | rfl <;> rcases hy with rfl | rfl
    · exact hrefl _
    · exact absurd hid hne
    · exact absurd hid.symm hne
    · exact hrefl _

theorem idsHonest_pair {a b : CaptureEvent} (hne : a.eventId ≠ b.eventId) : IdsHonest {a, b} := by
  intro x hx y hy _ hid
  rcases hx with rfl | rfl <;> rcases hy with rfl | rfl
  · exact CaptureEvent.same_refl _
  · exact absurd hid hne
  · exact absurd hid.symm hne
  · exact CaptureEvent.same_refl _

theorem exists_returned {e : CaptureEvent} {w : World} (h : ((Store.record e).eval sampleAnswers w).2.toOption.isSome = true) :
    ∃ a, ((Store.record e).eval sampleAnswers w).2 = .ok a := by
  cases hr : ((Store.record e).eval sampleAnswers w).2 with
  | ok a => exact ⟨a, rfl⟩
  | error x =>
    rw [hr] at h
    cases h

theorem fed_fedAgain : Store.Fed {fillEvent, closeFill} [fillEvent, closeFill, fillEvent] fedAgain := by
  obtain ⟨a, ha⟩ := exists_returned (e := fillEvent) (w := .fresh "fx" bridgeMemory) (by decide +kernel)
  obtain ⟨b, hb⟩ := exists_returned (e := closeFill) (w := deliver fillEvent (.fresh "fx" bridgeMemory)) (by decide +kernel)
  obtain ⟨c, hc⟩ := exists_returned (e := fillEvent) (w := deliver closeFill (deliver fillEvent (.fresh "fx" bridgeMemory)))
    (by decide +kernel)
  exact .delivered (.delivered (.delivered (.fresh "fx" bridgeMemory) (Or.inl rfl) sampleAnswers ha) (Or.inr rfl)
    sampleAnswers hb) (Or.inl rfl) sampleAnswers hc

theorem fill_totals_redelivered : Store.FillLaw {fillEvent, closeFill} [fillEvent, closeFill, fillEvent] fedAgain :=
  fill_totals (fillsAgreed_pair (by decide) (by decide) (by decide)) (idsHonest_pair (by decide)) fed_fedAgain

/-- Whatever fill the database does not refuse has one row for its execution. -/
def Store.RowPerExecution : Prop :=
  ∀ S delivered w, FillsAgreed S → Store.Fed S delivered w → ∀ e ∈ S, e.kind = .fill → ∀ env,
    ((Store.record e).eval env w).2 ≠ .error .sqlite → ((Store.record e).eval env w).2 ≠ .error .integrity →
      ∃ f, ((Store.record e).eval env w).1.journal.executionRows e = [f]

/-- The totals of a snapshot are the sums over the distinct executions. -/
def Store.TotalsExact : Prop :=
  ∀ S delivered w, FillsAgreed S → IdsHonest S → Store.Fed S delivered w → ∀ t ∈ w.journal.trades, ∀ xs,
    w.journal.Represents t xs → ∀ s, w.journal.filledSnapshot t = .ok s →
      List.Forall₂ (Journal.QuantityTotals xs) (w.journal.snapshot t).quantities s.quantities

/-- Another execution under the event id of the first. -/
def reusedFill : CaptureEvent := { fillEvent with executionId := "x2", executionId_le := by decide }

/-- An execution of more than the context holds to the last unit. -/
def largeFill : CaptureEvent := { fillEvent with quantity := ⟨false, 1, 28⟩, amounts_nonneg := by decide }

def unitFill : CaptureEvent := { fillEvent with
  eventId := "e2", executionId := "x2", eventId_bounds := second_bounds, executionId_le := by decide }

def raisesValue {α : Type} : Except Exc α → Bool
  | .error (.value _) => true
  | _ => false

/-- The snapshot has the two fills together as the context rounds them. -/
def FilledSnapshot.rounded : Except Exc FilledSnapshot → Bool
  | .ok s => s.quantities.any fun v => v.row.side = .source && v.row.scope = .source fillEvent.scope && v.openFilled = ⟨false, 10 ^ 27, 1⟩
  | .error _ => false

/-- A reused event id hides an execution, and the context rounds a sum of more than twenty-eight digits. -/
theorem reused_or_rounded : ¬ Store.RowPerExecution ∧ ¬ Store.TotalsExact := by
  constructor
  · intro h
    obtain ⟨a, ha⟩ := exists_returned (e := fillEvent) (w := .fresh "fx" bridgeMemory) (by decide +kernel)
    have hfed : Store.Fed {fillEvent, reusedFill} [fillEvent] (deliver fillEvent (.fresh "fx" bridgeMemory)) :=
      .delivered (.fresh "fx" bridgeMemory) (Or.inl rfl) sampleAnswers ha
    have hraised : raisesValue ((Store.record reusedFill).eval sampleAnswers (deliver fillEvent (.fresh "fx" bridgeMemory))).2 = true := by
      decide +kernel
    have hrows : (((Store.record reusedFill).eval sampleAnswers (deliver fillEvent (.fresh "fx" bridgeMemory))).1.journal
        |>.executionRows reusedFill).length = 0 := by decide +kernel
    obtain ⟨f, hf⟩ := h _ _ _ (fillsAgreed_pair (by decide) (by decide) (by decide)) hfed reusedFill (Or.inr rfl) rfl sampleAnswers
      (fun he => by rw [he] at hraised; cases hraised) (fun he => by rw [he] at hraised; cases hraised)
    rw [hf] at hrows
    cases hrows
  · intro h
    let w := deliver unitFill (deliver largeFill (.fresh "fx" bridgeMemory))
    obtain ⟨a, ha⟩ := exists_returned (e := largeFill) (w := .fresh "fx" bridgeMemory) (by decide +kernel)
    obtain ⟨b, hb⟩ := exists_returned (e := unitFill) (w := deliver largeFill (.fresh "fx" bridgeMemory)) (by decide +kernel)
    have hfed : Store.Fed {largeFill, unitFill} [unitFill, largeFill] w :=
      .delivered (.delivered (.fresh "fx" bridgeMemory) (Or.inl rfl) sampleAnswers ha) (Or.inr rfl) sampleAnswers hb
    have hfound : w.journal.trades.any (fun t => t.sourceKey = (fillEvent.scope, "o1") &&
        FilledSnapshot.rounded (w.journal.filledSnapshot t)) = true := by decide +kernel
    have hheld : w.journal.events.all (fun r => r.payload.executionId = "x1" || r.payload.executionId = "x2") = true
        ∧ w.journal.events.any (fun r => r.payload.same largeFill) = true
        ∧ w.journal.events.any (fun r => r.payload.same unitFill) = true := by decide +kernel
    obtain ⟨t, ht, hk⟩ := List.any_eq_true.mp hfound
    simp only [Bool.and_eq_true, decide_eq_true_eq] at hk
    have hrep : w.journal.Represents t [largeFill, unitFill] := by
      refine ⟨fun x hx => ?_, by decide, fun r hr _ _ => ?_⟩
      · have hone : (x = largeFill ∨ x = unitFill) := by simpa using hx
        rcases hone with rfl | rfl
        · exact ⟨⟨rfl, by decide⟩, hk.1.symm, List.any_eq_true.mp hheld.2.1⟩
        · exact ⟨⟨rfl, by decide⟩, hk.1.symm, List.any_eq_true.mp hheld.2.2⟩
      · have hid := List.all_eq_true.mp hheld.1 r hr
        simp only [Bool.or_eq_true, decide_eq_true_eq] at hid
        rcases hid with hid | hid
        · exact ⟨largeFill, List.mem_cons_self, hid.symm⟩
        · exact ⟨unitFill, List.mem_cons_of_mem _ List.mem_cons_self, hid.symm⟩
    cases hs : w.journal.filledSnapshot t with
    | error x =>
      rw [hs] at hk
      cases hk.2
    | ok s =>
      rw [hs] at hk
      obtain ⟨v, hv, hview⟩ := List.any_eq_true.mp hk.2
      simp only [Bool.and_eq_true, decide_eq_true_eq] at hview
      have htotals := h _ _ _ (fillsAgreed_pair (by decide) (by decide) (by decide)) (idsHonest_pair (by decide)) hfed t ht _ hrep s hs
      obtain ⟨i, hi, rfl⟩ := List.getElem_of_mem hv
      obtain ⟨hq, hopen, -⟩ := htotals.get (htotals.length_eq ▸ hi) hi
      simp only [List.get_eq_getElem] at hq hopen
      simp only [← hq, hview.1.1, hview.1.2, hview.2] at hopen
      norm_num [total, largeFill, unitFill, fillEvent, sampleEvent, CaptureEvent.scope, Decimal.toRat, Decimal.ofNat] at hopen

end Sample

end MatchTrader
