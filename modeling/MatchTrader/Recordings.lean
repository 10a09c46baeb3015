import MatchTrader.Runs
import MatchTrader.Spellings

/-! Recording an event is one transaction: it raises and leaves every table as it was, or it files the
event once, under the trade of its order, else under the only trade linked to its position. -/

namespace MatchTrader

open Durable

def TradeRow.identity (t : TradeRow) : String × Scope × String := (t.tradeId, t.sourceKey)

/-- Nothing was sent for the trade. -/
structure TradeRow.Blank (t : TradeRow) : Prop where
  destination : t.destination = ""
  brokerOrderId : t.brokerOrderId = ""
  brokerPositionId : t.brokerPositionId = ""
  lots : t.lots = none

/-- What no later transaction changes of an event on record. -/
def EventRow.filed (r : EventRow) : (String × String) × String × Option String × CaptureEvent :=
  (r.eventKey, r.digest, r.tradeId, r.payload)

/-- The reason names its origin, a code and its evidence. -/
def ReasonRow.Complete (r : ReasonRow) : Prop := blank r.origin = false ∧ blank r.code = false ∧ blank r.evidence = false

namespace Journal

variable {j k l : Journal}

/-- The identities and the events on record stay as they are, and the keys of links and executions stay unique. -/
structure Upkeep (j k : Journal) : Prop where
  identities : k.trades.map TradeRow.identity = j.trades.map TradeRow.identity
  filed : k.events.map EventRow.filed = j.events.map EventRow.filed
  links : (j.links.map LinkRow.key).Nodup → (k.links.map LinkRow.key).Nodup
  fills : (j.fills.map FillRow.key).Nodup → (k.fills.map FillRow.key).Nodup

namespace Upkeep

theorem of_eq (ht : k.trades = j.trades) (he : k.events = j.events) (hl : k.links = j.links) (hf : k.fills = j.fills) :
    j.Upkeep k := ⟨by rw [ht], by rw [he], fun h => hl ▸ h, fun h => hf ▸ h⟩

theorem refl (j : Journal) : j.Upkeep j := .of_eq rfl rfl rfl rfl

theorem trans (h : j.Upkeep k) (hh : k.Upkeep l) : j.Upkeep l where
  identities := hh.identities.trans h.identities
  filed := hh.filed.trans h.filed
  links hn := hh.links (h.links hn)
  fills hn := hh.fills (h.fills hn)

theorem updateTrade (j : Journal) (i : String) {f : TradeRow → TradeRow} (hf : ∀ t, (f t).identity = t.identity) :
    j.Upkeep (j.updateTrade i f) := ⟨Rows.keys_updateWhere hf, rfl, id, id⟩

theorem link (j : Journal) (trade nativeId evidence at_ : String) (side : Leg) (scope : LegScope) (kind : Kind) :
    j.Upkeep (j.link trade side scope kind nativeId evidence at_) := by
  unfold Journal.link
  split
  · exact .refl j
  · refine ⟨rfl, rfl, fun hn => ?_, id⟩
    simp only [Rows.insertNew]
    split
    · exact hn
    · next h =>
      simp only [Bool.not_eq_true, Rows.has_eq_false_iff] at h
      exact Rows.nodup_append hn h

theorem observeQuantities (j : Journal) (q : QuantityRow) : j.Upkeep (j.observeQuantities q) := by
  unfold Journal.observeQuantities
  split
  · split
    · exact .refl j
    · exact .of_eq rfl rfl rfl rfl
  · exact .of_eq rfl rfl rfl rfl

theorem observePosition (j : Journal) (p : PositionRow) : j.Upkeep (j.observePosition p) := .of_eq rfl rfl rfl rfl

theorem observeDestination [Host] (j : Journal) (o : ObservationRow) : j.Upkeep (j.observeDestination o) :=
  .of_eq rfl rfl rfl rfl

theorem fill {f : FillRow} (h : j.fill f = .ok k) : j.Upkeep k := by
  unfold Journal.fill at h
  split at h
  · split at h
    · exact Except.ok.inj h ▸ .refl j
    · simp at h
  · next hnone =>
    obtain rfl := Except.ok.inj h
    refine .trans (k := { j with fills := j.fills ++ [f] }) ⟨rfl, rfl, id, fun hn => ?_⟩ ((link ..).trans (link ..))
    exact Rows.nodup_append hn (Rows.lookup_eq_none_iff.mp hnone)

theorem foldl {α : Type} {f : Journal → α → Journal} (h : ∀ (j : Journal) a, j.Upkeep (f j a)) (rows : List α) (j : Journal) :
    j.Upkeep (rows.foldl f j) := by
  induction rows generalizing j with
  | nil => exact .refl j
  | cons a rows ih => exact (h j a).trans (ih _)

theorem update (j : Journal) (i : String) (u : TradeUpdate) (now : String) : j.Upkeep (j.update i u now) := by
  unfold Journal.update
  have hu := updateTrade j i (f := u.apply now) fun _ => rfl
  simp only
  split
  · exact hu
  · split
    · exact hu
    · split
      · exact hu.trans ((link ..).trans ((link ..).trans (observeQuantities ..)))
      · exact hu.trans ((link ..).trans (link ..))

theorem claim {i requestId destination now : String} {key : ActionKey} {action : Action} {request : Call} {b : Bool}
    (h : claim i key requestId action destination request now j = .ok (b, k)) : j.Upkeep k := by
  cases b with
  | false => exact Journal.claim_refused h ▸ .refl j
  | true =>
    obtain ⟨_, _, rfl⟩ := claim_ok h
    exact (updateTrade j i (f := TradeRow.setState .dispatching) fun _ => rfl).trans (.of_eq rfl rfl rfl rfl)

theorem finish {i now : String} {key : ActionKey} {state : Outcome} (h : j.finish i key state now = .ok k) : j.Upkeep k := by
  obtain ⟨_, _, rfl⟩ := finish_ok h
  exact .of_eq rfl rfl rfl rfl

theorem recordReason [Host] {i now : String} {key : ActionKey} {attempt : Nat} {outcome : Outcome} {reason : Reason}
    (h : j.recordReason i key attempt outcome reason now = .ok k) : j.Upkeep k := by
  unfold Journal.recordReason at h
  split at h
  · simp at h
  · exact Except.ok.inj h ▸ .of_eq rfl rfl rfl rfl

theorem initMapping {broker : String} (h : Journal.initMapping broker j = .ok k) : j.Upkeep k :=
  initMapping_keeps h refl trans link (fun j i => updateTrade j i fun _ => rfl) fun _ _ _ _ _ => .of_eq rfl rfl rfl rfl

theorem recover (j : Journal) : j.Upkeep j.recover :=
  ⟨Rows.keys_updateWhere fun _ => rfl, rfl, id, id⟩

end Upkeep

/-- No outcome is on record without its origin, code and evidence. -/
def ReasonsComplete (j : Journal) : Prop := ∀ q ∈ j.reasons, q.Complete

/-- The executions stay as they are, no quantities lose their row, and no reason is incomplete that was not. -/
structure Aside (j k : Journal) : Prop where
  fills : k.fills = j.fills
  quantities : ∀ q ∈ j.quantities, ∃ r ∈ k.quantities, r.key = q.key
  reasons : j.ReasonsComplete → k.ReasonsComplete

namespace Aside

theorem of_eq (hf : k.fills = j.fills) (hq : k.quantities = j.quantities) (hr : k.reasons = j.reasons) : j.Aside k :=
  ⟨hf, fun q h => ⟨q, hq ▸ h, rfl⟩, fun h q hq => h q (hr ▸ hq)⟩

theorem refl (j : Journal) : j.Aside j := .of_eq rfl rfl rfl

theorem trans (h : j.Aside k) (hh : k.Aside l) : j.Aside l := by
  refine ⟨hh.fills.trans h.fills, fun q hq => ?_, hh.reasons ∘ h.reasons⟩
  obtain ⟨r, hr, hrq⟩ := h.quantities q hq
  obtain ⟨s, hs, hsr⟩ := hh.quantities r hr
  exact ⟨s, hs, hsr.trans hrq⟩

theorem link (j : Journal) (trade nativeId evidence at_ : String) (side : Leg) (scope : LegScope) (kind : Kind) :
    j.Aside (j.link trade side scope kind nativeId evidence at_) := by
  unfold Journal.link
  split
  · exact .refl j
  · exact .of_eq rfl rfl rfl

theorem observeQuantities (j : Journal) (q : QuantityRow) : j.Aside (j.observeQuantities q)
    ∧ ∃ r ∈ (j.observeQuantities q).quantities, r.key = q.key := by
  unfold Journal.observeQuantities
  split
  · next old hold =>
    obtain ⟨hmem, hkey⟩ := Rows.lookup_mem hold
    split
    · exact ⟨.refl j, old, hmem, hkey⟩
    · have hrow (r : QuantityRow) (hr : r ∈ j.quantities) : ∃ s ∈ (Rows.updateWhere (fun r => r.key = q.key)
          (fun r => { r with requested := q.requested.or r.requested, cumulative := q.cumulative.or r.cumulative,
                             remaining := q.remaining.or r.remaining, unit := q.unit, updatedAt := q.updatedAt })
          j.quantities), s.key = r.key := by
        refine ⟨_, Rows.mem_updateWhere_of_mem hr, ?_⟩
        split <;> rfl
      obtain ⟨r, hr, hrk⟩ := hrow old hmem
      exact ⟨⟨rfl, hrow, id⟩, r, hr, hrk.trans hkey⟩
  · exact ⟨⟨rfl, fun r hr => ⟨r, List.mem_append_left _ hr, rfl⟩, id⟩, q, List.mem_append_right _ List.mem_cons_self, rfl⟩

theorem foldl {α : Type} {f : Journal → α → Journal} (h : ∀ (j : Journal) a, j.Aside (f j a)) (rows : List α) (j : Journal) :
    j.Aside (rows.foldl f j) := by
  induction rows generalizing j with
  | nil => exact .refl j
  | cons a rows ih => exact (h j a).trans (ih _)

theorem update (j : Journal) (i : String) (u : TradeUpdate) (now : String) : j.Aside (j.update i u now) := by
  unfold Journal.update
  have hu : j.Aside (j.updateTrade i (u.apply now)) := .of_eq rfl rfl rfl
  simp only
  split
  · exact hu
  · split
    · exact hu
    · split
      · exact hu.trans ((link ..).trans ((link ..).trans (observeQuantities ..).1))
      · exact hu.trans ((link ..).trans (link ..))

theorem claim {i requestId destination now : String} {key : ActionKey} {action : Action} {request : Call} {b : Bool}
    (h : claim i key requestId action destination request now j = .ok (b, k)) : j.Aside k := by
  cases b with
  | false => exact Journal.claim_refused h ▸ .refl j
  | true =>
    obtain ⟨_, _, rfl⟩ := claim_ok h
    exact .of_eq rfl rfl rfl

theorem finish {i now : String} {key : ActionKey} {state : Outcome} (h : j.finish i key state now = .ok k) : j.Aside k := by
  obtain ⟨_, _, rfl⟩ := finish_ok h
  exact .of_eq rfl rfl rfl

theorem recordReason {i now : String} {key : ActionKey} {attempt : Nat} {outcome : Outcome} {reason : Reason}
    (h : j.recordReason i key attempt outcome reason now = .ok k) : j.Aside k := by
  unfold Journal.recordReason at h
  split at h
  · simp at h
  · next hb =>
    obtain rfl := Except.ok.inj h
    refine ⟨rfl, fun q hq => ⟨q, hq, rfl⟩, fun hj q hq => ?_⟩
    rcases Rows.mem_of_mem_insertNew hq with hq | rfl
    · exact hj q hq
    · simp only [not_or, Bool.not_eq_true] at hb
      exact hb

theorem initMapping {broker : String} (h : Journal.initMapping broker j = .ok k) : j.Aside k :=
  initMapping_keeps h refl trans link (fun _ _ => .of_eq rfl rfl rfl) fun _ _ _ _ _ => .of_eq rfl rfl rfl

end Aside

/-- The execution that a FILL reports. -/
def execution (trade : String) (e : CaptureEvent) : FillRow :=
  ⟨.source, .source e.scope, e.executionId, trade, e.orderId, e.positionId, e.quantity, e.price, e.fillEffect,
    e.emittedAt.isoformat⟩

/-- The mapping of an event links its identities, files its execution and observes its quantities. -/
theorem sourceEvent_ok {trade : String} {e : CaptureEvent} (h : j.sourceEvent trade e = .ok k) :
    ∃ l m, j.Aside l ∧ j.Upkeep l ∧ m.Upkeep k ∧ m.Aside k
      ∧ (∃ q ∈ k.quantities, q.key = (trade, .source, .source e.scope))
      ∧ if e.kind = .fill ∧ e.executionId ≠ "" then l.fill (execution trade e) = .ok m else m = l := by
  let first := j.link trade .source (.source e.scope) .order e.orderId "native order" e.emittedAt.isoformat
  let second := if e.positionId ≠ "" ∧ (e.kind = .fill ∨ e.kind = .position) then
      first.link trade .source (.source e.scope) .position e.positionId "native relationship" e.emittedAt.isoformat
    else first
  have hs : j.Aside second ∧ j.Upkeep second := by
    unfold second
    split
    · exact ⟨(Aside.link ..).trans (Aside.link ..), (Upkeep.link ..).trans (Upkeep.link ..)⟩
    · exact ⟨Aside.link .., Upkeep.link ..⟩
  have hseen (m : Journal) (q : QuantityRow) : m.Upkeep ((m.observed e).observeQuantities q)
      ∧ m.Aside ((m.observed e).observeQuantities q) ∧ ∃ r ∈ ((m.observed e).observeQuantities q).quantities, r.key = q.key := by
    unfold observed
    refine ⟨.trans ?_ (Upkeep.observeQuantities ..), .trans ?_ (Aside.observeQuantities ..).1, (Aside.observeQuantities ..).2⟩
    · split
      · split
        · exact .observePosition ..
        · exact .refl _
      · exact .refl _
    · split
      · split
        · exact .of_eq rfl rfl rfl
        · exact .refl _
      · exact .refl _
  by_cases hf : e.kind = .fill ∧ e.executionId ≠ ""
  · simp only [sourceEvent, if_pos hf, bind_eq_ok] at h
    obtain ⟨m, hm, h⟩ := h
    obtain ⟨hkeep, haside, hrow⟩ := hseen m _
    exact ⟨second, m, hs.1, hs.2, Except.ok.inj h ▸ hkeep, Except.ok.inj h ▸ haside, Except.ok.inj h ▸ hrow,
      by rw [if_pos hf]; exact hm⟩
  · simp only [sourceEvent, if_neg hf, bind_eq_ok] at h
    obtain ⟨m, hm, h⟩ := h
    obtain ⟨hkeep, haside, hrow⟩ := hseen m _
    exact ⟨second, m, hs.1, hs.2, Except.ok.inj h ▸ hkeep, Except.ok.inj h ▸ haside, Except.ok.inj h ▸ hrow,
      by rw [if_neg hf]; exact (Except.ok.inj hm).symm⟩

theorem Upkeep.sourceEvent {trade : String} {e : CaptureEvent} (h : j.sourceEvent trade e = .ok k) : j.Upkeep k := by
  obtain ⟨l, m, _, hl, hk, _, _, hm⟩ := sourceEvent_ok h
  refine hl.trans (.trans ?_ hk)
  split at hm
  · exact .fill hm
  · exact hm ▸ .refl l

/-- After the mapping, recording changes only what its trade's row says. -/
theorem recordTrade_sourced {t : TradeRow} {e : CaptureEvent} {now : String} (h : j.recordTrade t e now = .ok k) :
    ∃ l, j.sourceEvent t.tradeId e = .ok l ∧ l.Upkeep k ∧ l.Aside k := by
  unfold Journal.recordTrade at h
  rw [bind_eq_ok] at h
  obtain ⟨j₁, h₁, h⟩ := h
  extract_lets j₂ j₃ j₄ j₅ position j₆ at h
  obtain rfl := Except.ok.inj h
  have hu {l : Journal} (i : String) {f : TradeRow → TradeRow} (hf : ∀ t, (f t).identity = t.identity) :
      l.Upkeep (l.updateTrade i f) ∧ l.Aside (l.updateTrade i f) := ⟨.updateTrade l i hf, .of_eq rfl rfl rfl⟩
  have h₂ : j₁.Upkeep j₂ ∧ j₁.Aside j₂ := hu _ fun _ => rfl
  have h₃ : j₂.Upkeep j₃ ∧ j₂.Aside j₃ := by
    unfold j₃
    split
    · exact hu _ fun _ => rfl
    · exact ⟨.refl _, .refl _⟩
  have h₄ : j₃.Upkeep j₄ ∧ j₃.Aside j₄ := hu _ fun _ => rfl
  have h₅ : j₃.Upkeep j₅ ∧ j₃.Aside j₅ := by
    unfold j₅
    split
    · split
      · exact ⟨h₄.1.trans (.updateTrade _ _ fun _ => rfl), h₄.2.trans (.of_eq rfl rfl rfl)⟩
      · exact h₄
    · exact ⟨.refl _, .refl _⟩
  have h₆ : j₅.Upkeep j₆ ∧ j₅.Aside j₆ := by
    unfold j₆
    split
    · exact hu _ fun _ => rfl
    · exact ⟨.refl _, .refl _⟩
  refine ⟨j₁, h₁, h₂.1.trans (h₃.1.trans (h₅.1.trans (h₆.1.trans ?_))), h₂.2.trans (h₃.2.trans (h₅.2.trans (h₆.2.trans ?_)))⟩
  · split
    · exact .updateTrade _ _ fun _ => rfl
    · exact .refl _
  · split
    · exact .of_eq rfl rfl rfl
    · exact .refl _

theorem Upkeep.recordTrade {t : TradeRow} {e : CaptureEvent} {now : String} (h : j.recordTrade t e now = .ok k) :
    j.Upkeep k := by
  obtain ⟨l, hl, hk, _⟩ := recordTrade_sourced h
  exact (Upkeep.sourceEvent hl).trans hk

/-- A known trade's FILL agrees with the execution that its identity has on record. -/
theorem recordTrade_agrees {t : TradeRow} {e : CaptureEvent} {now : String} {f : FillRow}
    (h : j.recordTrade t e now = .ok k) (hn : (j.fills.map FillRow.key).Nodup) (hf : f ∈ j.fills)
    (hk : e.kind = .fill) (hx : e.executionId ≠ "") (hkey : f.key = (execution t.tradeId e).key) :
    f.orderId = e.orderId ∧ f.positionId = e.positionId ∧ f.effect = e.fillEffect ∧ f.quantity.same e.quantity = true
      ∧ f.price.same e.price = true := by
  obtain ⟨j₁, h₁, _⟩ := recordTrade_sourced h
  obtain ⟨l, m, hl, _, _, _, _, hm⟩ := sourceEvent_ok h₁
  rw [if_pos ⟨hk, hx⟩] at hm
  unfold Journal.fill at hm
  rw [hl.fills, ← hkey, Rows.lookup_of_mem hn hf] at hm
  simp only at hm
  split at hm
  · next hsame => exact hsame.2
  · simp at hm

def LinkedTo (j : Journal) (s : Scope) (position : String) (t : TradeRow) : Prop :=
  t ∈ j.trades ∧ ∃ l ∈ j.links, l.tradeId = t.tradeId ∧ l.side = .source ∧ l.kind = .position ∧ l.scope = .source s
    ∧ l.nativeId = position

def OnlyLinked (j : Journal) (s : Scope) (position : String) (t : TradeRow) : Prop :=
  j.LinkedTo s position t ∧ ∀ u, j.LinkedTo s position u → u = t

section Sound

variable [Host]

/-- The keys are unique, and each event on record has its own key and digest, and the trade of its order. -/
structure Sound (j : Journal) : Prop where
  tradeIds : (j.trades.map TradeRow.tradeId).Nodup
  sourceKeys : (j.trades.map TradeRow.sourceKey).Nodup
  eventKeys : (j.events.map EventRow.eventKey).Nodup
  links : (j.links.map LinkRow.key).Nodup
  fills : (j.fills.map FillRow.key).Nodup
  keyed : ∀ r ∈ j.events, r.eventKey = (r.payload.machine, r.payload.eventId)
  digested : ∀ r ∈ j.events, r.digest = Host.sha256 r.payload.modelDumpJson
  attached : ∀ r ∈ j.events, r.payload.orderId ≠ "" →
    ∃ t ∈ j.trades, r.tradeId = some t.tradeId ∧ t.sourceKey = (r.payload.scope, r.payload.orderId)

theorem sound_created (broker : String) : (created broker).Sound where
  tradeIds := List.nodup_nil
  sourceKeys := List.nodup_nil
  eventKeys := List.nodup_nil
  links := List.nodup_nil
  fills := List.nodup_nil
  keyed _ h := absurd h (by simp [created])
  digested _ h := absurd h (by simp [created])
  attached _ h := absurd h (by simp [created])

theorem Upkeep.sound (h : j.Upkeep k) (hs : j.Sound) : k.Sound := by
  have hevent {r : EventRow} (hr : r ∈ k.events) : ∃ q ∈ j.events, q.filed = r.filed :=
    List.mem_map.mp (h.filed ▸ List.mem_map_of_mem hr)
  have hids : k.trades.map TradeRow.tradeId = j.trades.map TradeRow.tradeId := by
    have hm := congrArg (List.map Prod.fst) h.identities
    rwa [List.map_map, List.map_map] at hm
  have hkeys : k.trades.map TradeRow.sourceKey = j.trades.map TradeRow.sourceKey := by
    have hm := congrArg (List.map Prod.snd) h.identities
    rwa [List.map_map, List.map_map] at hm
  have hevents : k.events.map EventRow.eventKey = j.events.map EventRow.eventKey := by
    have hm := congrArg (List.map Prod.fst) h.filed
    rwa [List.map_map, List.map_map] at hm
  refine ⟨hids ▸ hs.tradeIds, hkeys ▸ hs.sourceKeys, hevents ▸ hs.eventKeys, h.links hs.links, h.fills hs.fills,
    fun r hr => ?_, fun r hr => ?_, fun r hr ho => ?_⟩
  · obtain ⟨q, hq, hf⟩ := hevent hr
    simp only [EventRow.filed, Prod.mk.injEq] at hf
    rw [← hf.1, ← hf.2.2.2]
    exact hs.keyed q hq
  · obtain ⟨q, hq, hf⟩ := hevent hr
    simp only [EventRow.filed, Prod.mk.injEq] at hf
    rw [← hf.2.1, ← hf.2.2.2]
    exact hs.digested q hq
  · obtain ⟨q, hq, hf⟩ := hevent hr
    simp only [EventRow.filed, Prod.mk.injEq] at hf
    obtain ⟨t, ht, hi, hk⟩ := hs.attached q hq (hf.2.2.2 ▸ ho)
    have hm : t.identity ∈ k.trades.map TradeRow.identity := h.identities ▸ List.mem_map_of_mem ht
    obtain ⟨u, hu, hid⟩ := List.mem_map.mp hm
    simp only [TradeRow.identity, Prod.mk.injEq] at hid
    exact ⟨u, hu, by rw [← hf.2.2.1, hi, hid.1], by rw [hid.2, hk, hf.2.2.2]⟩

/-- The trades linked to a position are those found through its links, each once. -/
theorem tradeOf_position (hs : j.Sound) {e : CaptureEvent} (ho : e.orderId = "") (hp : e.positionId ≠ "") (t : TradeRow) :
    j.tradeOf e = some t ↔ j.OnlyLinked e.scope e.positionId t := by
  let rows := j.links.filter fun l => l.side = .source ∧ l.kind = .position ∧ l.scope = .source e.scope
    ∧ l.nativeId = e.positionId
  let found := rows.filterMap fun l => j.trade? l.tradeId
  have hone : j.tradeOf e = some t ↔ found = [t] := by
    unfold tradeOf
    rw [if_neg (not_not_intro ho), if_pos hp]
    change _ ↔ rows.filterMap (fun l => j.trade? l.tradeId) = [t]
    generalize rows.filterMap (fun l => j.trade? l.tradeId) = trades
    obtain _ | ⟨u, _ | ⟨v, rest⟩⟩ := trades <;> simp
  have hrow (l : LinkRow) : l ∈ rows ↔ l ∈ j.links ∧ l.side = .source ∧ l.kind = .position ∧ l.scope = .source e.scope
      ∧ l.nativeId = e.positionId := by simp [rows]
  have htrade (l : LinkRow) (u : TradeRow) : j.trade? l.tradeId = some u ↔ u ∈ j.trades ∧ u.tradeId = l.tradeId :=
    Rows.lookup_eq_some_iff hs.tradeIds
  have hmem (u : TradeRow) : u ∈ found ↔ j.LinkedTo e.scope e.positionId u := by
    simp only [found, List.mem_filterMap, hrow, htrade, LinkedTo]
    constructor
    · rintro ⟨l, ⟨hl, h⟩, hu, hi⟩
      exact ⟨hu, l, hl, hi.symm, h⟩
    · rintro ⟨hu, l, hl, hi, h⟩
      exact ⟨l, ⟨hl, h⟩, hu, hi.symm⟩
  have hnodup : found.Nodup := by
    have hlinks : rows.Pairwise fun l m => l.key ≠ m.key :=
      (List.pairwise_map.mp hs.links).filter _
    refine List.pairwise_filterMap.mpr (hlinks.imp_of_mem fun {l m} hl hm hkey u hu v hv huv => hkey ?_)
    obtain ⟨_, hl⟩ := (hrow l).mp hl
    obtain ⟨_, hm⟩ := (hrow m).mp hm
    have hi : l.tradeId = m.tradeId := by
      rw [← ((htrade l u).mp hu).2, ← ((htrade m v).mp hv).2, huv]
    simp only [LinkRow.key, hi, hl, hm]
  rw [hone, OnlyLinked, ← hmem]
  constructor
  · intro h
    exact ⟨h ▸ List.mem_singleton_self t, fun u hu => List.mem_singleton.mp (h ▸ (hmem u).mpr hu)⟩
  · rintro ⟨ht, hu⟩
    by_contra hne
    rcases (hnodup.ne_singleton_iff t).mp hne with hnil | ⟨u, hmu, hut⟩
    · exact List.not_mem_nil (hnil ▸ ht)
    · exact hut (hu u ((hmem u).mp hmu))

/-- The trade that an event is filed under, and the journal that has it. -/
inductive Attributes (j : Journal) (e : CaptureEvent) : Option TradeRow → Journal → Prop
  | known {t : TradeRow} (h : j.tradeOf e = some t) : Attributes j e (some t) j
  | unknown (h : j.tradeOf e = none) (ho : e.orderId = "") : Attributes j e none j
  | opened {t : TradeRow} (h : j.tradeOf e = none) (ho : e.orderId ≠ "") (hi : ∀ u ∈ j.trades, u.tradeId ≠ t.tradeId)
    (hk : t.sourceKey = (e.scope, e.orderId)) (hb : t.Blank) : Attributes j e (some t) { j with trades := j.trades ++ [t] }

variable {e : CaptureEvent} {now identity : String} {row : EventRow} {trade : Option TradeRow} {t : TradeRow}

/-- An event that was not on record is attributed first, then its trade records it, and its row comes last. -/
theorem recordEvent_filed (h : j.recordEvent e now identity = .ok ((row, false), k)) :
    (∀ r ∈ j.events, r.eventKey ≠ (e.machine, e.eventId)) ∧ ∃ trade l m, j.Attributes e trade l
      ∧ (∀ t, trade = some t → l.recordTrade t e now = .ok m) ∧ (trade = none → m = l)
      ∧ row.eventKey = (e.machine, e.eventId) ∧ row.digest = Host.sha256 e.modelDumpJson
      ∧ row.tradeId = trade.map TradeRow.tradeId ∧ row.payload = e ∧ k = { m with events := m.events ++ [row] } := by
  unfold Journal.recordEvent at h
  extract_lets digest key rest t₀ at h
  have hr {trade : Option TradeRow} {l : Journal} (ha : j.Attributes e trade l) (h : rest (trade, l) = .ok ((row, false), k)) :
      ∃ trade l m, j.Attributes e trade l ∧ (∀ t, trade = some t → l.recordTrade t e now = .ok m) ∧ (trade = none → m = l)
        ∧ row.eventKey = (e.machine, e.eventId) ∧ row.digest = Host.sha256 e.modelDumpJson
        ∧ row.tradeId = trade.map TradeRow.tradeId ∧ row.payload = e ∧ k = { m with events := m.events ++ [row] } := by
    cases trade with
    | none =>
      simp only [rest, bind_eq_ok] at h
      obtain ⟨m, hm, h⟩ := h
      simp only [Except.ok.injEq, Prod.mk.injEq, and_true] at h
      obtain ⟨rfl, rfl⟩ := h
      exact ⟨none, l, m, ha, fun _ h => absurd h (by simp), fun _ => (Except.ok.inj hm).symm, rfl, rfl, rfl, rfl, rfl⟩
    | some t =>
      simp only [rest, bind_eq_ok] at h
      obtain ⟨m, hm, h⟩ := h
      simp only [Except.ok.injEq, Prod.mk.injEq, and_true] at h
      obtain ⟨rfl, rfl⟩ := h
      exact ⟨some t, l, m, ha, fun _ h => Option.some.inj h ▸ hm, fun h => absurd h (by simp), rfl, rfl, rfl, rfl, rfl⟩
  split at h
  · split at h
    · simp at h
    · simp at h
  next hnone =>
  refine ⟨Rows.lookup_eq_none_iff.mp hnone, ?_⟩
  split at h
  · next t ht => exact hr (.known ht) h
  next ht =>
  split at h
  · next ho => exact hr (.unknown ht ho) h
  next ho =>
  split at h
  · simp [bind, Except.bind] at h
  · next hid =>
    simp only [Bool.not_eq_true, Rows.has_eq_false_iff] at hid
    exact hr (.opened ht ho hid rfl ⟨rfl, rfl, rfl, rfl⟩) h

theorem Attributes.sound (h : j.Attributes e trade l) (hs : j.Sound) : l.Sound := by
  cases h with
  | known | unknown => exact hs
  | @opened t ht ho hi hk _ =>
    have hnew : ∀ u ∈ j.trades, u.sourceKey ≠ t.sourceKey := by
      rw [tradeOf, if_pos ho, Rows.lookup_eq_none_iff] at ht
      exact hk ▸ ht
    exact { hs with
      tradeIds := Rows.nodup_append hs.tradeIds hi
      sourceKeys := Rows.nodup_append hs.sourceKeys hnew
      attached := fun r hr hro => by
        obtain ⟨u, hu, h⟩ := hs.attached r hr hro
        exact ⟨u, List.mem_append_left _ hu, h⟩ }

omit [Host] in
theorem Attributes.ordered (h : j.Attributes e trade l) (ho : e.orderId ≠ "") :
    ∃ t ∈ l.trades, trade = some t ∧ t.sourceKey = (e.scope, e.orderId) := by
  cases h with
  | @known t ht =>
    rw [tradeOf, if_pos ho] at ht
    exact ⟨t, (Rows.lookup_mem ht).1, rfl, (Rows.lookup_mem ht).2⟩
  | unknown _ hn => exact absurd hn ho
  | @opened t _ _ _ hk _ => exact ⟨t, List.mem_append_right _ List.mem_cons_self, rfl, hk⟩

omit [Host] in
theorem Attributes.events (h : j.Attributes e trade l) : l.events = j.events ∧ l.fills = j.fills := by
  cases h <;> exact ⟨rfl, rfl⟩

theorem Sound.recordEvent {again : Bool} (hs : j.Sound) (h : j.recordEvent e now identity = .ok ((row, again), k)) :
    k.Sound := by
  cases again with
  | true =>
    obtain ⟨_, ⟨_, _, rfl⟩ | ⟨ha, _⟩⟩ := recordEvent_cases h
    · exact hs
    · cases ha
  | false =>
    obtain ⟨hnew, trade, l, m, ha, hm, hn, hkey, hdigest, htrade, hpayload, rfl⟩ := recordEvent_filed h
    have hlm : l.Upkeep m := by
      cases trade with
      | none => exact hn rfl ▸ .refl l
      | some t => exact .recordTrade (hm t rfl)
    have hl := ha.sound hs
    have hsm : m.Sound := hlm.sound hl
    have hkeys : m.events.map EventRow.eventKey = j.events.map EventRow.eventKey := by
      have hf := congrArg (List.map Prod.fst) hlm.filed
      rw [List.map_map, List.map_map, ha.events.1] at hf
      exact hf
    have hfresh : ∀ r ∈ m.events, r.eventKey ≠ row.eventKey := by
      intro r hr he
      obtain ⟨q, hq, hqr⟩ := List.mem_map.mp (hkeys ▸ List.mem_map_of_mem hr)
      exact hnew q hq (hqr.trans (he.trans hkey))
    have hrow {P : EventRow → Prop} (hP : ∀ r ∈ m.events, P r) (h : P row) : ∀ r ∈ m.events ++ [row], P r := by
      intro r hr
      rcases List.mem_append.mp hr with hr | hr
      · exact hP r hr
      · exact List.mem_singleton.mp hr ▸ h
    exact { hsm with
      eventKeys := Rows.nodup_append hsm.eventKeys hfresh
      keyed := hrow hsm.keyed (hpayload ▸ hkey)
      digested := hrow hsm.digested (hpayload ▸ hdigest)
      attached := hrow hsm.attached fun ho => by
        rw [hpayload] at ho ⊢
        obtain ⟨t, ht, rfl, hk⟩ := ha.ordered ho
        have hid : t.identity ∈ m.trades.map TradeRow.identity := hlm.identities ▸ List.mem_map_of_mem ht
        obtain ⟨u, hu, hut⟩ := List.mem_map.mp hid
        simp only [TradeRow.identity, Prod.mk.injEq] at hut
        exact ⟨u, hu, by rw [htrade, Option.map_some, hut.1], hut.2.trans hk⟩ }

theorem ReasonsComplete.recordEvent {again : Bool} (hj : j.ReasonsComplete)
    (h : j.recordEvent e now identity = .ok ((row, again), k)) : k.ReasonsComplete := by
  cases again with
  | true =>
    obtain ⟨_, ⟨_, _, rfl⟩ | ⟨ha, _⟩⟩ := recordEvent_cases h
    · exact hj
    · cases ha
  | false =>
    obtain ⟨_, trade, l, m, ha, hm, hn, _, _, _, _, rfl⟩ := recordEvent_filed h
    have hl : l.ReasonsComplete := by cases ha <;> exact hj
    cases trade with
    | none => exact hn rfl ▸ hl
    | some t =>
      obtain ⟨u, hu, -, haside⟩ := recordTrade_sourced (hm t rfl)
      have hkept : u.ReasonsComplete := fun q hq => hl q ((Passive.sourceEvent hu).reasons ▸ hq)
      exact haside.reasons hkept

/-- No event on record has the digest of another text. -/
def CollisionFree (j : Journal) (e : CaptureEvent) : Prop :=
  ∀ r ∈ j.events, Host.sha256 r.payload.modelDumpJson = Host.sha256 e.modelDumpJson →
    r.payload.modelDumpJson = e.modelDumpJson

omit [Host] in
theorem same_ids {a b : CaptureEvent} (h : a.same b = true) : a.machine = b.machine ∧ a.eventId = b.eventId := by
  simp only [CaptureEvent.same, Bool.and_eq_true, decide_eq_true_eq] at h
  exact ⟨congrArg Scope.machine (show a.scope = b.scope by tauto), by tauto⟩

theorem Sound.event? (hs : j.Sound) (hr : row ∈ j.events) (hm : row.payload.machine = e.machine)
    (hi : row.payload.eventId = e.eventId) : j.event? (e.machine, e.eventId) = some row := by
  have hkey : row.eventKey = (e.machine, e.eventId) := by rw [hs.keyed row hr, hm, hi]
  exact hkey ▸ Rows.lookup_of_mem hs.eventKeys hr

/-- An event equal to one on record, however spelled, finds its row. -/
theorem Sound.replayed (hs : j.Sound) (hr : row ∈ j.events) (h : row.payload.same e = true) :
    j.recordEvent e now identity = .ok ((row, true), j) := by
  obtain ⟨hm, hi⟩ := same_ids h
  unfold Journal.recordEvent
  simp [hs.event? hr hm hi, h]

/-- An event of the same identity with other values is refused. -/
theorem Sound.reused (hs : j.Sound) (hc : j.CollisionFree e) (hr : row ∈ j.events) (hm : row.payload.machine = e.machine)
    (hi : row.payload.eventId = e.eventId) (hn : row.payload.same e = false) :
    j.recordEvent e now identity = .error (.value "Event ID reused with different data") := by
  have hd : row.digest ≠ Host.sha256 e.modelDumpJson := by
    intro hd
    have he : row.payload = e := CaptureEvent.modelDumpJson_injective (hc row hr (hs.digested row hr ▸ hd))
    rw [he, CaptureEvent.same_refl] at hn
    cases hn
  unfold Journal.recordEvent
  simp [hs.event? hr hm hi, hn, hd]

end Sound

/-- The event is filed under a trade: that of its order, else the only one linked to its position. -/
def Attributable (j : Journal) (e : CaptureEvent) : Prop :=
  e.orderId ≠ "" ∨ e.positionId ≠ "" ∧ ∃ t, j.OnlyLinked e.scope e.positionId t

end Journal

/-- The FILL reports an execution of its scope that is on record, with other data. -/
def FillRow.Contradicts (f : FillRow) (e : CaptureEvent) : Prop :=
  e.kind = .fill ∧ e.executionId ≠ "" ∧ f.key = (.source, .source e.scope, e.executionId)
    ∧ ¬ (f.orderId = e.orderId ∧ f.positionId = e.positionId ∧ f.effect = e.fillEffect ∧ f.quantity.same e.quantity = true
      ∧ f.price.same e.price = true)

namespace Journal

variable [Host] {j k l : Journal} {e : CaptureEvent} {now identity : String} {row : EventRow} {trade : Option TradeRow}

theorem Attributes.of_attributable (h : j.Attributes e trade l) (hs : j.Sound) (ha : j.Attributable e) : trade ≠ none := by
  cases h with
  | known | opened => simp
  | unknown hnone ho =>
    rcases ha with ha | ⟨hp, t, ht⟩
    · exact absurd ho ha
    · rw [(tradeOf_position hs ho hp t).mpr ht] at hnone
      cases hnone

/-- A FILL of a trade that contradicts an execution on record is refused, unless it is a replay. -/
theorem Sound.contradicted (hs : j.Sound) (hc : j.CollisionFree e) (hn : ∀ r ∈ j.events, r.payload.same e = false)
    (ha : j.Attributable e) {f : FillRow} (hf : f ∈ j.fills) (hx : f.Contradicts e) :
    ∃ x, j.recordEvent e now identity = .error x := by
  obtain ⟨hkind, hexec, hkey, hdiff⟩ := hx
  cases hrec : j.recordEvent e now identity with
  | error x => exact ⟨x, rfl⟩
  | ok a =>
    obtain ⟨⟨row, again⟩, k⟩ := a
    cases again with
    | true =>
      obtain ⟨hk, ⟨_, hrow, _⟩ | ⟨hb, _⟩⟩ := recordEvent_cases hrec
      · rw [hs.keyed row hrow, Prod.mk.injEq] at hk
        rw [hs.reused hc hrow hk.1 hk.2 (hn row hrow)] at hrec
        cases hrec
      · cases hb
    | false =>
      obtain ⟨_, trade, l, m, hatt, hm, _⟩ := recordEvent_filed hrec
      obtain ⟨t, rfl⟩ := Option.ne_none_iff_exists'.mp (hatt.of_attributable hs ha)
      have hfills : (l.fills.map FillRow.key).Nodup := (hatt.sound hs).fills
      exact absurd (recordTrade_agrees (hm t rfl) hfills (hatt.events.2 ▸ hf) hkind hexec hkey) hdiff

/-- An event with a position only is filed under a trade if that is the only one linked to the position. -/
theorem Sound.positioned (hs : j.Sound) (h : j.recordEvent e now identity = .ok ((row, false), k)) (ho : e.orderId = "")
    (hp : e.positionId ≠ "") (i : String) :
    row.tradeId = some i ↔ ∃ t, j.OnlyLinked e.scope e.positionId t ∧ t.tradeId = i := by
  obtain ⟨_, trade, l, m, hatt, _, _, _, _, htrade, _⟩ := recordEvent_filed h
  rw [htrade]
  cases hatt with
  | @known t ht =>
    have hlinked := (tradeOf_position hs ho hp t).mp ht
    constructor
    · exact fun hi => ⟨t, hlinked, Option.some.inj hi⟩
    · rintro ⟨u, hu, rfl⟩
      rw [hlinked.2 u hu.1, Option.map_some]
  | unknown hnone _ =>
    constructor
    · intro hi
      simp at hi
    · rintro ⟨u, hu, _⟩
      rw [(tradeOf_position hs ho hp u).mpr hu] at hnone
      cases hnone
  | opened _ hne _ _ _ => exact absurd ho hne

/-- Events with orders are filed under one trade if their orders are one. -/
theorem Sound.attached_iff (hs : j.Sound) {r q : EventRow} (hr : r ∈ j.events) (hq : q ∈ j.events)
    (hro : r.payload.orderId ≠ "") (hqo : q.payload.orderId ≠ "") :
    r.tradeId.isSome = true ∧ (r.tradeId = q.tradeId ↔
      r.payload.scope = q.payload.scope ∧ r.payload.orderId = q.payload.orderId) := by
  obtain ⟨t, ht, hrt, htk⟩ := hs.attached r hr hro
  obtain ⟨u, hu, hqu, huk⟩ := hs.attached q hq hqo
  rw [hrt, hqu, ← Prod.mk.injEq, ← htk, ← huk, Option.some.injEq]
  refine ⟨rfl, fun h => ?_, fun h => ?_⟩
  · rw [List.inj_on_of_nodup_map hs.tradeIds ht hu h]
  · rw [List.inj_on_of_nodup_map hs.sourceKeys ht hu h]

end Journal

section Store

variable [Host] {w v : World} {e : CaptureEvent}

inductive StoreOp where
  | openJournal (broker : String)
  | record (e : CaptureEvent)
  | update (identity : String) (u : TradeUpdate)
  | claim (identity : String) (key : ActionKey) (requestId : String) (action : Action) (destination : String) (request : Call)
  | finish (identity : String) (key : ActionKey) (state : Outcome)
  | observePositions (identity destination : String) (positions : List Position)
  | observeClosed (identity destination : String) (trades : List ClosedTrade)
  | recordReason (identity : String) (key : ActionKey) (attempt : Nat) (outcome : Outcome) (reason : Reason)
  | decision (seq : Nat) (status : Decision) (reason : String)
  | paper (p : ManualSend.Prepared) (destination : String)

def StoreOp.run : StoreOp → Act Unit
  | openJournal broker => Store.openJournal broker
  | record e => discard (Store.record e)
  | update identity u => Store.update identity u
  | claim identity key requestId action destination request =>
    discard (Store.claim identity key requestId action destination request)
  | finish identity key state => Store.finish identity key state
  | observePositions identity destination positions => Store.observePositions identity destination positions
  | observeClosed identity destination trades => Store.observeClosed identity destination trades
  | recordReason identity key attempt outcome reason => Store.recordReason identity key attempt outcome reason
  | decision seq status reason => Store.decision seq status reason
  | paper p destination => discard (ManualSend.paper p destination)

/-- What is asked of the store, from a new journal on, in any order; a process may stop in any of it. -/
inductive Store.Reached : World → Prop
  | fresh (broker : String) (m : Memory) : Reached (.fresh broker m)
  | serve {w v : World} (op : StoreOp) (h : Reached w) (hl : Leaves op.run w v) : Reached v

/-- The program keeps a property of the journal, wherever it is left. -/
def KeepsJournal {α : Type} (P : Journal → Prop) (p : Act α) : Prop :=
  p.Keeps (fun w => P w.journal) fun s t => P s.journal → P t.journal

/-- The program leaves a sound journal sound. -/
def KeepsSound {α : Type} (p : Act α) : Prop :=
  p.Keeps (fun w => w.journal.Sound) fun s t => s.journal.Sound → t.journal.Sound

namespace KeepsJournal

variable {P : Journal → Prop}

omit [Host] in
theorem ask (q : Query) : KeepsJournal P (Prog.query q : Act (Reply q)) := (Prog.quiet_query q).keeps

omit [Host] in
theorem guarded {α : Type} {p : Act α} (h : KeepsJournal P p) : KeepsJournal P (MatchTrader.guarded p) := by
  refine Prog.Keeps.bind (ask .commitFails) fun fails => ?_
  cases fails with
  | true =>
    refine Prog.Keeps.bind (Prog.keeps_commit fun s hs => ⟨id, hs⟩) fun _ => ?_
    exact Prog.Keeps.bind (Prog.keeps_throw _) fun _ => h
  | false => exact h

omit [Host] in
theorem transact {α : Type} {f : Tx α} (h : ∀ j a k, P j → f j = .ok (a, k) → P k) :
    KeepsJournal P (MatchTrader.transact f) := by
  refine guarded (Prog.keeps_attempt fun w a v hI hv => ?_)
  cases hf : f w.journal with
  | error e =>
    rw [hf] at hv
    cases hv
  | ok r =>
    rw [hf] at hv
    obtain ⟨rfl, rfl⟩ := Prod.mk.inj (Except.ok.inj hv)
    exact ⟨fun _ => h _ _ _ hI hf, h _ _ _ hI hf⟩

omit [Host] in
theorem change {f : Journal → Except Exc Journal} (h : ∀ j k, P j → f j = .ok k → P k) : KeepsJournal P (Store.change f) := by
  refine transact fun j _ k hj hk => ?_
  cases hf : f j with
  | error x =>
    rw [hf] at hk
    simp [Except.map] at hk
  | ok l =>
    rw [hf] at hk
    simp only [Except.map, Except.ok.injEq, Prod.mk.injEq, true_and] at hk
    exact hk ▸ h j l hj hf

end KeepsJournal

/-- What a transaction of an operation makes of the journal. -/
inductive StoreOp.Moves : StoreOp → Journal → Journal → Prop
  | initMapping {broker : String} {j k : Journal} (h : j.initMapping broker = .ok k) : Moves (.openJournal broker) j k
  | recover {broker : String} (j : Journal) : Moves (.openJournal broker) j j.recover
  | interrupted {broker i now : String} {key : ActionKey} {n : Nat} {outcome : Outcome} {reason : Reason} {j k : Journal}
      (h : j.recordReason i key n outcome reason now = .ok k) : Moves (.openJournal broker) j k
  | record {e : CaptureEvent} {now i : String} {a : EventRow × Bool} {j k : Journal}
      (h : j.recordEvent e now i = .ok (a, k)) : Moves (.record e) j k
  | update (i : String) (u : TradeUpdate) (now : String) (j : Journal) : Moves (.update i u) j (j.update i u now)
  | claim {i request destination now : String} {key : ActionKey} {action : Action} {call : Call} {b : Bool} {j k : Journal}
      (h : j.claim i key request action destination call now = .ok (b, k)) :
      Moves (.claim i key request action destination call) j k
  | finish {i now : String} {key : ActionKey} {state : Outcome} {j k : Journal} (h : j.finish i key state now = .ok k) :
      Moves (.finish i key state) j k
  | observePositions (i destination now : String) (ps : List Position) (j : Journal) :
      Moves (.observePositions i destination ps) j (ps.foldl (Journal.observePositionOf i destination now) j)
  | observeClosed (i destination now : String) (ts : List ClosedTrade) (j : Journal) :
      Moves (.observeClosed i destination ts) j (ts.foldl (Journal.observeClosedOf i destination now) j)
  | recordReason {i now : String} {key : ActionKey} {n : Nat} {outcome : Outcome} {reason : Reason} {j k : Journal}
      (h : j.recordReason i key n outcome reason now = .ok k) : Moves (.recordReason i key n outcome reason) j k
  | decision (seq : Nat) (status : Decision) (reason : String) (j : Journal) : Moves (.decision seq status reason) j
      { j with events := Rows.updateWhere (fun e => e.seq = seq) (fun e => { e with decision := status, reason }) j.events }
  | paper (p : ManualSend.Prepared) (destination : String) (row : PaperRow) (j : Journal) :
      Moves (.paper p destination) j { j with papers := j.papers ++ [row] }

theorem StoreOp.keeps {P : Journal → Prop} (op : StoreOp) (h : ∀ j k, op.Moves j k → P j → P k) : KeepsJournal P op.run := by
  cases op with
  | openJournal broker =>
    refine Prog.Keeps.bind (KeepsJournal.change fun j k hj hk => h j k (.initMapping hk) hj) fun _ =>
      Prog.Keeps.bind (KeepsJournal.transact ?_) fun interrupted => Prog.keeps_forM _ fun a _ => ?_
    · intro j a k hj hk
      obtain ⟨_, rfl⟩ := Prod.mk.inj (Except.ok.inj hk)
      exact h j _ (.recover j) hj
    · exact Prog.Keeps.bind (KeepsJournal.ask .clock) fun _ => KeepsJournal.change fun j k hj hk => h j k (.interrupted hk) hj
  | record e =>
    refine Prog.Keeps.discard (Prog.Keeps.bind (KeepsJournal.ask .clock) fun _ =>
      Prog.Keeps.bind (KeepsJournal.ask .uuid4) fun _ => KeepsJournal.transact fun j a k hj hk => ?_)
    exact h j k (.record hk) hj
  | update identity u =>
    refine Prog.Keeps.bind (KeepsJournal.ask .clock) fun _ => KeepsJournal.change fun j k hj hk => ?_
    exact Except.ok.inj hk ▸ h j _ (.update ..) hj
  | claim identity key requestId action destination request =>
    refine Prog.Keeps.discard (Prog.Keeps.bind (KeepsJournal.ask .clock) fun _ =>
      KeepsJournal.transact fun j a k hj hk => ?_)
    exact h j k (.claim hk) hj
  | finish identity key state =>
    exact Prog.Keeps.bind (KeepsJournal.ask .clock) fun _ => KeepsJournal.change fun j k hj hk => h j k (.finish hk) hj
  | observePositions identity destination positions =>
    refine Prog.Keeps.bind (KeepsJournal.ask .clock) fun _ => KeepsJournal.change fun j k hj hk => ?_
    exact Except.ok.inj hk ▸ h j _ (.observePositions ..) hj
  | observeClosed identity destination trades =>
    refine Prog.Keeps.bind (KeepsJournal.ask .clock) fun _ => KeepsJournal.change fun j k hj hk => ?_
    exact Except.ok.inj hk ▸ h j _ (.observeClosed ..) hj
  | recordReason identity key attempt outcome reason =>
    exact Prog.Keeps.bind (KeepsJournal.ask .clock) fun _ => KeepsJournal.change fun j k hj hk => h j k (.recordReason hk) hj
  | decision seq status reason =>
    change KeepsJournal P (Store.decision seq status reason)
    unfold Store.decision
    refine KeepsJournal.change fun j k hj hk => ?_
    exact Except.ok.inj hk ▸ h j _ (.decision ..) hj
  | paper p destination =>
    refine Prog.Keeps.discard (Prog.Keeps.bind (KeepsJournal.ask .clock) fun _ =>
      Prog.Keeps.bind (KeepsJournal.change fun j k hj hk => ?_) fun _ => Prog.keeps_pure _)
    split at hk
    · simp at hk
    · exact Except.ok.inj hk ▸ h j _ (.paper ..) hj

/-- Only recording an event adds executions or events. -/
theorem StoreOp.Moves.upkeep {op : StoreOp} {j k : Journal} (h : op.Moves j k) :
    (∃ e now i a, op = .record e ∧ j.recordEvent e now i = .ok (a, k)) ∨ j.Upkeep k ∧ j.Aside k := by
  cases h with
  | initMapping h => exact Or.inr ⟨.initMapping h, .initMapping h⟩
  | recover => exact Or.inr ⟨.recover j, .of_eq rfl rfl rfl⟩
  | interrupted h | recordReason h => exact Or.inr ⟨.recordReason h, .recordReason h⟩
  | @record e now i a _ _ h => exact Or.inl ⟨e, now, i, a, rfl, h⟩
  | update => exact Or.inr ⟨.update .., .update ..⟩
  | claim h => exact Or.inr ⟨.claim h, .claim h⟩
  | finish h => exact Or.inr ⟨.finish h, .finish h⟩
  | observePositions _ _ _ ps =>
    refine Or.inr ⟨.foldl (fun l p => ?_) ps j, .foldl (fun l p => ?_) ps j⟩
    · exact (Journal.Upkeep.link ..).trans ((Journal.Upkeep.observePosition ..).trans (.observeDestination ..))
    · exact (Journal.Aside.link ..).trans (.of_eq rfl rfl rfl)
  | observeClosed _ _ _ ts =>
    refine Or.inr ⟨.foldl (fun l t => ?_) ts j, .foldl (fun l t => ?_) ts j⟩
    · exact .observeDestination ..
    · exact .of_eq rfl rfl rfl
  | decision => exact Or.inr ⟨⟨rfl, Rows.keys_updateWhere fun _ => rfl, id, id⟩, .of_eq rfl rfl rfl⟩
  | paper => exact Or.inr ⟨.of_eq rfl rfl rfl rfl, .of_eq rfl rfl rfl⟩

/-- Whatever else is asked of the store keeps what upkeep keeps. -/
theorem StoreOp.keepsJournal {P : Journal → Prop} (hkeep : ∀ j k : Journal, j.Upkeep k → j.Aside k → P j → P k) (op : StoreOp)
    (hrecord : ∀ e, op = .record e → ∀ j a k now identity, P j → j.recordEvent e now identity = .ok (a, k) → P k) :
    KeepsJournal P op.run := by
  refine op.keeps fun j k hmove hj => ?_
  rcases hmove.upkeep with ⟨e, now, i, a, he, hk⟩ | ⟨hk, ha⟩
  · exact hrecord e he j a k now i hj hk
  · exact hkeep j k hk ha hj

theorem StoreOp.Moves.sound {op : StoreOp} {j k : Journal} (h : op.Moves j k) (hj : j.Sound) : k.Sound := by
  rcases h.upkeep with ⟨e, now, i, a, -, hk⟩ | ⟨hk, -⟩
  · exact hj.recordEvent hk
  · exact hk.sound hj

theorem StoreOp.keepsSound (op : StoreOp) : KeepsSound op.run := op.keeps fun _ _ h hj => h.sound hj

omit [Host] in
theorem Leaves.keepsJournal {α : Type} {P : Journal → Prop} {p : Act α} {w v : World} (hl : Leaves p w v)
    (hk : KeepsJournal P p) (hw : P w.journal) : P v.journal := by
  cases hl with
  | done env => exact (Prog.Keeps.eval hk hw env).2
  | stopped n env =>
    have hsteps := Prog.Keeps.stop hk hw n env
    exact invariant_of_reflTransGen (I := fun w => P w.journal) hsteps (fun _ _ hs hst => hst hs) hw

theorem Store.Reached.sound (h : Store.Reached w) : w.journal.Sound := by
  induction h with
  | fresh broker m => exact Journal.sound_created broker
  | serve op _ hl ih => exact hl.keepsJournal (P := Journal.Sound) op.keepsSound ih

theorem Store.Reached.reasonsComplete (h : Store.Reached w) : w.journal.ReasonsComplete := by
  induction h with
  | fresh broker m => exact nofun
  | serve op _ hl ih =>
    refine hl.keepsJournal (P := Journal.ReasonsComplete) (op.keepsJournal (fun _ _ _ h hj => h.reasons hj) ?_) ih
    rintro e - j ⟨row, again⟩ k now identity hj hk
    exact hj.recordEvent hk

/-- Recording is one transaction: what it returns is what that committed, and what it raises changed no table. -/
theorem Store.record_outcome (w : World) (e : CaptureEvent) (env : Answers) :
    (∀ a, ((Store.record e).eval env w).2 = .ok a → ∃ now identity,
        w.journal.recordEvent e now identity = .ok (a, ((Store.record e).eval env w).1.journal))
      ∧ ∀ x, ((Store.record e).eval env w).2 = .error x → ((Store.record e).eval env w).1.journal = w.journal
        ∧ (x = .sqlite ∨ ∃ now identity, w.journal.recordEvent e now identity = .error x) := by
  have hwp : (Store.record e).wp (fun _ _ => True) (fun _ _ => True)
      (fun a v => ∃ now identity, w.journal.recordEvent e now identity = .ok (a, v.journal))
      (fun x v => v.journal = w.journal ∧ (x = .sqlite ∨ ∃ now identity, w.journal.recordEvent e now identity = .error x)) w := by
    unfold Store.record
    rw [Prog.wp_bind, wp_now]
    intro at_ _
    rw [Prog.wp_bind, wp_uuid4]
    intro identity _
    refine wp_transact trivial ⟨rfl, Or.inl rfl⟩ (fun x hx => ⟨rfl, Or.inr ⟨_, _, hx⟩⟩) fun a j hj => ?_
    exact ⟨trivial, _, _, hj⟩
  exact (Prog.wp_eval hwp env fun _ _ => trivial).2

/-- What recording an event does to the tables. A refusal of the database itself is the one error that a replay can meet. -/
structure Store.RecordLaw (w : World) (e : CaptureEvent) : Prop where
  unique : (w.journal.events.map fun r => (r.payload.machine, r.payload.eventId)).Nodup
  attached : ∀ r ∈ w.journal.events, ∀ q ∈ w.journal.events, r.payload.orderId ≠ "" → q.payload.orderId ≠ "" →
    r.tradeId.isSome = true ∧ (r.tradeId = q.tradeId ↔
      r.payload.scope = q.payload.scope ∧ r.payload.orderId = q.payload.orderId)
  rollback : ∀ env x, ((Store.record e).eval env w).2 = .error x → ((Store.record e).eval env w).1.journal = w.journal
  replay : ∀ r ∈ w.journal.events, r.payload.same e = true → ∀ env, ((Store.record e).eval env w).1.journal = w.journal
    ∧ (((Store.record e).eval env w).2 = .ok (r, true) ∨ ((Store.record e).eval env w).2 = .error .sqlite)
  reused : ∀ r ∈ w.journal.events, r.payload.machine = e.machine → r.payload.eventId = e.eventId →
    r.payload.same e = false → ∀ env, ∃ x, ((Store.record e).eval env w).2 = .error x
  contradicted : (∀ r ∈ w.journal.events, r.payload.same e = false) → w.journal.Attributable e →
    ∀ f ∈ w.journal.fills, f.Contradicts e → ∀ env, ∃ x, ((Store.record e).eval env w).2 = .error x
  positioned : e.orderId = "" → e.positionId ≠ "" → ∀ env row, ((Store.record e).eval env w).2 = .ok (row, false) →
    ∀ i, row.tradeId = some i ↔ ∃ t, w.journal.OnlyLinked e.scope e.positionId t ∧ t.tradeId = i

/-- Recording is atomic and idempotent, and files an event under the trade of its order or of its position. -/
theorem record_atomic_idempotent (hw : Store.Reached w) (hc : w.journal.CollisionFree e) : Store.RecordLaw w e := by
  have hs := hw.sound
  refine ⟨?_, fun r hr q hq => hs.attached_iff hr hq, fun env x hx => ((Store.record_outcome w e env).2 x hx).1,
    fun r hr hsame env => ?_, fun r hr hm hi hn env => ?_, fun hn ha f hf hx env => ?_,
    fun ho hp env row hrow i => ?_⟩
  · have hkeys : w.journal.events.map (fun r => (r.payload.machine, r.payload.eventId)) = w.journal.events.map EventRow.eventKey :=
      List.map_congr_left fun r hr => (hs.keyed r hr).symm
    exact hkeys ▸ hs.eventKeys
  · obtain ⟨hok, herr⟩ := Store.record_outcome w e env
    cases hres : ((Store.record e).eval env w).2 with
    | ok a =>
      obtain ⟨now, identity, h⟩ := hok a hres
      rw [hs.replayed hr hsame] at h
      obtain ⟨rfl, hj⟩ := Prod.mk.inj (Except.ok.inj h)
      exact ⟨hj.symm, Or.inl rfl⟩
    | error x =>
      obtain ⟨hj, rfl | ⟨now, identity, h⟩⟩ := herr x hres
      · exact ⟨hj, Or.inr rfl⟩
      · rw [hs.replayed hr hsame] at h
        cases h
  · cases hres : ((Store.record e).eval env w).2 with
    | ok a =>
      obtain ⟨now, identity, h⟩ := (Store.record_outcome w e env).1 a hres
      rw [hs.reused hc hr hm hi hn] at h
      cases h
    | error x => exact ⟨x, rfl⟩
  · cases hres : ((Store.record e).eval env w).2 with
    | ok a =>
      obtain ⟨now, identity, h⟩ := (Store.record_outcome w e env).1 a hres
      obtain ⟨x, hx⟩ : ∃ x, w.journal.recordEvent e now identity = .error x := hs.contradicted hc hn ha hf hx
      rw [hx] at h
      cases h
    | error x => exact ⟨x, rfl⟩
  · obtain ⟨now, identity, h⟩ := (Store.record_outcome w e env).1 _ hrow
    exact hs.positioned h ho hp i

end Store

section Sample

attribute [local instance] sampleHost

def respelledEvent : CaptureEvent := { sampleEvent with quantity := ⟨false, 10, -1⟩, amounts_nonneg := by decide }

def recordedFirst (e : CaptureEvent) : World := ((StoreOp.record e).run.eval sampleAnswers (.fresh "fx" bridgeMemory)).1

theorem reached_recordedFirst (e : CaptureEvent) : Store.Reached (recordedFirst e) :=
  .serve (.record e) (.fresh "fx" bridgeMemory) (.done sampleAnswers)

theorem record_atomic_idempotent_respelled : (∃ r ∈ (recordedFirst sampleEvent).journal.events,
    r.payload.same respelledEvent = true) ∧ Store.RecordLaw (recordedFirst sampleEvent) respelledEvent := by
  have hrow : (recordedFirst sampleEvent).journal.events.any (fun r => r.payload.same respelledEvent) = true := by
    decide +kernel
  have hfree : (recordedFirst sampleEvent).journal.events.all (fun r =>
      decide (Host.sha256 r.payload.modelDumpJson ≠ Host.sha256 respelledEvent.modelDumpJson)) = true := by decide +kernel
  refine ⟨List.any_eq_true.mp hrow, record_atomic_idempotent (reached_recordedFirst sampleEvent) fun r hr hd => ?_⟩
  exact absurd hd (of_decide_eq_true (List.all_eq_true.mp hfree r hr))

def fillEvent : CaptureEvent := { sampleEvent with
  kind := .fill, positionId := "p1", executionId := "x1", fillEffect := .opens
  positionId_le := by decide, executionId_le := by decide }

/-- Another one of the same name, at a position that no trade is linked to. -/
def strayFill : CaptureEvent := { fillEvent with
  eventId := "e2", orderId := "", positionId := "p2", quantity := .ofNat 2
  eventId_bounds := second_bounds, orderId_le := sampleEvent.positionId_le, positionId_le := by decide, amounts_nonneg := by decide }

/-- Whatever FILL contradicts an execution on record, and is no replay, is refused. -/
def FillsAgree : Prop :=
  ∀ w e, Store.Reached w → w.journal.CollisionFree e → (∀ r ∈ w.journal.events, r.payload.same e = false) →
    ∀ f ∈ w.journal.fills, f.Contradicts e → ∀ env, ∃ x, ((Store.record e).eval env w).2 = .error x

/-- A FILL that no trade is found for is filed without its execution being compared. -/
theorem stray_fill_recorded : ¬ FillsAgree := by
  intro hall
  have hnew : (recordedFirst fillEvent).journal.events.all (fun r => !r.payload.same strayFill
      && decide (Host.sha256 r.payload.modelDumpJson ≠ Host.sha256 strayFill.modelDumpJson)) = true := by decide +kernel
  have hfill : (recordedFirst fillEvent).journal.fills.any (fun f =>
      decide (f.key = (.source, .source strayFill.scope, "x1") ∧ f.orderId = "o1")) = true := by decide +kernel
  have hok : ((Store.record strayFill).eval sampleAnswers (recordedFirst fillEvent)).2.toOption.isSome = true := by
    decide +kernel
  obtain ⟨f, hf, hk⟩ := List.any_eq_true.mp hfill
  obtain ⟨hkey, ho⟩ := of_decide_eq_true hk
  have hrow (r : EventRow) (hr : r ∈ (recordedFirst fillEvent).journal.events) : r.payload.same strayFill = false
      ∧ Host.sha256 r.payload.modelDumpJson ≠ Host.sha256 strayFill.modelDumpJson := by
    simpa using List.all_eq_true.mp hnew r hr
  obtain ⟨x, hx⟩ := hall _ strayFill (reached_recordedFirst fillEvent) (fun r hr hd => absurd hd (hrow r hr).2)
    (fun r hr => (hrow r hr).1) f hf ⟨rfl, by decide, hkey, fun h => by rw [ho] at h; exact absurd h.1 (by decide)⟩
    sampleAnswers
  rw [hx] at hok
  cases hok

end Sample

end MatchTrader
