import MatchTrader.Recordings

/-! What the operations of the store leave of the rows of the trades and of their links: all but an
update keep where a trade was sent and what the broker calls it. -/

namespace MatchTrader

open Durable

/-- What recording and the attempts leave of a trade's row. -/
structure TradeRow.Carries (t u : TradeRow) : Prop where
  identity : u.identity = t.identity
  scope : u.scope = t.scope
  sourceOrderId : u.sourceOrderId = t.sourceOrderId
  source : u.source = t.source ∨ t.source = .unknown ∧ u.source ≠ .unknown
  destination : u.destination = t.destination
  lots : u.lots = t.lots
  brokerOrderId : u.brokerOrderId = t.brokerOrderId
  brokerPositionId : u.brokerPositionId = t.brokerPositionId
  instrument : t.destination ≠ "" → u.symbol = t.symbol ∧ u.side = t.side ∧ u.orderType = t.orderType

namespace TradeRow.Carries

variable {t u x : TradeRow}

theorem of_eq (hp : u.identity = t.identity ∧ u.scope = t.scope ∧ u.sourceOrderId = t.sourceOrderId ∧ u.source = t.source)
    (ha : u.destination = t.destination ∧ u.lots = t.lots ∧ u.brokerOrderId = t.brokerOrderId
      ∧ u.brokerPositionId = t.brokerPositionId)
    (hi : u.symbol = t.symbol ∧ u.side = t.side ∧ u.orderType = t.orderType) : t.Carries u :=
  ⟨hp.1, hp.2.1, hp.2.2.1, Or.inl hp.2.2.2, ha.1, ha.2.1, ha.2.2.1, ha.2.2.2, fun _ => hi⟩

theorem refl (t : TradeRow) : t.Carries t := .of_eq ⟨rfl, rfl, rfl, rfl⟩ ⟨rfl, rfl, rfl, rfl⟩ ⟨rfl, rfl, rfl⟩

theorem trans (h : t.Carries u) (h' : u.Carries x) : t.Carries x where
  identity := h'.identity.trans h.identity
  scope := h'.scope.trans h.scope
  sourceOrderId := h'.sourceOrderId.trans h.sourceOrderId
  source := by
    rcases h'.source with hs | ⟨hu, hx⟩
    · exact hs ▸ h.source
    · rcases h.source with hs | ⟨_, hne⟩
      · exact Or.inr ⟨hs.symm.trans hu, hx⟩
      · exact absurd hu hne
  destination := h'.destination.trans h.destination
  lots := h'.lots.trans h.lots
  brokerOrderId := h'.brokerOrderId.trans h.brokerOrderId
  brokerPositionId := h'.brokerPositionId.trans h.brokerPositionId
  instrument hd := by
    obtain ⟨hs, hx, ho⟩ := h.instrument hd
    obtain ⟨hs', hx', ho'⟩ := h'.instrument (h.destination ▸ hd)
    exact ⟨hs'.trans hs, hx'.trans hx, ho'.trans ho⟩

theorem blank (h : t.Carries u) (hb : t.Blank) : u.Blank where
  destination := h.destination.trans hb.destination
  brokerOrderId := h.brokerOrderId.trans hb.brokerOrderId
  brokerPositionId := h.brokerPositionId.trans hb.brokerPositionId
  lots := h.lots.trans hb.lots

end TradeRow.Carries

namespace Journal

variable {j k l : Journal} {i now : String}

/-- No row and no link is lost, the rows carry over, and a new trade was not sent. -/
structure Carries (j k : Journal) : Prop where
  broker : j.broker.isSome = true → k.broker = j.broker
  migrated : j.legacyMigrated = true → k.legacyMigrated = true
  linked : ∀ l ∈ j.links, l ∈ k.links
  named : (∀ l ∈ j.links, l.nativeId ≠ "") → ∀ l ∈ k.links, l.nativeId ≠ ""
  kept : ∀ i t, j.trade? i = some t → ∃ u, k.trade? i = some u ∧ t.Carries u
  fresh : ∀ i u, j.trade? i = none → k.trade? i = some u → u.Blank

namespace Carries

theorem of_eq (ht : k.trades = j.trades) (hl : k.links = j.links) (hb : k.broker = j.broker)
    (hm : k.legacyMigrated = j.legacyMigrated) : j.Carries k := by
  have htrade (i : String) : k.trade? i = j.trade? i := by simp only [trade?, ht]
  refine ⟨fun _ => hb, fun h => hm.trans h, fun l h => hl ▸ h, fun h l hlk => h l (hl ▸ hlk), fun i t h => ?_, fun i u h hu => ?_⟩
  · exact ⟨t, (htrade i).trans h, .refl t⟩
  · rw [htrade, h] at hu
    cases hu

theorem refl (j : Journal) : j.Carries j := .of_eq rfl rfl rfl rfl

theorem trans (h : j.Carries k) (h' : k.Carries l) : j.Carries l where
  broker hb := by
    have hk := h.broker hb
    exact (h'.broker (hk ▸ hb)).trans hk
  migrated hm := h'.migrated (h.migrated hm)
  linked r hr := h'.linked r (h.linked r hr)
  named hn := h'.named (h.named hn)
  kept i t ht := by
    obtain ⟨u, hu, htu⟩ := h.kept i t ht
    obtain ⟨x, hx, hux⟩ := h'.kept i u hu
    exact ⟨x, hx, htu.trans hux⟩
  fresh i x hj hx := by
    cases hk : k.trade? i with
    | none => exact h'.fresh i x hk hx
    | some u =>
      obtain ⟨y, hy, huy⟩ := h'.kept i u hk
      obtain rfl := Option.some.inj (hy.symm.trans hx)
      exact huy.blank (h.fresh i u hj hk)

theorem found (h : j.Carries k) {i : String} {u : TradeRow} (hu : k.trade? i = some u) :
    (∃ t, j.trade? i = some t ∧ t.Carries u) ∨ u.Blank := by
  cases hj : j.trade? i with
  | none => exact Or.inr (h.fresh i u hj hu)
  | some t =>
    obtain ⟨x, hx, htx⟩ := h.kept i t hj
    obtain rfl := Option.some.inj (hx.symm.trans hu)
    exact Or.inl ⟨t, rfl, htx⟩

theorem link (j : Journal) (trade nativeId evidence at_ : String) (side : Leg) (scope : LegScope) (kind : Kind) :
    j.Carries (j.link trade side scope kind nativeId evidence at_) := by
  unfold Journal.link
  split
  · exact .refl j
  · next hne =>
    have hrows := of_eq (j := j) (k := { j with trades := j.trades }) rfl rfl rfl rfl
    refine ⟨hrows.broker, hrows.migrated, fun l hl => Rows.mem_insertNew_of_mem hl, fun h l hl => ?_, hrows.kept, hrows.fresh⟩
    rcases Rows.mem_of_mem_insertNew hl with hl | rfl
    · exact h l hl
    · exact hne

theorem updateTrade {f : TradeRow → TradeRow} (hi : ∀ t, (f t).tradeId = t.tradeId)
    (hf : ∀ t, j.trade? i = some t → t.Carries (f t)) : j.Carries (j.updateTrade i f) := by
  refine ⟨fun _ => rfl, id, fun _ h => h, id, fun k t ht => ?_, fun k u hk hu => ?_⟩
  · rw [trade?_updateTrade j i k hi]
    by_cases hki : k = i
    · subst hki
      exact ⟨f t, by rw [if_pos rfl, ht, Option.map_some], hf t ht⟩
    · exact ⟨t, by rw [if_neg hki, ht], .refl t⟩
  · rw [trade?_updateTrade j i k hi] at hu
    by_cases hki : k = i
    · subst hki
      rw [if_pos rfl, hk] at hu
      cases hu
    · rw [if_neg hki, hk] at hu
      cases hu

theorem newTrade {t : TradeRow} (hn : j.trade? t.tradeId = none) (hb : t.Blank) : j.Carries { j with trades := j.trades ++ [t] } := by
  refine ⟨fun _ => rfl, id, fun _ h => h, id, fun i r hr => ⟨r, ?_, .refl r⟩, fun i u hi hu => ?_⟩
  · have hne : t.tradeId ≠ i := by
      rintro rfl
      rw [hn] at hr
      cases hr
    exact (Rows.lookup_append_of_ne hne).trans hr
  · simp only [trade?, Rows.lookup_append] at hi hu
    rw [hi, Option.none_or] at hu
    split at hu
    · exact Option.some.inj hu ▸ hb
    · cases hu

theorem foldl {α : Type} {f : Journal → α → Journal} (h : ∀ (j : Journal) a, j.Carries (f j a)) (rows : List α) (j : Journal) :
    j.Carries (rows.foldl f j) := by
  induction rows generalizing j with
  | nil => exact .refl j
  | cons a rows ih => exact (h j a).trans (ih _)

theorem observeQuantities (j : Journal) (q : QuantityRow) : j.Carries (j.observeQuantities q) := by
  unfold Journal.observeQuantities
  split
  · split
    · exact .refl j
    · exact .of_eq rfl rfl rfl rfl
  · exact .of_eq rfl rfl rfl rfl

theorem fill {f : FillRow} (h : j.fill f = .ok k) : j.Carries k := by
  unfold Journal.fill at h
  split at h
  · split at h
    · exact Except.ok.inj h ▸ .refl j
    · cases h
  · obtain rfl := Except.ok.inj h
    exact .trans (k := { j with fills := j.fills ++ [f] }) (.of_eq rfl rfl rfl rfl) ((link ..).trans (link ..))

theorem sourceEvent {trade : String} {e : CaptureEvent} (h : j.sourceEvent trade e = .ok k) : j.Carries k := by
  let first := j.link trade .source (.source e.scope) .order e.orderId "native order" e.emittedAt.isoformat
  let second := if e.positionId ≠ "" ∧ (e.kind = .fill ∨ e.kind = .position) then
      first.link trade .source (.source e.scope) .position e.positionId "native relationship" e.emittedAt.isoformat
    else first
  have hlinked : j.Carries second := by
    unfold second
    split
    · exact (link ..).trans (link ..)
    · exact link ..
  have hseen (m : Journal) (q : QuantityRow) : m.Carries ((m.observed e).observeQuantities q) := by
    refine .trans ?_ (observeQuantities ..)
    unfold Journal.observed
    split
    · split
      · exact .of_eq rfl rfl rfl rfl
      · exact .refl m
    · exact .refl m
  by_cases hf : e.kind = .fill ∧ e.executionId ≠ ""
  · simp only [Journal.sourceEvent, if_pos hf, bind_eq_ok] at h
    obtain ⟨m, hm, h⟩ := h
    exact hlinked.trans ((fill hm).trans (Except.ok.inj h ▸ hseen m _))
  · simp only [Journal.sourceEvent, if_neg hf, bind_eq_ok] at h
    obtain ⟨m, hm, h⟩ := h
    obtain rfl := Except.ok.inj hm
    exact hlinked.trans (Except.ok.inj h ▸ hseen second _)

theorem recordTrade {t : TradeRow} {e : CaptureEvent} (ht : j.trade? t.tradeId = some t) (h : j.recordTrade t e now = .ok k) :
    j.Carries k := by
  unfold Journal.recordTrade at h
  rw [bind_eq_ok] at h
  obtain ⟨j₁, h₁, h⟩ := h
  extract_lets j₂ j₃ j₄ j₅ position j₆ at h
  obtain rfl := Except.ok.inj h
  have h₂ : j.Carries j₂ := (sourceEvent h₁).trans
    (updateTrade (fun _ => rfl) fun _ _ => .of_eq ⟨rfl, rfl, rfl, rfl⟩ ⟨rfl, rfl, rfl, rfl⟩ ⟨rfl, rfl, rfl⟩)
  have h₃ : j.Carries j₃ := by
    unfold j₃
    split
    · refine h₂.trans (updateTrade (fun _ => rfl) fun _ _ => ?_)
      exact .of_eq ⟨rfl, rfl, rfl, rfl⟩ ⟨rfl, rfl, rfl, rfl⟩ ⟨rfl, rfl, rfl⟩
    · exact h₂
  have h₅ : j.Carries j₅ := by
    unfold j₅
    split
    · next hd =>
      -- The trade was not sent, so its instrument may still follow the source.
      have h₄ : j.Carries j₄ := by
        refine h₃.trans (updateTrade (fun _ => rfl) fun r hr => ?_)
        obtain ⟨u, hu, htu⟩ := h₃.kept t.tradeId t ht
        obtain rfl := Option.some.inj (hu.symm.trans hr)
        exact ⟨rfl, rfl, rfl, Or.inl rfl, rfl, rfl, rfl, rfl, fun hne => absurd (htu.destination.trans hd) hne⟩
      split
      · refine h₄.trans (updateTrade (fun _ => rfl) fun _ _ => ?_)
        exact .of_eq ⟨rfl, rfl, rfl, rfl⟩ ⟨rfl, rfl, rfl, rfl⟩ ⟨rfl, rfl, rfl⟩
      · exact h₄
    · exact h₃
  have h₆ : j.Carries j₆ := by
    unfold j₆
    split
    · refine h₅.trans (updateTrade (fun _ => rfl) fun _ _ => ?_)
      exact .of_eq ⟨rfl, rfl, rfl, rfl⟩ ⟨rfl, rfl, rfl, rfl⟩ ⟨rfl, rfl, rfl⟩
    · exact h₅
  split
  · next hs =>
    refine h₆.trans (updateTrade (fun _ => rfl) fun r _ => ?_)
    refine ⟨rfl, rfl, rfl, ?_, rfl, rfl, rfl, rfl, fun _ => ⟨rfl, rfl, rfl⟩⟩
    by_cases hr : r.source = .unknown
    · exact Or.inr ⟨hr, by simpa only [hr, if_true] using hs.2⟩
    · exact Or.inl (if_neg hr)
  · exact h₆

theorem recordEvent [Host] {e : CaptureEvent} {a : EventRow × Bool} (hs : j.Sound) (h : j.recordEvent e now i = .ok (a, k)) :
    j.Carries k := by
  obtain ⟨row, again⟩ := a
  cases again with
  | true =>
    obtain ⟨_, ⟨_, _, rfl⟩ | ⟨ha, _⟩⟩ := recordEvent_cases h
    · exact .refl _
    · cases ha
  | false =>
    obtain ⟨_, trade, l, m, ha, hm, hn, _, _, _, _, rfl⟩ := recordEvent_filed h
    have hl : j.Carries l := by
      cases ha with
      | known | unknown => exact .refl j
      | opened _ _ hi _ hb => exact newTrade (Rows.lookup_eq_none_iff.mpr hi) hb
    have hlm : l.Carries m := by
      cases trade with
      | none => exact hn rfl ▸ .refl l
      | some t =>
        have ht : t ∈ l.trades := by
          cases ha with
          | known h => exact mem_of_tradeOf h
          | opened => exact List.mem_append_right _ List.mem_cons_self
        exact recordTrade (Rows.lookup_of_mem (ha.sound hs).tradeIds ht) (hm t rfl)
    exact hl.trans (hlm.trans (.of_eq rfl rfl rfl rfl))

theorem setState (j : Journal) (i : String) (s : TradeState) : j.Carries (j.updateTrade i (TradeRow.setState s)) :=
  updateTrade (fun _ => rfl) fun _ _ => .of_eq ⟨rfl, rfl, rfl, rfl⟩ ⟨rfl, rfl, rfl, rfl⟩ ⟨rfl, rfl, rfl⟩

theorem claim {requestId destination : String} {key : ActionKey} {action : Action} {request : Call} {b : Bool}
    (h : Journal.claim i key requestId action destination request now j = .ok (b, k)) : j.Carries k := by
  cases b with
  | false => exact Journal.claim_refused h ▸ .refl j
  | true =>
    obtain ⟨_, _, rfl⟩ := claim_ok h
    exact (setState j i .dispatching).trans (.of_eq rfl rfl rfl rfl)

theorem finish {key : ActionKey} {state : Outcome} (h : j.finish i key state now = .ok k) : j.Carries k := by
  obtain ⟨_, _, rfl⟩ := finish_ok h
  exact .of_eq rfl rfl rfl rfl

theorem recordReason {key : ActionKey} {attempt : Nat} {outcome : Outcome} {reason : Reason}
    (h : j.recordReason i key attempt outcome reason now = .ok k) : j.Carries k := by
  unfold Journal.recordReason at h
  split at h
  · cases h
  · exact Except.ok.inj h ▸ .of_eq rfl rfl rfl rfl

theorem initMapping {broker : String} (hm : j.legacyMigrated = true) (h : Journal.initMapping broker j = .ok k) :
    j.Carries k := by
  have hbroker := (initMapping_inv h).1
  obtain rfl := initMapping_current hm h
  have hcarries := of_eq (j := j) (k := { j with trades := j.trades }) rfl rfl rfl rfl
  refine ⟨fun hsome => ?_, id, fun _ h => h, id, hcarries.kept, hcarries.fresh⟩
  obtain ⟨b, hb⟩ := Option.isSome_iff_exists.mp hsome
  exact (congrArg some (hbroker b hb)).symm.trans hb.symm

theorem observePositions [Host] (ps : List Position) (j : Journal) (i destination now : String) :
    j.Carries (ps.foldl (observePositionOf i destination now) j) := by
  refine .foldl (fun l p => ?_) ps j
  exact (link ..).trans (.of_eq rfl rfl rfl rfl)

theorem recover (j : Journal) : j.Carries j.recover := by
  have hrow (i : String) := trade?_recover j i
  refine ⟨fun _ => rfl, id, fun _ h => h, id, fun i t ht => ?_, fun i u hn hu => ?_⟩
  · refine ⟨_, by rw [hrow, ht, Option.map_some], ?_⟩
    split
    · exact .of_eq ⟨rfl, rfl, rfl, rfl⟩ ⟨rfl, rfl, rfl, rfl⟩ ⟨rfl, rfl, rfl⟩
    · exact .refl t
  · rw [hrow, hn] at hu
    cases hu

end Carries

end Journal

variable [Host]

/-- An operation that is no update carries the rows over. -/
theorem StoreOp.Moves.carries {op : StoreOp} {j k : Journal} (h : op.Moves j k) (hs : j.Sound) (hm : j.legacyMigrated = true) :
    (∃ i u now, op = .update i u ∧ k = j.update i u now) ∨ j.Carries k := by
  cases h with
  | update i u now => exact Or.inl ⟨i, u, now, rfl, rfl⟩
  | initMapping h => exact Or.inr (.initMapping hm h)
  | recover => exact Or.inr (.recover j)
  | interrupted h | recordReason h => exact Or.inr (.recordReason h)
  | record h => exact Or.inr (.recordEvent hs h)
  | claim h => exact Or.inr (.claim h)
  | finish h => exact Or.inr (.finish h)
  | observePositions i destination now ps =>
    exact Or.inr (.observePositions ps j i destination now)
  | observeClosed i destination now ts =>
    refine Or.inr (.foldl (fun l t => ?_) ts j)
    exact .of_eq rfl rfl rfl rfl
  | decision | paper => exact Or.inr (.of_eq rfl rfl rfl rfl)

end MatchTrader
