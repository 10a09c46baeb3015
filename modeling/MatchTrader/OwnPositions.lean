import MatchTrader.Frames
import MatchTrader.TradeRows
import MatchTrader.UnwindOutcomes

/-! Closes hit only the trade's own position: what was linked by the read that drives a close, and
what was linked before, when the guard passes and when the write is issued. -/

namespace MatchTrader

open Durable

namespace Journal

variable {j k : Journal} {i now : String} {t : TradeRow}

def positionRows (j : Journal) : List LinkRow := j.links.filter fun l => l.kind = .position

def positionLinks (j : Journal) (side : Leg) (i : String) : List LinkRow :=
  j.positionRows.filter fun l => l.tradeId = i ∧ l.side = side

def PositionLinked (j : Journal) (i : String) (scope : LegScope) (position : String) : Prop :=
  ∃ l ∈ j.links, l.key = (i, .destination, scope, .position, position)

/-- Links name what they link, and a sent trade is linked to the position that it holds. -/
structure Anchored (j : Journal) : Prop where
  broker : j.broker.isSome = true
  migrated : j.legacyMigrated = true
  named : ∀ l ∈ j.links, l.nativeId ≠ ""
  anchored : ∀ i t, j.trade? i = some t → t.destination ≠ "" → t.brokerPositionId ≠ "" →
    j.PositionLinked i (j.destinationScope t.destination) t.brokerPositionId

theorem Carries.anchored (h : j.Carries k) (ha : j.Anchored) : k.Anchored where
  broker := h.broker ha.broker ▸ ha.broker
  migrated := h.migrated ha.migrated
  named := h.named ha.named
  anchored i u hu hd hp := by
    rcases h.found hu with ⟨t, ht, htu⟩ | hb
    · obtain ⟨l, hl, hk⟩ := ha.anchored i t ht (htu.destination ▸ hd) (htu.brokerPositionId ▸ hp)
      have hscope : k.destinationScope u.destination = j.destinationScope t.destination := by
        simp only [destinationScope, h.broker ha.broker, htu.destination]
      exact ⟨l, h.linked l hl, by rw [hk, hscope, htu.brokerPositionId]⟩
    · exact absurd hb.destination hd

section Links

variable {trade nativeId evidence at_ : String} {side : Leg} {scope : LegScope} {kind : Kind}

theorem link_order_rows : (j.link trade side scope .order nativeId evidence at_).positionRows = j.positionRows := by
  unfold link
  split
  · rfl
  · simp only [positionRows, Rows.insertNew]
    split
    · rfl
    · rw [List.filter_append]
      exact List.append_nil _

theorem link_position_rows (h : nativeId ≠ "" → j.PositionLinked trade scope nativeId) :
    (j.link trade .destination scope .position nativeId evidence at_).positionRows = j.positionRows := by
  unfold link
  split
  · rfl
  · next hne =>
    obtain ⟨l, hl, hk⟩ := h hne
    have hhas : Rows.has LinkRow.key (trade, Leg.destination, scope, Kind.position, nativeId) j.links = true :=
      Rows.has_iff.mpr ⟨l, hl, hk⟩
    exact congrArg (List.filter _) (if_pos hhas)

theorem link_linked (hne : nativeId ≠ "") (evidence at_ : String) :
    (j.link trade .destination scope .position nativeId evidence at_).PositionLinked trade scope nativeId := by
  unfold link
  rw [if_neg hne]
  let row : LinkRow := ⟨trade, .destination, scope, .position, nativeId, evidence, at_⟩
  have hlinked : ∃ l ∈ Rows.insertNew LinkRow.key row j.links, l.key = row.key := Rows.exists_mem_insertNew
  obtain ⟨l, hl, hk⟩ := hlinked
  exact ⟨l, hl, hk⟩

end Links

/-- An update links the ids that the row has by then at its account, and nothing else. -/
theorem update_linkage (ht : j.trade? i = some t) (u : TradeUpdate) (now : String) : ∃ k, (j.update i u now).links = k.links
    ∧ if (u.apply now t).destination = "" then k = j.updateTrade i (u.apply now)
      else k = ((j.updateTrade i (u.apply now)).link i .destination (j.destinationScope (u.apply now t).destination) .order
          (u.apply now t).brokerOrderId "broker identity" now).link i .destination
          (j.destinationScope (u.apply now t).destination) .position (u.apply now t).brokerPositionId "broker identity" now := by
  have hrow : (j.updateTrade i (u.apply now)).trade? i = some (u.apply now t) := by
    rw [trade?_updateTrade j i i (f := u.apply now) fun _ => rfl, if_pos rfl, ht, Option.map_some]
  unfold update
  simp only [hrow]
  split
  · exact ⟨_, rfl, rfl⟩
  · refine ⟨_, ?_, rfl⟩
    split
    · exact observeQuantities_links ..
    · rfl

theorem update_positionRows (u : TradeUpdate)
    (h : ∀ t, j.trade? i = some t → (u.apply now t).destination ≠ "" → (u.apply now t).brokerPositionId ≠ "" →
      j.PositionLinked i (j.destinationScope (u.apply now t).destination) (u.apply now t).brokerPositionId) :
    (j.update i u now).positionRows = j.positionRows := by
  cases ht : j.trade? i with
  | none =>
    have hnone : (j.updateTrade i (u.apply now)).trade? i = none := by
      rw [trade?_updateTrade j i i (f := u.apply now) fun _ => rfl, if_pos rfl, ht, Option.map_none]
    unfold update
    simp only [hnone]
    rfl
  | some t =>
    obtain ⟨k, hk, hif⟩ := update_linkage ht u now
    have hrows : (j.update i u now).positionRows = k.positionRows := by simp only [positionRows, hk]
    rw [hrows]
    split at hif
    · exact hif ▸ rfl
    · next hd =>
      subst hif
      rw [link_position_rows, link_order_rows]
      · rfl
      · intro hne
        obtain ⟨l, hl, hkey⟩ := h t ht hd hne
        exact ⟨l, (Carries.link ..).linked l hl, hkey⟩

theorem Anchored.update (ha : j.Anchored) (i : String) (u : TradeUpdate) (now : String) : (j.update i u now).Anchored := by
  have hp := Passive.update j i u now
  have hmigrated : (j.update i u now).legacyMigrated = j.legacyMigrated := by rw [hp]; rfl
  cases ht : j.trade? i with
  | none =>
    have hnone (k : String) : (j.updateTrade i (u.apply now)).trade? k = j.trade? k := by
      rw [trade?_updateTrade j i k (f := u.apply now) fun _ => rfl, ht]
      split
      · next h => rw [h, ht]; rfl
      · rfl
    have hsame : j.update i u now = j.updateTrade i (u.apply now) := by
      unfold Journal.update
      simp only [hnone, ht]
    rw [hsame]
    exact ⟨ha.broker, ha.migrated, ha.named, fun k t hk => ha.anchored k t (hnone k ▸ hk)⟩
  | some t =>
    obtain ⟨k, hlinks, hif⟩ := update_linkage ht u now
    let r := u.apply now t
    -- The links of before stay, each names what it links, and those of the new row are added.
    have hgrown : (∀ l ∈ j.links, l ∈ k.links) ∧ (∀ l ∈ k.links, l.nativeId ≠ "")
        ∧ (r.destination ≠ "" → r.brokerPositionId ≠ "" →
          k.PositionLinked i (j.destinationScope r.destination) r.brokerPositionId) := by
      split at hif
      · next hd =>
        subst hif
        exact ⟨fun l hl => hl, ha.named, fun hne => absurd hd hne⟩
      · subst hif
        have hcarries := (Carries.link (j.updateTrade i (u.apply now)) i r.brokerOrderId "broker identity" now .destination
          (j.destinationScope r.destination) .order).trans (.link _ i r.brokerPositionId "broker identity" now .destination
          (j.destinationScope r.destination) .position)
        exact ⟨hcarries.linked, hcarries.named ha.named, fun _ hne => link_linked hne _ _⟩
    refine ⟨hp.broker ▸ ha.broker, hmigrated ▸ ha.migrated, fun l hl => hgrown.2.1 l (hlinks ▸ hl), fun m x hm hd hp' => ?_⟩
    have hscope : (j.update i u now).destinationScope x.destination = j.destinationScope x.destination := by
      simp only [destinationScope, hp.broker]
      rfl
    unfold PositionLinked
    rw [hlinks, hscope]
    rw [update_trade?] at hm
    by_cases hmi : m = i
    · subst hmi
      rw [if_pos rfl, ht, Option.map_some] at hm
      obtain rfl := Option.some.inj hm
      exact hgrown.2.2 hd hp'
    · rw [if_neg hmi] at hm
      obtain ⟨l, hl, hkey⟩ := ha.anchored m x hm hd hp'
      exact ⟨l, hgrown.1 l hl, hkey⟩

theorem anchored_created (broker : String) : (created broker).Anchored where
  broker := rfl
  migrated := rfl
  named := nofun
  anchored i t ht := by
    simp [created, trade?, Rows.lookup] at ht

/-- The trade has the position to itself: no other trade is linked to it at the account, the trade is linked to none but it
there, if the position has an id at all, and to one position at most at its source. -/
structure Alone (j : Journal) (i : String) (scope : LegScope) (position : String) : Prop where
  owner : ∀ l ∈ j.positionRows, l.side = .destination → l.scope = scope → l.nativeId = position → l.tradeId = i
  one : position ≠ "" → ∃ l, j.positionLinks .destination i = [l] ∧ l.scope = scope ∧ l.nativeId = position
  destination : (j.positionLinks .destination i).length ≤ 1
  source : (j.positionLinks .source i).length ≤ 1

theorem Alone.of_rows {scope : LegScope} {position : String} (h : j.Alone i scope position)
    (hk : k.positionRows = j.positionRows) : k.Alone i scope position := by
  have hlinks (side : Leg) : k.positionLinks side i = j.positionLinks side i := by rw [positionLinks, hk, positionLinks]
  exact ⟨hk ▸ h.owner, fun hp => hlinks .destination ▸ h.one hp, hlinks .destination ▸ h.destination, hlinks .source ▸ h.source⟩

theorem mem_positionRows {l : LinkRow} : l ∈ j.positionRows ↔ l ∈ j.links ∧ l.kind = .position := by
  simp only [positionRows, List.mem_filter, decide_eq_true_eq]

theorem guardSide_links (j : Journal) (i : String) (side : Leg) :
    (j.links.filter fun l => l.tradeId = i ∧ l.side = side ∧ l.kind = .position) = j.positionLinks side i := by
  simp only [positionLinks, positionRows, List.filter_filter]
  refine List.filter_congr fun l _ => ?_
  simp only [Bool.decide_and, Bool.and_assoc]

/-- What a side of the guard passes: one link at most, and no other trade at its position. -/
theorem guardSide_ok {side : Leg} (h : j.guardSide i side = .ok ()) : (j.positionLinks side i).length ≤ 1
    ∧ ∀ l ∈ j.positionLinks side i, (j.owners side l.scope l.nativeId).length ≤ 1 := by
  unfold guardSide at h
  simp only [guardSide_links] at h
  split at h
  · cases h
  · next hsplit =>
    split at h
    · cases h
    · next hmerged =>
      refine ⟨Nat.le_of_not_lt hsplit, fun l hl => Nat.le_of_not_lt fun hlt => hmerged ?_⟩
      exact List.any_eq_true.mpr ⟨l, hl, decide_eq_true hlt⟩

theorem Alone.of_guard {scope : LegScope} {position : String} (hn : ∀ l ∈ j.links, l.nativeId ≠ "")
    (hg : j.guardPosition i = .ok ()) (hlink : position ≠ "" → j.PositionLinked i scope position) :
    j.Alone i scope position := by
  unfold guardPosition at hg
  rw [bind_eq_ok] at hg
  obtain ⟨_, hsource, hdestination⟩ := hg
  obtain ⟨hone, howners⟩ := guardSide_ok hdestination
  have hown : position ≠ "" → ∃ l ∈ j.positionLinks .destination i, l.scope = scope ∧ l.nativeId = position := by
    intro hp
    obtain ⟨l, hl, hk⟩ := hlink hp
    simp only [LinkRow.key, Prod.mk.injEq] at hk
    have hrow : l ∈ j.positionRows := mem_positionRows.mpr ⟨hl, hk.2.2.2.1⟩
    refine ⟨l, List.mem_filter.mpr ⟨hrow, decide_eq_true ⟨hk.1, hk.2.1⟩⟩, hk.2.2.1, hk.2.2.2.2⟩
  refine ⟨fun m hm hside hscope hnative => ?_, fun hp => ?_, hone, (guardSide_ok hsource).1⟩
  · obtain ⟨hmem, hkind⟩ := mem_positionRows.mp hm
    have hp : position ≠ "" := hnative ▸ hn m hmem
    obtain ⟨l, hl, hls, hln⟩ := hown hp
    have hle := howners l hl
    rw [hls, hln] at hle
    have howner {x : LinkRow} (hx : x ∈ j.links) (hxs : x.side = .destination ∧ x.scope = scope ∧ x.kind = .position
        ∧ x.nativeId = position) : x.tradeId ∈ j.owners .destination scope position := by
      unfold owners
      exact List.mem_dedup.mpr (List.mem_map_of_mem (List.mem_filter.mpr ⟨hx, decide_eq_true hxs⟩))
    obtain ⟨hlrow, hlid⟩ := List.mem_filter.mp hl
    obtain ⟨hlmem, hlkind⟩ := mem_positionRows.mp hlrow
    have hlid := of_decide_eq_true hlid
    have hfirst := howner hmem ⟨hside, hscope, hkind, hnative⟩
    have hsecond := howner hlmem ⟨hlid.2, hls, hlkind, hln⟩
    obtain ⟨x, hx⟩ := List.length_eq_one_iff.mp (Nat.le_antisymm hle (List.length_pos_of_mem hfirst))
    rw [hx] at hfirst hsecond
    rw [List.mem_singleton.mp hfirst, ← List.mem_singleton.mp hsecond, hlid.1]
  · obtain ⟨l, hl, hls, hln⟩ := hown hp
    refine ⟨l, ?_, hls, hln⟩
    obtain ⟨x, hx⟩ := List.length_eq_one_iff.mp (Nat.le_antisymm hone (List.length_pos_of_mem hl))
    rw [hx] at hl ⊢
    rw [List.mem_singleton.mp hl]

theorem observePositions_linked [Host] {p : Position} (hne : p.id ≠ "") {ps : List Position} (hp : p ∈ ps) (j : Journal)
    (i destination now : String) :
    (ps.foldl (observePositionOf i destination now) j).PositionLinked i (j.destinationScope destination) p.id := by
  induction ps generalizing j with
  | nil => exact absurd hp List.not_mem_nil
  | cons q ps ih =>
    rcases List.mem_cons.mp hp with rfl | hp
    · have hlinked : (j.link i .destination (j.destinationScope destination) .position p.id "broker order/position relationship"
          now).PositionLinked i (j.destinationScope destination) p.id := link_linked hne _ _
      obtain ⟨l, hl, hk⟩ := hlinked
      exact ⟨l, (Carries.observePositions ps _ i destination now).linked l hl, hk⟩
    · have hscope : (observePositionOf i destination now j q).destinationScope destination = j.destinationScope destination := by
        have hb := (Passive.link j i q.id "broker order/position relationship" now .destination (j.destinationScope destination)
          .position).broker
        exact congrArg (fun b => LegScope.destination (b.getD "") destination) hb
      exact hscope ▸ ih hp (observePositionOf i destination now j q)

end Journal

theorem Store.Reached.anchored [Host] {w : World} (h : Store.Reached w) : w.journal.Anchored := by
  have hboth : w.journal.Sound ∧ w.journal.Anchored := by
    induction h with
    | fresh broker m => exact ⟨Journal.sound_created broker, Journal.anchored_created broker⟩
    | serve op _ hl ih =>
      refine hl.keepsJournal (P := fun j => j.Sound ∧ j.Anchored) (op.keeps fun j k hmove hj => ⟨hmove.sound hj.1, ?_⟩) ih
      rcases hmove.carries hj.1 hj.2.migrated with ⟨i, u, now, -, rfl⟩ | hk
      · exact hj.2.update i u now
      · exact hk.anchored hj.2
  exact hboth.2

/-- The position that a call acts on, and its quantity. -/
def Call.position? : Call → Option (String × Decimal)
  | .closePosition r | .partialClose r => some (r.positionId, r.volume)
  | .editPosition r => some (r.id, r.volume)
  | _ => none

/-- The broker has just returned the position under an id of the trade, with its instrument and side and a volume that covers
the quantity, and the links are as `holds` says. -/
structure OwnPosition (holds : Journal → String → LegScope → String → Prop) (env : Answers) (t : TradeRow) (destination : String)
    (api : Api) (said : List Event) (j : Journal) (id : String) (volume : Decimal) : Prop where
  returned : ∃ (raw : List Position) (p : Position), Given env (.openPositions api) (.ok raw : Except Exc (List Position))
    ∧ said = [.readPositions destination (leavesAll raw)] ∧ p ∈ leavesAll raw ∧ p.id = id
    ∧ ((t.brokerPositionId ≠ "" ∧ p.id = t.brokerPositionId) ∨ (t.brokerOrderId ≠ "" ∧ p.orderId = some t.brokerOrderId))
    ∧ p.symbol = t.symbol ∧ p.side = t.side ∧ volume ≤ p.volume
  held : holds j t.tradeId (j.destinationScope destination) id

/-- The order is the trade's own, and the broker returned it among the resting ones. -/
def OwnOrder (env : Answers) (t : TradeRow) (api : Api) (id : String) : Prop :=
  t.brokerOrderId ≠ "" ∧ id = t.brokerOrderId ∧ ∃ orders : List Order,
    Given env (.activeOrders api) (.ok orders : Except Exc (List Order)) ∧ ∃ o ∈ orders, o.id = t.brokerOrderId

/-- Whatever was invoked since was allowed when it was, and nothing was invoked twice. -/
def Sends (P : List Event → Api → Call → Journal → Prop) (w v : World) : Prop :=
  ∃ said, v.trace = w.trace ++ said ∧ (said.filterMap Event.call?).length ≤ 1
    ∧ ∀ before owner api call j after, said = before ++ .sent owner api call j :: after → P before api call j

section Sending

variable {P : List Event → Api → Call → Journal → Prop} {w v : World} {A : (q : Query) → Reply q → Prop}

/-- A transaction says nothing, or one thing: a write that is allowed and the first. -/
def Says (P : List Event → Api → Call → Journal → Prop) (w s t : World) : Prop :=
  t.trace = s.trace ∨ ∃ e, t.trace = s.trace ++ [e] ∧ ∀ owner api call j, e = .sent owner api call j →
    ∃ said, s.trace = w.trace ++ said ∧ said.filterMap Event.call? = [] ∧ P said api call j

theorem Sends.refl (w : World) : Sends P w w :=
  ⟨[], by simp, Nat.zero_le _, fun before owner api call j after h => by simp at h⟩

theorem Sends.step {s t : World} (h : Sends P w s) (hs : Says P w s t) : Sends P w t := by
  obtain ⟨said, htrace, hone, hall⟩ := h
  rcases hs with hsame | ⟨e, hadd, hsent⟩
  · exact ⟨said, hsame.trans htrace, hone, hall⟩
  · have hnew : ∀ owner api call j, e = .sent owner api call j → said.filterMap Event.call? = [] ∧ P said api call j := by
      intro owner api call j he
      obtain ⟨before, hbefore, hnone, hP⟩ := hsent owner api call j he
      obtain rfl := List.append_cancel_left (htrace.symm.trans hbefore)
      exact ⟨hnone, hP⟩
    refine ⟨said ++ [e], by rw [hadd, htrace, List.append_assoc], ?_, fun before owner api call j after h => ?_⟩
    · rw [List.filterMap_append, List.length_append]
      cases hcall : e.call? with
      | none => simpa [hcall] using hone
      | some c =>
        cases e with
        | sent owner api call j =>
          rw [(hnew owner api call j rfl).1]
          rfl
        | answered | readPositions | readClosed | decided => cases hcall
    · rcases List.eq_nil_or_concat after with rfl | ⟨rest, x, rfl⟩
      · obtain ⟨rfl, he⟩ := List.append_inj' h rfl
        exact (hnew owner api call j (List.head_eq_of_cons_eq he)).2
      · have hinit : said = before ++ .sent owner api call j :: rest := by
          have hsplit : said ++ [e] = (before ++ .sent owner api call j :: rest) ++ [x] := by
            rw [h, List.append_assoc, List.cons_append, List.concat_eq_append]
          exact (List.append_inj' hsplit rfl).1
        exact hall before owner api call j rest hinit

theorem Sends.of_steps (h : Relation.ReflTransGen (Says P w) w v) : Sends P w v := by
  induction h with
  | refl => exact .refl w
  | tail _ hs ih => exact ih.step hs

theorem says_journal [Host] : JournalRule (fun _ => True) (fun _ => True) (Says P w) where
  journal _ _ _ _ _ _ := ⟨Or.inl rfl, trivial⟩
  fault _ _ := ⟨Or.inl rfl, trivial⟩
  mild _ _ := trivial

theorem silent {α : Type} {G : World → World → Prop} {p : Act α} (h : Prog.Keeps (fun _ => True) G p) :
    p.wp A G (fun _ _ => True) (fun _ _ => True) v :=
  Prog.wp_mono (h v trivial) (fun _ _ _ => trivial) (fun _ _ => id) (fun _ _ => id) fun _ _ => id

theorem says_change {f : Journal → Except Exc Journal} {Q : Unit → World → Prop}
    (h : ∀ j, f v.journal = .ok j → Q () { v with journal := j }) :
    (Store.change f).wp A (Says P w) Q (fun _ _ => True) v :=
  Store.wp_change (Or.inl rfl) trivial (fun _ _ => trivial) fun j hj => ⟨Or.inl rfl, h j hj⟩

theorem says_update {i : String} {u : TradeUpdate} {Q : Unit → World → Prop}
    (h : ∀ now, Q () { v with journal := v.journal.update i u now }) :
    (Store.update i u).wp A (Says P w) Q (fun _ _ => True) v := by
  unfold Store.update
  rw [Prog.wp_bind, wp_now]
  intro at_ _
  refine says_change fun j hj => ?_
  obtain rfl := Except.ok.inj hj
  exact h _

/-- The write may be issued: none was since, and it is allowed. -/
def Ready (P : List Event → Api → Call → Journal → Prop) (w v : World) (api : Api) (call : Call) : Prop :=
  ∃ said, v.trace = w.trace ++ said ∧ said.filterMap Event.call? = [] ∧ P said api call v.journal

theorem Ready.invoke {api : Api} {call : Call} (h : Ready P w v api call) (owner : Owner) :
    (invoke owner api call).wp A (Says P w) (fun _ _ => True) (fun _ _ => True) v := by
  unfold MatchTrader.invoke
  simp only [Prog.wp_bind, wp_readsWorld, wp_record, wp_askWrite]
  refine ⟨Or.inr ⟨_, rfl, fun o a c j he => ?_⟩, fun r _ => ⟨Or.inr ⟨_, rfl, fun _ _ _ _ he => by cases he⟩, ?_⟩⟩
  · obtain ⟨rfl, rfl, rfl, rfl⟩ := Event.sent.inj he
    exact h
  · exact (Prog.wp_ofExcept _).mpr ⟨fun _ _ => trivial, fun _ _ => trivial⟩

end Sending

namespace Unwind

variable [Host] {env : Answers} {w v : World} {t : TradeRow} {s : Ending} {api : Api} {destination label : String}
  {action : Action} {G : World → World → Prop}

/-- What an unwinding may write: the close of the trade's own position, or the cancel of its own order. -/
def Permits (holds : Journal → String → LegScope → String → Prop) (env : Answers) (t : TradeRow) (destination : String)
    (said : List Event) (api : Api) (call : Call) (j : Journal) : Prop :=
  (∃ r, call = .closePosition r ∧ OwnPosition holds env t destination api said j r.positionId r.volume)
    ∨ ∃ r, call = .cancelPendingOrder r ∧ OwnOrder env t api r.id

omit [Host] in
theorem Permits.of_rows {said : List Event} {call : Call} {j k : Journal}
    (h : Permits Journal.Alone env t destination said api call j) (hr : k.positionRows = j.positionRows)
    (hb : k.broker = j.broker) : Permits Journal.Alone env t destination said api call k := by
  rcases h with ⟨r, hc, hown⟩ | horder
  · have hscope : k.destinationScope destination = j.destinationScope destination := by simp only [Journal.destinationScope, hb]
    exact Or.inl ⟨r, hc, hown.returned, hscope ▸ hown.held.of_rows hr⟩
  · exact Or.inr horder

omit [Host] in
/-- The cancel is made for an order that was among the resting ones. -/
theorem pendingOrderRequest_own {instrument side : String} {type : Option String} {Q : CancelRequest → World → Prop}
    {E : Exc → World → Prop} (ht : t.brokerOrderId ≠ "") (hQ : ∀ r, OwnOrder env t api r.id → Q r v) (hE : ∀ e, E e v) :
    (pendingOrderRequest api t.brokerOrderId instrument side type).wp (Given env) G Q E v := by
  unfold pendingOrderRequest
  rw [Prog.wp_bind, wp_activeOrders]
  intro reply hreply
  refine (Prog.wp_ofExcept _).mpr ⟨fun orders horders => ?_, fun e _ => hE e⟩
  subst horders
  split
  · next o ho =>
    have hmem : o ∈ orders.filter fun o => o.id = t.brokerOrderId := ho ▸ List.mem_singleton_self o
    obtain ⟨hin, hid⟩ := List.mem_filter.mp hmem
    have hid : o.id = t.brokerOrderId := of_decide_eq_true hid
    rw [Prog.wp_bind, wp_raiseIf]
    exact ⟨fun _ => hE _, fun _ => hQ _ ⟨ht, hid, orders, hreply, o, hin, hid⟩⟩
  · exact hE _

theorem planCancel_own {because : String} (ht : t.brokerOrderId ≠ "") : (planCancel t api label because).wp (Given env) G
    (fun p u => u = v ∧ ∃ r, p.call = .cancelPendingOrder r ∧ OwnOrder env t api r.id) (fun _ _ => True) v := by
  unfold planCancel
  rw [Prog.wp_bind, wp_readsWorld]
  dsimp only
  rw [Prog.wp_bind, Prog.wp_tryCatch]
  refine pendingOrderRequest_own ht (fun r hr => ?_) fun e => ?_
  · rw [Prog.wp_bind, wp_now]
    exact fun at_ _ => ⟨rfl, r, rfl, hr⟩
  · split <;> exact trivial

omit [Host] in
theorem guardAgain_own {identity : String} {refusal : String → Exc} {Q : Unit → World → Prop}
    (hQ : v.journal.guardPosition identity = .ok () → Q () v) :
    (guardAgain identity refusal).wp (Given env) G Q (fun _ _ => True) v := by
  unfold guardAgain
  rw [Prog.wp_bind, wp_readsWorld]
  split
  · next h => exact hQ h
  · exact trivial

/-- What an unwinding has when a single position is related to its trade: the trade has it to itself. -/
structure Found (w u : World) (t : TradeRow) (destination : String) (p : Position) : Prop where
  trace : u.trace = w.trace
  anchored : u.journal.Anchored
  row : u.journal.trade? t.tradeId = some t
  alone : u.journal.Alone t.tradeId (u.journal.destinationScope destination) p.id
  linked : p.id ≠ "" → u.journal.PositionLinked t.tradeId (u.journal.destinationScope destination) p.id

theorem observeRelated_own {P : List Event → Api → Call → Journal → Prop} {related : List Position} (ha : v.journal.Anchored)
    (ht : v.journal.trade? t.tradeId = some t) : (observeRelated t destination related).wp (Given env) (Says P w)
      (fun _ u => (related = [] → u = v) ∧ ∀ p, related = [p] → Found v u t destination p) (fun _ _ => True) v := by
  unfold observeRelated
  split
  · next hnil =>
    obtain rfl := List.isEmpty_iff.mp hnil
    exact ⟨fun _ => rfl, fun p hp => by cases hp⟩
  · next hne =>
    unfold Store.observePositions
    rw [Prog.wp_bind, Prog.wp_bind, wp_now]
    intro at_ _
    refine says_change fun j hj => guardAgain_own fun hguard => ⟨fun hnil => ?_, fun p hp => ?_⟩
    · rw [hnil] at hne
      exact absurd rfl hne
    · obtain rfl := Except.ok.inj hj
      have hcarries := Journal.Carries.observePositions related v.journal t.tradeId destination at_.isoformat
      have hscope : (related.foldl (Journal.observePositionOf t.tradeId destination at_.isoformat) v.journal).destinationScope
          destination = v.journal.destinationScope destination := by
        simp only [Journal.destinationScope, hcarries.broker ha.broker]
      have hlinked := fun hid : p.id ≠ "" => Journal.observePositions_linked hid (hp ▸ List.mem_singleton_self p : p ∈ related)
        v.journal t.tradeId destination at_.isoformat
      rw [← hscope] at hlinked
      have ha' := hcarries.anchored ha
      have htrades := (Journal.observePositions_rows related v.journal t.tradeId destination at_.isoformat).1
      have hrow : (related.foldl (Journal.observePositionOf t.tradeId destination at_.isoformat) v.journal).trade? t.tradeId
          = some t := by
        simp only [Journal.trade?, htrades]
        exact ht
      exact ⟨rfl, ha', hrow, .of_guard ha'.named hguard hlinked, hlinked⟩

omit [Host] in
theorem noteRelated_own {P : List Event → Api → Call → Journal → Prop} {p : Position} {x : World}
    (h : Found x v t destination p) (hd : t.destination = destination) : (noteRelated t p).wp (Given env) (Says P w)
      (fun _ u => u.trace = v.trace ∧ u.journal.Anchored
        ∧ u.journal.Alone t.tradeId (u.journal.destinationScope destination) p.id) (fun _ _ => True) v := by
  unfold noteRelated
  split
  · refine says_update fun at_ => ⟨rfl, h.anchored.update _ _ _, ?_⟩
    have hrows : (v.journal.update t.tradeId { brokerPositionId := some p.id } at_).positionRows = v.journal.positionRows := by
      refine Journal.update_positionRows _ fun u hu _ hp => ?_
      obtain rfl := Option.some.inj (h.row.symm.trans hu)
      have hscope : v.journal.destinationScope t.destination = v.journal.destinationScope destination := by rw [hd]
      exact hscope ▸ h.linked hp
    have hb : (v.journal.update t.tradeId { brokerPositionId := some p.id } at_).destinationScope destination
        = v.journal.destinationScope destination := by
      simp only [Journal.destinationScope, (Journal.Passive.update v.journal t.tradeId _ at_).broker]
      rfl
    exact hb ▸ h.alone.of_rows hrows
  · exact ⟨rfl, h.anchored, h.alone⟩

theorem planClose_own (ha : w.journal.Anchored) (ht : w.journal.trade? t.tradeId = some t) (hd : t.destination = destination) :
    (planClose t api destination label).wp (Given env) (Says (Permits Journal.Alone env t destination) w)
      (fun p u => Ready (Permits Journal.Alone env t destination) w u api p.call ∧ u.journal.Anchored) (fun _ _ => True) w := by
  unfold planClose
  rw [Prog.wp_bind]
  refine guardAgain_own fun _ => ?_
  unfold openPositions
  simp only [Prog.wp_bind, wp_askPositions, Prog.wp_ofExcept, wp_record, Prog.wp_pure]
  intro reply hreply
  refine ⟨fun raw hraw => ⟨Or.inr ⟨_, rfl, fun _ _ _ _ he => by cases he⟩, ?_⟩, fun _ _ => trivial⟩
  subst hraw
  refine Prog.wp_consequence (observeRelated_own ha ht) (fun _ u hu => ?_) fun _ _ h => h
  split
  · next p hp =>
    have hfound := hu.2 p hp
    rw [Prog.wp_bind]
    refine Prog.wp_consequence (noteRelated_own hfound hd) (fun _ x hx => ?_) fun _ _ h => h
    rw [Prog.wp_bind, wp_now]
    intro at_ _
    have hmem : p ∈ relatedPositions t t.symbol t.side (leavesAll raw) := hp ▸ List.mem_singleton_self p
    simp only [relatedPositions, List.mem_filter, decide_eq_true_eq] at hmem
    obtain ⟨hin, hmatch, hsymbol, hside⟩ := hmem
    have hown : OwnPosition Journal.Alone env t destination api [.readPositions destination (leavesAll raw)] x.journal p.id p.volume :=
      ⟨⟨raw, p, hreply, rfl, hin, rfl, hmatch, hsymbol, hside, Decimal.le_iff.mpr le_rfl⟩, hx.2.2⟩
    exact ⟨⟨_, hx.1.trans hfound.trace, rfl, Or.inl ⟨_, rfl, hown⟩⟩, hx.2.1⟩
  · next hnil =>
    obtain rfl := hu.1 hnil
    split
    · next horder =>
      refine Prog.wp_consequence (planCancel_own horder) (fun p x hx => ?_) fun _ _ h => h
      obtain ⟨rfl, r, hr, hown⟩ := hx
      exact ⟨⟨_, rfl, rfl, Or.inr ⟨r, hr, hown⟩⟩, ha⟩
    · exact trivial
  · exact trivial

theorem prepare_own {session : Option Api} {verified : Bool} (ha : w.journal.Anchored)
    (ht : w.journal.trade? t.tradeId = some t) : (prepare t s session destination verified action).wp (Given env)
      (Says (Permits Journal.Alone env t destination) w)
      (fun r u => Ready (Permits Journal.Alone env t destination) w u r.1 r.2.call ∧ u.journal.Anchored) (fun _ _ => True) w := by
  unfold prepare
  rw [Prog.wp_bind, wp_readsWorld, Prog.wp_bind, Prog.wp_ofExcept]
  refine ⟨fun a hcheck => ?_, fun _ _ => trivial⟩
  obtain ⟨-, hd, -⟩ := check_ok hcheck
  split
  · rw [Prog.wp_bind, wp_raiseIf]
    refine ⟨fun _ => trivial, fun horder => ?_⟩
    rw [Prog.wp_bind]
    refine Prog.wp_consequence (planCancel_own horder) (fun p x hx => ?_) fun _ _ h => h
    obtain ⟨rfl, r, hr, hown⟩ := hx
    exact ⟨⟨[], by simp, rfl, Or.inr ⟨r, hr, hown⟩⟩, ha⟩
  · rw [Prog.wp_bind]
    exact Prog.wp_consequence (planClose_own ha ht hd) (fun p u hu => hu) fun _ _ h => h

theorem perform_own {P : List Event → Api → Call → Journal → Prop} {owner : Owner} {key : ActionKey} {plan : Plan}
    {correlation : String} (h : Ready P w v api plan.call) :
    (perform owner t key api plan action correlation).wp (Given env) (Says P w) (fun _ _ => True) (fun _ _ => True) v := by
  unfold perform
  rw [Prog.wp_bind, Prog.wp_tryCatch, Prog.wp_map]
  refine Prog.wp_consequence (h.invoke owner) (fun r u _ => ?_) fun e u _ => ?_
  · dsimp only
    refine silent (Prog.Keeps.tryCatch (Prog.Keeps.bind FrameRule.raiseIf fun _ => Prog.Keeps.bind ?_ fun _ => Prog.keeps_pure _)
      fun e => says_journal.fail _ _ _ _ _ _)
    refine Prog.Keeps.tryCatch ?_ fun e => Prog.keeps_throw _
    exact Prog.Keeps.bind (says_journal.update _ trivial) fun _ => Prog.Keeps.bind (says_journal.finish _ _ _) fun _ =>
      says_journal.recordReason _ _ _ _ _
  · rw [Prog.wp_map]
    have hrest : Prog.Keeps (fun _ => True) (Says P w) (if e.kind = .writesDisabled then
        tryCatch (release t key plan.call action correlation e) fun e => fail t.tradeId key plan.call correlation none e
      else fail t.tradeId key plan.call correlation none e) := by
      split
      · exact Prog.Keeps.tryCatch (says_journal.release _ _ _ _ _ _) fun e => says_journal.fail _ _ _ _ _ _
      · exact says_journal.fail _ _ _ _ _ _
    exact Prog.wp_consequence (silent hrest) (fun _ _ _ => trivial) fun _ _ h => h

theorem commit_own {plan : Plan} (ha : v.journal.Anchored)
    (h : Ready (Permits Journal.Alone env t destination) w v api plan.call) :
    (commit t s api plan destination).wp (Given env) (Says (Permits Journal.Alone env t destination) w)
      (fun _ _ => True) (fun _ _ => True) v := by
  unfold commit Store.claim
  rw [Prog.wp_bind, Prog.wp_bind, wp_now]
  intro at_ _
  refine wp_transact (Or.inl rfl) trivial (fun _ _ => trivial) fun claimed j hj => ⟨Or.inl rfl, ?_⟩
  cases claimed with
  | false =>
    simp only [Bool.not_false, if_true, Prog.wp_bind]
    exact Prog.wp_consequence (silent (says_journal.recordReason _ _ _ _ _)) (fun _ _ _ => trivial) fun _ _ h => h
  | true =>
    simp only [Bool.not_true, Bool.false_eq_true, if_false, Prog.wp_bind]
    have hcarries : v.journal.Carries j := .claim hj
    obtain ⟨_, _, rfl⟩ := Journal.claim_ok hj
    refine says_update fun at_ => perform_own ?_
    obtain ⟨said, htrace, hnone, hpermits⟩ := h
    refine ⟨said, htrace, hnone, hpermits.of_rows ?_ ?_⟩
    · -- The row keeps its account and its position, which are linked already.
      refine Journal.update_positionRows _ fun r hr hd hp => ?_
      exact (hcarries.anchored ha).anchored t.tradeId r hr hd hp
    · exact (Journal.Passive.update _ _ _ _).broker

theorem applyTo_own {session : Option Api} {verified : Bool} (ha : w.journal.Anchored)
    (ht : w.journal.trade? t.tradeId = some t) : (applyTo t s session destination verified).wp (Given env)
      (Says (Permits Journal.Alone env t destination) w) (fun _ _ => True) (fun _ _ => True) w := by
  unfold applyTo preflight
  rw [Prog.wp_bind, Prog.wp_tryCatch, Prog.wp_map]
  refine Prog.wp_consequence (prepare_own ha ht) (fun r u hu => commit_own hu.2 hu.1) fun e u _ => ?_
  split
  · rw [Prog.wp_bind]
    exact Prog.wp_consequence (silent (says_journal.recordReason _ _ _ _ _)) (fun _ _ _ => trivial) fun _ _ h => h
  · rw [Prog.wp_bind]
    exact Prog.wp_consequence (silent (says_journal.recordReason _ _ _ _ _)) (fun _ _ _ => trivial) fun _ _ h => h

/-- What an unwinding of the concerned trades may write. -/
def Allows (holds : Journal → String → LegScope → String → Prop) (env : Answers) (trades : List TradeRow) (destination : String)
    (said : List Event) (api : Api) (call : Call) (j : Journal) : Prop :=
  ∃ t ∈ trades, Permits holds env t destination said api call j

theorem apply_own {session : Option Api} {verified : Bool} {tradeId : Option String} (ha : w.journal.Anchored) (n : Nat) :
    Sends (Allows Journal.Alone env (concerned w.journal s tradeId) destination) w
      ((apply s session destination verified tradeId).stop n env w) := by
  have hwp : (apply s session destination verified tradeId).wp (Given env)
      (Says (Allows Journal.Alone env (concerned w.journal s tradeId) destination) w) (fun _ _ => True) (fun _ _ => True) w := by
    unfold apply
    rw [Prog.wp_bind, wp_readsWorld]
    have hmem : ∀ t ∈ concerned w.journal s tradeId, w.journal.trade? t.tradeId = some t := fun t => trade?_of_mem_concerned
    generalize hc : concerned w.journal s tradeId = trades at hmem ⊢
    unfold concerned at hc
    cases tradeId
    all_goals
      dsimp only at hc ⊢
      rw [hc]
      split
      · exact trivial
      · next t =>
        have ht : w.journal.trade? t.tradeId = some t := hmem t List.mem_cons_self
        rw [Prog.wp_bind]
        refine Prog.wp_mono (applyTo_own ha ht) (fun _ _ hq => hq) (fun x y hxy => ?_) (fun _ _ _ => trivial) fun _ _ h => h
        exact hxy.imp_right fun ⟨m, hm, hall⟩ => ⟨m, hm, fun o a c j he =>
          let ⟨said, hs, hn, hp⟩ := hall o a c j he
          ⟨said, hs, hn, t, List.mem_singleton_self t, hp⟩⟩
      · rw [Prog.wp_bind]
        refine Prog.wp_consequence (silent ?_) (fun _ _ _ => trivial) fun _ _ h => h
        exact Prog.keeps_forM _ fun t _ => says_journal.recordReason _ _ _ _ _
  exact .of_steps (Prog.wp_stop hwp n env fun i q => ⟨i, rfl⟩)

end Unwind

namespace Router

variable [Host] {env : Answers} {w v : World} {e : CaptureEvent} {p : Priced} {t : TradeRow} {symbol destination : String}
  {lots : Decimal} {api : Api}

/-- What the router may write: of the calls on a position, those on the trade's own. -/
def Permits (holds : Journal → String → LegScope → String → Prop) (env : Answers) (t : TradeRow) (destination : String)
    (said : List Event) (api : Api) (call : Call) (j : Journal) : Prop :=
  ∀ id volume, call.position? = some (id, volume) → OwnPosition holds env t destination api said j id volume

/-- The single related position is the trade's, and is linked. -/
def Noted (v : World) (t : TradeRow) (destination id : String) : Prop :=
  (∃ x, v.journal.trade? t.tradeId = some x ∧ x.brokerPositionId = id)
    ∧ (id ≠ "" → v.journal.PositionLinked t.tradeId (v.journal.destinationScope destination) id)

omit [Host] in
theorem noteRelated_own {P : List Event → Api → Call → Journal → Prop} {related : List Position} (ha : v.journal.Anchored)
    (ht : v.journal.trade? t.tradeId = some t)
    (hlinked : ∀ q ∈ related, q.id ≠ "" → v.journal.PositionLinked t.tradeId (v.journal.destinationScope destination) q.id) :
    (noteRelated t.tradeId related).wp (Given env) (Says P w)
      (fun _ u => u.trace = v.trace ∧ u.journal.Anchored ∧ ∀ q, related = [q] → Noted u t destination q.id)
      (fun _ _ => True) v := by
  unfold noteRelated
  split
  · next q =>
    refine says_update fun at_ => ⟨rfl, ha.update _ _ _, fun x hx => ?_⟩
    obtain rfl := List.head_eq_of_cons_eq hx
    have hp := Journal.Passive.update v.journal t.tradeId { brokerPositionId := some q.id } at_
    have hscope : (v.journal.update t.tradeId { brokerPositionId := some q.id } at_).destinationScope destination
        = v.journal.destinationScope destination := by
      simp only [Journal.destinationScope, hp.broker]
      rfl
    refine ⟨⟨_, Journal.update_trade?_self _ at_ ht, rfl⟩, fun hne => ?_⟩
    obtain ⟨l, hl, hk⟩ := hlinked q List.mem_cons_self hne
    obtain ⟨k, hlinks, hif⟩ := Journal.update_linkage ht { brokerPositionId := some q.id } at_
    rw [hscope]
    refine ⟨l, hlinks ▸ ?_, hk⟩
    split at hif
    · exact hif ▸ hl
    · exact hif ▸ (Journal.Carries.link ..).linked l ((Journal.Carries.link ..).linked l hl)
  · next hnot => exact ⟨rfl, ha, fun q hq => absurd hq (hnot q)⟩

omit [Host] in
/-- The volume of a call on a position is covered by it. -/
theorem planPosition_own {q : Position} {orderLeft : Bool} {r : Call × Settled}
    (h : planPosition e p symbol lots q orderLeft = .ok r) : ∃ volume, r.1.position? = some (q.id, volume) ∧ volume ≤ q.volume := by
  unfold planPosition at h
  split at h
  · simp only [bind_eq_ok, raiseIf_eq_ok] at h
    obtain ⟨_, hcover, h⟩ := h
    obtain rfl := Except.ok.inj h
    have hle : lots ≤ q.volume := by
      rw [Decimal.lt_iff] at hcover
      exact Decimal.le_iff.mpr (not_lt.mp hcover)
    refine ⟨lots, ?_, hle⟩
    dsimp only
    split <;> rfl
  · simp only [bind_eq_ok, raiseIf_eq_ok] at h
    obtain ⟨_, hsame, h⟩ := h
    obtain rfl := Except.ok.inj h
    have heq : lots.toRat = q.volume.toRat := Decimal.same_iff.mp (by simpa using hsame)
    exact ⟨lots, rfl, Decimal.le_iff.mpr heq.le⟩

/-- A call as it was planned, before anything is committed. -/
structure Drafted (env : Answers) (w : World) (t : TradeRow) (destination : String) (api : Api) (call : Call) (u : World) :
    Prop where
  ready : Ready (Permits Journal.Alone env t destination) w u api call
  noted : ∀ id volume, call.position? = some (id, volume) → Noted u t destination id

theorem planChange_own (ha : w.journal.Anchored) (ht : w.journal.trade? t.tradeId = some t) :
    (planChange e p t symbol destination lots api).wp (Given env) (Says (Permits Journal.Alone env t destination) w)
      (fun r u => Drafted env w t destination api r.1 u) (fun _ _ => True) w := by
  unfold planChange
  rw [Prog.wp_bind, wp_raiseIf]
  refine ⟨fun _ => trivial, fun hmatch => ?_⟩
  have hsymbol : t.symbol = symbol := not_not.mp (not_or.mp hmatch).1
  have hside : t.side = e.side.text := not_not.mp (not_or.mp hmatch).2
  rw [Prog.wp_bind, wp_activeOrders]
  intro orders _
  refine (Prog.wp_ofExcept _).mpr ⟨fun pending _ => ?_, fun _ _ => trivial⟩
  unfold openPositions
  simp only [Prog.wp_bind, wp_askPositions, Prog.wp_ofExcept, wp_record, Prog.wp_pure]
  intro reply hreply
  refine ⟨fun raw hraw => ⟨Or.inr ⟨_, rfl, fun _ _ _ _ he => by cases he⟩, ?_⟩, fun _ _ => trivial⟩
  subst hraw
  generalize hrelated : relatedPositions t symbol e.side.text (leavesAll raw) = related
  unfold Store.observePositions
  rw [Prog.wp_bind, wp_now]
  intro at_ _
  refine says_change fun j hj => ?_
  obtain rfl := Except.ok.inj hj
  let observed := related.foldl (Journal.observePositionOf t.tradeId destination at_.isoformat) w.journal
  have hcarries := Journal.Carries.observePositions related w.journal t.tradeId destination at_.isoformat
  have hscope : observed.destinationScope destination = w.journal.destinationScope destination := by
    simp only [Journal.destinationScope, observed, hcarries.broker ha.broker]
  have hlinked : ∀ q ∈ related, q.id ≠ "" → observed.PositionLinked t.tradeId (observed.destinationScope destination) q.id :=
    fun q hq hid => hscope ▸ Journal.observePositions_linked hid hq w.journal _ _ _
  have hrow : observed.trade? t.tradeId = some t := by
    simp only [observed, Journal.trade?, (Journal.observePositions_rows related w.journal t.tradeId destination at_.isoformat).1]
    exact ht
  refine Prog.wp_consequence (noteRelated_own (hcarries.anchored ha) hrow hlinked) (fun _ u hu => ?_) fun _ _ h => h
  obtain ⟨htrace, hu, hnoted⟩ := hu
  -- Calls on orders name no position.
  have horder {call : Call} (hcall : call.position? = none) : Drafted env w t destination api call u :=
    ⟨⟨_, htrace, rfl, fun id volume h => by rw [hcall] at h; cases h⟩, fun id volume h => by rw [hcall] at h; cases h⟩
  split
  · exact trivial
  · exact horder rfl
  · split
    · exact horder rfl
    · next q _ =>
      rw [Prog.wp_bind, wp_readsWorld, Prog.wp_bind, Prog.wp_ofExcept]
      refine ⟨fun _ hguard => ?_, fun _ _ => trivial⟩
      refine (Prog.wp_ofExcept _).mpr ⟨fun r hr => ?_, fun _ _ => trivial⟩
      obtain ⟨covered, hcall, hle⟩ := planPosition_own hr
      have hq := hnoted q rfl
      have hmem : q ∈ relatedPositions t symbol e.side.text (leavesAll raw) := hrelated ▸ List.mem_singleton_self q
      simp only [relatedPositions, List.mem_filter, decide_eq_true_eq] at hmem
      obtain ⟨hin, hmatch, hqsymbol, hqside⟩ := hmem
      have hown : OwnPosition Journal.Alone env t destination api [.readPositions destination (leavesAll raw)] u.journal q.id covered :=
        ⟨⟨raw, q, hreply, rfl, hin, rfl, hmatch, hqsymbol.trans hsymbol.symm, hqside.trans hside.symm, hle⟩,
          .of_guard hu.named hguard hq.2⟩
      refine ⟨⟨_, htrace, rfl, fun id volume h => ?_⟩, fun id volume h => ?_⟩
      · rw [hcall] at h
        obtain ⟨rfl, rfl⟩ := Prod.mk.inj (Option.some.inj h)
        exact hown
      · rw [hcall] at h
        obtain ⟨rfl, rfl⟩ := Prod.mk.inj (Option.some.inj h)
        exact hq
    · exact trivial

theorem plan_own (ha : w.journal.Anchored) (ht : w.journal.trade? t.tradeId = some t) :
    (plan e p t symbol destination lots api).wp (Given env) (Says (Permits Journal.Alone env t destination) w)
      (fun r u => Drafted env w t destination api r.1 u) (fun _ _ => True) w := by
  unfold plan
  split
  · have hcall : (openCall e.orderType symbol e.side lots p).position? = none := by
      unfold openCall
      split <;> rfl
    exact ⟨⟨[], by simp, rfl, fun id volume h => by rw [hcall] at h; cases h⟩, fun id volume h => by rw [hcall] at h; cases h⟩
  · exact planChange_own ha ht

theorem perform_own {P : List Event → Api → Call → Journal → Prop} {owner : Owner} {identity : String} {call : Call}
    {settled : Settled} (h : Ready P w v api call) :
    (perform e owner identity api call settled).wp (Given env) (Says P w) (fun _ _ => True) (fun _ _ => True) v := by
  unfold perform
  rw [Prog.wp_tryCatch, Prog.wp_bind]
  have hfailed (exc : Exc) (u : World) : (recordFailure identity (actionKey e) exc).wp (Given env) (Says P w) (fun _ _ => True)
      (fun _ _ => True) u := silent (says_journal.recordFailure _ _ _)
  refine Prog.wp_consequence (h.invoke owner) (fun r u _ => ?_) fun exc u _ => hfailed exc u
  refine Prog.wp_consequence (silent ?_) (fun _ _ _ => trivial) fun exc u _ => hfailed exc u
  refine Prog.Keeps.bind FrameRule.raiseIf fun _ => Prog.Keeps.bind FrameRule.raiseIf fun _ => Prog.Keeps.bind FrameRule.now fun at_ => ?_
  refine FrameRule.reads fun journal => Prog.Keeps.bind (FrameRule.ofExcept _) fun values => ?_
  refine Prog.Keeps.bind (Prog.Keeps.tryCatch ?_ fun exc => Prog.keeps_throw _) fun _ => Prog.keeps_pure _
  exact Prog.Keeps.bind (says_journal.update _ trivial) fun _ => says_journal.finish _ _ _

theorem commit_own {call : Call} {settled : Settled} (h : Drafted env w t destination api call v) :
    (commit e t symbol destination lots api call settled).wp (Given env) (Says (Permits Journal.Alone env t destination) w)
      (fun _ _ => True) (fun _ _ => True) v := by
  unfold commit Store.claim
  rw [Prog.wp_bind, Prog.wp_bind, wp_now]
  intro at_ _
  refine wp_transact (Or.inl rfl) trivial (fun _ _ => trivial) fun claimed j hj => ⟨Or.inl rfl, ?_⟩
  rw [Prog.wp_bind, wp_raiseIf]
  refine ⟨fun _ => trivial, fun hclaimed => ?_⟩
  cases claimed with
  | false => exact absurd rfl hclaimed
  | true =>
    obtain ⟨-, -, rfl⟩ := Journal.claim_ok hj
    rw [Prog.wp_bind]
    refine says_update fun stamp => perform_own ?_
    obtain ⟨⟨said, htrace, hnone, hpermits⟩, hnoted⟩ := h
    refine ⟨said, htrace, hnone, fun id volume hcall => ?_⟩
    have hown := hpermits id volume hcall
    obtain ⟨⟨x, hx, hid⟩, hlinked⟩ := hnoted id volume hcall
    let claimed := v.journal.dispatching t.tradeId (actionKey e) e.requestId e.action destination call at_.isoformat
    have hrow : claimed.trade? t.tradeId = some (x.setState .dispatching) := by
      rw [Journal.trade?_dispatching, if_pos rfl, hx]
      rfl
    let u : TradeUpdate := {
      destination := some destination, symbol := some symbol, side := some e.side.text
      lots := some (if e.action = .create ∨ e.action = .edit then some lots else t.lots)
      orderType := some e.orderType.text, lastRequest := some e.requestId, lastEventAt := some e.emittedAt }
    -- The row is put under the destination, where its position is linked already.
    have hrows : (claimed.update t.tradeId u stamp).positionRows = v.journal.positionRows := by
      refine Journal.update_positionRows u fun y hy _ hne => ?_
      obtain rfl := Option.some.inj (hrow.symm.trans hy)
      have hposition : (u.apply stamp (x.setState .dispatching)).brokerPositionId = id := hid
      rw [hposition] at hne ⊢
      exact hlinked hne
    have hscope : (claimed.update t.tradeId u stamp).destinationScope destination = v.journal.destinationScope destination := by
      simp only [Journal.destinationScope, (Journal.Passive.update claimed t.tradeId u stamp).broker]
      rfl
    exact ⟨hown.returned, hscope ▸ hown.held.of_rows hrows⟩

/-- What the dispatch of an event of the identified trade may write. -/
def Allows (holds : Journal → String → LegScope → String → Prop) (env : Answers) (j₀ : Journal) (identity : Option String)
    (destination : String) (said : List Event) (api : Api) (call : Call) (j : Journal) : Prop :=
  ∃ t, identity.bind j₀.trade? = some t ∧ Permits holds env t destination said api call j

theorem dispatch_own {arming : Arming} {route : Option RouteConfig} {identity : Option String} {session : Option Api}
    (ha : w.journal.Anchored) (n : Nat) : Sends (Allows Journal.Alone env w.journal identity destination) w
      ((dispatch arming route e identity session destination).stop n env w) := by
  have hwp : (dispatch arming route e identity session destination).wp (Given env)
      (Says (Allows Journal.Alone env w.journal identity destination) w) (fun _ _ => True) (fun _ _ => True) w := by
    unfold dispatch
    split
    · next route api _ =>
      rw [Prog.wp_bind, wp_raiseIf]
      refine ⟨fun _ => trivial, fun _ => ?_⟩
      rw [Prog.wp_bind, wp_now]
      intro at_ _
      rw [Prog.wp_bind, wp_raiseIf]
      refine ⟨fun _ => trivial, fun _ => ?_⟩
      rw [Prog.wp_bind, wp_raiseIf]
      refine ⟨fun _ => trivial, fun _ => ?_⟩
      split
      · exact trivial
      · next i hi =>
        have hidentity : identity = some i := (Option.filter_eq_some_iff.mp hi).1
        rw [Prog.wp_bind]
        change Prog.wp _ _ (reads _) _ _ _
        rw [wp_readsWorld]
        split
        · exact trivial
        · next t ht =>
          have hi : t.tradeId = i := (Rows.lookup_mem ht).2
          have hrow : w.journal.trade? t.tradeId = some t := hi.symm ▸ ht
          rw [Prog.wp_bind, Prog.wp_ofExcept]
          refine ⟨fun r _ => ?_, fun _ _ => trivial⟩
          obtain ⟨mapping, lots⟩ := r
          rw [Prog.wp_bind]
          refine Prog.Quiet.wp (quiet_priced mapping) (fun p => ?_) fun _ => trivial
          have hown : (plan e p t mapping.destination destination lots api >>= fun r =>
              commit e t mapping.destination destination lots api r.1 r.2).wp (Given env)
              (Says (Permits Journal.Alone env t destination) w) (fun _ _ => True) (fun _ _ => True) w := by
            rw [Prog.wp_bind]
            exact Prog.wp_consequence (plan_own ha hrow) (fun _ _ h => commit_own h) fun _ _ h => h
          refine Prog.wp_mono hown (fun _ _ hq => hq) (fun x y hxy => ?_) (fun _ _ _ => trivial) fun _ _ h => h
          exact hxy.imp_right fun ⟨m, hm, hall⟩ => ⟨m, hm, fun o a c j he =>
            let ⟨said, hs, hn, hp⟩ := hall o a c j he
            ⟨said, hs, hn, t, hidentity ▸ ht, hp⟩⟩
    · exact trivial
  exact .of_steps (Prog.wp_stop hwp n env fun i q => ⟨i, rfl⟩)

end Router

/-- Wherever an unwinding or a dispatch from the world is stopped, what it closed was the trade's own. -/
def ClosesOwn [Host] (holds : Journal → String → LegScope → String → Prop) (w : World) : Prop :=
  ∀ env n,
    (∀ s session destination verified tradeId, Sends (Unwind.Allows holds env (Unwind.concerned w.journal s tradeId) destination) w
      ((Unwind.apply s session destination verified tradeId).stop n env w))
    ∧ ∀ arming route e identity session destination, Sends (Router.Allows holds env w.journal identity destination) w
      ((Router.dispatch arming route e identity session destination).stop n env w)

/-- Closes hit the trade's own position, which it has to itself. -/
theorem closes_own_positions [Host] {w : World} (hw : Store.Reached w) : ClosesOwn Journal.Alone w := by
  intro env n
  exact ⟨fun _ _ _ _ _ => Unwind.apply_own hw.anchored n, fun _ _ _ _ _ _ => Router.dispatch_own hw.anchored n⟩

section Sample

attribute [local instance] sampleHost

/-- The order of a recorded event is at an account. -/
def placedUpdate : TradeUpdate := { destination := some "A", brokerOrderId := some "42", state := some .opened }

def placedWorld : World := ((StoreOp.update "t1" placedUpdate).run.eval sampleAnswers (recordedFirst sampleEvent)).1

theorem reached_placedWorld : Store.Reached placedWorld :=
  .serve (.update "t1" placedUpdate) (reached_recordedFirst sampleEvent) (.done sampleAnswers)

/-- The source closed the lifecycle, and the unwinding runs to its end. -/
def closing (env : Answers) : World := (Unwind.apply sampleEnding (some sampleApi) "A" true (some "t1")).stop 40 env placedWorld

/-- The position that the broker returned is closed. -/
theorem closes_own_positions_placed : ClosesOwn Journal.Alone placedWorld
    ∧ ((closing positionAnswers).trace.filterMap Event.call?).map Call.position? = [some ("P1", .ofNat 1)] :=
  ⟨closes_own_positions reached_placedWorld, by decide +kernel⟩

/-- The trade has the position to itself, and one link to show for it. -/
def Journal.Sole (j : Journal) (i : String) (scope : LegScope) (position : String) : Prop :=
  j.Alone i scope position ∧ (j.positionLinks .destination i).length = 1

/-- The broker's position bears no name. -/
def namelessAnswers : Answers := fun _ q =>
  match q with
  | .openPositions _ => (.ok [{ samplePosition with id := "" }] : Except Exc (List Position))
  | q => sampleReply q

/-- A close of the trade while no link of it leads to a position. -/
def closesUnlinked : Event → Bool
  | .sent _ _ (.closePosition _) j => (j.positionLinks .destination "t1").isEmpty
  | _ => false

/-- A position without a name is never linked, and is closed by the order that opened it. -/
theorem nameless_position_closed : ¬ ∀ w, Store.Reached w → ClosesOwn Journal.Sole w := by
  intro hall
  have hsent : (closing namelessAnswers).trace.any closesUnlinked = true := by decide +kernel
  have hbefore : placedWorld.trace = [] := by decide +kernel
  obtain ⟨said, htrace, -, hsends⟩ := (hall placedWorld reached_placedWorld namelessAnswers 40).1 sampleEnding (some sampleApi)
    "A" true (some "t1")
  rw [hbefore, List.nil_append] at htrace
  obtain ⟨e, he, hclose⟩ := List.any_eq_true.mp hsent
  unfold closesUnlinked at hclose
  split at hclose
  · next owner api r j =>
    obtain ⟨before, after, hsplit⟩ := List.append_of_mem (htrace ▸ he)
    obtain ⟨t, ht, hpermits⟩ := hsends before owner api (.closePosition r) j after hsplit
    have hmem : t ∈ (placedWorld.journal.trade? "t1").toList := ht
    have hid : t.tradeId = "t1" := (Rows.lookup_mem (Option.mem_toList.mp hmem)).2
    rcases hpermits with ⟨_, -, hown⟩ | ⟨_, hcall, -⟩
    · have hone := hown.held.2
      rw [hid, List.isEmpty_iff.mp hclose] at hone
      cases hone
    · cases hcall
  · cases hclose

end Sample

end MatchTrader
