import MatchTrader.Frames
import MatchTrader.TradeRows

/-! What a trade is stays what it is: its identity at the source, the account it is sent to, its lots
and the order's name at the broker, over any sequence of recordings, sends, unwindings,
reconciliations and reopenings. -/

namespace MatchTrader

open Durable

/-- What a later row of a trade has of the row before. -/
structure TradeRow.Follows (t u : TradeRow) : Prop where
  identity : u.identity = t.identity
  scope : u.scope = t.scope
  sourceOrderId : u.sourceOrderId = t.sourceOrderId
  source : u.source = t.source ∨ t.source = .unknown ∧ u.source ≠ .unknown
  destination : t.destination ≠ "" → u.destination = t.destination
  brokerOrderId : t.brokerOrderId ≠ "" → u.brokerOrderId = t.brokerOrderId

/-- A trade that belongs to an account has a positive quantity there. -/
def TradeRow.Sized (t : TradeRow) : Prop := t.destination ≠ "" → ∃ d, t.lots = some d ∧ 0 < d

namespace TradeRow.Follows

variable {t u x : TradeRow}

theorem refl (t : TradeRow) : t.Follows t := ⟨rfl, rfl, rfl, Or.inl rfl, fun _ => rfl, fun _ => rfl⟩

theorem trans (h : t.Follows u) (h' : u.Follows x) : t.Follows x where
  identity := h'.identity.trans h.identity
  scope := h'.scope.trans h.scope
  sourceOrderId := h'.sourceOrderId.trans h.sourceOrderId
  source := by
    rcases h.source with hs | ⟨ht, hu⟩
    · rcases h'.source with hs' | ⟨hu', hx⟩
      · exact Or.inl (hs'.trans hs)
      · exact Or.inr ⟨hs.symm.trans hu', hx⟩
    · rcases h'.source with hs' | ⟨hu', _⟩
      · exact Or.inr ⟨ht, hs' ▸ hu⟩
      · exact absurd hu' hu
  destination hd := by
    have hu := h.destination hd
    exact (h'.destination (hu ▸ hd)).trans hu
  brokerOrderId ho := by
    have hu := h.brokerOrderId ho
    exact (h'.brokerOrderId (hu ▸ ho)).trans hu

theorem of_carries (h : t.Carries u) : t.Follows u :=
  ⟨h.identity, h.scope, h.sourceOrderId, h.source, fun _ => h.destination, fun _ => h.brokerOrderId⟩

theorem update {u : TradeUpdate} {now : String} (hd : ∀ d, u.destination = some d → t.destination = "" ∨ t.destination = d)
    (ho : ∀ o, u.brokerOrderId = some o → t.brokerOrderId = "") : t.Follows (u.apply now t) where
  identity := rfl
  scope := rfl
  sourceOrderId := rfl
  source := Or.inl rfl
  destination hne := by
    simp only [TradeUpdate.apply]
    cases h : u.destination with
    | none => rfl
    | some d => exact ((hd d h).resolve_left hne).symm
  brokerOrderId hne := by
    simp only [TradeUpdate.apply]
    cases h : u.brokerOrderId with
    | none => rfl
    | some o => exact absurd (ho o h) hne

end TradeRow.Follows

namespace Journal

variable {j k l : Journal} {i now : String} {u : TradeUpdate}

def Sized (j : Journal) : Prop := ∀ i t, j.trade? i = some t → t.Sized

/-- The rows of the trades follow the rows before. -/
structure Follows (j k : Journal) : Prop where
  kept : ∀ i t, j.trade? i = some t → ∃ u, k.trade? i = some u ∧ t.Follows u
  sized : j.Sized → k.Sized

namespace Follows

theorem refl (j : Journal) : j.Follows j := ⟨fun _ t ht => ⟨t, ht, .refl t⟩, id⟩

theorem trans (h : j.Follows k) (h' : k.Follows l) : j.Follows l where
  kept i t ht := by
    obtain ⟨u, hu, htu⟩ := h.kept i t ht
    obtain ⟨x, hx, hux⟩ := h'.kept i u hu
    exact ⟨x, hx, htu.trans hux⟩
  sized hs := h'.sized (h.sized hs)

theorem of_carries (h : j.Carries k) : j.Follows k where
  kept i t ht := by
    obtain ⟨u, hu, htu⟩ := h.kept i t ht
    exact ⟨u, hu, .of_carries htu⟩
  sized hs i u hu hd := by
    rcases h.found hu with ⟨t, ht, htu⟩ | hb
    · obtain ⟨d, hl, hpos⟩ := hs i t ht (htu.destination ▸ hd)
      exact ⟨d, htu.lots.trans hl, hpos⟩
    · exact absurd hb.destination hd

theorem update (h : ∀ t, j.trade? i = some t → t.Follows (u.apply now t) ∧ (t.Sized → (u.apply now t).Sized)) :
    j.Follows (j.update i u now) where
  kept k t ht := by
    rw [update_trade?]
    by_cases hk : k = i
    · subst hk
      exact ⟨_, by rw [if_pos rfl, ht, Option.map_some], (h t ht).1⟩
    · exact ⟨t, by rw [if_neg hk, ht], .refl t⟩
  sized hs k x hx := by
    rw [update_trade?] at hx
    by_cases hk : k = i
    · subst hk
      rw [if_pos rfl] at hx
      obtain ⟨t, ht, rfl⟩ := Option.map_eq_some_iff.mp hx
      exact (h t ht).2 (hs k t ht)
    · rw [if_neg hk] at hx
      exact hs k x hx

theorem mild (hu : u.Mild) (j : Journal) (i now : String) : j.Follows (j.update i u now) := by
  refine update fun t _ => ⟨.update (fun d hd => ?_) fun o ho => ?_, fun hs hd => ?_⟩
  · rw [hu.destination] at hd
    cases hd
  · rw [hu.brokerOrderId] at ho
    cases ho
  · have hdest : (u.apply now t).destination = t.destination := by simp only [TradeUpdate.apply, hu.destination, Option.getD_none]
    have hlots : (u.apply now t).lots = t.lots := by simp only [TradeUpdate.apply, hu.lots, Option.getD_none]
    exact hlots ▸ hs (hdest ▸ hd)

end Follows

end Journal

/-- The tables fit together, under the present mapping. -/
def Grounded [Host] (w : World) : Prop := w.journal.Sound ∧ w.journal.legacyMigrated = true

section Programs

variable [Host] {w v : World}

theorem StoreOp.Moves.grounded {op : StoreOp} {j k : Journal} (h : op.Moves j k) (hs : j.Sound) (hm : j.legacyMigrated = true) :
    k.Sound ∧ k.legacyMigrated = true := by
  refine ⟨h.sound hs, ?_⟩
  rcases h.carries hs hm with ⟨i, u, now, -, rfl⟩ | hc
  · have hp := Journal.Passive.update j i u now
    rw [hp]
    exact hm
  · exact hc.migrated hm

/-- Every trade's row follows the one before, and the tables still fit together. -/
structure Steady (w v : World) : Prop where
  follows : w.journal.Follows v.journal
  grounded : Grounded w → Grounded v

theorem Steady.of_journal (h : v.journal = w.journal) : Steady w v where
  follows := h ▸ .refl _
  grounded hI := by
    unfold Grounded at hI ⊢
    rw [h]
    exact hI

/-- The store's transactions keep every trade's identity, if an update is mild. -/
theorem followsFrame : FrameRule TradeUpdate.Mild Grounded Steady fun _ => True where
  journal w op j hu hmove hI := by
    refine ⟨⟨?_, fun _ => hmove.grounded hI.1 hI.2⟩, hmove.grounded hI.1 hI.2⟩
    rcases hmove.carries hI.1 hI.2 with ⟨i, u, now, rfl, rfl⟩ | hc
    · exact .mild hu ..
    · exact .of_carries hc
  fault w hI := ⟨.of_journal rfl, hI⟩
  mild _ hu := hu
  say w e _ hI := ⟨.of_journal rfl, hI⟩
  heard _ _ := trivial
  removes _ _ _ _ _ := trivial

theorem follows_update {i : String} {u : TradeUpdate} {A : (q : Query) → Reply q → Prop} {Q : Unit → World → Prop}
    {E : Exc → World → Prop} (hI : Grounded w)
    (h : ∀ now t, w.journal.trade? i = some t → t.Follows (u.apply now t) ∧ (t.Sized → (u.apply now t).Sized))
    (hE : ∀ v, Grounded v → E .sqlite v)
    (hQ : ∀ now, Grounded { w with journal := w.journal.update i u now } → Q () { w with journal := w.journal.update i u now }) :
    (Store.update i u).wp A Steady Q E w := by
  unfold Store.update
  rw [Prog.wp_bind, wp_now]
  intro at_ _
  refine Store.wp_change (.of_journal rfl) (hE _ hI) (fun e he => by cases he) fun j hj => ?_
  obtain rfl := Except.ok.inj hj
  have hmove : StoreOp.Moves (.update i u) w.journal (w.journal.update i u at_.isoformat) := .update ..
  exact ⟨⟨.update (h _), fun _ => hmove.grounded hI.1 hI.2⟩, hQ _ (hmove.grounded hI.1 hI.2)⟩

namespace ManualSend

variable {tradeId : String} {t : TradeRow}

theorem parseVolume_ok {volume : Json} {lots : Decimal} (h : parseVolume volume = .ok lots) : 0 < lots := by
  unfold parseVolume at h
  extract_lets rest at h
  have hrest (parsed : Option Decimal) (h : rest parsed = .ok lots) : 0 < lots := by
    cases parsed with
    | none => cases h
    | some d =>
      simp only [rest] at h
      split at h
      · next hpos => exact Except.ok.inj h ▸ hpos
      · cases h
  split at h
  · cases h
  · cases h
  · next d => exact hrest (some d) h
  · exact hrest none h
  · split at h
    · next d _ => exact hrest d h
    · cases h
  · cases h

theorem prepare_lots {j : Journal} {controls : Controls} {volume : Json} {destination : String} {route : Option RouteConfig}
    {p : Prepared} (h : prepare j controls tradeId volume destination route = .ok p) : 0 < p.lots := by
  unfold prepare at h
  split at h
  · cases h
  · simp only [bind_eq_ok, raiseIf_eq_ok] at h
    obtain ⟨_, _, _, _, _, _, _, _, _, _, _, _, h⟩ := h
    split at h
    · cases h
    · simp only [bind_eq_ok, raiseIf_eq_ok] at h
      obtain ⟨_, _, _, _, _, _, lots, hlots, _, _, h⟩ := h
      obtain rfl := Except.ok.inj h
      exact parseVolume_ok hlots

omit [Host] in
theorem acceptedValues_follow {event : CaptureEvent} {reply : Operation} {values : TradeUpdate}
    (h : acceptedValues event reply = .ok values) : values.destination = none ∧ values.lots = none := by
  simp only [acceptedValues, bind_eq_ok, raiseIf_eq_ok] at h
  obtain ⟨_, _, _, _, h⟩ := h
  obtain rfl := Except.ok.inj h
  exact ⟨rfl, rfl⟩

/-- The accepted reply names an order that had no name. -/
theorem live_follows {owner : Owner} {p : Prepared} {request : OpenRequest} {api : Api} (hI : Grounded w)
    (ht : w.journal.trade? tradeId = some t) (ho : t.brokerOrderId = "") :
    (live owner p request api tradeId).wp (fun _ _ => True) Steady
      (fun _ v => Grounded v) (fun _ v => Grounded v) w := by
  have hfailed (e : Exc) (v : World) (hv : Grounded v) : (recordFailure tradeId .create e).wp (fun _ _ => True)
      Steady (fun _ v => Grounded v) (fun _ v => Grounded v) v :=
    followsFrame.recordFailure _ _ _ v hv
  unfold live
  rw [Prog.wp_bind]
  refine Prog.wp_consequence (P := fun _ v => Grounded v) (E := fun _ v => Grounded v) ?_ (fun outcome v hv => ?_) fun _ _ h => h
  · rw [Prog.wp_tryCatch, Prog.wp_bind]
    unfold invoke
    simp only [Prog.wp_bind, wp_readsWorld, wp_record, wp_askWrite]
    refine ⟨.of_journal rfl, fun reply _ => ⟨.of_journal rfl, ?_⟩⟩
    rw [Prog.wp_ofExcept]
    refine ⟨fun r _ => ?_, fun e _ => hfailed e _ hI⟩
    rw [Prog.wp_ofExcept]
    refine ⟨fun values hvalues => ?_, fun e _ => hfailed e _ hI⟩
    obtain ⟨hd, hl⟩ := acceptedValues_follow hvalues
    rw [Prog.wp_tryCatch, Prog.wp_bind]
    refine follows_update hI (fun now u hu => ?_) (fun v hv => hfailed _ v hv) fun now hv => ?_
    · obtain rfl := Option.some.inj (ht.symm.trans hu)
      refine ⟨.update (fun d h => ?_) fun _ _ => ho, fun hs hne => ?_⟩
      · rw [hd] at h
        cases h
      · simp only [TradeUpdate.apply, hd, hl, Option.getD_none] at hne ⊢
        exact hs hne
    · refine Prog.wp_consequence (followsFrame.finish _ _ _ _ hv) (fun _ v hv => hv) fun e v hv => hfailed _ v hv
  · refine FrameRule.reads (I := Grounded) (fun r => ?_) v hv
    cases r with
    | none => exact Prog.keeps_throw _
    | some r => exact Prog.keeps_pure _

theorem send_follows {entry : Entry} {controls : Controls} {volume : Json} {api : Option Api} {destination : String}
    {route : Option RouteConfig} : Prog.Keeps Grounded Steady
      (send entry controls tradeId volume api destination route) := by
  intro w hI
  unfold send
  rw [Prog.wp_bind, wp_readsWorld, Prog.wp_bind, Prog.wp_ofExcept]
  refine ⟨fun p hp => ?_, fun _ _ => hI⟩
  obtain ⟨ht, -, hb, hd, -, -⟩ := prepare_ok hp
  have hlots := prepare_lots hp
  split
  · exact followsFrame.paper _ _ w hI
  · cases api with
    | none => exact hI
    | some api =>
      dsimp only
      rw [Prog.wp_bind]
      refine Prog.Quiet.wp (Prog.Quiet.tryCatch (quiet_validateInstrument api p.symbol p.lots p.event.priced) fun e => ?_) (fun grid => ?_)
        fun _ => hI
      · split <;> exact Prog.quiet_throw _
      unfold Store.claim
      rw [Prog.wp_bind, Prog.wp_bind, wp_now]
      intro at_ _
      refine wp_transact (.of_journal rfl) hI (fun _ _ => hI) fun claimed j hj => ?_
      have hmove := StoreOp.Moves.claim hj
      have hj' : Grounded { w with journal := j } := hmove.grounded hI.1 hI.2
      refine ⟨⟨.of_carries (.claim hj), fun _ => hj'⟩, ?_⟩
      rw [Prog.wp_bind, wp_raiseIf]
      refine ⟨fun _ => hj', fun _ => ?_⟩
      obtain ⟨t, hrow, hcarries⟩ := (Journal.Carries.claim hj).kept tradeId p.trade ht
      have hplaced : t.brokerOrderId = "" := by
        simp only [TradeRow.placed, not_or, not_not] at hb
        exact hcarries.brokerOrderId.trans hb.1
      have hplace : t.destination = "" ∨ t.destination = destination := hcarries.destination ▸ hd
      rw [Prog.wp_bind]
      refine follows_update hj' (fun now u hu => ?_) (fun _ hv => hv) fun now hv => ?_
      · obtain rfl := Option.some.inj (hrow.symm.trans hu)
        refine ⟨.update (fun d h => ?_) fun o h => ?_, fun _ _ => ⟨p.lots, rfl, hlots⟩⟩
        · exact Option.some.inj h ▸ hplace
        · cases h
      · refine live_follows hv (Journal.update_trade?_self _ now hrow) ?_
        exact hplaced

end ManualSend

inductive TradeOp where
  | record (e : CaptureEvent)
  | send (entry : Entry) (controls : Controls) (tradeId : String) (volume : Json) (api : Option Api) (destination : String)
    (route : Option RouteConfig)
  | unwind (s : Ending) (api : Option Api) (destination : String) (verified : Bool) (tradeId : Option String)
  | reconcile (api : Api) (destination : String) (positions : List Position)
  | reopen (broker : String)

def TradeOp.run : TradeOp → Act Unit
  | record e => discard (Store.record e)
  | send entry controls tradeId volume api destination route =>
    discard (ManualSend.send entry controls tradeId volume api destination route)
  | unwind s api destination verified tradeId => discard (Unwind.apply s api destination verified tradeId)
  | reconcile api destination positions => Reconcile.reconcile api destination positions
  | reopen broker => Store.openJournal broker

theorem TradeOp.follows (op : TradeOp) : Prog.Keeps Grounded Steady op.run := by
  cases op with
  | record e => exact (followsFrame.recordEvent e).discard
  | send entry controls tradeId volume api destination route => exact ManualSend.send_follows.discard
  | unwind s api destination verified tradeId => exact (followsFrame.apply s api destination verified tradeId).discard
  | reconcile api destination positions => exact followsFrame.reconcile api destination positions
  | reopen broker => exact followsFrame.openJournal broker

def TradeStep (w v : World) : Prop := ∃ op : TradeOp, Leaves op.run w v

theorem TradeStep.steady (h : TradeStep w v) (hI : Grounded w) : Steady w v := by
  obtain ⟨op, hl⟩ := h
  have hsteps : Relation.ReflTransGen Steady w v := by
    cases hl with
    | done env => exact (Prog.Keeps.eval op.follows hI env).1
    | stopped n env => exact Prog.Keeps.stop op.follows hI n env
  refine invariant_of_reflTransGen (I := Steady w) hsteps (fun s t hs hst => ?_) (.of_journal rfl)
  exact ⟨hs.follows.trans hst.follows, fun hw => hst.grounded (hs.grounded hw)⟩

theorem steady_of_run (h : Relation.ReflTransGen TradeStep w v) (hI : Grounded w) : Steady w v := by
  induction h with
  | refl => exact .of_journal rfl
  | tail _ hstep ih =>
    have hnext := hstep.steady (ih.grounded hI)
    exact ⟨ih.follows.trans hnext.follows, fun hw => hnext.grounded (ih.grounded hw)⟩

theorem record_carries {e : CaptureEvent} (hl : Leaves (StoreOp.record e).run w v) (hI : Grounded w) : w.journal.Carries v.journal := by
  let kept (j : Journal) : Prop := (j.Sound ∧ j.legacyMigrated = true) ∧ w.journal.Carries j
  have hkept : kept v.journal := by
    refine hl.keepsJournal ((StoreOp.record e).keeps fun j k hmove hj => ?_) ⟨hI, .refl _⟩
    refine ⟨hmove.grounded hj.1.1 hj.1.2, ?_⟩
    rcases hmove.carries hj.1.1 hj.1.2 with ⟨i, u, now, ho, -⟩ | hc
    · cases ho
    · exact hj.2.trans hc
  exact hkept.2

/-- What is said of the trades of a run's world, seen from an earlier one. -/
structure IdentityLaw (w v : World) : Prop where
  kept : ∀ i t, w.journal.trade? i = some t → ∃ u, v.journal.trade? i = some u ∧ t.Follows u
  sized : ∀ i t, v.journal.trade? i = some t → t.Sized
  recorded : ∀ e x, Leaves (TradeOp.record e).run v x → ∀ i t, v.journal.trade? i = some t → t.destination ≠ "" →
    ∃ u, x.journal.trade? i = some u ∧ u.symbol = t.symbol ∧ u.side = t.side ∧ u.orderType = t.orderType

/-- Whatever is asked of a journal, and wherever it is broken off, every trade keeps its identity. -/
theorem trade_identity_immutable {broker : String} {m : Memory} (hw : Relation.ReflTransGen TradeStep (.fresh broker m) w)
    (h : Relation.ReflTransGen TradeStep w v) : IdentityLaw w v := by
  have hfresh : Grounded (.fresh broker m) := ⟨Journal.sound_created broker, rfl⟩
  have hsized : (World.fresh broker m).journal.Sized := fun i t ht => by
    simp [World.fresh, Journal.created, Journal.trade?, Rows.lookup] at ht
  have hI := (steady_of_run hw hfresh).grounded hfresh
  refine ⟨(steady_of_run h hI).follows.kept, ?_, fun e x hl i t ht hd => ?_⟩
  · exact ((steady_of_run (hw.trans h) hfresh).follows).sized hsized
  · have hv := (steady_of_run h hI).grounded hI
    obtain ⟨u, hu, htu⟩ := (record_carries hl hv).kept i t ht
    exact ⟨u, hu, htu.instrument hd⟩

end Programs

section Sample

attribute [local instance] sampleHost

/-- The recorded order is sent live. -/
def sampleSend : TradeOp := .send .manual ⟨.live, fun _ => true⟩ "t1" (.num (.ofNat 1)) (some sampleApi) "A" none

def sentFirst : World := (sampleSend.run.eval sampleAnswers (recordedFirst sampleEvent)).1

theorem trade_identity_immutable_sent : ∃ t u, (recordedFirst sampleEvent).journal.trade? "t1" = some t
    ∧ sentFirst.journal.trade? "t1" = some u ∧ t.Follows u ∧ u.destination = "A" ∧ ∃ d, u.lots = some d ∧ 0 < d := by
  have hfound : (recordedFirst sampleEvent).journal.trades.any (fun t => t.tradeId = "t1") = true := by decide +kernel
  have hplaced : sentFirst.journal.trades.all (fun u => decide (u.destination = "A")) = true := by decide +kernel
  have hrecorded : Relation.ReflTransGen TradeStep (.fresh "fx" bridgeMemory) (recordedFirst sampleEvent) :=
    .single ⟨.record sampleEvent, .done sampleAnswers⟩
  have hlaw := trade_identity_immutable hrecorded (.single ⟨sampleSend, .done sampleAnswers⟩)
  obtain ⟨t, ht⟩ : ∃ t, (recordedFirst sampleEvent).journal.trade? "t1" = some t :=
    Option.ne_none_iff_exists'.mp fun hnone => by
      obtain ⟨t, ht, hid⟩ := List.any_eq_true.mp hfound
      exact Rows.lookup_eq_none_iff.mp hnone t ht (of_decide_eq_true hid)
  obtain ⟨u, hu, htu⟩ := hlaw.kept "t1" t ht
  have hdestination : u.destination = "A" := of_decide_eq_true (List.all_eq_true.mp hplaced u (Rows.lookup_mem hu).1)
  exact ⟨t, u, ht, hu, htu, hdestination, hlaw.sized "t1" u hu (by rw [hdestination]; decide)⟩

end Sample

end MatchTrader
