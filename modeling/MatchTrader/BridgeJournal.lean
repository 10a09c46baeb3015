import Mathlib.Data.List.Count
import Mathlib.Logic.Relation
import MatchTrader.Bridge

/-! Whatever arrives at the bridge, and in whatever order: the journal has each event once, with its
first result, and what it lets pass of an order has growing revisions after one creation. -/

namespace MatchTrader

theorem Json.get?_update {v : Json} {items : List (String × Json)} {name : String} (h : ∀ i ∈ items, i.1 ≠ name) :
    (v.update items).get? name = v.get? name := by
  cases v with
  | obj fields =>
    have hnew : (items.filter fun i => !fields.any fun f => f.1 = i.1).find? (fun i => decide (i.1 = name)) = none := by
      rw [List.find?_eq_none]
      intro i hi
      simpa using h i (List.mem_of_mem_filter hi)
    have hold : items.find? (fun i => decide (i.1 = name)) = none := by
      rw [List.find?_eq_none]
      intro i hi
      simpa using h i hi
    simp only [update, get?, List.find?_append, hnew, Option.or_none, List.find?_map, Option.map_map]
    cases hf : fields.find? (fun f => decide (f.1 = name)) with
    | none =>
      have hnone : fields.find? ((fun f => decide (f.1 = name)) ∘ fun f : String × Json =>
          (f.1, ((items.find? fun i => i.1 = f.1).map Prod.snd).getD f.2)) = none := hf
      rw [hnone]
      rfl
    | some f =>
      have hsome : fields.find? ((fun f => decide (f.1 = name)) ∘ fun f : String × Json =>
          (f.1, ((items.find? fun i => i.1 = f.1).map Prod.snd).getD f.2)) = some f := hf
      have hname : f.1 = name := by simpa using List.find?_some hf
      rw [hsome]
      simp only [Option.map_some, Function.comp, hname, hold, Option.map_none, Option.getD_none]
  | _ => rfl

namespace Bridge

variable {e : OrderEvent} {result : Json} {r : EventRow}

/-- What a result says under a name. -/
def told (result : Json) (name : String) : Option String := (result.get? name).bind Json.text?

theorem told_update {items : List (String × Json)} {name : String} (h : ∀ i ∈ items, i.1 ≠ name) :
    told (result.update items) name = told result name := by rw [told, Json.get?_update h, told]

/-- The event came too late in its order. -/
def EventRow.Stale (r : EventRow) : Prop := told r.result "reason" = some staleReason

def EventRow.Previewed (r : EventRow) : Prop := told r.result "status" = some "preview"

instance (r : EventRow) : Decidable r.Stale := inferInstanceAs (Decidable (_ = _))

instance (r : EventRow) : Decidable r.Previewed := inferInstanceAs (Decidable (_ = _))

section Previews

variable {accountId : String} {at_ : Instant} {maxAge : ℚ}

theorem heldFor_ne_stale {reason : String} (h : heldFor e accountId at_ maxAge = some reason) : reason ≠ staleReason := by
  unfold heldFor at h
  extract_lets age at h
  repeat' split at h
  all_goals first | (obtain rfl := Option.some.inj h; decide) | cases h

theorem action_of_heldFor (h : heldFor e accountId at_ maxAge = none) : e.action = .create := by
  unfold heldFor at h
  extract_lets age at h
  by_contra hne
  rw [if_pos hne] at h
  repeat' split at h
  all_goals cases h

variable [BridgeHost]

/-- A decision never holds an event for its place in its order, and previews creations only. -/
theorem preview_ok (h : preview e accountId at_ maxAge = .ok result) :
    told result "reason" ≠ some staleReason ∧ (told result "status" = some "preview" → e.action = .create) := by
  unfold preview at h
  split at h
  · next reason hr =>
    obtain rfl := Except.ok.inj h
    have hreason : told (held e reason) "reason" = some reason := rfl
    have hstatus : told (held e reason) "status" = some "held" := rfl
    rw [hreason, hstatus]
    exact ⟨fun hh => heldFor_ne_stale hr (Option.some.inj hh), fun hh => absurd hh (by decide)⟩
  · next hn =>
    obtain ⟨⟨operation, body⟩, _, h⟩ := bind_eq_ok.mp h
    obtain rfl := Except.ok.inj h
    have hreason : told (.obj (base e ++ [("status", .str "preview"), ("operation", .str operation), ("request", body),
        ("remaining_checks", .arr remainingChecks)])) "reason" = none := rfl
    rw [hreason]
    exact ⟨nofun, fun _ => action_of_heldFor hn⟩

end Previews

namespace BridgeJournal

variable [BridgeHost] {j k : BridgeJournal} {receivedAt : String} {decision : Except Exc Json} {fails : Bool}
  {reply : Except Exc Json}

omit [BridgeHost] in
theorem told_stamped {name : String} (h : name ∉ ["event_id", "bridge_received_at", "broker_request_started_at",
    "broker_response_received_at", "broker_order_id"]) : told (stamped e receivedAt result) name = told result name := by
  apply told_update
  intro i hi hn
  apply h
  rw [← hn]
  exact List.mem_map_of_mem (f := Prod.fst) hi

/-- What a call can do: it raises, it finds the event, or it stores it. -/
theorem record_cases (h : j.record e receivedAt decision fails = (reply, k)) :
    (∃ exc, reply = .error exc ∧ k = j)
      ∨ (∃ old, j.event? e.eventKey = some old ∧ k = j
        ∧ reply = .ok (if old.digest ≠ BridgeHost.sha256 (BridgeHost.modelDumpJson e) then conflictResult
          else old.result.update [("duplicate", .bool true)]))
      ∨ (j.event? e.eventKey = none ∧ ∃ result, j.decided e decision = .ok result
        ∧ reply = .ok (stamped e receivedAt result)
        ∧ k = { j with events := j.events ++ [newRow e receivedAt (stamped e receivedAt result)] }) := by
  unfold record at h
  split at h
  · next result j' hh =>
    obtain ⟨rfl, rfl⟩ := Prod.mk.inj h
    obtain ⟨_, _, hh⟩ := bind_eq_ok.mp hh
    unfold statements at hh
    cases ho : j.event? e.eventKey with
    | some old =>
      simp only [ho] at hh
      refine Or.inr (Or.inl ⟨old, rfl, ?_⟩)
      split at hh
      · next hd =>
        obtain ⟨rfl, rfl⟩ := Prod.mk.inj (Except.ok.inj hh)
        rw [if_pos hd]
        exact ⟨rfl, rfl⟩
      · next hd =>
        obtain ⟨rfl, rfl⟩ := Prod.mk.inj (Except.ok.inj hh)
        rw [if_neg hd]
        exact ⟨rfl, rfl⟩
    | none =>
      simp only [ho, bind_eq_ok] at hh
      obtain ⟨result, hr, _, _, hh⟩ := hh
      obtain ⟨rfl, rfl⟩ := Prod.mk.inj (Except.ok.inj hh)
      exact Or.inr (Or.inr ⟨rfl, result, hr, rfl, rfl⟩)
  · next exc hh =>
    obtain ⟨rfl, rfl⟩ := Prod.mk.inj h
    exact Or.inl ⟨exc, rfl, rfl⟩

/-- What every history of the journal keeps. -/
structure Sound (j : BridgeJournal) : Prop where
  keys : (j.events.map EventRow.eventKey).Nodup
  ordered : j.events.Pairwise fun q r => q.orderKey = r.orderKey → ¬ r.Stale →
    q.revision < r.revision ∧ r.payload.action ≠ .create
  copied : ∀ r ∈ j.events, r.digest = BridgeHost.sha256 (BridgeHost.modelDumpJson r.payload) ∧ r.revision = r.payload.revision
  previewed : ∀ r ∈ j.events, r.Previewed → ¬ r.Stale ∧ r.payload.action = .create

omit [BridgeHost] in
/-- An event that is not stale comes after all that is stored of its order. -/
theorem not_stale (h : j.stale e = false) {q : EventRow} (hq : q ∈ j.events) (hk : q.orderKey = e.orderKey) :
    q.revision < e.revision ∧ e.action ≠ .create := by
  have hmem : q.revision ∈ (j.eventsOf e.orderKey).map EventRow.revision :=
    List.mem_map_of_mem (List.mem_filter.mpr ⟨hq, decide_eq_true hk⟩)
  cases hl : ((j.eventsOf e.orderKey).map EventRow.revision).max? with
  | none =>
    rw [List.max?_eq_none_iff.mp hl] at hmem
    cases hmem
  | some last =>
    simp only [stale, BridgeJournal.last, hl, Option.any_some, Bool.or_eq_false_iff, decide_eq_false_iff_not] at h
    have hle := (List.max?_eq_some_iff.mp hl).2 _ hmem
    exact ⟨by omega, h.2⟩

/-- A new event: it is stale by its place, or it comes last of its order and is previewed only as a creation. -/
theorem Sound.append (h : j.Sound) (hn : j.event? e.eventKey = none)
    (hr : told result "reason" = some staleReason ∨ j.stale e = false)
    (hp : told result "status" = some "preview" → told result "reason" ≠ some staleReason ∧ e.action = .create) :
    Sound { j with events := j.events ++ [newRow e receivedAt (stamped e receivedAt result)] } := by
  have hreason : told (stamped e receivedAt result) "reason" = told result "reason" := told_stamped (by decide)
  have hstatus : told (stamped e receivedAt result) "status" = told result "status" := told_stamped (by decide)
  refine ⟨?_, ?_, ?_, ?_⟩
  · exact Rows.nodup_append h.keys (Rows.lookup_eq_none_iff.mp hn)
  · rw [List.pairwise_append]
    refine ⟨h.ordered, List.pairwise_singleton _ _, fun q hq r hr' => ?_⟩
    obtain rfl := List.mem_singleton.mp hr'
    intro hk hlive
    rcases hr with hr | hr
    · exact absurd (hreason.trans hr) hlive
    · exact not_stale hr hq hk
  · intro r hr'
    rcases List.mem_append.mp hr' with hr' | hr'
    · exact h.copied r hr'
    · obtain rfl := List.mem_singleton.mp hr'
      exact ⟨rfl, rfl⟩
  · intro r hr' hpre
    rcases List.mem_append.mp hr' with hr' | hr'
    · exact h.previewed r hr' hpre
    · obtain rfl := List.mem_singleton.mp hr'
      obtain ⟨hlive, hact⟩ := hp (hstatus.symm.trans hpre)
      exact ⟨fun hs => hlive (hreason.symm.trans hs), hact⟩

/-- The decision that the bridge passes to its journal. -/
def Deciding (e : OrderEvent) (decision : Except Exc Json) : Prop :=
  ∀ result, decision = .ok result → told result "reason" ≠ some staleReason ∧ (told result "status" = some "preview" → e.action = .create)

theorem Sound.record (h : j.Sound) (hd : Deciding e decision) (hrec : j.record e receivedAt decision fails = (reply, k)) :
    k.Sound := by
  rcases record_cases hrec with ⟨_, _, rfl⟩ | ⟨_, _, rfl, _⟩ | ⟨hn, result, hres, _, rfl⟩
  · exact h
  · exact h
  · unfold decided at hres
    split at hres
    · obtain rfl := Except.ok.inj hres
      exact h.append hn (Or.inl rfl) fun hp => absurd hp (by decide)
    · next hs =>
      obtain ⟨hreason, hcreate⟩ := hd result hres
      exact h.append hn (Or.inr (Bool.eq_false_iff.mpr hs)) fun hp => ⟨hreason, hcreate hp⟩

inductive Step : BridgeJournal → BridgeJournal → Prop
  | receive {j : BridgeJournal} (b : ShadowBridge) (e : OrderEvent) (receivedAt : Instant) (fails : Bool) :
    Step j (b.receive j e receivedAt fails).2
  | observe {j : BridgeJournal} (receivedAt sourcePath : String) (byteOffset : Int) (payload : Json) (fails : Bool) :
    Step j (j.observe receivedAt sourcePath byteOffset payload fails)

def Reachable (j : BridgeJournal) : Prop := Relation.ReflTransGen Step {} j

theorem Sound.step (h : j.Sound) (hs : Step j k) : k.Sound := by
  cases hs with
  | receive b e receivedAt fails => exact h.record (fun _ => preview_ok) rfl
  | observe receivedAt sourcePath byteOffset payload fails =>
    unfold BridgeJournal.observe
    split
    · exact h
    · exact ⟨h.keys, h.ordered, h.copied, h.previewed⟩

theorem Reachable.sound (h : Reachable j) : j.Sound := by
  induction h with
  | refl => exact ⟨List.nodup_nil, List.Pairwise.nil, fun r hr => absurd hr List.not_mem_nil, fun r hr => absurd hr List.not_mem_nil⟩
  | tail _ hs ih => exact ih.step hs

omit [BridgeHost] in
/-- What only a first element may have, at most one has. -/
theorem countP_le_one {α : Type} {p : α → Bool} {l : List α} (h : l.Pairwise fun _ r => ¬ p r) : l.countP p ≤ 1 := by
  cases l with
  | nil => exact Nat.zero_le 1
  | cons q rest =>
    have hrest : rest.countP p = 0 := List.countP_eq_zero.mpr (List.pairwise_cons.mp h).1
    rw [List.countP_cons, hrest]
    split <;> omega

/-- What the journal lets pass of an order. -/
def live (j : BridgeJournal) (key : String) : List EventRow := (j.eventsOf key).filter fun r => ¬ r.Stale

theorem Sound.eventsOf (h : j.Sound) (key : String) : (j.eventsOf key).Pairwise fun q r => ¬ r.Stale →
    q.revision < r.revision ∧ r.payload.action ≠ .create := by
  have hp := h.ordered.sublist (List.filter_sublist (p := fun r => decide (r.orderKey = key)))
  apply hp.imp_of_mem
  intro q r hq hr hlaw
  have hkq := of_decide_eq_true (List.mem_filter.mp hq).2
  have hkr := of_decide_eq_true (List.mem_filter.mp hr).2
  exact hlaw (hkq.trans hkr.symm)

/-- The first event of an order is the only creation that passes. -/
theorem Sound.first (h : j.Sound) {key : String} (hr : r ∈ j.live key) (hc : r.payload.action = .create) :
    (j.eventsOf key).head? = some r := by
  have hp := h.eventsOf key
  obtain ⟨hmem, hlive⟩ := List.mem_filter.mp hr
  cases hl : j.eventsOf key with
  | nil =>
    rw [hl] at hmem
    cases hmem
  | cons q rest =>
    rw [hl] at hmem hp
    rcases List.mem_cons.mp hmem with rfl | hmem
    · rfl
    · exact absurd hc ((List.pairwise_cons.mp hp).1 r hmem (of_decide_eq_true hlive)).2

theorem Sound.live (h : j.Sound) (key : String) : (j.live key).Pairwise (fun q r => q.revision < r.revision)
    ∧ (j.live key).countP (fun r => r.payload.action = .create) ≤ 1 := by
  have hp := (h.eventsOf key).sublist (List.filter_sublist (p := fun r => decide ¬ r.Stale))
  have hlive : (j.live key).Pairwise fun q r => q.revision < r.revision ∧ r.payload.action ≠ .create := by
    apply hp.imp_of_mem
    intro q r _ hr hlaw
    exact hlaw (of_decide_eq_true (List.mem_filter.mp hr).2)
  refine ⟨hlive.imp And.left, countP_le_one (hlive.imp fun hlaw hc => hlaw.2 (of_decide_eq_true hc))⟩

theorem Sound.previews (h : j.Sound) (key : String) :
    (∀ r ∈ j.eventsOf key, r.Previewed → r ∈ j.live key ∧ r.payload.action = .create)
      ∧ (j.eventsOf key).countP (fun r => r.Previewed) ≤ 1 := by
  have hpre : ∀ r ∈ j.eventsOf key, r.Previewed → r ∈ j.live key ∧ r.payload.action = .create := by
    intro r hr hp
    obtain ⟨hs, hc⟩ := h.previewed r (List.mem_of_mem_filter hr) hp
    exact ⟨List.mem_filter.mpr ⟨hr, decide_eq_true hs⟩, hc⟩
  refine ⟨hpre, countP_le_one ?_⟩
  apply (h.eventsOf key).imp_of_mem
  intro q r _ hr hlaw hp
  obtain ⟨hlive, hc⟩ := hpre r hr (of_decide_eq_true hp)
  exact (hlaw (of_decide_eq_true (List.mem_filter.mp hlive).2)).2 hc

/-- No two payloads have one digest. -/
def CollisionFree : Prop := Set.InjOn BridgeHost.sha256 (Set.range BridgeHost.modelDumpJson)

/-- An event key is taken once, with its first result: the same payload is answered from the row, any
other one is held, and neither changes anything. Of an order, the events that are not refused for
their place have growing revisions, its first event is their only creation, and nothing else is
ever previewed. -/
theorem events_taken_once_in_order (hsha : CollisionFree) (h : Reachable j) :
    (j.events.map EventRow.eventKey).Nodup
      ∧ (∀ (b : ShadowBridge) (e : OrderEvent) receivedAt fails reply k, b.receive j e receivedAt fails = (reply, k) →
        ((∃ exc, reply = .error exc ∧ k = j) ∨ ∃ result, reply = .ok result
          ∧ (∀ old ∈ j.events, old.eventKey = e.eventKey → k = j
            ∧ (BridgeHost.modelDumpJson old.payload = BridgeHost.modelDumpJson e → result = old.result.update [("duplicate", .bool true)])
            ∧ (BridgeHost.modelDumpJson old.payload ≠ BridgeHost.modelDumpJson e → result = conflictResult))
          ∧ ((∀ old ∈ j.events, old.eventKey ≠ e.eventKey) → ∃ row, k.events = j.events ++ [row]
            ∧ row.eventKey = e.eventKey ∧ row.orderKey = e.orderKey ∧ row.payload = e ∧ row.result = result)))
      ∧ ∀ key, (j.live key).Pairwise (fun q r => q.revision < r.revision)
        ∧ (j.live key).countP (fun r => r.payload.action = .create) ≤ 1
        ∧ (∀ r ∈ j.live key, r.payload.action = .create → (j.eventsOf key).head? = some r)
        ∧ (∀ r ∈ j.eventsOf key, r.Previewed → r ∈ j.live key ∧ r.payload.action = .create)
        ∧ (j.eventsOf key).countP (fun r => r.Previewed) ≤ 1 := by
  have hsound := h.sound
  refine ⟨hsound.keys, ?_, fun key => ?_⟩
  · intro b e receivedAt fails reply k hrec
    rcases record_cases hrec with ⟨exc, he, hk⟩ | ⟨old, ho, hk, rfl⟩ | ⟨hn, result, _, rfl, rfl⟩
    · exact Or.inl ⟨exc, he, hk⟩
    · obtain ⟨hold, hkey⟩ := Rows.lookup_mem ho
      refine Or.inr ⟨_, rfl, ?_, fun hnone => absurd hkey (hnone old hold)⟩
      intro row hrow hkrow
      obtain rfl : row = old := List.inj_on_of_nodup_map hsound.keys hrow hold (hkrow.trans hkey.symm)
      have hdigest := (hsound.copied row hrow).1
      refine ⟨hk, fun hsame => if_neg ?_, fun hother => if_pos ?_⟩
      · rw [hdigest, hsame]
        exact fun hne => hne rfl
      · rw [hdigest]
        exact fun heq => hother (hsha ⟨_, rfl⟩ ⟨_, rfl⟩ heq)
    · refine Or.inr ⟨_, rfl, fun old hold hkey => ?_, fun _ => ⟨_, rfl, rfl, rfl, rfl, rfl⟩⟩
      exact absurd hkey (Rows.lookup_eq_none_iff.mp hn old hold)
  · obtain ⟨hrev, hcreate⟩ := hsound.live key
    obtain ⟨hpre, hone⟩ := hsound.previews key
    exact ⟨hrev, hcreate, fun r => hsound.first, hpre, hone⟩

end BridgeJournal

section Sample

/-- A payload is its event's name, and a digest is the text itself. -/
@[reducible] def sampleBridgeHost : BridgeHost where
  sha256 s := s
  modelDumpJson e := e.eventId.text
  float d := some d

attribute [local instance] sampleBridgeHost

def sampleName (text : String) (h : 1 ≤ text.length ∧ text.length ≤ 160 ∧ text.toList.all fun c => c.isAlphanum || "_.:-".toList.contains c) :
    Identifier := ⟨text, h.1, h.2.1, h.2.2⟩

def sampleEvent : OrderEvent where
  sourceMachine := sampleName "X17" (by decide)
  strategyInstance := sampleName "r1" (by decide)
  eventId := sampleName "e1" (by decide)
  sourceOrderId := sampleName "o1" (by decide)
  revision := 1
  emittedAt := ⟨noon 0, 0, ZonedTime.utc_lt⟩
  accountId := sampleName "A" (by decide)
  action := .create
  instrument := "EURUSD"
  side := .buy
  orderType := .market
  volumeLots := some ⟨⟨false, 1, 0⟩, Decimal.one_pos⟩
  slPrice := some ⟨0, Decimal.zero_nonneg⟩
  tpPrice := some ⟨0, Decimal.zero_nonneg⟩
  revision_pos := Nat.succ_pos 0
  instrument_length := by decide
  instrument_chars := by decide
  complete := by decide
  priced := by decide
  triggered := by decide
  unpriced := by decide

theorem sampleAccount_ne : "A" ≠ "" := by decide

def sampleBridge : ShadowBridge := ⟨"A", 30, sampleAccount_ne, by norm_num⟩

/-- One creation, taken and then repeated. -/
theorem events_taken_once_in_order_sample :
    let j := (sampleBridge.receive {} sampleEvent (noon 1) false).2
    let k := (sampleBridge.receive j sampleEvent (noon 2) false).2
    (k.events.map EventRow.eventKey).Nodup ∧ ∀ key, (k.eventsOf key).countP (fun r => r.Previewed) ≤ 1 := by
  intro j k
  have hsha : BridgeJournal.CollisionFree := fun _ _ _ _ h => h
  have hj : BridgeJournal.Reachable j :=
    Relation.ReflTransGen.single (BridgeJournal.Step.receive sampleBridge sampleEvent (noon 1) false)
  have hk : BridgeJournal.Reachable k := hj.tail (BridgeJournal.Step.receive sampleBridge sampleEvent (noon 2) false)
  have hall := BridgeJournal.events_taken_once_in_order hsha hk
  exact ⟨hall.1, fun key => (hall.2.2 key).2.2.2.2⟩

end Sample

end Bridge

end MatchTrader
