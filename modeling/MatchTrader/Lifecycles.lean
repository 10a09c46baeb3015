import MatchTrader.LaneOnce

/-! One lifecycle that reaches the dashboard on two feeds. The bridge and the main lane do not
both open it, and a lane opens nothing that the capture ledger has sent before. The lanes do
not know of one another. -/

namespace MatchTrader

open Durable

/-- The bridge issued an opening write for the lifecycle at the account. -/
def BridgeOpens (w : World) (machine label destination : String) : Prop :=
  ∃ v api call j, .sent (.trade v) api call j ∈ w.trace ∧ v.entry = .bridge ∧ call.opens = true ∧ v.machine = machine
    ∧ v.label = label ∧ v.destination = destination

/-- The lane issued an opening write for the lifecycle at the account. -/
def LaneOpens (w : World) (l : LaneId) (machine label destination : String) : Prop :=
  ∃ x api call j, .sent (.signal x) api call j ∈ w.trace ∧ x.lane = l ∧ call.opens = true
    ∧ OfLifecycle x.scope machine label ∧ x.destination = destination

/-- A request of the lane for the lifecycle at the account, on paper or live. -/
def Requested (w : World) (l : LaneId) (machine label destination : String) : Prop :=
  ∃ r ∈ (w.lanes l).signals, SignalCopy.copied destination r = true ∧ r.machine = machine ∧ r.label = label

/-- The lane that a write was issued on, or none for the ledger's own. -/
def Owner.path : Owner → Option LaneId
  | .trade _ => none
  | .signal x => some x.lane

/-- The write is for the lifecycle and the account. -/
def Owner.For (machine label destination : String) : Owner → Prop
  | .trade v => v.machine = machine ∧ v.label = label ∧ v.destination = destination
  | .signal x => OfLifecycle x.scope machine label ∧ x.destination = destination

/-- What a configuration's lane opens, no other path opens. -/
def NeverDoubled (w : World) : Prop :=
  ∀ o o' api api' call call' j j' directory machine label destination, .sent o api call j ∈ w.trace →
    .sent o' api' call' j' ∈ w.trace → call.opens = true → call'.opens = true → o.path = some (.config directory) →
    o.For machine label destination → o'.For machine label destination → o'.path = o.path

/-- All rules are open but that a lane is driven in Paper or Live mode. -/
def moded : Rules := { routed := true, legacy := false }

/-- The trade behind a bridge or manual write is linked to the lifecycle the write names. -/
structure LinkedTrade (w : World) (v : TradeWrite) : Prop where
  trade : ∃ t, w.journal.trade? v.tradeId = some t
  linked : w.journal.Linked v.tradeId v.machine v.label
  attempt : ∃ a ∈ w.journal.attempts, a.tradeId = v.tradeId

theorem Journal.mem_linkedTrades {j : Journal} {machine label : String} {t : TradeRow} (hl : label ≠ "")
    (ht : j.trade? t.tradeId = some t) (h : j.Linked t.tradeId machine label) : t ∈ j.linkedTrades machine label := by
  obtain ⟨e, he, hi, hk, ha, hm, hlab⟩ := h
  have hne : machine ≠ "" := by
    intro hx
    have hb := e.payload.machine_bounds.1
    simp [hm, hx] at hb
  simp only [linkedTrades, hne, hl, or_self, if_false]
  refine List.mem_filterMap.mpr ⟨t.tradeId, ?_, ht⟩
  rw [List.mem_reverse, List.mem_dedup, List.mem_reverse, List.mem_filterMap]
  exact ⟨e, List.mem_filter.mpr ⟨he, by simp [hk, ha, hm, hlab]⟩, hi⟩

theorem LinkedTrade.sent {w : World} {v : TradeWrite} (h : LinkedTrade w v) (hl : v.label ≠ "") :
    ∃ t ∈ w.journal.linkedTrades v.machine v.label, w.journal.alreadySent t.tradeId = true := by
  obtain ⟨t, ht⟩ := h.trade
  have hid := (Rows.lookup_mem ht).2
  obtain ⟨a, ha, hk⟩ := h.attempt
  refine ⟨t, Journal.mem_linkedTrades hl (hid.symm ▸ ht) (hid.symm ▸ h.linked), ?_⟩
  simp only [Journal.alreadySent, Bool.or_eq_true, List.any_eq_true, decide_eq_true_eq]
  exact Or.inr ⟨a, ha, hk.trans hid.symm⟩

section Steps

variable [Host] {R : Rules} {w v : World} {l : LaneId}

theorem Step.linked (h : Step R w v) {i machine label : String} (hl : w.journal.Linked i machine label) :
    v.journal.Linked i machine label := by
  obtain ⟨e, he, hrest⟩ := hl
  cases h with
  | event row => exact ⟨e, List.mem_append_left _ he, hrest⟩
  | decision seq status reason =>
    refine ⟨_, Rows.mem_updateWhere_of_mem he, ?_⟩
    split <;> exact hrest
  | claim h hp =>
    obtain ⟨_, _, rfl⟩ := Journal.claim_ok h
    exact ⟨e, he, hrest⟩
  | finish h hs =>
    obtain ⟨_, _, rfl⟩ := Journal.finish_ok h
    exact ⟨e, he, hrest⟩
  | _ => exact ⟨e, he, hrest⟩

theorem LinkedTrade.step {x : TradeWrite} (h : LinkedTrade w x) (hs : Step R w v) : LinkedTrade v x where
  trade := by
    obtain ⟨t, ht⟩ := h.trade
    obtain ⟨u, hu, _⟩ := hs.trade ht
    exact ⟨u, hu⟩
  linked := hs.linked h.linked
  attempt := by
    obtain ⟨a, ha, hk⟩ := h.attempt
    obtain ⟨b, hb, hbk⟩ := hs.attempt ha
    exact ⟨b, hb, (congrArg Prod.fst hbk).trans hk⟩

/-- Bridge and manual writes are for trades of the lifecycle that they name. -/
def Attributed (w : World) : Prop :=
  ∀ x api call j, .sent (.trade x) api call j ∈ w.trace → x.entry = .bridge ∨ x.entry = .manual → LinkedTrade w x

theorem Attributed.step (h : Attributed w) (hs : Step R w v) : Attributed v := by
  intro x api call j he hx
  refine LinkedTrade.step (R := R) ?_ hs
  rcases hs.mem_trace he with he | he
  · exact h x api call j he hx
  · cases he with
    | trade hsend =>
      obtain ⟨⟨t, ht, _⟩, ⟨a, ha, hk, _⟩, _⟩ := hsend.flying
      exact ⟨⟨t, ht⟩, hsend.linked hx, a, ha, congrArg Prod.fst hk⟩

omit [Host] in
theorem RowKept.columns {r q : SignalRow} (h : RowKept R w l r q) : q.machine = r.machine ∧ q.label = r.label := by
  cases h with
  | step h => cases h <;> exact ⟨rfl, rfl⟩
  | _ => exact ⟨rfl, rfl⟩

/-- What the bridge wrote for, the main lane has no request for. -/
def Apart (w : World) : Prop :=
  ∀ x api call j, .sent (.trade x) api call j ∈ w.trace → x.entry = .bridge → x.label ≠ "" →
    ¬ Requested w .main x.machine x.label x.destination

theorem Apart.step (hR : R.legacy = false) (hI : Inv w) (ha : Attributed w) (h : Apart w) (hs : Step R w v) :
    Apart v := by
  rintro x api call j he hx hl ⟨q, hq, hcop, hm, hlab⟩
  rcases hs.mem_said he with he | ⟨hsay, rfl⟩
  · rcases hs.row_new (hI.rowIds _) hq with ⟨r, hr, hk⟩ | ⟨_, hb⟩
    · obtain ⟨hkm, hkl⟩ := hk.columns
      rcases hk.copied (hI.captured _ r hr) hcop with hcr | ⟨_, call', ho⟩
      · exact h x api call j he hx hl ⟨r, hr, hcr, hkm ▸ hm, hkl ▸ hlab⟩
      · obtain ⟨t, ht, hsent⟩ := (ha x api call j he (Or.inl hx)).sent hl
        have hn := ho.bridge hR t (by rwa [← hkm, ← hkl, hm, hlab])
        simp [hsent] at hn
    · simp [SignalCopy.copied, hb.request] at hcop
  · cases hsay with
    | trade hsend =>
      have hn := hsend.copied hx hl
      simp only [Automatic.copies, List.filter_eq_nil_iff, decide_eq_true_eq, not_and] at hn
      exact hn q hq hm hlab hcop

/-- No earlier bridge or manual write is for the lifecycle of a lane's opening write. -/
def Unpreceded (w : World) : Prop :=
  ∀ pre post x api call j, w.trace = pre ++ .sent (.signal x) api call j :: post → call.opens = true →
    ∀ y api' call' j', .sent (.trade y) api' call' j' ∈ pre → y.entry = .bridge ∨ y.entry = .manual → y.label ≠ "" →
      ¬ OfLifecycle x.scope y.machine y.label

theorem Unpreceded.step (hR : R.legacy = false) (ha : Attributed w) (h : Unpreceded w) (hs : Step R w v) :
    Unpreceded v := by
  intro pre post x api call j ht ho y api' call' j' hy hentry hl hof
  rcases hs.trace with he | ⟨e, he, htr⟩
  · exact h pre post x api call j (he ▸ ht) ho y api' call' j' hy hentry hl hof
  · rw [ht] at htr
    rcases List.eq_nil_or_concat post with rfl | ⟨rest, last, rfl⟩
    · have htr : pre ++ [Event.sent (.signal x) api call j] = w.trace ++ [e] := htr
      obtain ⟨hpre, hlast⟩ := List.append_inj' htr rfl
      obtain rfl := List.singleton_inj.mp hlast
      cases he with
      | signal hsend =>
        obtain ⟨t, htm, hsent⟩ := (ha y api' call' j' (hpre ▸ hy) hentry).sent hl
        have hn := hsend.unsent hR ho y.machine y.label hof t htm
        simp [hsent] at hn
    · have hh : (pre ++ .sent (.signal x) api call j :: rest) ++ [last] = w.trace ++ [e] := by
        simpa using htr
      obtain ⟨hpre, _⟩ := List.append_inj' hh rfl
      exact h pre rest x api call j hpre.symm ho y api' call' j' hy hentry hl hof

/-- A lane's opening write finds no attempt and no paper record of a trade of its lifecycle. -/
def FoundUnsent (w : World) : Prop :=
  ∀ x api call j, .sent (.signal x) api call j ∈ w.trace → call.opens = true → ∀ machine label,
    OfLifecycle x.scope machine label → ∀ t ∈ j.linkedTrades machine label, j.alreadySent t.tradeId = false

theorem FoundUnsent.step (hR : R.legacy = false) (h : FoundUnsent w) (hs : Step R w v) : FoundUnsent v := by
  intro x api call j he ho machine label hof
  rcases hs.mem_trace he with he | he
  · exact h x api call j he ho machine label hof
  · cases he with
    | signal hsend => exact hsend.unsent hR ho machine label hof

variable {s : Process}

theorem Reachable.foundUnsent (h : Reachable moded s) : FoundUnsent s.world :=
  h.induct (I := FoundUnsent) ⟨rfl, rfl⟩ (fun _ _ => by simp [FoundUnsent, World.fresh])
    fun _ _ _ hs hw => hw.step rfl hs

/-- Over any run, the bridge and the main lane do not both open a lifecycle at an account. What one of them has
requested, on paper or live, the other one does not write for. -/
theorem bridge_or_main_lane (h : Reachable moded s) (machine label destination : String) (hl : label ≠ "") :
    ¬ (BridgeOpens s.world machine label destination ∧ LaneOpens s.world .main machine label destination)
      ∧ ¬ (BridgeOpens s.world machine label destination ∧ Requested s.world .main machine label destination)
      ∧ ∀ x api call j, .sent (.signal x) api call j ∈ s.world.trace → x.lane = .main → call.opens = true →
          OfLifecycle x.scope machine label → ∀ t ∈ j.linkedTrades machine label, j.alreadySent t.tradeId = false := by
  have hap : Apart s.world := (h.induct (I := fun w => Attributed w ∧ Apart w) ⟨rfl, rfl⟩
    (fun _ _ => by simp [Attributed, Apart, World.fresh])
    fun _ _ hI hs ⟨ha, hap⟩ => ⟨ha.step hs, hap.step rfl hI ha hs⟩).2
  have hreq : ¬ (BridgeOpens s.world machine label destination ∧ Requested s.world .main machine label destination) := by
    rintro ⟨⟨v, api, call, j, he, hb, _, rfl, rfl, rfl⟩, hr⟩
    exact hap v api call j he hb hl hr
  refine ⟨?_, hreq, fun x api call j he _ ho hof => h.foundUnsent x api call j he ho machine label hof⟩
  rintro ⟨hb, x, api, call, j, he, hx, ho, ⟨_, _, _, _, hof⟩, rfl⟩
  obtain ⟨r, hr, hsr⟩ := (h.laneInv ⟨rfl, rfl⟩ .main).sent x api call j he hx
  obtain ⟨_, _, _, hf⟩ := ((h.sound ⟨rfl, rfl⟩).inv.formed .main r hr).scope
  rw [hsr.scope, hof] at hf
  simp only [List.cons.injEq, Option.some.injEq] at hf
  exact hreq ⟨hb, r, hr, hsr.copied ho, hf.1.symm, hf.2.2.2.2.2.1.symm⟩

/-- Only a labelled intent is given a request. -/
def Labelled (w : World) : Prop :=
  ∀ l, ∀ r ∈ (w.lanes l).signals, r.kind = "intent" → r.request ≠ none → r.label ≠ ""

theorem Labelled.step (hI : Inv w) (h : Labelled w) (hs : Step R w v) : Labelled v := by
  intro l q hq hk hreq
  rcases hs.row_new (hI.rowIds l) hq with ⟨r, hr, hkept⟩ | ⟨_, hb⟩
  · have hkr : r.kind = "intent" := hkept.kind ▸ hk
    rw [hkept.columns.2]
    rcases hkept.requested (hI.captured l r hr) hkr with ⟨he, _⟩ | ⟨_, _, _, ho, _⟩
    · exact h l r hr hkr (he ▸ hreq)
    · exact ho.label
  · exact absurd hb.request hreq

/-- An opening write that is the lane's only one for its scope and account, and found nothing of its lifecycle sent
through the ledger. -/
structure Undoubled (w : World) (x : SignalWrite) : Prop where
  once : w.trace.countP (opensScope x.lane x.scope x.destination) = 1
  found : ∀ api call j, .sent (.signal x) api call j ∈ w.trace → call.opens = true → ∀ machine label,
    OfLifecycle x.scope machine label → ∀ t ∈ j.linkedTrades machine label, j.alreadySent t.tradeId = false
  unpreceded : ∀ pre post api call j, w.trace = pre ++ .sent (.signal x) api call j :: post → call.opens = true →
    ∀ y api' call' j', .sent (.trade y) api' call' j' ∈ pre → y.entry = .bridge ∨ y.entry = .manual →
      ¬ OfLifecycle x.scope y.machine y.label

/-- Over any run, a lane's opening write is its only one for the scope at the account, and comes before any attempt,
paper record or write of the ledger for the lifecycle. -/
theorem lane_opens_undoubled (h : Reachable moded s) {x : SignalWrite} {api : Api} {call : Call} {j : Journal}
    (he : .sent (.signal x) api call j ∈ s.world.trace) (ho : call.opens = true) : Undoubled s.world x := by
  have hI := (h.sound ⟨rfl, rfl⟩).inv
  have hun : Unpreceded s.world := (h.induct (I := fun w => Attributed w ∧ Unpreceded w) ⟨rfl, rfl⟩
    (fun _ _ => by simp [Attributed, Unpreceded, World.fresh])
    fun _ _ _ hs ⟨ha, hu⟩ => ⟨ha.step hs, hu.step rfl ha hs⟩).2
  have hlab : Labelled s.world := h.induct (I := Labelled) ⟨rfl, rfl⟩ (fun _ _ => by simp [Labelled, World.fresh])
    fun _ _ hI hs hw => hw.step hI hs
  obtain ⟨r, hr, hsr⟩ := (h.laneInv ⟨rfl, rfl⟩ x.lane).sent x api call j he rfl
  have hk : r.kind = "intent" := by
    have hc := hsr.copied ho
    simp only [SignalCopy.copied, Bool.and_eq_true, decide_eq_true_eq] at hc
    exact hc.1.1
  refine ⟨?_, fun api call j he ho machine label hof => h.foundUnsent x api call j he ho machine label hof, ?_⟩
  · have hle := (h.laneOnce ⟨rfl, rfl⟩ x.lane).opened x.scope x.destination
    have hpos : 0 < s.world.trace.countP (opensScope x.lane x.scope x.destination) :=
      List.countP_pos_iff.mpr ⟨_, he, opensScope_eq_true.mpr ⟨x, api, call, j, rfl, rfl, rfl, rfl, ho⟩⟩
    omega
  · intro pre post api call j ht ho y api' call' j' hy hentry hof
    refine hun pre post x api call j ht ho y api' call' j' hy hentry ?_ hof
    obtain ⟨_, _, _, hf⟩ := (hI.formed x.lane r hr).scope
    obtain ⟨_, _, _, _, hof⟩ := hof
    rw [hsr.scope, hof] at hf
    simp only [List.cons.injEq, Option.some.injEq] at hf
    rw [hf.2.2.2.2.2.1]
    exact hlab x.lane r hr hk (by simp [hsr.request])

end Steps

attribute [local instance] sampleHost

/-- The bridge delivers an order first, then its signal arrives. -/
def bridgeThenSignal : List Op :=
  [.native sampleEvent none, .signals [sampleSignal "intent" "s1" 20]]

theorem bridge_or_main_lane_sample :
    ¬ (BridgeOpens (served bridgeThenSignal (started bridgeMemory)) "PC" "P01RR_1" "A"
        ∧ LaneOpens (served bridgeThenSignal (started bridgeMemory)) .main "PC" "P01RR_1" "A")
      ∧ ¬ (BridgeOpens (served bridgeThenSignal (started bridgeMemory)) "PC" "P01RR_1" "A"
        ∧ Requested (served bridgeThenSignal (started bridgeMemory)) .main "PC" "P01RR_1" "A")
      ∧ ∀ x api call j, .sent (.signal x) api call j ∈ (served bridgeThenSignal (started bridgeMemory)).trace →
          x.lane = .main → call.opens = true → OfLifecycle x.scope "PC" "P01RR_1" →
          ∀ t ∈ j.linkedTrades "PC" "P01RR_1", j.alreadySent t.tradeId = false :=
  bridge_or_main_lane (s := ⟨true, served bridgeThenSignal (started bridgeMemory)⟩)
    (reachable_served (reachable_started moded bridgeMemory) (by simp [bridgeThenSignal, Op.Allowed]))
    "PC" "P01RR_1" "A" (by decide)

/-- Two configurations copy the same source to one account. -/
def twoConfigs : Memory :=
  { sampleMemory with
    signalConfig := none
    configs := [⟨"c1", { machineId := "PC", source := "panel", destinationAccount := "A" }, .live, true⟩,
      ⟨"c2", { machineId := "PC", source := "panel", destinationAccount := "A" }, .live, true⟩] }

theorem exists_opening {w : World} {l : LaneId} {scope : List (Option String)} {destination : String}
    (h : w.trace.any (opensScope l scope destination) = true) : ∃ x api call j, .sent (.signal x) api call j ∈ w.trace
      ∧ x.lane = l ∧ x.scope = scope ∧ x.destination = destination ∧ call.opens = true := by
  obtain ⟨e, he, ho⟩ := List.any_eq_true.mp h
  obtain ⟨x, api, call, j, rfl, hrest⟩ := opensScope_eq_true.mp ho
  exact ⟨x, api, call, j, he, hrest⟩

/-- Each matching configuration copies a signal, also to one and the same account. -/
theorem config_lanes_double : ¬ ∀ s : Process, Reachable moded s → NeverDoubled s.world := by
  intro h
  have hr : Reachable moded ⟨true, served [.signals [sampleSignal "intent" "s1" 20]] (started twoConfigs)⟩ :=
    reachable_served (reachable_started moded twoConfigs) (by simp [Op.Allowed])
  have h₁ : (served [.signals [sampleSignal "intent" "s1" 20]] (started twoConfigs)).trace.any
      (opensScope (Controller.configLane "c1") sampleScope "A") = true := by decide +kernel
  have h₂ : (served [.signals [sampleSignal "intent" "s1" 20]] (started twoConfigs)).trace.any
      (opensScope (Controller.configLane "c2") sampleScope "A") = true := by decide +kernel
  obtain ⟨x, api, call, j, hx, hxl, hxs, hxd, hxo⟩ := exists_opening h₁
  obtain ⟨y, api', call', j', hy, hyl, hys, hyd, hyo⟩ := exists_opening h₂
  have hof : OfLifecycle sampleScope "PC" "P01RR_1" := ⟨_, _, _, _, rfl⟩
  have he := h _ hr (.signal x) (.signal y) api api' call call' j j' (Controller.directory "c1") "PC" "P01RR_1" "A" hx hy
    hxo hyo (by simp [Owner.path, hxl, Controller.configLane]) ⟨hxs ▸ hof, hxd⟩ ⟨hys ▸ hof, hyd⟩
  simp only [Owner.path, hxl, hyl, Option.some.injEq] at he
  exact absurd he (by decide)

theorem lane_opens_undoubled_config :
    ∃ x, Undoubled (served [.signals [sampleSignal "intent" "s1" 20]] (started twoConfigs)) x := by
  have h₁ : (served [.signals [sampleSignal "intent" "s1" 20]] (started twoConfigs)).trace.any
      (opensScope (Controller.configLane "c1") sampleScope "A") = true := by decide +kernel
  obtain ⟨x, api, call, j, hx, _, _, _, ho⟩ := exists_opening h₁
  exact ⟨x, lane_opens_undoubled (s := ⟨true, served [.signals [sampleSignal "intent" "s1" 20]] (started twoConfigs)⟩)
    (reachable_served (reachable_started moded twoConfigs) (by simp [Op.Allowed])) hx ho⟩

end MatchTrader
