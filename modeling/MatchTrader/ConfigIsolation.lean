import MatchTrader.Blindness
import MatchTrader.Frames

/-! What one copy configuration's lane has of its own: no other lane sees any of it, and it touches
nothing else as long as no cancel of its finds a trade in the ledger. -/

namespace MatchTrader

open Durable

/-- The lane on whose account an event was. -/
def Event.lane? : Event → Option LaneId
  | .decided lane _ _ => some lane
  | .sent (.signal s) _ _ _ => some s.lane
  | .answered (.signal s) _ => some s.lane
  | _ => none

variable [Host]

/-- The memory without the entries of one configuration. -/
def Memory.besides (id : String) (m : Memory) : Memory := { m with
  configs := m.configs.filter fun c => c.id ≠ id
  copyConfigSince := m.copyConfigSince.filter fun s => s.1 ≠ id
  copyLanes := m.copyLanes.filter fun l => l ≠ id }

/-- The world without what is one configuration's own: its record, its entries in the memory and
what was decided and written for its signals. -/
def besides (id : String) (w : World) : World := { w with
  lanes := fun k => if k = Controller.configLane id then {} else w.lanes k
  mem := w.mem.besides id
  trace := w.trace.filter fun e => e.lane? ≠ some (Controller.configLane id)
  faulted := true }

section Blind

variable {α β : Type} {id : String} {l : LaneId}

/-- The program sees nothing of a configuration's own, and only keeps up the journal. -/
abbrev Unseeing (id : String) (p : Act α) : Prop := Prog.Blind (besides id) (fun s t => s.journal.Upkeep t.journal) p

theorem besides_lane (w : World) (hl : l ≠ Controller.configLane id) : (besides id w).lanes l = w.lanes l := if_neg hl

namespace Unseeing

theorem now : Unseeing id MatchTrader.now := Prog.blind_query _

theorem raiseIf {c : Prop} [Decidable c] {e : Exc} : Unseeing id (MatchTrader.raiseIf c e : Act Unit) := by
  unfold MatchTrader.raiseIf
  split
  · exact Prog.blind_throw e
  · exact Prog.blind_pure ()

theorem reads {f : World → β} {p : β → Act α} (h : ∀ w, f (besides id w) = f w) (hp : ∀ b, Unseeing id (p b)) :
    Unseeing id (MatchTrader.reads f >>= p) := Prog.blind_reads (fun w => by rw [h]) fun w => hp (f w)

theorem journal {p : Journal → Act α} (hp : ∀ j, Unseeing id (p j)) : Unseeing id (MatchTrader.reads World.journal >>= p) :=
  reads (fun _ => rfl) hp

theorem ofExcept (r : Except Exc α) : Unseeing id (Prog.ofExcept r : Act α) := Prog.blind_ofExcept r

theorem instruments (api : Api) : Unseeing id (MatchTrader.instruments api) :=
  Prog.Blind.bind (Prog.blind_query _) fun _ => ofExcept _

theorem quotes (api : Api) (symbol : String) : Unseeing id (MatchTrader.quotes api symbol) :=
  Prog.Blind.bind (Prog.blind_query _) fun _ => ofExcept _

theorem equity (api : Api) : Unseeing id (MatchTrader.equity api) :=
  Prog.Blind.bind (Prog.blind_query _) fun _ => ofExcept _

theorem activeOrders (api : Api) : Unseeing id (MatchTrader.activeOrders api) :=
  Prog.Blind.bind (Prog.blind_query _) fun _ => ofExcept _

theorem guarded {p : Act α} (h : Unseeing id p) : Unseeing id (MatchTrader.guarded p) := by
  refine Prog.Blind.bind (Prog.blind_query _) fun fails => ?_
  cases fails with
  | true =>
    have hfault : Unseeing id (Prog.commit fun w => { w with faulted := true } : Act Unit) :=
      Prog.blind_commit (fun _ => rfl) fun w => .refl w.journal
    exact hfault.bind fun _ => Prog.Blind.bind (Prog.blind_throw _) fun _ => h
  | false => exact h

theorem transact {f : Tx α} (hf : ∀ j a k, f j = .ok (a, k) → j.Upkeep k) : Unseeing id (MatchTrader.transact f) := by
  refine guarded (Prog.blind_attempt (fun w => ?_) fun w a v hv => ?_)
  · have hjournal : (besides id w).journal = w.journal := rfl
    rw [hjournal]
    cases f w.journal <;> rfl
  · cases hr : f w.journal with
    | error e =>
      rw [hr] at hv
      cases hv
    | ok r =>
      rw [hr] at hv
      obtain ⟨rfl, rfl⟩ := Prod.mk.inj (Except.ok.inj hv)
      exact hf _ _ _ hr

theorem transactLane {f : LaneDb → LaneDb} (hl : l ≠ Controller.configLane id) :
    Unseeing id (MatchTrader.transactLane l f) := by
  refine guarded (Prog.blind_commit (fun w => ?_) fun w => .refl w.journal)
  rw [besides_lane w hl]
  simp only [setLane, besides, World.mk.injEq, and_true, true_and]
  funext k
  by_cases hk : k = l
  · subst hk
    rw [if_pos rfl, if_neg hl, if_pos rfl]
  · simp only [if_neg hk]

theorem record {e : Event} (he : e.lane? ≠ some (Controller.configLane id)) : Unseeing id (MatchTrader.record e) := by
  refine Prog.blind_commit (fun w => ?_) fun w => .refl w.journal
  simp [besides, List.filter_append, he]

theorem invoke {owner : Owner} {api : Api} {call : Call}
    (h : ∀ s, owner = .signal s → s.lane ≠ Controller.configLane id) : Unseeing id (MatchTrader.invoke owner api call) := by
  have hsent : ∀ j, (Event.sent owner api call j).lane? ≠ some (Controller.configLane id) := by
    intro j
    cases owner with
    | trade w => exact nofun
    | signal s => exact fun hs => h s rfl (Option.some.inj hs)
  have hanswered : ∀ reply, (Event.answered owner reply).lane? ≠ some (Controller.configLane id) := by
    intro reply
    cases owner with
    | trade w => exact nofun
    | signal s => exact fun hs => h s rfl (Option.some.inj hs)
  refine journal fun j => Prog.Blind.bind (record (hsent j)) fun _ => Prog.Blind.bind (Prog.blind_query _) fun reply => ?_
  exact Prog.Blind.bind (record (hanswered reply)) fun _ => Prog.blind_ofExcept _

theorem openPositions (api : Api) (account : String) : Unseeing id (MatchTrader.openPositions api account) := by
  refine Prog.Blind.bind (Prog.blind_query _) fun reply => Prog.Blind.bind (ofExcept _) fun positions => ?_
  exact Prog.Blind.bind (record nofun) fun _ => Prog.blind_pure _

theorem setMem {g : Memory → Memory} (h : ∀ m : Memory, g (m.besides id) = (g m).besides id) :
    Unseeing id (MatchTrader.setMem g) := by
  refine Prog.blind_commit (fun w => ?_) fun w => .refl w.journal
  simp only [besides, h]

section Store

variable {identity : String} {key : ActionKey}

theorem change {f : Journal → Except Exc Journal} (hf : ∀ j k, f j = .ok k → j.Upkeep k) : Unseeing id (Store.change f) := by
  refine transact fun j a k hk => ?_
  cases hr : f j with
  | error e =>
    rw [hr] at hk
    cases hk
  | ok l =>
    rw [hr] at hk
    obtain ⟨-, rfl⟩ := Prod.mk.inj (Except.ok.inj hk)
    exact hf j l hr

theorem update {u : TradeUpdate} : Unseeing id (Store.update identity u) :=
  Prog.Blind.bind now fun _ => change fun _ _ h => Except.ok.inj h ▸ .update ..

theorem finish {state : Outcome} : Unseeing id (Store.finish identity key state) :=
  Prog.Blind.bind now fun _ => change fun _ _ h => .finish h

theorem recordReason {attempt : Nat} {outcome : Outcome} {reason : Reason} :
    Unseeing id (Store.recordReason identity key attempt outcome reason) :=
  Prog.Blind.bind now fun _ => change fun _ _ h => .recordReason h

theorem observePositions {destination : String} {positions : List Position} :
    Unseeing id (Store.observePositions identity destination positions) := by
  refine Prog.Blind.bind now fun at_ => change fun j k h => Except.ok.inj h ▸ ?_
  exact .foldl (fun l p => (Journal.Upkeep.link ..).trans ((Journal.Upkeep.observePosition ..).trans (.observeDestination ..)))
    positions j

theorem claim {requestId destination : String} {action : Action} {request : Call} :
    Unseeing id (Store.claim identity key requestId action destination request) :=
  Prog.Blind.bind now fun _ => transact fun _ _ _ h => .claim h

theorem recordFailure {e : Exc} : Unseeing id (MatchTrader.recordFailure identity key e) := by
  refine Prog.Blind.bind (Prog.Blind.tryCatch recordReason fun _ => Prog.blind_pure _) fun _ => ?_
  exact Prog.Blind.bind update fun _ => Prog.Blind.bind finish fun _ => Prog.blind_pure _

end Store

end Unseeing

section Removals

variable {t : TradeRow} {s : Ending} {api : Option Api} {destination : String} {verified : Bool}

namespace Unwind

end Unwind

end Removals

section Engine

namespace SignalEngine

end SignalEngine

end Engine

section Lanes

variable {c : LaneCall} {symbols : SymbolMap} {s : Signal} {raw : Json} {closed : List (List (Option String))}
  {api : Option Api} {destination key : String} {verified : Bool} {at_ : Instant}

namespace SignalCopy

end SignalCopy

end Lanes

section Deliveries

variable {other : CopyConfig} {k : String}

namespace Controller

/-- A configuration's lane receives its elements, and what it raises is not contained yet. -/
def receives (config : CopyConfig) (elements : List Json) : Act Unit := do
  setMem fun m => { m with
    copyConfigSince := if m.copyConfigSince.any fun s => s.1 = config.id then m.copyConfigSince
      else assign m.copyConfigSince config.id m.copyModeSince }
  let m ← reads World.mem
  let destination := config.lane.destinationAccount
  let api := m.sessionFor destination
  discard (SignalCopy.receive (configCall m config (configLane config.id)) m.symbols elements api destination api.isSome)

end Controller

end Deliveries

end Blind

section Own

variable {α : Type} {id : String} {W : World} {c : LaneCall} {symbols : SymbolMap} {s : Signal} {raw : Json}
  {closed : List (List (Option String))} {api : Option Api} {destination key : String} {verified : Bool} {at_ : Instant}

/-- Whatever the program does is the configuration's own. -/
abbrev Own (id : String) (W : World) (p : Act α) : Prop := p.Keeps (fun w => besides id w = W) fun _ _ => True

/-- No cancel that is given to the configuration finds a trade in the ledger. -/
def LedgerFree (journal : Journal) (elements : List Json) : Prop :=
  ∀ raw ∈ elements, ∀ s, Signal.parseSignal raw = .ok s → isCancelKind s.kind = true →
    journal.linkedTrades s.machineId s.label = []

namespace Own

theorem commit {u : World → World} (h : ∀ w, besides id (u w) = besides id w) : Own id W (Prog.commit u : Act Unit) :=
  Prog.keeps_commit fun w hw => ⟨trivial, (h w).trans hw⟩

theorem reads {β : Type} {f : World → β} {p : β → Act α} (h : ∀ b, Own id W (p b)) : Own id W (MatchTrader.reads f >>= p) :=
  Prog.keeps_reads fun w _ => h (f w)

theorem transactLane {f : LaneDb → LaneDb} : Own id W (MatchTrader.transactLane (Controller.configLane id) f) := by
  have hlane : Own id W (Prog.commit fun w => setLane w (Controller.configLane id) (f (w.lanes (Controller.configLane id))) : Act Unit) := by
    refine commit fun w => ?_
    simp only [setLane, besides, World.mk.injEq, and_true, true_and]
    funext k
    by_cases hk : k = Controller.configLane id
    · rw [if_pos hk, if_pos hk]
    · simp only [if_neg hk]
  refine Prog.Keeps.bind (FrameRule.ask _) fun fails => ?_
  cases fails with
  | true => exact Prog.Keeps.bind (commit fun _ => rfl) fun _ => Prog.Keeps.bind (Prog.keeps_throw _) fun _ => hlane
  | false => exact hlane

theorem record {e : Event} (he : e.lane? = some (Controller.configLane id)) : Own id W (MatchTrader.record e) := by
  refine commit fun w => ?_
  simp [besides, List.filter_append, he]

theorem setMem {g : Memory → Memory} (h : ∀ m : Memory, (g m).besides id = m.besides id) : Own id W (MatchTrader.setMem g) := by
  refine commit fun w => ?_
  simp only [besides, h]

theorem recordRow {f : SignalRow → SignalRow} : Own id W (SignalCopy.recordRow (Controller.configLane id) key f) := transactLane

theorem dispatch {v : SignalWrite} {call : Call} {accepted : Operation → Bool} {ok correlation : String}
    (hl : v.lane = Controller.configLane id) : Own id W (SignalCopy.dispatch (.signal v) api call accepted ok correlation) := by
  refine Prog.Keeps.tryCatch ?_ fun e => Prog.keeps_pure _
  cases api with
  | none => exact Prog.keeps_throw _
  | some api =>
    have hinvoke : Own id W (invoke (.signal v) api call) :=
      reads fun journal => Prog.Keeps.bind (record (congrArg some hl)) fun _ => Prog.Keeps.bind (FrameRule.ask _) fun reply =>
        Prog.Keeps.bind (record (congrArg some hl)) fun _ => FrameRule.ofExcept _
    exact hinvoke.bind fun reply => Prog.keeps_pure _

theorem openCopy (hl : c.lane = Controller.configLane id) :
    Own id W (SignalCopy.openCopy c symbols key s raw closed api destination verified at_) := by
  unfold SignalCopy.openCopy
  rw [hl]
  refine reads fun ctx => Prog.Keeps.bind (record rfl) fun _ => Prog.Keeps.bind (Prog.Quiet.keeps ?_) fun decided => ?_
  · have hdecide := SignalEngine.quiet_decide c.config symbols s ctx
    exact Prog.Quiet.tryCatch (hdecide.bind fun p => Prog.quiet_pure _) fun e => Prog.quiet_pure _
  · cases decided with
    | error e => exact recordRow
    | ok plan =>
      simp only
      split
      · exact recordRow
      · exact Prog.Keeps.bind recordRow fun _ => Prog.Keeps.bind (dispatch rfl) fun o => recordRow

theorem cancelOwnCopy :
    Own id W (SignalCopy.cancelOwnCopy (Controller.configLane id) key s raw api destination verified) := by
  have hprepare := SignalCopy.quiet_prepareCancel (Controller.configLane id) s raw api destination verified
  refine Prog.Keeps.bind (Prog.Quiet.keeps (Prog.Quiet.tryCatch (hprepare.bind fun _ => Prog.quiet_pure _) fun e => ?_))
    fun prepared => ?_
  · split
    · exact Prog.quiet_pure _
    · exact Prog.quiet_throw _
  · cases prepared with
    | error e => exact recordRow
    | ok r => exact Prog.Keeps.bind recordRow fun _ => Prog.Keeps.bind (dispatch rfl) fun o => recordRow

theorem unwind (hfree : W.journal.linkedTrades s.machineId s.label = []) :
    Own id W (SignalCopy.unwind (Controller.configLane id) key s raw api destination verified) := by
  -- The ledger has nothing for the lifecycle, so nothing is removed through it.
  have hledger : Own id W (Unwind.apply (SignalCopy.Signal.ending s) api destination verified none) := by
    refine Prog.keeps_reads fun w hw => ?_
    have hnil : w.journal.linkedTrades (SignalCopy.Signal.ending s).machineId (SignalCopy.Signal.ending s).label = [] := by
      rw [← hw] at hfree
      exact hfree
    simp only [hnil]
    exact Prog.keeps_pure _
  refine reads fun d => ?_
  split
  · exact cancelOwnCopy
  · refine Prog.Keeps.bind ?_ fun o => ?_
    · unfold SignalCopy.applyToLedger
      split
      · exact Prog.keeps_pure _
      · exact Prog.Keeps.tryCatch hledger fun e => Prog.keeps_pure _
    · cases o <;> exact recordRow

theorem act (hl : c.lane = Controller.configLane id) (hmode : c.copyMode.isSome = true)
    (hfree : isCancelKind s.kind = true → W.journal.linkedTrades s.machineId s.label = []) :
    Own id W (SignalCopy.act c symbols s raw closed api destination verified at_) := by
  refine reads fun d => ?_
  split
  · exact openCopy hl
  · split
    · exact Prog.keeps_pure _
    · next hclose =>
      split
      · exact Prog.keeps_pure _
      · split
        · next hend =>
          -- A close was put aside above, so this is a cancel.
          have hcancel : isCancelKind s.kind = true := by
            rw [isEndKind, Bool.or_eq_true] at hend
            exact hend.resolve_right fun h => hclose ⟨hmode, h⟩
          rw [hl]
          exact unwind (hfree hcancel)
        · exact Prog.keeps_pure _

theorem receiveSignal (hl : c.lane = Controller.configLane id) (hmode : c.copyMode.isSome = true)
    (hfree : isCancelKind s.kind = true → W.journal.linkedTrades s.machineId s.label = []) :
    Own id W (SignalCopy.receiveSignal c symbols s raw closed api destination verified) := by
  have hwrite : ∀ f, Own id W (MatchTrader.transactLane c.lane f) := fun f => hl ▸ transactLane
  refine Prog.Keeps.bind FrameRule.now fun at_ => Prog.Keeps.bind FrameRule.raiseIf fun _ => reads fun previous =>
    Prog.Keeps.bind (hwrite _) fun _ => ?_
  cases previous with
  | some row => exact Prog.keeps_pure _
  | none =>
    refine Prog.Keeps.bind (hwrite _) fun _ => Prog.Keeps.bind (act hl hmode hfree) fun _ => reads fun r => ?_
    cases r with
    | none => exact Prog.keeps_throw _
    | some r => exact Prog.keeps_pure _

theorem receive {elements : List Json} (hl : c.lane = Controller.configLane id) (hmode : c.copyMode.isSome = true)
    (hfree : LedgerFree W.journal elements) : Own id W (SignalCopy.receive c symbols elements api destination verified) := by
  refine Prog.Keeps.bind FrameRule.raiseIf fun _ => Prog.Keeps.bind (FrameRule.ofExcept _) fun closed =>
    Prog.keeps_mapM elements fun raw hraw => Prog.Keeps.tryCatch ?_ fun e => ?_
  · cases hp : Signal.parseSignal raw with
    | error e => exact Prog.keeps_throw e
    | ok s => exact receiveSignal hl hmode (hfree raw hraw s hp)
  · split
    · exact Prog.keeps_pure _
    · exact Prog.keeps_throw _

end Own

namespace Controller

variable {x : CopyConfig}

end Controller

end Own

end MatchTrader
