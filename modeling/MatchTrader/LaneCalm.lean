import MatchTrader.Frames
import MatchTrader.LaneOnce

/-! What a lane does for a signal on record never fails, as long as its store works and the broker's
list of orders is read or refused: it touches no row but the signal's own. -/

namespace MatchTrader

open Durable

/-- The statements of the store work, and the list of resting orders is answered, or refused with a
value error. -/
def Obliging : (q : Query) → Reply q → Prop
  | .commitFails, b => b = false
  | .activeOrders _, r => ∀ e, r = .error e → e.isValueError = true
  | _, _ => True

/-- The rows of a lane keep their identities, its appearances stay, and nothing is unsaid. -/
structure LaneKept (l : LaneId) (w v : World) : Prop where
  ids : (v.lanes l).signals.map SignalRow.id = (w.lanes l).signals.map SignalRow.id
  appearances : (v.lanes l).appearances = (w.lanes l).appearances
  trace : w.trace <+: v.trace

/-- Every accepted copy of a lane has the broker's reply on record. -/
def Responded (w : World) : Prop :=
  ∀ l, ∀ q ∈ (w.lanes l).signals, q.kind = "intent" → q.decision = .accepted → ∃ reply, q.response = some (.ok reply)

section Reached

variable [Host] {R : Rules} {w v : World}

theorem Responded.step (hI : Inv w) (h : Responded w) (hs : Step R w v) : Responded v := by
  intro l q hq hkind hdec
  rcases hs.row_new (hI.rowIds l) hq with ⟨r, hr, hk⟩ | ⟨_, hb⟩
  · cases hk with
    | same => exact h l q hr hkind hdec
    | step hstep =>
      cases hstep with
      | note hc hx => rcases hx with rfl | rfl <;> simp at hdec
      | paper => simp at hdec
      | commit => simp at hdec
      | commitCancel => simp at hdec
      | land hc hx ha hr =>
        obtain ⟨reply, hreply⟩ := hr hdec
        exact ⟨reply, congrArg some hreply⟩
      | unwound hc hk hx =>
        rw [show r.kind = "intent" from hkind] at hk
        exact absurd hk (by decide)
    | reopened => simp at hdec
  · simp [hb.decision] at hdec

theorem Reachable.responded {s : Process} (hR : R.Plain) (h : Reachable R s) : Responded s.world :=
  h.induct (I := Responded) hR (fun broker m => by simp [World.fresh, Responded]) fun _ _ hI hs hw => hw.step hI hs

end Reached

namespace LaneKept

variable {l : LaneId} {w v u : World}

theorem refl (w : World) : LaneKept l w w := ⟨rfl, rfl, List.prefix_rfl⟩

theorem trans (h : LaneKept l w v) (hh : LaneKept l v u) : LaneKept l w u :=
  ⟨hh.ids.trans h.ids, hh.appearances.trans h.appearances, h.trace.trans hh.trace⟩

theorem updateRow {key : String} {f : SignalRow → SignalRow} (hf : ∀ r, (f r).id = r.id) (w : World) :
    LaneKept l w (setLane w l { w.lanes l with signals := Rows.updateWhere (fun r => r.id = key) f (w.lanes l).signals }) where
  ids := by simp only [setLane, if_true, Rows.keys_updateWhere hf]
  appearances := by simp only [setLane, if_true]
  trace := List.prefix_rfl

theorem said (es : List Event) (w : World) : LaneKept l w (w.said es) := ⟨rfl, rfl, List.prefix_append ..⟩

/-- The journal's transactions and everything that is said leave a lane alone. -/
theorem frame [Host] (l : LaneId) : FrameRule (fun _ => True) (fun _ => True) (LaneKept l) fun _ => True where
  journal _ _ _ _ _ _ := ⟨⟨rfl, rfl, List.prefix_rfl⟩, trivial⟩
  mild _ _ := trivial
  fault _ _ := ⟨⟨rfl, rfl, List.prefix_rfl⟩, trivial⟩
  say w e _ _ := ⟨said [e] w, trivial⟩
  heard _ _ := trivial
  removes _ _ _ _ _ := trivial

end LaneKept

namespace SignalCopy

variable [Host] {c : LaneCall} {l : LaneId} {key : String} {s : Signal} {raw : Json} {api : Option Api} {call : Call}
  {destination : String} {verified : Bool} {closed : List (List (Option String))} {at_ : Instant} {w : World}
  {symbols : SymbolMap}

omit [Host] in
theorem calm_transactLane {f : LaneDb → LaneDb} {G : World → World → Prop} {P : Unit → World → Prop} {E : Exc → World → Prop}
    (hG : G w (setLane w l (f (w.lanes l)))) (hP : P () (setLane w l (f (w.lanes l)))) :
    (transactLane l f).wp Obliging G P E w := by
  intro b hb
  obtain rfl : b = false := hb
  exact ⟨hG, hP⟩

omit [Host] in
theorem calm_recordRow {f : SignalRow → SignalRow} {P : Unit → World → Prop} {E : Exc → World → Prop}
    (hf : ∀ r, (f r).id = r.id) (hP : ∀ v, w.trace <+: v.trace → P () v) :
    (recordRow l key f).wp Obliging (LaneKept l) P E w :=
  calm_transactLane (.updateRow hf w) (hP _ List.prefix_rfl)

omit [Host] in
theorem calm_dispatch {owner : Owner} {accepted : Operation → Bool} {ok correlation : String}
    {P : Sent → World → Prop} {E : Exc → World → Prop} (hP : ∀ o v, w.trace <+: v.trace → P o v) :
    (dispatch owner api call accepted ok correlation).wp Obliging (LaneKept l) P E w := by
  unfold dispatch
  rw [Prog.wp_tryCatch]
  cases api with
  | none => exact hP _ _ List.prefix_rfl
  | some api =>
    dsimp only
    rw [Prog.wp_bind]
    unfold invoke
    simp only [Prog.wp_bind, wp_readsWorld, wp_record, wp_askWrite, Prog.wp_ofExcept]
    refine ⟨.said _ w, fun reply _ => ⟨.said _ _, fun r _ => ?_, fun e _ => ?_⟩⟩
    · exact hP _ _ ((List.prefix_append ..).trans (List.prefix_append ..))
    · exact hP _ _ ((List.prefix_append ..).trans (List.prefix_append ..))

/-- The engine is asked about an intent, and whatever it answers is recorded. -/
theorem calm_openCopy : (openCopy c symbols key s raw closed api destination verified at_).wp Obliging (LaneKept c.lane)
    (fun _ v => .decided c.lane s.machineId s.clientEventId ∈ v.trace) (fun _ _ => False) w := by
  unfold openCopy
  rw [Prog.wp_bind, wp_readsWorld, Prog.wp_bind, wp_record]
  refine ⟨.said _ w, ?_⟩
  have hdecided : .decided c.lane s.machineId s.clientEventId
      ∈ (w.said [.decided c.lane s.machineId s.clientEventId]).trace := List.mem_append_right _ (List.mem_singleton_self _)
  rw [Prog.wp_bind]
  rw [Prog.wp_tryCatch, Prog.wp_map]
  refine Prog.Quiet.wp (SignalEngine.quiet_decide ..) (fun plan => ?_) fun e => ?_
  · dsimp only
    split
    · exact calm_recordRow (fun _ => rfl) fun v hv => hv.subset hdecided
    · rw [Prog.wp_bind]
      refine calm_recordRow (fun _ => rfl) fun v hv => ?_
      rw [Prog.wp_bind]
      refine calm_dispatch fun o u hu => ?_
      exact calm_recordRow (fun _ => rfl) fun x hx => (hv.trans (hu.trans hx)).subset hdecided
  · exact calm_recordRow (fun _ => rfl) fun v hv => hv.subset hdecided

omit [Host] in
theorem calm_activeOrders {G : World → World → Prop} {account : Api} {P : List Order → World → Prop} {E : Exc → World → Prop}
    (hP : ∀ orders, P orders w) (hE : ∀ e, e.isValueError = true → E e w) : (activeOrders account).wp Obliging G P E w := by
  intro answer hanswer
  cases answer with
  | ok orders => exact hP orders
  | error e => exact hE e (hanswer e rfl)

omit [Host] in
/-- A cancel is prepared or refused with a value error. -/
theorem calm_prepareCancel (hr : Responded w) : (prepareCancel l s raw api destination verified).wp Obliging (LaneKept l)
    (fun _ v => v = w) (fun e v => e.isValueError = true ∧ v = w) w := by
  unfold prepareCancel
  split
  · exact ⟨rfl, rfl⟩
  rw [Prog.wp_bind, wp_raiseIf]
  refine ⟨fun _ => ⟨rfl, rfl⟩, fun _ => ?_⟩
  rw [Prog.wp_bind, wp_raiseIf]
  refine ⟨fun _ => ⟨rfl, rfl⟩, fun _ => ?_⟩
  rw [Prog.wp_bind, wp_readsWorld, Prog.wp_bind, wp_raiseIf]
  refine ⟨fun _ => ⟨rfl, rfl⟩, fun _ => ?_⟩
  split
  · next q hq =>
    have hm := hq ▸ List.mem_singleton_self q
    rw [List.mem_filter] at hm
    obtain ⟨hrel, hcopied⟩ := hm
    have hq : q ∈ (w.lanes l).signals := List.mem_of_mem_filter hrel
    simp only [copied, Bool.and_eq_true, decide_eq_true_eq] at hcopied
    rw [Prog.wp_bind, wp_raiseIf]
    refine ⟨fun _ => ⟨rfl, rfl⟩, fun haccepted => ?_⟩
    obtain ⟨reply, hreply⟩ := hr l q hq hcopied.1.1 (not_not.mp haccepted)
    obtain ⟨call, hcall⟩ := Option.isSome_iff_exists.mp hcopied.1.2
    rw [hreply, hcall]
    dsimp only
    rw [Prog.wp_bind, wp_raiseIf]
    refine ⟨fun _ => ⟨rfl, rfl⟩, fun _ => ?_⟩
    rw [Prog.wp_bind]
    unfold Unwind.pendingOrderRequest
    rw [Prog.wp_bind]
    refine calm_activeOrders (fun orders => ?_) fun e he => ⟨he, rfl⟩
    split
    · rw [Prog.wp_bind, wp_raiseIf]
      exact ⟨fun _ => ⟨rfl, rfl⟩, fun _ => rfl⟩
    · exact ⟨rfl, rfl⟩
  · exact ⟨rfl, rfl⟩

omit [Host] in
theorem calm_cancelOwnCopy (hr : Responded w) : (cancelOwnCopy l key s raw api destination verified).wp Obliging (LaneKept l)
    (fun _ _ => True) (fun _ _ => False) w := by
  unfold cancelOwnCopy
  rw [Prog.wp_bind, Prog.wp_tryCatch, Prog.wp_map]
  refine Prog.wp_consequence (calm_prepareCancel hr) (fun p v _ => ?_) fun e v he => ?_
  · dsimp only
    rw [Prog.wp_bind]
    refine calm_recordRow (fun _ => rfl) fun _ _ => ?_
    rw [Prog.wp_bind]
    refine calm_dispatch fun _ _ _ => ?_
    exact calm_recordRow (fun _ => rfl) fun _ _ => trivial
  · rw [if_pos he.1]
    exact calm_recordRow (fun _ => rfl) fun _ _ => trivial

/-- Whatever an account of the ledger comes to, it ends in a row. -/
theorem calm_unwind (hr : Responded w) : (unwind l key s raw api destination verified).wp Obliging (LaneKept l)
    (fun _ _ => True) (fun _ _ => False) w := by
  have hsome (o : Unwind.Outcome) (v : World) : Prog.wp Obliging (LaneKept l) (recordRow l key fun r => {
      r with decision := o.decision, reason := o.reason, destination := some destination, request := o.request
             response := o.response }) (fun _ _ => True) (fun _ _ => False) v :=
    calm_recordRow (fun _ => rfl) fun _ _ => trivial
  have hnone (v : World) : Prog.wp Obliging (LaneKept l)
      (recordRow l key fun r => { r with decision := .captured, reason := noLedgerReason s })
      (fun _ _ => True) (fun _ _ => False) v := calm_recordRow (fun _ => rfl) fun _ _ => trivial
  unfold unwind
  rw [Prog.wp_bind, wp_readsWorld]
  split
  · exact calm_cancelOwnCopy hr
  · rw [Prog.wp_bind]
    unfold applyToLedger
    split
    · exact hnone w
    · rw [Prog.wp_tryCatch]
      have happly := (LaneKept.frame l).apply (Signal.ending s) api destination verified none w trivial
      refine Prog.wp_mono happly (fun _ _ _ => trivial) (fun _ _ h => h) (fun o v _ => ?_) fun e v _ => hsome _ v
      cases o with
      | none => exact hnone v
      | some o => exact hsome o v

theorem calm_act (hr : Responded w) : (act c symbols s raw closed api destination verified at_).wp Obliging (LaneKept c.lane)
    (fun _ v => s.kind = "intent" → .decided c.lane s.machineId s.clientEventId ∈ v.trace) (fun _ _ => False) w := by
  unfold act
  rw [Prog.wp_bind, wp_readsWorld]
  split
  · exact Prog.wp_consequence calm_openCopy (fun _ _ h _ => h) fun _ _ h => h
  · next hkind =>
    split
    · exact fun h => absurd h hkind
    · split
      · exact fun h => absurd h hkind
      · split
        · exact Prog.wp_consequence (calm_unwind hr) (fun _ _ _ h => absurd h hkind) fun _ _ h => h
        · exact fun h => absurd h hkind

end SignalCopy

end MatchTrader
