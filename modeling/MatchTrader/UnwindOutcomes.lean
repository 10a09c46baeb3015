import MatchTrader.Acceptances
import MatchTrader.PaperRows
import MatchTrader.ReadBacks
import MatchTrader.Recordings

/-! What the outcomes of an unwinding say: what was written to the broker, what is left of the trade
and its attempt, and that every outcome has its reason on record. -/

namespace MatchTrader

open Durable

def Reason.Complete (r : Reason) : Prop := blank r.origin = false ∧ blank r.code = false ∧ blank r.evidence = false

/-- The exception has a name, no reason but a complete one, and names its check if it is a refusal. -/
structure Exc.Whole (e : Exc) : Prop where
  name : blank e.name = false
  reason : ∀ r ∈ e.reason, r.Complete
  refusal : ∀ code, e.kind = .refusal code → blank code = false

/-- The statements of the store work, and whatever the broker raises is whole. -/
def Sane : (q : Query) → Reply q → Prop
  | .commitFails, b => b = false
  | .openPositions _, r => ∀ e, r = .error e → e.Whole
  | .activeOrders _, r => ∀ e, r = .error e → e.Whole
  | .write _ _, r => ∀ e, r = .error e → e.Whole
  | _, _ => True

def Event.call? : Event → Option Call
  | .sent _ _ call _ => some call
  | _ => none

def Event.reply? : Event → Option (Except Exc Operation)
  | .answered _ reply => some reply
  | _ => none

/-- The writes that were invoked since, and how they were answered. -/
structure Said (w v : World) (calls : List Call) (replies : List (Except Exc Operation)) : Prop where
  trace : ∃ es, v.trace = w.trace ++ es ∧ es.filterMap Event.call? = calls ∧ es.filterMap Event.reply? = replies

theorem Said.trans {w v u : World} {cs ds : List Call} {rs qs : List (Except Exc Operation)} (h : Said w v cs rs)
    (h' : Said v u ds qs) : Said w u (cs ++ ds) (rs ++ qs) := by
  obtain ⟨es, ht, hc, hr⟩ := h.trace
  obtain ⟨fs, ht', hc', hr'⟩ := h'.trace
  exact ⟨es ++ fs, by rw [ht', ht, List.append_assoc], by rw [List.filterMap_append, hc, hc'],
    by rw [List.filterMap_append, hr, hr']⟩

theorem Said.of_trace {w v : World} (h : v.trace = w.trace) : Said w v [] [] := ⟨[], by simpa using h, rfl, rfl⟩

/-- What an unwinding that is held leaves alone of a trade. -/
structure TradeRow.Core where
  state : TradeState
  destination : String
  lots : Option Decimal
  brokerOrderId : String

def TradeRow.core (t : TradeRow) : TradeRow.Core := ⟨t.state, t.destination, t.lots, t.brokerOrderId⟩

def TradeUpdate.onCore (u : TradeUpdate) (c : TradeRow.Core) : TradeRow.Core :=
  ⟨u.state.getD c.state, u.destination.getD c.destination, u.lots.getD c.lots, u.brokerOrderId.getD c.brokerOrderId⟩

namespace Journal

variable {j k l : Journal} {i now : String} {key : ActionKey}

def CoresKept (j k : Journal) : Prop := ∀ i, (k.trade? i).map TradeRow.core = (j.trade? i).map TradeRow.core

def Reasoned (j : Journal) (i : String) (key : ActionKey) : Prop :=
  ∃ q ∈ j.reasons, q.tradeId = i ∧ q.actionKey = key ∧ q.Complete

theorem CoresKept.of_trades (h : k.trades = j.trades) : j.CoresKept k := fun i => by simp only [trade?, h]

theorem CoresKept.trans (h : j.CoresKept k) (h' : k.CoresKept l) : j.CoresKept l := fun i => (h' i).trans (h i)

theorem update_core (j : Journal) (i k : String) (u : TradeUpdate) (now : String) :
    ((j.update i u now).trade? k).map TradeRow.core
      = if k = i then ((j.trade? i).map TradeRow.core).map u.onCore else (j.trade? k).map TradeRow.core := by
  rw [update_trade?]
  split
  · rw [Option.map_map, Option.map_map]
    rfl
  · rfl

theorem CoresKept.update (j : Journal) (i : String) {u : TradeUpdate} (now : String) (hu : ∀ c, u.onCore c = c) :
    j.CoresKept (j.update i u now) := by
  intro k
  rw [update_core]
  split
  · next h =>
    have hid : u.onCore = id := funext hu
    rw [hid, Option.map_id, id, h]
  · rfl

/-- What the reading of positions leaves of the tables, but for the read-backs and the links. -/
theorem observePositions_rows (ps : List Position) (j : Journal) (i destination now : String) :
    (ps.foldl (observePositionOf i destination now) j).trades = j.trades
      ∧ (ps.foldl (observePositionOf i destination now) j).attempts = j.attempts
      ∧ (ps.foldl (observePositionOf i destination now) j).reasons = j.reasons := by
  induction ps generalizing j with
  | nil => exact ⟨rfl, rfl, rfl⟩
  | cons p ps ih =>
    have hlink := Passive.link j i p.id "broker order/position relationship" now .destination (j.destinationScope destination)
      .position
    obtain ⟨ht, ha, hr⟩ := ih (observePositionOf i destination now j p)
    exact ⟨ht.trans hlink.trades, ha.trans hlink.attempts, hr.trans hlink.reasons⟩

theorem claim_raises {requestId destination : String} {action : Action} {request : Call} {e : Exc}
    (h : j.claim i key requestId action destination request now = .error e) : e = .integrity := by
  unfold claim at h
  repeat' split at h
  all_goals simp only [Except.error.injEq, reduceCtorEq] at h
  exact h.symm

/-- A complete reason is taken, and afterwards one is on record for the action. -/
theorem recordReason_complete [Host] {attempt : Nat} {outcome : Outcome} {reason : Reason} (hc : j.ReasonsComplete)
    (hreason : reason.Complete) (now : String) : ∃ rows, j.recordReason i key attempt outcome reason now = .ok { j with reasons := rows }
      ∧ (∀ q ∈ j.reasons, q ∈ rows) ∧ ({ j with reasons := rows } : Journal).ReasonsComplete
      ∧ ({ j with reasons := rows } : Journal).Reasoned i key := by
  let row : ReasonRow := ⟨i, key, attempt, reason.origin, outcome, reason.code, reason.evidence, now⟩
  have hok : j.recordReason i key attempt outcome reason now
      = .ok { j with reasons := Rows.insertNew ReasonRow.key row j.reasons } := by
    unfold recordReason
    have hno : ¬ (blank reason.origin = true ∨ blank reason.code = true ∨ blank reason.evidence = true) := by
      simp only [not_or, Bool.not_eq_true]
      exact hreason
    rw [if_neg hno]
  have hall : ({ j with reasons := Rows.insertNew ReasonRow.key row j.reasons } : Journal).ReasonsComplete :=
    (Aside.recordReason hok).reasons hc
  refine ⟨_, hok, fun q hq => Rows.mem_insertNew_of_mem hq, hall, ?_⟩
  have hinserted : ∃ q ∈ Rows.insertNew ReasonRow.key row j.reasons, q.key = row.key := Rows.exists_mem_insertNew
  obtain ⟨q, hq, hk⟩ := hinserted
  have hkey : (q.tradeId, q.actionKey, q.attempt) = (i, key, attempt) := hk
  simp only [Prod.mk.injEq] at hkey
  exact ⟨q, hq, hkey.1, hkey.2.1, hall q hq⟩

end Journal

section Reasons

theorem Exc.whole_refuse {code message : String} (h : blank code = false) : (Exc.refuse code message).Whole where
  name := (by decide : blank "Refusal" = false)
  reason := nofun
  refusal _ hc := ExcKind.refusal.inj hc ▸ h

theorem Exc.whole_value {message : String} : (Exc.value message).Whole where
  name := (by decide : blank "ValueError" = false)
  reason := nofun
  refusal := nofun

theorem whole_unverified {message : String} : (unverified message).Whole where
  name := (by decide : blank "RuntimeError" = false)
  reason r hr := by
    obtain rfl := Option.some.inj hr
    exact ⟨by decide, by decide, by decide⟩
  refusal := nofun

theorem failureReason_complete {e : Exc} {identity : String} {key : ActionKey} (he : e.Whole) :
    (failureReason e identity key).Complete := by
  have hnone : (unconfirmedReason e identity key).Complete := by
    refine ⟨(by decide : blank "unconfirmed" = false), he.name, ?_⟩
    unfold unconfirmedReason
    simp only [String.append_assoc]
    exact Unwind.blank_append (c := 'n') rfl (by decide)
  unfold failureReason
  split
  · next r hr =>
    split
    · exact he.reason r hr
    · exact hnone
  · exact hnone

theorem complete_local {code evidence : String} {c : Char} {cs : List Char} (hcode : blank code = false)
    (he : evidence.toList = c :: cs) (hc : isSpace c = false) (rest : String) :
    (⟨"local", code, evidence ++ rest⟩ : Reason).Complete :=
  ⟨(by decide : blank "local" = false), hcode, Unwind.blank_append he hc⟩

end Reasons

section Statements

variable {w : World} {E : Exc → World → Prop}

theorem sane_transact {α : Type} {f : Tx α} {P : α → World → Prop} (hE : ∀ e, f w.journal = .error e → E e w)
    (hP : ∀ a j, f w.journal = .ok (a, j) → P a { w with journal := j }) : (transact f).wp Sane Loose P E w := by
  intro b hb
  obtain rfl : b = false := hb
  refine (Prog.wp_attempt _).mpr ⟨fun e he => ?_, fun a v hv => ?_⟩
  · split at he
    · next x hx => exact Except.error.inj he ▸ hE x hx
    · cases he
  · split at hv
    · cases hv
    · next b j hj =>
      simp only [Except.ok.injEq, Prod.mk.injEq] at hv
      obtain ⟨rfl, rfl⟩ := hv
      exact ⟨trivial, hP _ _ hj⟩

theorem wp_activeOrders {A : (q : Query) → Reply q → Prop} {G : World → World → Prop} {P : List Order → World → Prop} (api : Api) :
    (activeOrders api).wp A G P E w
      ↔ ∀ r : Except Exc (List Order), A (.activeOrders api) r → (Prog.ofExcept r : Act (List Order)).wp A G P E w := Iff.rfl

theorem sane_change {f : Journal → Except Exc Journal} {k : Journal} {P : Unit → World → Prop} (hf : f w.journal = .ok k)
    (hP : P () { w with journal := k }) : (Store.change f).wp Sane Loose P E w := by
  have hmap : (f w.journal).map (fun j => ((), j)) = .ok ((), k) := by rw [hf]; rfl
  refine sane_transact (fun e he => ?_) fun a j hj => ?_
  · rw [hmap] at he
    cases he
  · rw [hmap] at hj
    simp only [Except.ok.injEq, Prod.mk.injEq, true_and] at hj
    exact hj ▸ hP

/-- No check of the kept tables fails: an update is always made. -/
theorem sane_update {i : String} {u : TradeUpdate} {P : Unit → World → Prop}
    (hP : ∀ now, P () { w with journal := w.journal.update i u now }) : (Store.update i u).wp Sane Loose P E w := by
  unfold Store.update
  rw [Prog.wp_bind, wp_now]
  intro at_ _
  exact sane_change rfl (hP at_.isoformat)

theorem sane_recordReason [Host] {i : String} {key : ActionKey} {attempt : Nat} {outcome : Outcome} {reason : Reason}
    {P : Unit → World → Prop} (hc : w.journal.ReasonsComplete) (hreason : reason.Complete)
    (hP : ∀ rows, (∀ q ∈ w.journal.reasons, q ∈ rows) → ({ w.journal with reasons := rows } : Journal).ReasonsComplete →
      ({ w.journal with reasons := rows } : Journal).Reasoned i key →
      P () { w with journal := { w.journal with reasons := rows } }) :
    (Store.recordReason i key attempt outcome reason).wp Sane Loose P E w := by
  unfold Store.recordReason
  rw [Prog.wp_bind, wp_now]
  intro at_ _
  obtain ⟨rows, hok, hmem, hall, hon⟩ := Journal.recordReason_complete hc hreason at_.isoformat
  exact sane_change hok (hP rows hmem hall hon)

end Statements

/-- Nothing was written, and no trade was changed but for the position that was found for it. -/
structure Undone (w v : World) : Prop where
  cores : w.journal.CoresKept v.journal
  attempts : v.journal.attempts = w.journal.attempts
  reasons : v.journal.reasons = w.journal.reasons
  said : Said w v [] []

namespace Undone

variable {w v u : World}

theorem refl (w : World) : Undone w w := ⟨.of_trades rfl, rfl, rfl, .of_trace rfl⟩

theorem trans (h : Undone w v) (h' : Undone v u) : Undone w u where
  cores := h.cores.trans h'.cores
  attempts := h'.attempts.trans h.attempts
  reasons := h'.reasons.trans h.reasons
  said := h.said.trans h'.said

theorem read (w : World) (account : String) (ps : List Position) : Undone w (w.said [.readPositions account ps]) where
  cores := .of_trades rfl
  attempts := rfl
  reasons := rfl
  said := ⟨[.readPositions account ps], rfl, rfl, rfl⟩

theorem update (w : World) (i now : String) {u : TradeUpdate} (hu : ∀ c, u.onCore c = c) :
    Undone w { w with journal := w.journal.update i u now } where
  cores := .update _ _ _ hu
  attempts := Journal.update_attempts ..
  reasons := Journal.update_reasons ..
  said := .of_trace rfl

theorem observe (w : World) (i destination now : String) (ps : List Position) :
    Undone w { w with journal := ps.foldl (Journal.observePositionOf i destination now) w.journal } := by
  obtain ⟨ht, ha, hr⟩ := Journal.observePositions_rows ps w.journal i destination now
  exact ⟨.of_trades ht, ha, hr, .of_trace rfl⟩

end Undone

namespace Unwind

/-- A cancel of an order, or a close that no cancel signal asked for. -/
def Fits (action : Action) (call : Call) : Prop :=
  (∃ r, call = .cancelPendingOrder r) ∨ action ≠ .cancel ∧ ∃ r, call = .closePosition r

variable [Host] {w v : World} {t : TradeRow} {s : Ending} {api : Api} {destination label : String} {action : Action}

theorem check_whole {j : Journal} {session : Option Api} {verified : Bool} {e : Exc}
    (h : check j t s session destination verified action = .error e) : e.Whole := by
  have hraise {c : Prop} [Decidable c] {code message : String} {x : Exc} (hc : blank code = false)
      (hx : (raiseIf c (Exc.refuse code message) : Except Exc Unit) = .error x) : x.Whole := by
    unfold raiseIf at hx
    split at hx
    · exact Except.error.inj hx ▸ Exc.whole_refuse hc
    · cases hx
  unfold check at h
  rcases bind_eq_error.mp h with h | ⟨_, -, h⟩
  · exact hraise (by decide) h
  rcases bind_eq_error.mp h with h | ⟨_, -, h⟩
  · exact hraise (by decide) h
  rcases bind_eq_error.mp h with h | ⟨_, -, h⟩
  · exact hraise (by decide) h
  rcases bind_eq_error.mp h with h | ⟨_, -, h⟩
  · exact hraise (by decide) h
  rcases bind_eq_error.mp h with h | ⟨_, -, h⟩
  · exact hraise (by decide) h
  split at h
  · exact Except.error.inj h ▸ Exc.whole_refuse (by decide)
  · rcases bind_eq_error.mp h with h | ⟨_, -, h⟩
    · exact hraise (by decide) h
    rcases bind_eq_error.mp h with h | ⟨_, -, h⟩
    · exact hraise (by decide) h
    · cases h

omit [Host] in
theorem pendingOrderRequest_sane {orderId instrument side : String} {type : Option String} {P : CancelRequest → World → Prop}
    {E : Exc → World → Prop} (hP : ∀ r, P r w) (hE : ∀ e, e.Whole → E e w) :
    (pendingOrderRequest api orderId instrument side type).wp Sane Loose P E w := by
  unfold pendingOrderRequest
  rw [Prog.wp_bind, wp_activeOrders]
  intro reply hreply
  refine (Prog.wp_ofExcept _).mpr ⟨fun orders _ => ?_, fun e he => hE e (hreply e he)⟩
  split
  · rw [Prog.wp_bind, wp_raiseIf]
    exact ⟨fun _ => hE _ Exc.whole_value, fun _ => hP _⟩
  · exact hE _ Exc.whole_value

theorem planCancel_sane {because : String} : (planCancel t api label because).wp Sane Loose
    (fun p v => v = w ∧ ∃ r, p.call = .cancelPendingOrder r) (fun e v => v = w ∧ e.Whole) w := by
  unfold planCancel
  rw [Prog.wp_bind, wp_readsWorld]
  dsimp only
  rw [Prog.wp_bind, Prog.wp_tryCatch]
  refine pendingOrderRequest_sane (fun r => ?_) fun e he => ?_
  · rw [Prog.wp_bind, wp_now]
    exact fun at_ _ => ⟨rfl, r, rfl⟩
  · split
    · refine ⟨rfl, Exc.whole_refuse ?_⟩
      split <;> decide
    · exact ⟨rfl, he⟩

omit [Host] in
theorem guardAgain_sane {identity : String} {refusal : String → Exc} {P : Unit → World → Prop} {E : Exc → World → Prop}
    (hr : ∀ message, (refusal message).Whole) (hP : P () w) (hE : ∀ e, e.Whole → E e w) :
    (guardAgain identity refusal).wp Sane Loose P E w := by
  unfold guardAgain
  rw [Prog.wp_bind, wp_readsWorld]
  split
  · exact hP
  · exact hE _ (hr _)

omit [Host] in
theorem observeRelated_sane {related : List Position} : (observeRelated t destination related).wp Sane Loose
    (fun _ v => Undone w v) (fun e v => Undone w v ∧ e.Whole) w := by
  unfold observeRelated
  split
  · exact .refl w
  · unfold Store.observePositions
    rw [Prog.wp_bind, Prog.wp_bind, wp_now]
    intro at_ _
    have hobserved := Undone.observe w t.tradeId destination at_.isoformat related
    exact sane_change rfl (guardAgain_sane (fun _ => Exc.whole_refuse (by decide)) hobserved fun e he => ⟨hobserved, he⟩)

omit [Host] in
theorem noteRelated_sane {p : Position} {E : Exc → World → Prop} :
    (noteRelated t p).wp Sane Loose (fun _ v => Undone w v) E w := by
  unfold noteRelated
  split
  · exact sane_update fun at_ => .update w _ _ fun _ => rfl
  · exact .refl w

theorem planClose_sane : (planClose t api destination label).wp Sane Loose
    (fun p v => Undone w v ∧ ((∃ r, p.call = .cancelPendingOrder r) ∨ ∃ r, p.call = .closePosition r))
    (fun e v => Undone w v ∧ e.Whole) w := by
  unfold planClose
  rw [Prog.wp_bind]
  refine guardAgain_sane (fun _ => Exc.whole_refuse (by decide)) ?_ fun e he => ⟨.refl w, he⟩
  unfold openPositions
  simp only [Prog.wp_bind, wp_askPositions, Prog.wp_ofExcept, wp_record, Prog.wp_pure]
  intro reply hreply
  refine ⟨fun ps _ => ⟨trivial, ?_⟩, fun e he => ⟨.refl w, hreply e he⟩⟩
  have hread := Undone.read w destination (leavesAll ps)
  refine Prog.wp_consequence observeRelated_sane (fun _ v hv => ?_) fun e v hv => ⟨hread.trans hv.1, hv.2⟩
  have hseen := hread.trans hv
  split
  · next p _ =>
    rw [Prog.wp_bind]
    refine Prog.wp_consequence noteRelated_sane (fun _ u hu => ?_) fun _ _ hu => hu
    rw [Prog.wp_bind, wp_now]
    exact fun at_ _ => ⟨hseen.trans hu, Or.inr ⟨_, rfl⟩⟩
  · split
    · refine Prog.wp_consequence planCancel_sane (fun p u hu => ?_) fun e u hu => ⟨hu.1 ▸ hseen, hu.2⟩
      exact ⟨hu.1 ▸ hseen, Or.inl hu.2⟩
    · exact ⟨hseen, Exc.whole_refuse (by decide)⟩
  · exact ⟨hseen, Exc.whole_refuse (by decide)⟩

theorem prepare_sane {session : Option Api} {verified : Bool} : (prepare t s session destination verified action).wp Sane Loose
    (fun r v => Undone w v ∧ Fits action r.2.call) (fun e v => Undone w v ∧ e.Whole) w := by
  unfold prepare
  rw [Prog.wp_bind, wp_readsWorld, Prog.wp_bind, Prog.wp_ofExcept]
  refine ⟨fun a _ => ?_, fun e he => ⟨.refl w, check_whole he⟩⟩
  split
  · rw [Prog.wp_bind, wp_raiseIf]
    refine ⟨fun _ => ⟨.refl w, Exc.whole_refuse (by decide)⟩, fun _ => ?_⟩
    rw [Prog.wp_bind]
    refine Prog.wp_consequence planCancel_sane (fun p u hu => ?_) fun e u hu => ⟨hu.1 ▸ .refl w, hu.2⟩
    exact ⟨hu.1 ▸ .refl w, Or.inl hu.2⟩
  · next hno =>
    rw [Prog.wp_bind]
    exact Prog.wp_consequence planClose_sane (fun p u hu => ⟨hu.1, hu.2.imp_right fun h => ⟨hno, h⟩⟩) fun _ _ hu => hu

end Unwind

/-- The trade's attempt is the one that was added: how it stands, how its trade does, and what was written since. -/
structure Tracked (w v : World) (i : String) (key : ActionKey) (c : TradeRow.Core) (outcome : Outcome) (calls : List Call)
    (replies : List (Except Exc Operation)) : Prop where
  core : (v.journal.trade? i).map TradeRow.core = some c
  others : ∀ k, k ≠ i → (v.journal.trade? k).map TradeRow.core = (w.journal.trade? k).map TradeRow.core
  attempts : v.journal.attempts = w.journal.attempts ++ [⟨i, key, outcome⟩]
  fresh : ∀ a ∈ w.journal.attempts, a.key ≠ (i, key)
  reasons : v.journal.ReasonsComplete
  said : Said w v calls replies

namespace Tracked

variable {w v : World} {i : String} {key : ActionKey} {c : TradeRow.Core} {outcome : Outcome} {calls : List Call}
  {replies : List (Except Exc Operation)} {P : Unit → World → Prop} {E : Exc → World → Prop}

theorem wp_update (h : Tracked w v i key c outcome calls replies) {u : TradeUpdate}
    (hP : ∀ v', Tracked w v' i key (u.onCore c) outcome calls replies → v'.journal.reasons = v.journal.reasons → P () v') :
    (Store.update i u).wp Sane Loose P E v := by
  refine sane_update fun at_ => hP _ ⟨?_, fun k hk => ?_, ?_, h.fresh, fun q hq => ?_, ?_⟩ (Journal.update_reasons ..)
  · rw [Journal.update_core, if_pos rfl, h.core]
    rfl
  · rw [Journal.update_core, if_neg hk]
    exact h.others k hk
  · exact (Journal.update_attempts ..).trans h.attempts
  · rw [Journal.update_reasons] at hq
    exact h.reasons q hq
  · obtain ⟨es, hes⟩ := h.said.trace
    exact ⟨es, hes⟩

theorem wp_finish (h : Tracked w v i key c outcome calls replies) {o : Outcome}
    (hP : ∀ v', Tracked w v' i key c o calls replies → v'.journal.reasons = v.journal.reasons → P () v') :
    (Store.finish i key o).wp Sane Loose P E v := by
  obtain ⟨t, ht, hcore⟩ := Option.map_eq_some_iff.mp h.core
  unfold Store.finish
  rw [Prog.wp_bind, wp_now]
  intro at_ _
  have hfinish : ∃ k, v.journal.finish i key o at_.isoformat = .ok k := by
    unfold Journal.finish
    rw [ht]
    exact ⟨_, rfl⟩
  obtain ⟨k, hk⟩ := hfinish
  obtain ⟨_, _, rfl⟩ := Journal.finish_ok hk
  refine sane_change hk (hP _ ⟨h.core, h.others, ?_, h.fresh, h.reasons, ?_⟩ rfl)
  · have hold : w.journal.attempts.map (fun a => if a.key = (i, key) then { a with state := o } else a) = w.journal.attempts :=
      (List.map_congr_left fun a ha => if_neg (h.fresh a ha)).trans (List.map_id _)
    simp only [h.attempts, Rows.updateWhere, List.map_append, decide_eq_true_eq, hold, List.map_cons, List.map_nil]
    exact congrArg (fun a => w.journal.attempts ++ [a]) (if_pos rfl)
  · obtain ⟨es, hes⟩ := h.said.trace
    exact ⟨es, hes⟩

theorem wp_recordReason [Host] (h : Tracked w v i key c outcome calls replies) {o : Outcome} {reason : Reason}
    (hreason : reason.Complete)
    (hP : ∀ v', Tracked w v' i key c outcome calls replies → v'.journal.Reasoned i key → P () v') :
    (Store.recordReason i key 1 o reason).wp Sane Loose P E v := by
  refine sane_recordReason h.reasons hreason fun rows _ hall hon => hP _ ?_ hon
  obtain ⟨es, hes⟩ := h.said.trace
  exact ⟨h.core, h.others, h.attempts, h.fresh, hall, es, hes⟩

theorem wp_invoke (h : Tracked w v i key c outcome calls replies) {owner : Owner} {api : Api} {call : Call}
    {P : Operation → World → Prop}
    (hP : ∀ v' r, Tracked w v' i key c outcome (calls ++ [call]) (replies ++ [.ok r]) → P r v')
    (hE : ∀ v' e, Tracked w v' i key c outcome (calls ++ [call]) (replies ++ [.error e]) → e.Whole → E e v') :
    (invoke owner api call).wp Sane Loose P E v := by
  unfold invoke
  simp only [Prog.wp_bind, wp_readsWorld, wp_record, wp_askWrite]
  refine ⟨trivial, fun r hr => ⟨trivial, ?_⟩⟩
  have hsaid : Said v ((v.said [.sent owner api call v.journal]).said [.answered owner r]) [call] [r] :=
    ⟨[.sent owner api call v.journal, .answered owner r], by simp, rfl, rfl⟩
  have hall := h.said.trans hsaid
  refine (Prog.wp_ofExcept _).mpr ⟨fun a ha => hP _ a ?_, fun e he => hE _ e ?_ (hr e he)⟩
  · exact ha ▸ ⟨h.core, h.others, h.attempts, h.fresh, h.reasons, hall⟩
  · exact he ▸ ⟨h.core, h.others, h.attempts, h.fresh, h.reasons, hall⟩

end Tracked

namespace Unwind

def concerned (j : Journal) (s : Ending) (tradeId : Option String) : List TradeRow :=
  match tradeId with
  | some id => (j.trade? id).toList
  | none => j.linkedTrades s.machineId s.label

/-- What the outcome of an unwinding says about the broker, the trades and their attempts. -/
structure Means (trades : List TradeRow) (key : ActionKey) (action : Action) (w v : World) (o : Outcome) : Prop where
  decided : o.decision = .held ∨ o.decision = .accepted ∨ o.decision = .uncertain
  held : o.decision = .held → w.journal.CoresKept v.journal
    ∧ (∀ a ∈ v.journal.attempts, a.state = .dispatching → a ∈ w.journal.attempts)
    ∧ (Said w v [] [] ∨ ∃ call e, e.kind = .writesDisabled ∧ Fits action call ∧ Said w v [call] [.error e])
  accepted : o.decision = .accepted → ∃ call r, Fits action call ∧ r.status = some "OK" ∧ Said w v [call] [.ok r]
  uncertain : o.decision = .uncertain → (∃ call r, Fits action call ∧ Said w v [call] [r])
    ∧ ∀ t ∈ trades, (v.journal.trade? t.tradeId).map TradeRow.state = some .uncertain
      ∧ (∃ a ∈ v.journal.attempts, a.key = (t.tradeId, key))
      ∧ ∀ a ∈ v.journal.attempts, a.key = (t.tradeId, key) → a.state = .uncertain
  reasoned : ∀ t ∈ trades, v.journal.Reasoned t.tradeId key

variable [Host] {w v : World} {t : TradeRow} {s : Ending} {api : Api} {key : ActionKey} {action : Action} {call : Call}
  {correlation : String} {E : Exc → World → Prop}

theorem fail_means {c : TradeRow.Core} {outcome : MatchTrader.Outcome} {reply : Except Exc Operation}
    {response : Option Operation} {e : Exc} (h : Tracked w v t.tradeId key c outcome [call] [reply]) (hfit : Fits action call)
    (he : e.Whole) : (fail t.tradeId key call correlation response e).wp Sane Loose
      (fun o u => Means [t] key action w u o) E v := by
  unfold fail recordFailure
  rw [Prog.wp_bind, Prog.wp_bind, Prog.wp_tryCatch]
  refine h.wp_recordReason (failureReason_complete he) fun v₁ h₁ hon => ?_
  rw [Prog.wp_bind]
  refine h₁.wp_update fun v₂ h₂ hr₂ => ?_
  rw [Prog.wp_bind]
  refine h₂.wp_finish fun v₃ h₃ hr₃ => ?_
  have hreasoned : v₃.journal.Reasoned t.tradeId key := by
    unfold Journal.Reasoned
    rw [hr₃, hr₂]
    exact hon
  refine ⟨Or.inr (Or.inr rfl), nofun, nofun, fun _ => ⟨⟨call, reply, hfit, h₃.said⟩, ?_⟩, ?_⟩
  · intro u hu
    obtain rfl := List.mem_singleton.mp hu
    obtain ⟨x, hx, hcore⟩ := Option.map_eq_some_iff.mp h₃.core
    refine ⟨by rw [hx]; exact congrArg (fun c => some c.state) hcore, ?_, fun a ha hk => ?_⟩
    · exact ⟨⟨u.tradeId, key, .uncertain⟩, by rw [h₃.attempts]; exact List.mem_append_right _ List.mem_cons_self, rfl⟩
    · rw [h₃.attempts] at ha
      rcases List.mem_append.mp ha with ha | ha
      · exact absurd hk (h₃.fresh a ha)
      · rw [List.mem_singleton.mp ha]
  · intro u hu
    exact List.mem_singleton.mp hu ▸ hreasoned

theorem release_means {owner : MatchTrader.Outcome} {e : Exc} (ht : w.journal.trade? t.tradeId = some t)
    (h : Tracked w v t.tradeId key { t.core with state := .dispatching } owner [call] [.error e]) (hfit : Fits action call)
    (he : e.Whole) (hkind : e.kind = .writesDisabled) : (release t key call action correlation e).wp Sane Loose
      (fun o u => Means [t] key action w u o) E v := by
  unfold release
  rw [Prog.wp_bind]
  refine h.wp_update fun v₁ h₁ _ => ?_
  rw [Prog.wp_bind]
  refine h₁.wp_finish fun v₂ h₂ _ => ?_
  rw [Prog.wp_bind]
  refine h₂.wp_recordReason (complete_local he.name (c := 'c') rfl (by decide) correlation) fun v₃ h₃ hon => ?_
  refine ⟨Or.inl rfl, fun _ => ⟨fun k => ?_, fun a ha hd => ?_, Or.inr ⟨call, e, hkind, hfit, h₃.said⟩⟩, nofun, nofun, ?_⟩
  · by_cases hk : k = t.tradeId
    · subst hk
      rw [h₃.core, ht]
      rfl
    · exact h₃.others k hk
  · rw [h₃.attempts] at ha
    rcases List.mem_append.mp ha with ha | ha
    · exact ha
    · rw [List.mem_singleton.mp ha] at hd
      cases hd
  · intro u hu
    exact List.mem_singleton.mp hu ▸ hon

theorem perform_means {owner : Owner} {plan : Plan} (ht : w.journal.trade? t.tradeId = some t)
    (h : Tracked w v t.tradeId key { t.core with state := .dispatching } .dispatching [] []) (hfit : Fits action plan.call) :
    (perform owner t key api plan action correlation).wp Sane Loose (fun o u => Means [t] key action w u o) E v := by
  unfold perform
  rw [Prog.wp_bind, Prog.wp_tryCatch, Prog.wp_map]
  refine h.wp_invoke (fun v₁ r h₁ => ?_) fun v₁ e h₁ he => ?_
  · dsimp only
    rw [Prog.wp_tryCatch, Prog.wp_bind, wp_raiseIf]
    refine ⟨fun _ => fail_means h₁ hfit whole_unverified, fun hstatus => ?_⟩
    rw [Prog.wp_bind, Prog.wp_tryCatch, Prog.wp_bind]
    refine h₁.wp_update fun v₂ h₂ _ => ?_
    rw [Prog.wp_bind]
    refine h₂.wp_finish fun v₃ h₃ _ => ?_
    refine h₃.wp_recordReason ⟨(by decide : blank "broker" = false), (by decide : blank "OK" = false), ?_⟩ fun v₄ h₄ hon => ?_
    · simp only [String.append_assoc]
      exact blank_append (c := 'b') rfl (by decide)
    · refine ⟨Or.inr (Or.inl rfl), nofun, fun _ => ⟨plan.call, r, hfit, not_not.mp hstatus, h₄.said⟩, nofun, ?_⟩
      intro u hu
      exact List.mem_singleton.mp hu ▸ hon
  · rw [Prog.wp_map]
    split
    · next hkind =>
      rw [Prog.wp_tryCatch]
      exact release_means ht h₁ hfit he hkind
    · exact fail_means h₁ hfit he

/-- A refusal that is put on record leaves everything else as it was. -/
theorem held_means {o : Outcome} {reason : Reason} {P : Unit → World → Prop} (hw : w.journal.ReasonsComplete) (h : Undone w v)
    (ho : o.decision = .held) (hreason : reason.Complete) (hP : ∀ u, Means [t] key action w u o → P () u) :
    (Store.recordReason t.tradeId key 1 .held reason).wp Sane Loose P E v := by
  have hv : v.journal.ReasonsComplete := fun q hq => hw q (h.reasons ▸ hq)
  refine sane_recordReason hv hreason fun rows _ _ hon => hP _ ?_
  have hsaid : Said w { v with journal := { v.journal with reasons := rows } } [] [] := by
    obtain ⟨es, hes⟩ := h.said.trace
    exact ⟨es, hes⟩
  refine ⟨Or.inl ho, fun _ => ⟨h.cores, fun a ha _ => ?_, Or.inl hsaid⟩, fun ha => ?_, fun ha => ?_, fun u hu => ?_⟩
  · exact h.attempts ▸ ha
  · rw [ho] at ha
    cases ha
  · rw [ho] at ha
    cases ha
  · exact List.mem_singleton.mp hu ▸ hon

theorem commit_means {plan : Plan} {destination : String} (hw : w.journal.ReasonsComplete)
    (ht : w.journal.trade? t.tradeId = some t) (h : Undone w v) (hfit : Fits (actionOf s) plan.call) :
    (commit t s api plan destination).wp Sane Loose (fun o u => Means [t] (keyOf s) (actionOf s) w u o)
      (fun e u => e = .integrity ∧ Said w u [] []) v := by
  unfold commit Store.claim
  rw [Prog.wp_bind, Prog.wp_bind, wp_now]
  intro at_ _
  refine sane_transact (fun e he => ⟨Journal.claim_raises he, h.said⟩) fun claimed j hj => ?_
  cases claimed with
  | false =>
    obtain rfl := Journal.claim_refused hj
    simp only [Bool.not_false, if_true, Prog.wp_bind]
    unfold refuse
    exact held_means hw h rfl (complete_local (by decide) (c := 'l') rfl (by decide) _) fun u hu => hu
  | true =>
    simp only [Bool.not_true, Bool.false_eq_true, if_false, Prog.wp_bind]
    obtain ⟨⟨r, hr, -⟩, hfresh, rfl⟩ := Journal.claim_ok hj
    have hcore : r.core = t.core := by
      have hcores := h.cores t.tradeId
      rw [hr, ht] at hcores
      exact Option.some.inj hcores
    let claimed := v.journal.dispatching t.tradeId (keyOf s) s.clientEventId (actionOf s) destination plan.call at_.isoformat
    have hclaimed : Tracked w { v with journal := claimed } t.tradeId (keyOf s) { t.core with state := .dispatching } .dispatching
        [] [] := by
      refine ⟨?_, fun k hk => ?_, congrArg (· ++ _) h.attempts, h.attempts ▸ hfresh, fun q hq => hw q (h.reasons ▸ hq), ?_⟩
      · rw [Journal.trade?_dispatching, if_pos rfl, hr, ← hcore]
        rfl
      · rw [Journal.trade?_dispatching, if_neg hk]
        exact h.cores k
      · obtain ⟨es, hes⟩ := h.said.trace
        exact ⟨es, hes⟩
    refine hclaimed.wp_update fun v₁ h₁ _ => ?_
    exact Prog.wp_consequence (perform_means ht h₁ hfit) (fun _ _ ho => ho) fun _ _ => False.elim

theorem applyTo_means {session : Option Api} {destination : String} {verified : Bool} (hw : w.journal.ReasonsComplete)
    (ht : w.journal.trade? t.tradeId = some t) : (applyTo t s session destination verified).wp Sane Loose
      (fun o u => Means [t] (keyOf s) (actionOf s) w u o) (fun e u => e = .integrity ∧ Said w u [] []) w := by
  unfold applyTo preflight
  rw [Prog.wp_bind, Prog.wp_tryCatch, Prog.wp_map]
  refine Prog.wp_consequence prepare_sane (fun r v hv => ?_) fun e v hv => ?_
  · exact commit_means hw ht hv.1 hv.2
  · split
    · next code hcode =>
      rw [Prog.wp_bind]
      unfold refuse
      exact held_means hw hv.1 rfl (complete_local (hv.2.refusal code hcode) (c := 'l') rfl (by decide) _) fun u hu => hu
    · rw [Prog.wp_bind]
      refine held_means hw hv.1 rfl ?_ fun u hu => hu
      cases hr : e.reason with
      | none => exact complete_local hv.2.name (c := 'p') rfl (by decide) _
      | some r => exact hv.2.reason r hr

theorem refuseAll_means {o : Outcome} {trades : List TradeRow} {code correlation : String} (hw : w.journal.ReasonsComplete)
    (hcode : blank code = false) (ho : o.decision = .held) :
    (trades.forM fun t => refuse t.tradeId key code correlation).wp Sane Loose
      (fun _ u => Means trades key action w u o) E w := by
  let kept (rest : List TradeRow) (u : World) : Prop := (∃ rows, u = { w with journal := { w.journal with reasons := rows } })
    ∧ u.journal.ReasonsComplete ∧ ∀ t ∈ trades, t ∈ rest ∨ u.journal.Reasoned t.tradeId key
  have hloop := Prog.wp_forM (A := Sane) (G := Loose) (E := E) (I := kept) trades
    (f := fun t => refuse t.tradeId key code correlation) (fun t rest u hu => ?_)
    (s := w) ⟨⟨w.journal.reasons, rfl⟩, hw, fun t ht => Or.inl ht⟩
  · refine Prog.wp_consequence hloop (fun _ u hu => ?_) fun _ _ hu => hu
    obtain ⟨⟨rows, rfl⟩, -, hon⟩ := hu
    refine ⟨Or.inl ho, fun _ => ⟨.of_trades rfl, fun a ha _ => ha, Or.inl (.of_trace rfl)⟩, fun ha => ?_, fun ha => ?_,
      fun t ht => (hon t ht).resolve_left List.not_mem_nil⟩
    · rw [ho] at ha
      cases ha
    · rw [ho] at ha
      cases ha
  · obtain ⟨⟨rows, rfl⟩, hcomplete, hon⟩ := hu
    unfold refuse
    refine sane_recordReason hcomplete (complete_local hcode (c := 'l') rfl (by decide) correlation) fun more hmore hall hreason => ?_
    refine ⟨⟨more, rfl⟩, hall, fun x hx => ?_⟩
    rcases hon x hx with hin | hr
    · rcases List.mem_cons.mp hin with rfl | hin
      · exact Or.inr hreason
      · exact Or.inl hin
    · obtain ⟨q, hq, hk⟩ := hr
      exact Or.inr ⟨q, hmore q hq, hk⟩

/-- What an unwinding returns, raises and writes. -/
structure OutcomeLaw (s : Ending) (trades : List TradeRow) (w v : World) (r : Except Exc (Option Outcome)) : Prop where
  unlinked : r = .ok none → trades = []
  means : ∀ o, r = .ok (some o) → Means trades (keyOf s) (actionOf s) w v o
  raised : ∀ e, r = .error e → e = .integrity ∧ Said w v [] []
  writes : ∃ calls replies, Said w v calls replies ∧ calls.length ≤ 1 ∧ ∀ call ∈ calls, Fits (actionOf s) call

omit [Host] in
theorem Means.writes {trades : List TradeRow} {o : Outcome} (h : Means trades key action w v o) :
    ∃ calls replies, Said w v calls replies ∧ calls.length ≤ 1 ∧ ∀ call ∈ calls, Fits action call := by
  have hone {call : Call} {reply : Except Exc Operation} (hfit : Fits action call) (hsaid : Said w v [call] [reply]) :
      ∃ calls replies, Said w v calls replies ∧ calls.length ≤ 1 ∧ ∀ call ∈ calls, Fits action call :=
    ⟨[call], [reply], hsaid, le_rfl, fun c hc => List.mem_singleton.mp hc ▸ hfit⟩
  rcases h.decided with hd | hd | hd
  · rcases (h.held hd).2.2 with hsaid | ⟨call, e, -, hfit, hsaid⟩
    · exact ⟨[], [], hsaid, Nat.zero_le _, List.forall_mem_nil _⟩
    · exact hone hfit hsaid
  · obtain ⟨call, r, hfit, -, hsaid⟩ := h.accepted hd
    exact hone hfit hsaid
  · obtain ⟨⟨call, r, hfit, hsaid⟩, -⟩ := h.uncertain hd
    exact hone hfit hsaid

omit [Host] in
theorem OutcomeLaw.of_means {trades : List TradeRow} {o : Outcome} (h : Means trades (keyOf s) (actionOf s) w v o) :
    OutcomeLaw s trades w v (.ok (some o)) where
  unlinked ho := by cases ho
  means _ ho := Option.some.inj (Except.ok.inj ho) ▸ h
  raised _ he := by cases he
  writes := h.writes

omit [Host] in
theorem OutcomeLaw.of_none (w : World) : OutcomeLaw s [] w w (.ok none) where
  unlinked _ := rfl
  means _ ho := by cases ho
  raised _ he := by cases he
  writes := ⟨[], [], .of_trace rfl, Nat.zero_le _, List.forall_mem_nil _⟩

omit [Host] in
theorem OutcomeLaw.of_integrity {trades : List TradeRow} {e : Exc} (he : e = .integrity) (hsaid : Said w v [] []) :
    OutcomeLaw s trades w v (.error e) where
  unlinked ho := by cases ho
  means _ ho := by cases ho
  raised _ hx := ⟨(Except.error.inj hx).symm.trans he, hsaid⟩
  writes := ⟨[], [], hsaid, Nat.zero_le _, List.forall_mem_nil _⟩

omit [Host] in
theorem trade?_of_mem_concerned {tradeId : Option String} (h : t ∈ concerned w.journal s tradeId) :
    w.journal.trade? t.tradeId = some t := by
  unfold concerned at h
  split at h
  · next i =>
    have hi := Option.mem_toList.mp h
    exact (Rows.lookup_mem hi).2 ▸ hi
  · exact trade?_of_mem_linkedTrades h

/-- Whatever the journal, the signal, the broker's answers and its exceptions, the outcome of an unwinding means what it says. -/
theorem unwind_outcomes (session : Option Api) (destination : String) (verified : Bool) (tradeId : Option String)
    (hw : w.journal.ReasonsComplete) (env : Answers) (henv : ∀ i q, Sane q (env i q)) :
    OutcomeLaw s (concerned w.journal s tradeId) w ((apply s session destination verified tradeId).eval env w).1
      ((apply s session destination verified tradeId).eval env w).2 := by
  have hwp : (apply s session destination verified tradeId).wp Sane Loose
      (fun r u => OutcomeLaw s (concerned w.journal s tradeId) w u (.ok r))
      (fun e u => OutcomeLaw s (concerned w.journal s tradeId) w u (.error e)) w := by
    unfold apply
    rw [Prog.wp_bind, wp_readsWorld]
    have hmem : ∀ t ∈ concerned w.journal s tradeId, w.journal.trade? t.tradeId = some t := fun t => trade?_of_mem_concerned
    generalize hc : concerned w.journal s tradeId = trades at hmem ⊢
    unfold concerned at hc
    cases tradeId
    all_goals
      dsimp only at hc ⊢
      rw [hc]
      split
      · exact OutcomeLaw.of_none w
      · next t =>
        have ht : w.journal.trade? t.tradeId = some t := hmem t List.mem_cons_self
        rw [Prog.wp_bind]
        refine Prog.wp_consequence (applyTo_means hw ht) (fun o u ho => ?_) fun e u he => ?_
        · exact OutcomeLaw.of_means ho
        · exact OutcomeLaw.of_integrity he.1 he.2
      · rw [Prog.wp_bind]
        exact Prog.wp_consequence (refuseAll_means hw (by decide) rfl) (fun _ u hu => .of_means hu) fun _ _ h => h
  obtain ⟨-, hok, herror⟩ := Prog.wp_eval hwp env henv
  cases hr : ((apply s session destination verified tradeId).eval env w).2 with
  | ok r => exact hok r hr
  | error e => exact herror e hr

end Unwind

section Sample

attribute [local instance] sampleHost

/-- The source closed the lifecycle of the order that was sent. -/
def sampleEnding : Ending := ⟨"closed", "PC", "s1", "sig1", noon 50, "EURUSD"⟩

def unwound : World × Except Exc (Option Unwind.Outcome) :=
  (Unwind.apply sampleEnding (some sampleApi) "A" true (some "t1")).eval positionAnswers readBackWorld

theorem sane_positionAnswers (i : Nat) (q : Query) : Sane q (positionAnswers i q) := by
  have hok {α : Type} {a : α} : ∀ e, (Except.ok a : Except Exc α) = .error e → e.Whole := fun e he => by cases he
  cases q with
  | commitFails => rfl
  | openPositions api => exact hok
  | activeOrders api => exact hok
  | write api call => exact hok
  | clock | uuid4 | instruments | quotes | equity | closedPositions => exact True.intro

/-- The position is closed, and the accepted outcome says so. -/
theorem unwind_outcomes_closed : ∃ call r, Unwind.Fits (Unwind.actionOf sampleEnding) call ∧ r.status = some "OK"
    ∧ Said readBackWorld unwound.1 [call] [.ok r] := by
  have hreasons : readBackWorld.journal.reasons.all (fun q => !blank q.origin && !blank q.code && !blank q.evidence) = true := by
    decide +kernel
  have haccepted : unwound.2.toOption.any (fun o => o.any fun o => o.decision = .accepted) = true := by decide +kernel
  have hcomplete : readBackWorld.journal.ReasonsComplete := fun q hq => by
    have h := List.all_eq_true.mp hreasons q hq
    simp only [Bool.and_eq_true, Bool.not_eq_true', and_assoc] at h
    exact h
  obtain ⟨out, hout, hany⟩ := exists_ok haccepted
  obtain ⟨o, rfl, hd⟩ := (Option.any_eq_true _ _).mp hany
  have hlaw := Unwind.unwind_outcomes (s := sampleEnding) (some sampleApi) "A" true (some "t1") hcomplete positionAnswers
    sane_positionAnswers
  have hmeans := hlaw.means o (by unfold unwound at hout; exact hout)
  exact hmeans.accepted (of_decide_eq_true hd)

end Sample

end MatchTrader
