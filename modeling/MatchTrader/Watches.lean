import MatchTrader.StopLimitRoutes
import MatchTrader.StopLimitWatcher

/-! A watcher acts at most once: every order of calls on it, and every answer they get, leads to
at most one opening write, and what has come to an end stays as it is. -/

namespace MatchTrader

namespace StopLimitWatcher

open StopLimit

/-- The opening writes among the effects of a call. -/
def writes (effects : List Effect) : List Call :=
  effects.filterMap fun e => match e with | .write call => some call | _ => none

/-- The states that nothing follows. -/
def Final (s : State) : Prop := s = .filled ∨ s = .held ∨ s = .cancelled ∨ s = .expired

/-- The poll is made within the trigger window of the plan, if it has one. -/
def InWindow (plan : StopLimitPlan) (a : PollAnswers) : Prop :=
  plan.expireAfterSeconds.isZero = true
    ∨ ∃ t, a.elapsed = .ok t ∧ (Number.finite plan.expireAfterSeconds).lt t = .ok false

/-- The price is at or beyond the stop price. -/
def AtStop (plan : StopLimitPlan) (market : Number) : Prop :=
  if plan.orderSide = .buy then (Number.finite plan.stopPrice).le market = .ok true
  else market.le (.finite plan.stopPrice) = .ok true

/-- The feed answers the poll with a quote of the instrument that is at or beyond the stop price. -/
def Quoted (plan : StopLimitPlan) (a : PollAnswers) : Prop :=
  ∃ rows, a.quotes = .ok rows ∧ ∃ row ∈ rows, (row.symbol = some plan.instrument ∨ row.symbol = none)
    ∧ ∃ market, row.market plan.orderSide = .ok market ∧ AtStop plan market

section Reached

variable {plan : StopLimitPlan} {market : Number} {level : Decimal} {d : StopLimit.Decision} {a : PollAnswers}

theorem decideAt_reached (h : decideAt plan market level = .ok d) (hr : d.route ≠ .wait) : AtStop plan market := by
  unfold AtStop
  cases market with
  | finite m =>
    have hreached := decide_reached h hr
    unfold Reached at hreached
    split at hreached
    · next hs =>
      rw [if_pos hs, Number.le_finite, decide_eq_true hreached]
    · next hs =>
      rw [if_neg hs, Number.le_finite, decide_eq_true hreached]
  | nan signaling => cases h
  | infinite below =>
    unfold decideAt at h
    dsimp only at h
    by_cases hs : plan.orderSide = .buy
    · rw [if_pos hs] at h ⊢
      cases below with
      | true => exact absurd (congrArg StopLimit.Decision.route (Except.ok.inj h)).symm hr
      | false => rfl
    · rw [if_neg hs] at h ⊢
      cases below with
      | true => rfl
      | false => exact absurd (congrArg StopLimit.Decision.route (Except.ok.inj h)).symm hr

theorem consider_quoted {w : StopLimitWatcher} (h : w.consider a.quotes = .ok d) (hr : d.route ≠ .wait) :
    Quoted w.plan a := by
  obtain ⟨row, hrow, h⟩ := bind_eq_ok.mp h
  obtain ⟨market, hmarket, hd⟩ := bind_eq_ok.mp h
  obtain ⟨rows, hrows, hfind⟩ := bind_eq_ok.mp hrow
  split at hfind
  · next found hf =>
    obtain rfl := Except.ok.inj hfind
    have hsymbol : found.symbol = some w.plan.instrument ∨ found.symbol = none := by simpa using List.find?_some hf
    exact ⟨rows, hrows, found, List.mem_of_find?_eq_some hf, hsymbol, market, hmarket, decideAt_reached hd hr⟩
  · cases hfind

theorem window_inWindow {plan : StopLimitPlan} (h : windowElapsed plan a.elapsed = .ok false) : InWindow plan a := by
  unfold windowElapsed at h
  split at h
  · next hz => exact Or.inl hz
  · obtain ⟨t, ht, h⟩ := bind_eq_ok.mp h
    refine Or.inr ⟨t, ht, ?_⟩
    unfold arith at h
    cases hlt : (Number.finite plan.expireAfterSeconds).lt t with
    | error s => rw [hlt] at h; cases h
    | ok b =>
      rw [hlt] at h
      exact congrArg Except.ok (Except.ok.inj h)

end Reached

section Record

variable (w : StopLimitWatcher) (s : State) (reason : String) (answer : Except Exc Unit)

theorem record_after : (w.record s reason answer).after = { w with state := s, reason } := by
  unfold record
  dsimp only
  split <;> rfl

@[simp] theorem record_state : (w.record s reason answer).after.state = s := by rw [record_after]

@[simp] theorem record_plan : (w.record s reason answer).after.plan = w.plan := by rw [record_after]

@[simp] theorem record_writes : writes (w.record s reason answer).effects = [] := by
  unfold record
  dsimp only
  split <;> rfl

end Record

theorem writes_append (xs ys : List Effect) : writes (xs ++ ys) = writes xs ++ writes ys := List.filterMap_append

/-- The state that a write of a route leaves the watcher in. -/
def settled (route : Route) : Except Exc WriteReply → State
  | .error _ => .held
  | .ok _ => if route = .market then .filled else .working

variable [WatchHost] {w : StopLimitWatcher} {a : PollAnswers} {d : StopLimit.Decision} {op : Op}

theorem settle_state {route : Route} {write : Except Exc WriteReply} {journaled : Except Exc Unit} :
    (w.settle route write journaled).after.state = settled route write := by
  unfold settle settled
  cases write with
  | error e => exact record_state ..
  | ok reply =>
    by_cases hm : route = .market
    · simp only [if_pos hm, record_state]
    · simp only [if_neg hm, record_state]

theorem settle_writes {route : Route} {write : Except Exc WriteReply} {journaled : Except Exc Unit} :
    writes (w.settle route write journaled).effects = [] := by
  unfold settle
  cases write with
  | error e => exact record_writes ..
  | ok reply =>
    by_cases hm : route = .market
    · simp only [if_pos hm, record_writes]
    · simp only [if_neg hm, record_writes]

/-- What a poll that issues a write found and left. -/
structure Wrote (w : StopLimitWatcher) (a : PollAnswers) : Prop where
  armed : w.state = .armed
  window : InWindow w.plan a
  quoted : Quoted w.plan a
  act : ∃ route, writes (w.poll a).effects = [opening w.plan route] ∧ (w.poll a).after.state = settled route a.write
  result : (w.poll a).result = .ok (w.poll a).after.state

/-- An action whose commitment is journaled issues the write of its route and settles its answer. -/
theorem act_sends {t : State} (h : (w.record .dispatching d.reason a.committed).result = .ok t) :
    writes (w.act d a).effects = [opening w.plan d.route] ∧ (w.act d a).after.state = settled d.route a.write
      ∧ (w.act d a).result = .ok (w.act d a).after.state := by
  unfold act
  dsimp only
  rw [h]
  refine ⟨?_, settle_state, rfl⟩
  have hfirst := record_writes w .dispatching d.reason a.committed
  calc writes ((w.record .dispatching d.reason a.committed).effects ++ Effect.write (opening w.plan d.route) :: _)
      = [] ++ opening w.plan d.route :: writes (settle _ d.route a.write a.journaled).effects := by
        rw [writes_append, hfirst]
        rfl
    _ = [opening w.plan d.route] := by rw [settle_writes, List.nil_append]

/-- An action whose commitment is not journaled issues no write. -/
theorem act_fails {e : Exc} (h : (w.record .dispatching d.reason a.committed).result = .error e) :
    writes (w.act d a).effects = [] := by
  unfold act
  dsimp only
  rw [h]
  exact record_writes ..

/-- An armed watcher acts on a quote that triggers its plan. -/
theorem poll_act (harmed : w.state = .armed) (hwindow : windowElapsed w.plan a.elapsed = .ok false)
    (hc : w.consider a.quotes = .ok d) (hw : d.route ≠ .wait) (hh : d.route ≠ .hold) : w.poll a = w.act d a := by
  simp only [poll, harmed, ne_eq, not_true, if_false, hwindow, hc]

theorem poll_cases (w : StopLimitWatcher) (a : PollAnswers) :
    (writes (w.poll a).effects = [] ∧ ((w.poll a).after.state = w.state ∨ w.state = .armed)) ∨ Wrote w a := by
  by_cases harmed : w.state = .armed
  · suffices h : writes (w.poll a).effects = [] ∨ Wrote w a from h.imp_left fun hnone => ⟨hnone, Or.inr harmed⟩
    cases hwindow : windowElapsed w.plan a.elapsed with
    | error e =>
      left
      simp only [poll, harmed, ne_eq, not_true, if_false, hwindow]
      rfl
    | ok elapsed =>
      cases elapsed with
      | true =>
        left
        simp only [poll, harmed, ne_eq, not_true, if_false, hwindow, record_writes]
      | false =>
        cases hc : w.consider a.quotes with
        | error e =>
          left
          simp only [poll, harmed, ne_eq, not_true, if_false, hwindow, hc]
          rfl
        | ok d =>
          by_cases hw : d.route = .wait
          · left
            simp only [poll, harmed, ne_eq, not_true, if_false, hwindow, hc, hw]
            rfl
          · by_cases hh : d.route = .hold
            · left
              simp only [poll, harmed, ne_eq, not_true, if_false, hwindow, hc, hh, record_writes]
            · have hp := poll_act harmed hwindow hc hw hh
              cases hcommitted : (w.record .dispatching d.reason a.committed).result with
              | error e =>
                left
                rw [hp, act_fails hcommitted]
              | ok t =>
                obtain ⟨hone, hstate, hresult⟩ := act_sends hcommitted
                rw [← hp] at hone hstate hresult
                exact Or.inr ⟨harmed, window_inWindow hwindow, consider_quoted hc hw, ⟨d.route, hone, hstate⟩, hresult⟩
  · have hp : w.poll a = ⟨.ok w.state, w, []⟩ := if_pos harmed
    rw [hp]
    exact Or.inl ⟨rfl, Or.inl rfl⟩

omit [WatchHost] in
theorem cancel_writes {sent : CancelFields → Except Exc Operation} {journaled : Except Exc Unit} :
    writes (w.cancel sent journaled).effects = [] := by
  unfold cancel
  split
  · exact record_writes ..
  · split
    · dsimp only
      split
      · rfl
      · exact record_writes ..
    · rfl
  · rfl

omit [WatchHost] in
/-- A cancel leaves the state as it was, or ends an armed or a working watcher. -/
theorem cancel_state (w : StopLimitWatcher) (sent : CancelFields → Except Exc Operation) (journaled : Except Exc Unit) :
    (w.cancel sent journaled).after.state = w.state
      ∨ (w.state = .armed ∨ w.state = .working) ∧ (w.cancel sent journaled).after.state = .cancelled := by
  unfold cancel
  split
  · next h => exact Or.inr ⟨Or.inl h, record_state ..⟩
  · next h =>
    split
    · dsimp only
      split
      · exact Or.inl rfl
      · exact Or.inr ⟨Or.inr h, record_state ..⟩
    · exact Or.inl rfl
  · exact Or.inl rfl

omit [WatchHost] in
theorem loadLimits_after (w : StopLimitWatcher) (instruments : Except Exc (List LimitRow)) :
    (w.loadLimits instruments).2.state = w.state ∧ (w.loadLimits instruments).2.plan = w.plan := by
  unfold loadLimits
  cases instruments with
  | error e => exact ⟨rfl, rfl⟩
  | ok rows =>
    dsimp only
    split <;> exact ⟨rfl, rfl⟩

/-- What a call does: it writes nothing and leaves the state, or the watcher was armed, or it was
working and is cancelled; or it is a poll that writes. -/
theorem step_cases (w : StopLimitWatcher) (op : Op) :
    (writes (w.step op).2 = []
        ∧ ((w.step op).1.state = w.state ∨ w.state = .armed ∨ w.state = .working ∧ (w.step op).1.state = .cancelled))
      ∨ ∃ a, op = .poll a ∧ Wrote w a := by
  cases op with
  | poll a =>
    rcases poll_cases w a with ⟨hnone, hstate⟩ | hwrote
    · exact Or.inl ⟨hnone, hstate.imp_right Or.inl⟩
    · exact Or.inr ⟨a, rfl, hwrote⟩
  | cancel sent journaled =>
    refine Or.inl ⟨cancel_writes, ?_⟩
    rcases cancel_state w sent journaled with hsame | ⟨harmed | hworking, hstate⟩
    · exact Or.inl hsame
    · exact Or.inr (Or.inl harmed)
    · exact Or.inr (Or.inr ⟨hworking, hstate⟩)
  | loadLimits instruments =>
    have hlimits := loadLimits_after w instruments
    exact Or.inl ⟨rfl, Or.inl hlimits.1⟩

omit [WatchHost] in
theorem settled_ne_armed {route : Route} {write : Except Exc WriteReply} : settled route write ≠ .armed := by
  unfold settled
  split
  · nofun
  · split <;> nofun

/-- A watcher that left the armed state never writes again. -/
theorem step_spent (h : w.state ≠ .armed) : writes (w.step op).2 = [] ∧ (w.step op).1.state ≠ .armed := by
  rcases step_cases w op with ⟨hnone, hsame | harmed | ⟨-, hcancelled⟩⟩ | ⟨a, -, hwrote⟩
  · exact ⟨hnone, hsame ▸ h⟩
  · exact absurd harmed h
  · exact ⟨hnone, hcancelled ▸ nofun⟩
  · exact absurd hwrote.armed h

theorem step_final (h : Final w.state) : (w.step op).1.state = w.state := by
  have hcases : w.state ≠ .armed ∧ w.state ≠ .working := by
    unfold Final at h
    grind
  rcases step_cases w op with ⟨-, hsame | harmed | ⟨hworking, -⟩⟩ | ⟨a, -, hwrote⟩
  · exact hsame
  · exact absurd harmed hcases.1
  · exact absurd hworking hcases.2
  · exact absurd hwrote.armed hcases.1

theorem spent_writes {ops : List Op} (h : w.state ≠ .armed) : writes (w.effects ops) = [] := by
  induction ops generalizing w with
  | nil => rfl
  | cons op rest ih =>
    have hstep : writes (w.step op).2 = [] ∧ (w.step op).1.state ≠ .armed := step_spent h
    rw [effects, writes_append, hstep.1, List.nil_append, ih hstep.2]

theorem writes_once (w : StopLimitWatcher) (ops : List Op) : (writes (w.effects ops)).length ≤ 1 := by
  induction ops generalizing w with
  | nil => exact Nat.zero_le _
  | cons op rest ih =>
    rw [effects, writes_append, List.length_append]
    rcases step_cases w op with ⟨hnone, -⟩ | ⟨a, rfl, hwrote⟩
    · have hrest := ih (w.step op).1
      rw [hnone]
      simpa using hrest
    · obtain ⟨route, hone, hstate⟩ := hwrote.act
      have hspent : ((w.step (.poll a)).1).state ≠ .armed := by
        have hs : (w.step (.poll a)).1.state = settled route a.write := hstate
        rw [hs]
        exact settled_ne_armed
      have hw : writes (w.step (.poll a)).2 = [opening w.plan route] := hone
      rw [hw, spent_writes hspent]
      simp

theorem final_after {ops : List Op} (h : Final w.state) : (w.after ops).state = w.state := by
  induction ops generalizing w with
  | nil => rfl
  | cons op rest ih =>
    have hsame : (w.step op).1.state = w.state := step_final h
    have hrest : ((w.step op).1.after rest).state = (w.step op).1.state := ih (hsame ▸ h)
    exact hrest.trans hsame

/-- A watcher that left the armed state keeps its state, but for a resting order that is cancelled. -/
theorem spent_after {ops : List Op} (h : w.state ≠ .armed) :
    (w.after ops).state = w.state ∨ w.state = .working ∧ (w.after ops).state = .cancelled := by
  induction ops generalizing w with
  | nil => exact Or.inl rfl
  | cons op rest ih =>
    have hstep : writes (w.step op).2 = [] ∧ (w.step op).1.state ≠ .armed := step_spent h
    have hnext := ih hstep.2
    rcases step_cases w op with ⟨-, hsame | harmed | ⟨hworking, hcancelled⟩⟩ | ⟨a, -, hwrote⟩
    · rw [hsame] at hnext
      exact hnext
    · exact absurd harmed h
    · have hfinal : Final (w.step op).1.state := Or.inr (Or.inr (Or.inl hcancelled))
      exact Or.inr ⟨hworking, (final_after hfinal).trans hcancelled⟩
    · exact absurd hwrote.armed h

theorem poll_plan : (w.poll a).after.plan = w.plan := by
  unfold poll
  split
  · rfl
  · split
    · rfl
    · exact record_plan ..
    · split
      · rfl
      · split
        · rfl
        · exact record_plan ..
        · unfold act settle
          dsimp only
          split
          · exact record_plan ..
          · cases a.write with
            | error e => simp only [record_plan]
            | ok reply =>
              dsimp only
              split <;> simp only [record_plan]

theorem step_plan : (w.step op).1.plan = w.plan := by
  cases op with
  | poll a => exact poll_plan
  | cancel sent journaled =>
    unfold step cancel
    dsimp only
    split
    · exact record_plan ..
    · split
      · split
        · rfl
        · exact record_plan ..
      · rfl
    · rfl
  | loadLimits instruments => exact (loadLimits_after w instruments).2

theorem after_plan {ops : List Op} : (w.after ops).plan = w.plan := by
  induction ops generalizing w with
  | nil => rfl
  | cons op rest ih => exact ih.trans step_plan

omit [WatchHost] in
theorem record_result {s t : State} {reason : String} {answer : Except Exc Unit}
    (h : (w.record s reason answer).result = .ok t) : t = s := by
  unfold record at h
  dsimp only at h
  split at h
  · cases answer with
    | error e => cases h
    | ok u => exact (Except.ok.inj h).symm
  · exact (Except.ok.inj h).symm

theorem poll_result {s : State} (h : (w.poll a).result = .ok s) : (w.poll a).after.state = s := by
  unfold poll at h ⊢
  split at h
  · next hs =>
    rw [if_pos hs]
    exact Except.ok.inj h
  · next hs =>
    rw [if_neg hs]
    split at h
    · cases h
    · rw [record_state, record_result h]
    · split at h
      · cases h
      · split at h
        · exact Except.ok.inj h
        · rw [record_state, record_result h]
        · unfold act at h ⊢
          dsimp only at h ⊢
          split at h
          · next hr => rw [hr] at h; cases h
          · exact Except.ok.inj h

/-- The loop polls while it is told that the watcher is armed, and ends with the first other answer. -/
structure Stops (w : StopLimitWatcher) (rounds : List Round) : Prop where
  waiting : ∀ p ∈ (w.run rounds).1.dropLast, p = .ok .armed
  returns : ∀ s, (w.run rounds).1.getLast? = some (.ok s) → s ≠ .armed →
    ∃ t, (w.run rounds).2 = some (.ok t) ∧ (t = s ∨ s = .working ∧ t = .cancelled)
  returned : ∀ t, (w.run rounds).2 = some (.ok t) → ∃ s, (w.run rounds).1.getLast? = some (.ok s) ∧ s ≠ .armed
  polling : (w.run rounds).2 = none → (w.run rounds).1.length = rounds.length ∧ ∀ p ∈ (w.run rounds).1, p = .ok .armed

omit [WatchHost] in
theorem getLast_of_armed {polls : List (Except Exc State)} {s : State}
    (h : (.ok .armed :: polls).getLast? = some (.ok s)) (hs : s ≠ .armed) : polls.getLast? = some (.ok s) := by
  rw [List.getLast?_cons] at h
  cases hlast : polls.getLast? with
  | none =>
    rw [hlast] at h
    exact absurd (Except.ok.inj (Option.some.inj h)).symm hs
  | some p =>
    rw [hlast] at h
    exact h

/-- A poll that finds the watcher armed is followed by the rest of the loop. -/
theorem Stops.next {r : Round} {rest : List Round}
    (hp : ((w.after r.others).poll r.poll).result = .ok .armed) (hs : r.slept = .ok ())
    (ih : Stops ((w.after r.others).poll r.poll).after rest) : Stops w (r :: rest) := by
  have hrun : w.run (r :: rest) =
      (.ok .armed :: (((w.after r.others).poll r.poll).after.run rest).1, (((w.after r.others).poll r.poll).after.run rest).2) := by
    simp only [run, hp, hs]
  constructor
  · intro p hmem
    rw [hrun] at hmem
    rcases hnext : (((w.after r.others).poll r.poll).after.run rest).1 with _ | ⟨q, more⟩
    · rw [hnext] at hmem
      cases hmem
    · rw [hnext, List.dropLast_cons_of_ne_nil (List.cons_ne_nil q more), ← hnext] at hmem
      rcases List.mem_cons.mp hmem with rfl | hmem
      · rfl
      · exact ih.waiting p hmem
  · intro s hlast hne
    rw [hrun] at hlast ⊢
    exact ih.returns s (getLast_of_armed hlast hne) hne
  · intro t ht
    rw [hrun] at ht ⊢
    obtain ⟨s, hlast, hne⟩ := ih.returned t ht
    exact ⟨s, by rw [List.getLast?_cons, hlast]; rfl, hne⟩
  · intro hnone
    rw [hrun] at hnone ⊢
    obtain ⟨hlength, harmed⟩ := ih.polling hnone
    exact ⟨by rw [List.length_cons, List.length_cons, hlength], List.forall_mem_cons.mpr ⟨rfl, harmed⟩⟩

theorem run_stops (w : StopLimitWatcher) (rounds : List Round) : Stops w rounds := by
  induction rounds generalizing w with
  | nil => exact ⟨nofun, nofun, nofun, fun _ => ⟨rfl, nofun⟩⟩
  | cons r rest ih =>
    cases hp : ((w.after r.others).poll r.poll).result with
    | error e =>
      have hrun : w.run (r :: rest) = ([.error e], some (.error e)) := by simp only [run, hp]
      constructor <;> rw [hrun] <;> nofun
    | ok s =>
      by_cases hs : s = .armed
      · subst hs
        cases hslept : r.slept with
        | error e =>
          have hrun : w.run (r :: rest) = ([.ok .armed], some (.error e)) := by simp only [run, hp, hslept]
          constructor <;> rw [hrun]
          · nofun
          · intro s hlast hne
            exact absurd (Except.ok.inj (Option.some.inj hlast)).symm hne
          · nofun
          · nofun
        | ok u => exact Stops.next hp hslept (ih _)
      · have hleft := poll_result hp
        have hrun : w.run (r :: rest) =
            ([.ok s], some (.ok (((w.after r.others).poll r.poll).after.after r.later).state)) := by
          simp only [run, hp]
        constructor <;> rw [hrun]
        · nofun
        · intro t hlast hne
          obtain rfl := Except.ok.inj (Option.some.inj hlast)
          let left := ((w.after r.others).poll r.poll).after
          have hspent : (left.after r.later).state = left.state ∨ left.state = .working ∧ (left.after r.later).state = .cancelled :=
            spent_after (hleft ▸ hne)
          rw [hleft] at hspent
          exact ⟨_, rfl, hspent⟩
        · intro t ht
          exact ⟨s, rfl, hs⟩
        · nofun

/-- The law of a watcher that acts at most once, over every order of calls on it. -/
structure ActsOnce (w : StopLimitWatcher) : Prop where
  once : ∀ ops, (writes (w.effects ops)).length ≤ 1
  /-- A write is issued by a poll of an armed watcher, and held when it fails. -/
  cause : ∀ ops op call, call ∈ writes ((w.after ops).step op).2 → ∃ a, op = .poll a ∧ (w.after ops).state = .armed
    ∧ InWindow w.plan a ∧ Quoted w.plan a
    ∧ ∀ e, a.write = .error e → ((w.after ops).poll a).after.state = .held ∧ ((w.after ops).poll a).result = .ok .held
  final : ∀ ops later, Final (w.after ops).state → ((w.after ops).after later).state = (w.after ops).state
  stops : ∀ ops rounds, Stops (w.after ops) rounds

theorem acts_at_most_once (plan : StopLimitPlan) (journal : Bool) : ActsOnce { plan, journal } where
  once := writes_once _
  cause := by
    intro ops op call hcall
    rcases step_cases (after { plan, journal } ops) op with ⟨hnone, -⟩ | ⟨a, rfl, hwrote⟩
    · rw [hnone] at hcall
      cases hcall
    · have hplan : (after { plan, journal } ops).plan = plan := after_plan
      refine ⟨a, rfl, hwrote.armed, hplan ▸ hwrote.window, hplan ▸ hwrote.quoted, fun e he => ?_⟩
      obtain ⟨route, -, hstate⟩ := hwrote.act
      rw [he] at hstate
      exact ⟨hstate, by rw [hwrote.result, hstate]; rfl⟩
  final := fun ops later h => final_after h
  stops := fun ops rounds => run_stops _ rounds

end StopLimitWatcher

end MatchTrader
