import MatchTrader.Redeliveries

/-! Starts after a stop. What was in flight becomes uncertain in one commit, and its reasons follow
in commits of their own; a start that is cut short between them leaves attempts that nothing explains. -/

namespace MatchTrader

open Durable

section Transactions

variable {α : Type} {env : Answers} {w : World}

theorem guarded_moves {p : Act α} {n : Nat} (h : ∀ env, p.moves env w ≤ n + 1) : (guarded p).moves env w ≤ n + 2 := by
  refine Nat.succ_le_succ ?_
  obtain ⟨b, hb⟩ : ∃ b : Bool, env 0 Query.commitFails = b := ⟨_, rfl⟩
  rw [hb]
  cases b with
  | true => exact Nat.succ_le_succ (Nat.zero_le n)
  | false => exact h _

/-- A transaction that is not complete leaves no trace. -/
theorem transact_stop {f : Tx α} {n : Nat} (h : n < (transact f).moves env w) : (transact f).stop n env w = w := by
  have hmoves : (transact f).moves env w ≤ 2 := guarded_moves fun env => Prog.attempt_moves _ env w
  cases n with
  | zero => exact Prog.stop_zero _ _ _
  | succ n =>
    obtain rfl : n = 0 := by omega
    exact Prog.stop_zero _ _ w

end Transactions

namespace Journal

variable {j k : Journal}

/-- A reason is on record for an attempt. -/
def Explained (j : Journal) (key : String × ActionKey) : Prop := ∃ r ∈ j.reasons, (r.tradeId, r.actionKey) = key

theorem Explained.mono {key : String × ActionKey} (hr : j.reasons ⊆ k.reasons) (h : j.Explained key) : k.Explained key := by
  obtain ⟨r, hm, hk⟩ := h
  exact ⟨r, hr hm, hk⟩

/-- What a start makes of a journal, up to the reasons that it still records. -/
structure Reopened (j k : Journal) : Prop where
  trades : k.trades = j.recover.trades
  attempts : k.attempts = j.recover.attempts
  actions : k.actions = Rows.updateWhere (fun a => a.outcome = .dispatching) (fun a => { a with outcome := .uncertain }) j.actions
  kept : j.reasons ⊆ k.reasons
  added : ∀ r ∈ k.reasons, r ∈ j.reasons ∨ r.code = "InterruptedProcessing"

/-- The reasons of the attempts that were in flight are on record. -/
def Accounts (j k : Journal) : Prop := ∀ a ∈ j.interrupted, ∃ r ∈ k.reasons, r.key = (a.tradeId, a.actionKey, 1)

end Journal

namespace Store

/-- The part of a start that ends with the commit of what became uncertain. -/
def reopen [Host] (broker : String) : Act (List AttemptRow) := do
  change (Journal.initMapping broker)
  transact fun j => .ok (j.interrupted, j.recover)

theorem openJournal_eq [Host] (broker : String) : openJournal broker
    = reopen broker >>= fun l => l.forM fun a => recordReason a.tradeId a.actionKey 1 .uncertain (interruptedProcessing a) := by
  simp only [openJournal, reopen, bind_assoc]

end Store

section Starts

variable [Host] {w v : World} {A : (q : Query) → Reply q → Prop} {b : String} {j : Journal}

/-- No reason is lost. -/
def Explains (s t : World) : Prop := s.journal.reasons ⊆ t.journal.reasons

omit [Host] in
theorem Explains.of_reflTransGen (h : Relation.ReflTransGen Explains w v) : Explains w v :=
  invariant_of_reflTransGen (I := Explains w) h (fun _ _ hs ht _ hr => ht (hs hr)) fun _ hr => hr

omit [Host] in
theorem Journal.initMapping_reopened {b : String} {j k : Journal} (hm : j.legacyMigrated = true) (h : initMapping b j = .ok k) :
    k.trades = j.trades ∧ k.attempts = j.attempts ∧ k.reasons = j.reasons
      ∧ k.actions = Rows.updateWhere (fun a => a.outcome = .dispatching) (fun a => { a with outcome := .uncertain }) j.actions := by
  obtain rfl := initMapping_current hm h
  exact ⟨rfl, rfl, rfl, rfl⟩

/-- The commit finds what is in flight, and a start that fails before it leaves the attempts alone. -/
theorem reopen_spec (hm : w.journal.legacyMigrated = true) :
    (Store.reopen b).wp A Explains (fun l v => l = w.journal.interrupted ∧ w.journal.Reopened v.journal)
      (fun _ v => v.journal.attempts = w.journal.attempts) w := by
  unfold Store.reopen
  rw [Prog.wp_bind]
  refine Store.wp_change (fun _ hr => hr) rfl (fun _ _ => rfl) fun j hj => ?_
  obtain ⟨ht, ha, hr, hx⟩ := Journal.initMapping_reopened hm hj
  refine ⟨fun _ h => hr ▸ h, ?_⟩
  refine wp_transact (fun _ h => h) ha (fun _ h => by simp at h) fun l k hk => ?_
  simp only [Except.ok.injEq, Prod.mk.injEq] at hk
  obtain ⟨rfl, rfl⟩ := hk
  refine ⟨fun _ h => h, ?_, ?_, ?_, hx, fun _ h => hr ▸ h, fun r h => Or.inl (hr ▸ h)⟩
  · simp only [Journal.interrupted, ha]
  · simp only [Journal.recover, ht]
  · simp only [Journal.recover, ha]

omit [Host] in
theorem recordReason_spec (a : AttemptRow) (h : j.Reopened w.journal) :
    (Store.recordReason a.tradeId a.actionKey 1 .uncertain (Store.interruptedProcessing a)).wp A Explains
      (fun _ v => Explains w v ∧ j.Reopened v.journal ∧ ∃ r ∈ v.journal.reasons, r.key = (a.tradeId, a.actionKey, 1))
      (fun _ _ => True) w := by
  unfold Store.recordReason
  rw [Prog.wp_bind, wp_now]
  intro at_ _
  refine Store.wp_change (fun _ hr => hr) trivial (fun _ _ => trivial) fun k hk => ?_
  unfold Journal.recordReason at hk
  split at hk
  · simp at hk
  · obtain rfl := Except.ok.inj hk
    have hkept : w.journal.reasons ⊆ Rows.insertNew ReasonRow.key ⟨a.tradeId, a.actionKey, 1, "local", .uncertain,
        "InterruptedProcessing", (Store.interruptedProcessing a).evidence, at_.isoformat⟩ w.journal.reasons :=
      fun _ => Rows.mem_insertNew_of_mem
    refine ⟨hkept, hkept, ⟨h.trades, h.attempts, h.actions, fun _ hr => hkept (h.kept hr), fun r hr => ?_⟩,
      Rows.exists_mem_insertNew⟩
    rcases Rows.mem_of_mem_insertNew hr with hr | rfl
    · exact h.added r hr
    · exact Or.inr rfl

theorem openJournal_spec (hm : w.journal.legacyMigrated = true) :
    (Store.openJournal b).wp A Explains (fun _ v => w.journal.Reopened v.journal ∧ w.journal.Accounts v.journal)
      (fun _ _ => True) w := by
  rw [Store.openJournal_eq, Prog.wp_bind]
  refine Prog.wp_consequence (reopen_spec hm) (fun l v hv => ?_) fun _ _ _ => trivial
  obtain ⟨rfl, hv⟩ := hv
  -- What is left to do is a suffix of the attempts; the others have their reasons.
  have hloop := Prog.wp_forM (A := A) (G := Explains) (s := v) (E := fun _ _ => True)
    (f := fun a => Store.recordReason a.tradeId a.actionKey 1 .uncertain (Store.interruptedProcessing a))
    (I := fun rest u => w.journal.Reopened u.journal
      ∧ ∀ a ∈ w.journal.interrupted, a ∈ rest ∨ ∃ r ∈ u.journal.reasons, r.key = (a.tradeId, a.actionKey, 1))
    w.journal.interrupted (fun a rest t ht => ?_) ⟨hv, fun _ ha => Or.inl ha⟩
  · exact Prog.wp_consequence hloop (fun _ u hu => ⟨hu.1, fun a ha => (hu.2 a ha).resolve_left (by simp)⟩) fun _ _ h => h
  · refine Prog.wp_consequence (recordReason_spec a ht.1) (fun _ u hu => ⟨hu.2.1, fun x hx => ?_⟩) fun _ _ h => h
    rcases ht.2 x hx with hmem | ⟨r, hr, hk⟩
    · rcases List.mem_cons.mp hmem with rfl | hmem
      · exact Or.inr hu.2.2
      · exact Or.inl hmem
    · exact Or.inr ⟨r, hu.1 hr, hk⟩

omit [Host] in
theorem openLanes_spec {P : Journal → Prop} (h : P w.journal) :
    (SignalCopy.openLane .main >>= fun _ => SignalCopy.openLane .r01 : Act Unit).wp A Explains (fun _ v => P v.journal)
      (fun _ _ => True) w := by
  have hG (s t : World) (hj : t.journal = s.journal) (_ : t.trace = s.trace) : Explains s t := fun _ hr => hj ▸ hr
  rw [Prog.wp_bind]
  exact Prog.wp_consequence (wp_openLane .main hG h) (fun _ _ hu => wp_openLane .r01 hG hu) fun _ _ _ => trivial

theorem boot_spec (hm : w.journal.legacyMigrated = true) :
    (boot b).wp A Explains (fun _ v => w.journal.Reopened v.journal ∧ w.journal.Accounts v.journal) (fun _ _ => True) w := by
  unfold boot
  rw [Prog.wp_bind]
  exact Prog.wp_consequence (openJournal_spec hm) (fun _ _ hv =>
    openLanes_spec (P := fun k => w.journal.Reopened k ∧ w.journal.Accounts k) hv) fun _ _ _ => trivial

/-- A stop of a start stays clear of its recovery: nothing was in flight, the commit that reopens the attempts was not
reached, or every reason was recorded. -/
inductive Spared (b : String) (n : Nat) (env : Answers) (w : World) : Prop
  | idle (h : w.journal.interrupted = [])
  | before (h : n < (Store.reopen b).moves env w)
  | failed {e : Exc} (h : ((Store.reopen b).eval env w).2 = .error e)
  | after (hn : (Store.openJournal b).moves env w ≤ n) (h : ((Store.openJournal b).eval env w).2 = .ok ())

/-- Until its last commit the first part of a start leaves the attempts alone. -/
theorem reopen_stop {n : Nat} {env : Answers} (hm : w.journal.legacyMigrated = true) (h : n < (Store.reopen b).moves env w) :
    ((Store.reopen b).stop n env w).journal.attempts = w.journal.attempts := by
  have hinit : (Store.change (Journal.initMapping b)).wp (fun _ _ => True) (fun s t => t.journal.attempts = s.journal.attempts)
      (fun _ _ => True) (fun _ _ => True) w :=
    Store.wp_change rfl trivial (fun _ _ => trivial) fun _ hj => ⟨(Journal.initMapping_reopened hm hj).2.1, trivial⟩
  have hsame {s t : World} (hst : Relation.ReflTransGen (fun s t => t.journal.attempts = s.journal.attempts) s t) :
      t.journal.attempts = s.journal.attempts :=
    invariant_of_reflTransGen (I := fun t => t.journal.attempts = s.journal.attempts) hst (fun _ _ hs ht => ht.trans hs) rfl
  obtain ⟨hst, -, -⟩ := Prog.wp_eval hinit env fun _ _ => trivial
  unfold Store.reopen
  cases hres : ((Store.change (Journal.initMapping b)).eval env w).2 with
  | error e =>
    rw [Prog.stop_bind_error hres]
    exact hsame (Prog.wp_stop hinit n env fun _ _ => trivial)
  | ok u =>
    by_cases hn : n < (Store.change (Journal.initMapping b)).moves env w
    · rw [Prog.stop_bind_of_lt hn]
      exact hsame (Prog.wp_stop hinit n env fun _ _ => trivial)
    · unfold Store.reopen at h
      rw [Prog.moves_bind hres] at h
      rw [Prog.stop_bind_of_le (by omega) hres, transact_stop (by omega)]
      exact hsame hst

/-- A start that is spared explains what it makes uncertain. -/
theorem Spared.explained {n : Nat} {env : Answers} (hm : w.journal.legacyMigrated = true) (h : Spared b n env w)
    {identity : String} {key : ActionKey} (hin : (w.journal.attempt? identity key).map AttemptRow.state = some .dispatching)
    (hout : (((boot b).stop n env w).journal.attempt? identity key).map AttemptRow.state = some .uncertain) :
    ((boot b).stop n env w).journal.Explained (identity, key) := by
  obtain ⟨a, ha, hd⟩ := Option.map_eq_some_iff.mp hin
  obtain ⟨hmem, hkey⟩ := Rows.lookup_mem ha
  have hfound : a ∈ w.journal.interrupted := by simp [Journal.interrupted, hmem, hd]
  have hboot : boot b = Store.reopen b >>= fun l =>
      (l.forM fun a => Store.recordReason a.tradeId a.actionKey 1 .uncertain (Store.interruptedProcessing a)) >>= fun _ =>
        SignalCopy.openLane .main >>= fun _ => SignalCopy.openLane .r01 := by
    unfold boot
    rw [Store.openJournal_eq, bind_assoc]
  have hsame (hs : ((boot b).stop n env w).journal.attempts = w.journal.attempts) : False := by
    rw [Journal.attempt?, hs] at hout
    have hboth := hin.symm.trans hout
    simp at hboth
  cases h with
  | idle h => simp [h] at hfound
  | before h =>
    refine (hsame ?_).elim
    rw [hboot, Prog.stop_bind_of_lt h]
    exact reopen_stop hm h
  | @failed e h =>
    refine (hsame ?_).elim
    rw [hboot, Prog.stop_bind_error h]
    by_cases hn : n < (Store.reopen b).moves env w
    · exact reopen_stop hm hn
    · rw [Prog.stop_eq_eval (by omega)]
      exact (Prog.wp_eval (reopen_spec (A := fun _ _ => True) hm) env fun _ _ => trivial).2.2 e h
  | after hn h =>
    obtain ⟨-, hdone, -⟩ := Prog.wp_eval (openJournal_spec (A := fun _ _ => True) (b := b) hm) env fun _ _ => trivial
    obtain ⟨r, hr, hk⟩ := (hdone () h).2 a hfound
    have hlanes := Prog.wp_stop (openLanes_spec (A := fun _ _ => True) (P := fun _ => True)
      (w := ((Store.openJournal b).eval env w).1) trivial) (n - (Store.openJournal b).moves env w)
      ((Store.openJournal b).rest env w) fun _ _ => trivial
    unfold boot
    rw [Prog.stop_bind_of_le hn h]
    refine ⟨r, Explains.of_reflTransGen hlanes hr, ?_⟩
    simp only [ReasonRow.key, Prod.mk.injEq] at hk
    simp only [AttemptRow.key] at hkey
    rw [← hkey, hk.1, hk.2.1]

/-- A run's moves, where no start is cut short between what it makes uncertain and the last of its reasons. -/
inductive Explaining : Process → Process → Prop
  | up {w : World} {p : Process} (h : Move unrestricted ⟨true, w⟩ p) : Explaining ⟨true, w⟩ p
  | start {w : World} (broker : String) (m : Memory) (env : Answers)
    (h : ((boot broker).eval env { w with mem := m }).2 = .ok ()) :
    Explaining ⟨false, w⟩ ⟨true, ((boot broker).eval env { w with mem := m }).1⟩
  | abort {w : World} (broker : String) (m : Memory) (n : Nat) (env : Answers) (h : Spared broker n env { w with mem := m }) :
    Explaining ⟨false, w⟩ ⟨false, (boot broker).stop n env { w with mem := m }⟩

theorem Explaining.move {p q : Process} (h : Explaining p q) : Move unrestricted p q := by
  cases h with
  | up h => exact h
  | start broker m env h => exact .start broker m env h
  | abort broker m n env h => exact .abort broker m n env

theorem Explaining.moves {p q : Process} (h : Relation.ReflTransGen Explaining p q) : Moves unrestricted p q :=
  h.lift id fun _ _ => Explaining.move

theorem Step.explains {R : Rules} (h : Step R w v) : Explains w v := by
  intro r hr
  cases h with
  | claim h hp =>
    obtain ⟨_, _, rfl⟩ := Journal.claim_ok h
    exact hr
  | finish h hs =>
    obtain ⟨_, _, rfl⟩ := Journal.finish_ok h
    exact hr
  | reason row => exact Rows.mem_insertNew_of_mem hr
  | observe h => exact hr
  | _ => exact hr

/-- In every run whose starts are not cut short between the two, an attempt that a start made uncertain has a reason on
record from then on. -/
theorem recovery_explained {broker : String} {m : Memory} {p s : Process}
    (hv : Relation.ReflTransGen Explaining ⟨false, .fresh broker m⟩ ⟨false, v⟩) (hp : Explaining ⟨false, v⟩ p)
    (hs : Relation.ReflTransGen Explaining p s) {identity : String} {key : ActionKey}
    (hin : (v.journal.attempt? identity key).map AttemptRow.state = some .dispatching)
    (hout : (p.world.journal.attempt? identity key).map AttemptRow.state = some .uncertain) :
    s.world.journal.Explained (identity, key) := by
  have hreach : Reachable unrestricted ⟨false, v⟩ := ⟨broker, m, Explaining.moves hv⟩
  have hsound := hreach.sound ⟨rfl, rfl⟩
  have hm : v.journal.legacyMigrated = true := hsound.inv.opened.2
  have hnow : p.world.journal.Explained (identity, key) := by
    cases hp with
    | start b m env h =>
      obtain ⟨a, ha, hd⟩ := Option.map_eq_some_iff.mp hin
      obtain ⟨hmem, hkey⟩ := Rows.lookup_mem ha
      have hwp := boot_spec (A := fun _ _ => True) (b := b) (w := { v with mem := m }) hm
      obtain ⟨r, hr, hk⟩ := ((Prog.wp_eval hwp env fun _ _ => trivial).2.1 () h).2 a (by simp [Journal.interrupted, hmem, hd])
      exact ⟨r, hr, (congrArg (fun k => (k.1, k.2.1)) hk).trans hkey⟩
    | abort b m n env h => exact h.explained (w := { v with mem := m }) hm hin hout
  have hlater := (Moves.sound ⟨rfl, rfl⟩ (Move.sound ⟨rfl, rfl⟩ hsound hp.move).2 (Explaining.moves hs)).1
  exact invariant_of_reflTransGen (I := fun u : World => u.journal.Explained (identity, key)) hlater
    (fun _ _ hu hs => hu.mono hs.explains) hnow

end Starts

section Sample

attribute [local instance] sampleHost

/-- A start is cut short right after the commit that reopens the attempts. -/
def halfOpened (v : World) : World := (boot "fx").stop 4 sampleAnswers { v with mem := bridgeMemory }

theorem started_again {v : World}
    (h : ((boot "fx").eval sampleAnswers { v with mem := bridgeMemory }).2.toOption.any (fun _ => true) = true) :
    Explaining ⟨false, v⟩ ⟨true, restarted v⟩ := by
  obtain ⟨⟨⟩, hok, _⟩ := exists_ok h
  exact .start "fx" bridgeMemory sampleAnswers hok

/-- The next start finds nothing in flight, and records no reason. -/
theorem recovery_unexplained : ∃ v p s, Reachable unrestricted ⟨false, v⟩ ∧ Move unrestricted ⟨false, v⟩ ⟨false, p⟩
    ∧ Move unrestricted ⟨false, p⟩ ⟨true, s⟩ ∧ (v.journal.attempt? "t1" .create).map AttemptRow.state = some .dispatching
    ∧ (p.journal.attempt? "t1" .create).map AttemptRow.state = some .uncertain ∧ ¬ s.journal.Explained ("t1", .create) := by
  refine ⟨stoppedBridge 15, halfOpened (stoppedBridge 15), restarted (halfOpened (stoppedBridge 15)),
    reachable_stoppedBridge 15, .abort "fx" bridgeMemory 4 sampleAnswers, (started_again (by decide +kernel)).move,
    by decide +kernel, by decide +kernel, ?_⟩
  have hnone : (restarted (halfOpened (stoppedBridge 15))).journal.reasons.isEmpty = true := by decide +kernel
  rw [List.isEmpty_iff] at hnone
  simp [Journal.Explained, hnone]

theorem recovery_explained_bridge : (restarted (stoppedBridge 15)).journal.Explained ("t1", .create) := by
  have hfirst : Relation.ReflTransGen Explaining ⟨false, .fresh "fx" bridgeMemory⟩ ⟨false, stoppedBridge 15⟩ :=
    .head (.start (w := .fresh "fx" bridgeMemory) "fx" bridgeMemory sampleAnswers (started_up bridgeMemory))
      (.single (.up (.crash (.native sampleEvent none) trivial 15 sampleAnswers)))
  exact recovery_explained hfirst (started_again (by decide +kernel)) .refl (by decide +kernel) (by decide +kernel)

end Sample

namespace Journal

variable {j k : Journal} {identity : String} {key : ActionKey}

def action? (j : Journal) (identity : String) (key : ActionKey) : Option ActionRow :=
  Rows.lookup ActionRow.key (identity, key) j.actions

/-- An attempt in flight has its trade, and its row in the action history is open. -/
def Paired (j : Journal) : Prop := ∀ identity key a, j.attempt? identity key = some a → a.state = .dispatching →
  (∃ t, j.trade? identity = some t) ∧ ∃ x, j.action? identity key = some x ∧ (x.outcome = .dispatching ∨ x.outcome = .uncertain)

theorem Paired.of_same (h : j.Paired) (ht : ∀ i t, j.trade? i = some t → ∃ u, k.trade? i = some u)
    (ha : k.attempts = j.attempts) (hx : k.actions = j.actions) : k.Paired := by
  intro i key a hk hd
  rw [Journal.attempt?, ha] at hk
  obtain ⟨⟨t, htr⟩, x, hx', ho⟩ := h i key a hk hd
  refine ⟨ht i t htr, x, ?_, ho⟩
  rw [action?, hx]
  exact hx'

theorem claim_unlisted {requestId destination now : String} {action : Action} {request : Call}
    (h : claim identity key requestId action destination request now j = .ok (true, k)) :
    j.action? identity key = none := by
  unfold claim at h
  split at h
  · simp at h
  · split at h
    · simp at h
    split at h
    · simp at h
    split at h
    · simp at h
    split at h
    · simp at h
    · next hx =>
      simp only [Bool.not_eq_true, Rows.has_eq_false_iff] at hx
      exact Rows.lookup_eq_none_iff.mpr hx

theorem Paired.claim {requestId destination now : String} {action : Action} {request : Call} (h : j.Paired)
    (hc : Journal.claim identity key requestId action destination request now j = .ok (true, k))
    (ht : ∀ i t, j.trade? i = some t → ∃ u, k.trade? i = some u) : k.Paired := by
  have hlist := claim_unlisted hc
  obtain ⟨⟨t, htr, -⟩, hnew, rfl⟩ := claim_ok hc
  intro i c a ha hd
  by_cases hk : (identity, key) = (i, c)
  · obtain ⟨rfl, rfl⟩ := Prod.mk.inj hk
    refine ⟨ht _ t htr, ?_⟩
    simp only [action?] at hlist
    simp only [dispatching, updateTrade, action?, Rows.lookup_append, hlist]
    simp [ActionRow.key]
  · simp only [dispatching, updateTrade, attempt?] at ha
    rw [Rows.lookup_append_of_ne (show AttemptRow.key ⟨identity, key, .dispatching⟩ ≠ (i, c) from hk)] at ha
    obtain ⟨⟨t, htr⟩, x, hx, ho⟩ := h i c a ha hd
    exact ⟨ht i t htr, x, (Rows.lookup_append_of_ne (by exact hk)).trans hx, ho⟩

theorem Paired.finish {now : String} {state : Outcome} (h : j.Paired) (hs : state ≠ .dispatching)
    (hf : j.finish identity key state now = .ok k) : k.Paired := by
  obtain ⟨t, _, rfl⟩ := finish_ok hf
  intro i c a ha hd
  simp only [attempt?] at ha
  rw [Rows.lookup_updateKey (f := fun a : AttemptRow => { a with state }) fun _ => rfl] at ha
  split at ha
  · obtain ⟨b, _, rfl⟩ := Option.map_eq_some_iff.mp ha
    exact absurd hd hs
  · next hk =>
    obtain ⟨htr, x, hx, ho⟩ := h i c a ha hd
    refine ⟨htr, x, ?_, ho⟩
    simp only [action?]
    rw [Rows.lookup_updateKey (f := fun a : ActionRow => { a with
      outcome := state, brokerOrderId := t.brokerOrderId, brokerPositionId := t.brokerPositionId, updatedAt := now })
      fun _ => rfl, if_neg hk]
    exact hx

end Journal

section Interruptions

variable [Host] {R : Rules} {w v : World}

theorem Step.paired (hs : Step R w v) (h : w.journal.Paired) : v.journal.Paired := by
  have ht (i : String) (t : TradeRow) (hi : w.journal.trade? i = some t) : ∃ u, v.journal.trade? i = some u := by
    obtain ⟨u, hu, _⟩ := hs.trade hi
    exact ⟨u, hu⟩
  cases hs with
  | claim hc hp => exact h.claim hc ht
  | finish hf hd => exact h.finish hd hf
  | interrupt =>
    intro i c a ha hd
    obtain ⟨htr, x, hx, ho⟩ := h i c a ha hd
    refine ⟨htr, ?_⟩
    simp only [Journal.action?] at hx ⊢
    rw [Rows.lookup_updateWhere (f := fun a : ActionRow => { a with outcome := .uncertain }) fun _ => rfl, hx]
    refine ⟨_, rfl, ?_⟩
    by_cases hc : x.outcome = .dispatching
    · simp [hc]
    · simp [ho.resolve_left hc]
  | recover =>
    intro i c a ha hd
    exact absurd hd ((Journal.landed_recover w.journal).attempts a (Rows.lookup_mem ha).1)
  | _ => exact h.of_same ht rfl rfl

theorem Reachable.paired {s : Process} (hR : R.Plain) (h : Reachable R s) : s.world.journal.Paired :=
  h.induct (I := fun w => w.journal.Paired) hR (fun _ _ _ _ _ ha _ => by simp [World.fresh, Journal.created, Journal.attempt?,
    Rows.lookup] at ha) fun _ _ _ hs hw => hs.paired hw

/-- What a start makes of an attempt that was in flight. -/
structure Interrupted (j k : Journal) (identity : String) (key : ActionKey) : Prop where
  attempt : (k.attempt? identity key).map AttemptRow.state = some .uncertain
  action : (k.action? identity key).map ActionRow.outcome = some .uncertain
  /-- The first reason that is recorded for an attempt stays. -/
  reason : ∃ r ∈ k.reasons, r.key = (identity, key, 1) ∧ (r.code = "InterruptedProcessing" ∨ r ∈ j.reasons)
  /-- A trade that no outcome was committed to is uncertain, and takes no further action. -/
  trade : ∃ t u, j.trade? identity = some t ∧ k.trade? identity = some u ∧ (t.state.unknown = true → u.state = .uncertain
    ∧ ∀ next requestId action destination request now,
      Journal.claim identity next requestId action destination request now k = .ok (false, k))

omit [Host] in
theorem Journal.Reopened.interrupted {j k : Journal} (h : j.Reopened k) (hr : j.Accounts k) (hp : j.Paired)
    {identity : String} {key : ActionKey} {a : AttemptRow} (ha : j.attempt? identity key = some a)
    (hd : a.state = .dispatching) : Interrupted j k identity key := by
  obtain ⟨hmem, hkey⟩ := Rows.lookup_mem ha
  obtain ⟨⟨t, ht⟩, x, hx, ho⟩ := hp identity key a ha hd
  have hk : k.trade? identity = some (if t.state = .dispatching then t.setState .uncertain else t) := by
    rw [Journal.trade?, h.trades]
    exact (Journal.trade?_recover j identity).trans (by rw [ht]; rfl)
  refine ⟨?_, ?_, ?_, t, _, ht, hk, fun hs => ?_⟩
  · have hattempt : k.attempt? identity key = j.recover.attempt? identity key := by
      rw [Journal.attempt?, h.attempts]
      rfl
    simp only [Journal.attempt?] at ha
    rw [hattempt, Journal.attempt?, Journal.recover,
      Rows.lookup_updateWhere (f := fun a : AttemptRow => { a with state := .uncertain }) fun _ => rfl, ha]
    simp [hd]
  · simp only [Journal.action?] at hx
    rw [Journal.action?, h.actions, Rows.lookup_updateWhere (f := fun a : ActionRow => { a with outcome := .uncertain }) fun _ => rfl, hx]
    rcases ho with ho | ho
    · simp [ho]
    · simp [ho]
  · obtain ⟨r, hm, hrk⟩ := hr a (by simp [Journal.interrupted, hmem, hd])
    refine ⟨r, hm, ?_, (h.added r hm).symm⟩
    rw [hrk]
    simp only [AttemptRow.key, Prod.mk.injEq] at hkey
    rw [hkey.1, hkey.2]
  · have hunc : (if t.state = .dispatching then t.setState .uncertain else t).state = .uncertain := by
      simp only [TradeState.unknown, decide_eq_true_eq] at hs
      by_cases hc : t.state = .dispatching
      · simp [hc, TradeRow.setState]
      · rw [if_neg hc]
        exact hs.resolve_right hc
    refine ⟨hunc, fun next requestId action destination request now => ?_⟩
    unfold Journal.claim
    simp only [hk, hunc, true_or, if_true]

/-- Whenever a process stops with an attempt in flight, a start that completes leaves the attempt and its row in the action
history uncertain, with a reason on record, and the trade uncertain if no outcome was committed to it. -/
theorem interrupted_uncertain (h : Reachable unrestricted ⟨false, v⟩) {identity : String} {key : ActionKey}
    (ha : (v.journal.attempt? identity key).map AttemptRow.state = some .dispatching) {broker : String} {m : Memory}
    {env : Answers} (hok : ((boot broker).eval env { v with mem := m }).2 = .ok ()) :
    Interrupted v.journal ((boot broker).eval env { v with mem := m }).1.journal identity key := by
  obtain ⟨a, hrow, hd⟩ := Option.map_eq_some_iff.mp ha
  have hm : v.journal.legacyMigrated = true := (h.sound ⟨rfl, rfl⟩).inv.opened.2
  have hwp := boot_spec (A := fun _ _ => True) (b := broker) (w := { v with mem := m }) hm
  obtain ⟨hreopened, haccounts⟩ := (Prog.wp_eval hwp env fun _ _ => trivial).2.1 () hok
  exact hreopened.interrupted haccounts (h.paired ⟨rfl, rfl⟩) hrow hd

end Interruptions

section Sample

attribute [local instance] sampleHost

/-- The broker cannot be reached. -/
def unreachableReply : (q : Query) → Reply q
  | .write _ _ => .error (Exc.runtime "timed out")
  | q => sampleReply q

def unreachableBridge (n : Nat) : World :=
  (Op.native sampleEvent none).run.stop n (fun _ => unreachableReply) (started bridgeMemory)

/-- The write's own failure is on record before the attempt is closed, and a stop in between does not replace it. -/
theorem interrupted_otherwise : ∃ v, Reachable unrestricted ⟨false, v⟩
    ∧ (v.journal.attempt? "t1" .create).map AttemptRow.state = some .dispatching
    ∧ Move unrestricted ⟨false, v⟩ ⟨true, restarted v⟩
    ∧ ¬ ∃ r ∈ (restarted v).journal.reasons, (r.tradeId, r.actionKey) = ("t1", .create) ∧ r.code = "InterruptedProcessing" := by
  obtain ⟨broker, m, h⟩ := reachable_started unrestricted bridgeMemory
  refine ⟨unreachableBridge 20, ⟨broker, m, h.tail (.crash (.native sampleEvent none) trivial 20 _)⟩, by decide +kernel,
    (started_again (by decide +kernel)).move, ?_⟩
  have hcodes : (restarted (unreachableBridge 20)).journal.reasons.all (fun r => r.code = "RuntimeError") = true := by
    decide +kernel
  rintro ⟨r, hr, -, hc⟩
  have hcode := List.all_eq_true.mp hcodes r hr
  simp [hc] at hcode

theorem interrupted_uncertain_bridge :
    Interrupted (stoppedBridge 15).journal (restarted (stoppedBridge 15)).journal "t1" .create := by
  have hup : ((boot "fx").eval sampleAnswers { stoppedBridge 15 with mem := bridgeMemory }).2.toOption.any (fun _ => true) = true := by
    decide +kernel
  obtain ⟨⟨⟩, hok, _⟩ := exists_ok hup
  exact interrupted_uncertain (reachable_stoppedBridge 15) (by decide +kernel) hok

end Sample

end MatchTrader
