import MatchTrader.Absorbing

/-! A bridge event that is delivered again after a stop. Starts and redeliveries leave alone what
the journal knows of the trade's sending, up to the attempts that were in flight, and write
nothing to the broker. -/

namespace MatchTrader

open Durable

/-- What a stopped process makes of an outcome. -/
def Outcome.reopened : Outcome → Outcome
  | dispatching => uncertain
  | o => o

def TradeState.unknown (s : TradeState) : Bool := s = uncertain ∨ s = dispatching

/-- What is known of the sending of a trade, with the outcome of an attempt in flight unknown. -/
structure Sending where
  unknown : Bool
  attempt : Option Outcome
  paper : Bool
deriving DecidableEq, Repr

namespace Sending

def unsure (s : Sending) : Bool := s.unknown || s.attempt = some .uncertain

/-- The status that the outcome of the trade has. -/
def status (s : Sending) : Decision :=
  if s.unsure then .uncertain
  else if s.attempt = some .accepted then .accepted
  else if s.paper then .paper
  else .held

/-- The status that a redelivery recovers for an event that was not decided yet. -/
def recovered (s : Sending) : Decision :=
  if s.unsure then .uncertain else if s.attempt = some .accepted then .accepted else .held

/-- The status that a redelivery reports. -/
def reported (s : Sending) (decision : Decision) : Decision :=
  if s.unknown then .uncertain else if decision = .captured then s.recovered else decision

/-- The decision that is stored for an event is not behind what became of the trade: the outcome is open for the
trade itself, or there is none, or it is an attempt's and nothing is decided yet. -/
def Told (s : Sending) (decision : Decision) : Prop :=
  s.unknown = true
    ∨ if s.attempt = some .uncertain ∨ s.attempt = some .accepted then decision = .captured else s.paper = false

theorem reported_iff {s : Sending} {d : Decision} (hd : d = .captured ∨ d = .held) :
    s.reported d = s.status ↔ s.Told d := by
  obtain ⟨unknown, attempt, paper⟩ := s
  cases unknown with
  | true => simp [reported, status, unsure, Told]
  | false =>
    cases attempt with
    | none => rcases hd with rfl | rfl <;> cases paper <;> simp [reported, recovered, status, unsure, Told]
    | some o =>
      cases o <;> rcases hd with rfl | rfl <;> cases paper <;> simp [reported, recovered, status, unsure, Told]

/-- What a redelivery stores does not change what the next one reports. -/
theorem reported_recovered (s : Sending) : s.reported s.recovered = s.reported .captured := by
  have hne : s.recovered ≠ .captured := by
    unfold recovered
    split
    · simp
    · split <;> simp
  simp [reported, hne]

end Sending

namespace Journal

def sending (j : Journal) (identity : Option String) : Sending where
  unknown := (identity.bind j.trade?).any fun t => t.state.unknown
  attempt := (identity.bind fun i => j.attempt? i .create).map fun a => a.state.reopened
  paper := identity.any j.paperSent

/-- The status that a redelivery should report of a trade. -/
def trueStatus (j : Journal) (identity : Option String) : Decision :=
  let attempt := (identity.bind fun i => j.attempt? i .create).map AttemptRow.state
  if (identity.bind j.trade?).any (fun t => t.state = .uncertain) ∨ attempt = some .uncertain then .uncertain
  else if attempt = some .accepted then .accepted
  else if identity.any j.paperSent then .paper
  else .held

/-- Nothing is in flight. -/
structure Landed (j : Journal) : Prop where
  trades : ∀ t ∈ j.trades, t.state ≠ .dispatching
  attempts : ∀ a ∈ j.attempts, a.state ≠ .dispatching

variable {j k : Journal}

theorem Landed.trueStatus (h : j.Landed) (identity : Option String) : j.trueStatus identity = (j.sending identity).status := by
  have htrade : (identity.bind j.trade?).any (fun t => t.state.unknown)
      = (identity.bind j.trade?).any fun t => t.state = .uncertain := by
    cases ht : identity.bind j.trade? with
    | none => rfl
    | some t =>
      obtain ⟨i, _, hi⟩ := Option.bind_eq_some_iff.mp ht
      have hs := h.trades t (Rows.lookup_mem hi).1
      simp [TradeState.unknown, hs]
  have hattempt : ((identity.bind fun i => j.attempt? i .create).map fun a => a.state.reopened)
      = (identity.bind fun i => j.attempt? i .create).map AttemptRow.state := by
    cases ha : identity.bind fun i => j.attempt? i .create with
    | none => rfl
    | some a =>
      obtain ⟨i, _, hi⟩ := Option.bind_eq_some_iff.mp ha
      have hs := h.attempts a (Rows.lookup_mem hi).1
      simp only [Option.map_some, Option.some.injEq]
      cases hstate : a.state <;> simp_all [Outcome.reopened]
  unfold Journal.trueStatus Sending.status Sending.unsure Journal.sending
  simp only [htrade, hattempt, Bool.or_eq_true, decide_eq_true_eq]

/-- The journals agree on what became of every trade, up to what was in flight. -/
structure Resumes (j k : Journal) : Prop where
  sending : ∀ i, k.sending i = j.sending i
  migrated : j.legacyMigrated = true → k.legacyMigrated = true

theorem Resumes.refl (j : Journal) : j.Resumes j := ⟨fun _ => rfl, id⟩

theorem Resumes.of_same (ht : k.trades = j.trades) (ha : k.attempts = j.attempts) (hp : k.papers = j.papers)
    (hm : k.legacyMigrated = j.legacyMigrated) : j.Resumes k where
  sending i := by
    have htrade : k.trade? = j.trade? := funext fun i => by rw [Journal.trade?, ht]; rfl
    have hattempt : k.attempt? = j.attempt? := funext₂ fun i key => by rw [Journal.attempt?, ha]; rfl
    have hpaper : k.paperSent = j.paperSent := funext fun i => by rw [Journal.paperSent, hp]; rfl
    rw [Journal.sending, htrade, hattempt, hpaper]
    rfl
  migrated h := hm.trans h

theorem resumes_recover (j : Journal) : j.Resumes j.recover where
  sending i := by
    have htrade (i : String) : (j.recover.trade? i).any (fun t => t.state.unknown)
        = (j.trade? i).any fun t => t.state.unknown := by
      rw [Journal.trade?_recover]
      cases j.trade? i with
      | none => rfl
      | some t =>
        simp only [Option.map_some, Option.any_some]
        split
        · next h => simp [TradeRow.setState, TradeState.unknown, h]
        · rfl
    have hattempt (i : String) : (j.recover.attempt? i .create).map (fun a => a.state.reopened)
        = (j.attempt? i .create).map fun a => a.state.reopened := by
      simp only [Journal.recover, Journal.attempt?]
      rw [Rows.lookup_updateWhere (f := fun a : AttemptRow => { a with state := .uncertain }) fun _ => rfl, Option.map_map]
      congr 1
      funext a
      simp only [Function.comp]
      split
      · next h => simp_all [Outcome.reopened]
      · rfl
    cases i with
    | none => rfl
    | some i =>
      simp only [Journal.sending, Option.bind_some, htrade, hattempt, Option.any_some]
      rfl
  migrated h := h

theorem landed_recover (j : Journal) : j.recover.Landed where
  trades t ht := by
    obtain ⟨q, _, rfl⟩ := Rows.mem_updateWhere.mp ht
    split
    · simp [TradeRow.setState]
    · next h => simpa using h
  attempts a ha := by
    obtain ⟨q, _, rfl⟩ := Rows.mem_updateWhere.mp ha
    split
    · simp
    · next h => simpa using h

end Journal

section Programs

variable [Host] {w v : World} {A : (q : Query) → Reply q → Prop} {e : CaptureEvent} {row : EventRow}

/-- What a start may do to a journal. -/
structure Reopens (s t : World) : Prop where
  trace : t.trace = s.trace
  resumes : s.journal.Resumes t.journal
  events : t.journal.events = s.journal.events

omit [Host] in
theorem Reopens.of_journal (h : v.journal = w.journal) (ht : v.trace = w.trace) : Reopens w v :=
  ⟨ht, h ▸ .refl _, by rw [h]⟩

omit [Host] in
theorem Journal.initMapping_kept {b : String} {j k : Journal} (hm : j.legacyMigrated = true) (h : initMapping b j = .ok k) :
    k.trades = j.trades ∧ k.attempts = j.attempts ∧ k.papers = j.papers ∧ k.events = j.events ∧ k.legacyMigrated = true := by
  obtain rfl := initMapping_current hm h
  exact ⟨rfl, rfl, rfl, rfl, hm⟩

omit [Host] in
theorem wp_openLane (l : LaneId) {G : World → World → Prop} {P : Journal → Prop}
    (hG : ∀ s t, t.journal = s.journal → t.trace = s.trace → G s t) (h : P w.journal) :
    (SignalCopy.openLane l).wp A G (fun _ v => P v.journal) (fun _ _ => True) w :=
  wp_guarded (hG _ _ rfl rfl) trivial ⟨hG _ _ rfl rfl, h⟩

omit [Host] in
theorem boot_reopens {b : String} (hm : w.journal.legacyMigrated = true) :
    (boot b).wp A Reopens (fun _ v => v.journal.Landed) (fun _ _ => True) w := by
  unfold boot Store.openJournal
  rw [Prog.wp_bind, Prog.wp_bind]
  refine Store.wp_change (.of_journal rfl rfl) trivial (fun _ _ => trivial) fun j hj => ?_
  obtain ⟨ht, ha, hp, he, hl⟩ := Journal.initMapping_kept hm hj
  refine ⟨⟨rfl, .of_same ht ha hp (hl.trans hm.symm), he⟩, ?_⟩
  rw [Prog.wp_bind]
  refine wp_transact (.of_journal rfl rfl) trivial (fun _ _ => trivial) fun interrupted k hk => ?_
  simp only [Except.ok.injEq, Prod.mk.injEq] at hk
  obtain ⟨rfl, rfl⟩ := hk
  refine ⟨⟨rfl, Journal.resumes_recover j, rfl⟩, ?_⟩
  refine Prog.wp_consequence (Prog.wp_forM (I := fun _ v => v.journal.Landed) (E := fun _ _ => True) _
    (fun a _ v hv => ?_) (Journal.landed_recover j)) (fun _ v hv => ?_) fun _ _ _ => trivial
  · unfold Store.recordReason
    rw [Prog.wp_bind, wp_now]
    intro at_ _
    refine Store.wp_change (.of_journal rfl rfl) trivial (fun _ _ => trivial) fun k hk => ?_
    unfold Journal.recordReason at hk
    split at hk
    · simp at hk
    · obtain rfl := Except.ok.inj hk
      exact ⟨⟨rfl, .of_same rfl rfl rfl rfl, rfl⟩, ⟨hv.trades, hv.attempts⟩⟩
  · rw [Prog.wp_bind]
    exact Prog.wp_consequence (wp_openLane .main (fun _ _ => .of_journal) hv)
      (fun _ u hu => wp_openLane .r01 (fun _ _ => .of_journal) hu) fun _ _ _ => trivial

/-- The row of an event once its decision is stored. -/
def EventRow.decided (decision : Decision) (reason : String) (r : EventRow) : EventRow := { r with decision, reason }

/-- What a redelivery may do: store the decision that it recovers for an event that is not decided. -/
structure Replays (e : CaptureEvent) (s t : World) : Prop where
  trace : t.trace = s.trace
  journal : t.journal = s.journal ∨ ∃ row reason, s.journal.event? (e.machine, e.eventId) = some row
    ∧ row.decision = .captured ∧ t.journal = { s.journal with
      events := Rows.updateWhere (fun r => r.seq = row.seq)
        (EventRow.decided (s.journal.sending row.tradeId).recovered reason) s.journal.events }

omit [Host] in
theorem recovered_eq (j : Journal) (identity : Option String) :
    (if ((identity.bind j.trade?).any fun t => t.state = .uncertain ∨ t.state = .dispatching) = true
        ∨ ((identity.bind fun i => j.attempt? i .create).map AttemptRow.state) = some .dispatching
        ∨ ((identity.bind fun i => j.attempt? i .create).map AttemptRow.state) = some .uncertain then Decision.uncertain
      else if ((identity.bind fun i => j.attempt? i .create).map AttemptRow.state) = some .accepted then .accepted else .held)
      = (j.sending identity).recovered := by
  unfold Sending.recovered Sending.unsure Journal.sending TradeState.unknown
  cases (identity.bind fun i => j.attempt? i .create) with
  | none => simp
  | some a => cases ha : a.state <;> simp [ha, Outcome.reopened]

omit [Host] in
theorem receiveAgain_replays (hk : e.kind = .accepted) (ha : e.action = .create)
    (hrow : w.journal.event? (e.machine, e.eventId) = some row) :
    (Router.receiveAgain e row).wp A (Replays e)
      (fun r _ => r.duplicate = true ∧ r.tradeId = row.tradeId
        ∧ r.status = (w.journal.sending row.tradeId).reported row.decision) (fun _ _ => True) w := by
  have hkey : Router.actionKey e = .create := by simp [Router.actionKey, ha]
  have hobserve : e.kind = .accepted ∧ e.action ≠ .observe := ⟨hk, by simp [ha]⟩
  have hunknown : ((row.tradeId.bind w.journal.trade?).any fun t => t.state = .uncertain ∨ t.state = .dispatching)
      = (w.journal.sending row.tradeId).unknown := rfl
  unfold Router.receiveAgain
  rw [Prog.wp_bind, wp_readsWorld]
  simp only [hkey]
  rw [Prog.wp_bind]
  unfold Router.recoverDecision
  split
  · next hc =>
    simp only
    rw [Prog.wp_bind, recovered_eq]
    refine Store.wp_change ⟨rfl, Or.inl rfl⟩ trivial (fun _ _ => trivial) fun j hj => ?_
    obtain rfl := Except.ok.inj hj
    refine ⟨⟨rfl, Or.inr ⟨row, _, hrow, hc.1, rfl⟩⟩, rfl, rfl, ?_⟩
    simp only [hunknown, Sending.reported, hc.1, if_true]
  · next hc =>
    have hd : row.decision ≠ .captured := fun hd => hc ⟨hd, hobserve⟩
    refine ⟨rfl, rfl, ?_⟩
    simp only [hunknown, Sending.reported, hd, if_false]

/-- A redelivery reports what the journal knows, and at most stores it. -/
theorem receive_replays (hk : e.kind = .accepted) (ha : e.action = .create)
    (hrow : w.journal.event? (e.machine, e.eventId) = some row) :
    (Automatic.receive e).wp A (Replays e)
      (fun r _ => r.status = (w.journal.sending row.tradeId).reported row.decision) (fun _ _ => True) w := by
  unfold Automatic.receive Router.receive Store.record
  rw [Prog.wp_bind, wp_readsWorld, Prog.wp_bind, Prog.wp_bind, Prog.wp_bind, wp_now]
  intro at_ _
  rw [Prog.wp_bind, wp_uuid4]
  intro identity _
  refine wp_transact ⟨rfl, Or.inl rfl⟩ trivial (fun _ _ => trivial) fun a j hj => ?_
  obtain ⟨rfl, rfl⟩ : a = (row, true) ∧ j = w.journal := by
    unfold Journal.recordEvent at hj
    simp only [hrow] at hj
    split at hj
    · simp at hj
    · simpa [eq_comm] using hj
  refine ⟨⟨rfl, Or.inl rfl⟩, ?_⟩
  simp only [if_true]
  refine Prog.wp_consequence (receiveAgain_replays hk ha hrow) (fun r v hr => ?_) fun _ _ _ => trivial
  obtain ⟨hdup, _, hstatus⟩ := hr
  split
  · exact hstatus
  · rw [if_pos (Or.inl hdup)]
    exact hstatus

/-- What starts and redeliveries leave of a state in which an event was on record. -/
structure Standing (e : CaptureEvent) (row : EventRow) (v w : World) : Prop where
  trace : w.trace = v.trace
  resumes : v.journal.Resumes w.journal
  event : ∃ r, w.journal.event? (e.machine, e.eventId) = some r ∧ r.tradeId = row.tradeId
    ∧ (v.journal.sending row.tradeId).reported r.decision = (v.journal.sending row.tradeId).reported row.decision

omit [Host] in
theorem Standing.refl (hrow : v.journal.event? (e.machine, e.eventId) = some row) : Standing e row v v :=
  ⟨rfl, .refl _, row, hrow, rfl, rfl⟩

omit [Host] in
theorem Journal.Resumes.trans {i j k : Journal} (h : i.Resumes j) (hh : j.Resumes k) : i.Resumes k :=
  ⟨fun x => (hh.sending x).trans (h.sending x), fun hm => hh.migrated (h.migrated hm)⟩

omit [Host] in
theorem Standing.reopens {s t : World} (h : Standing e row v s) (hh : Reopens s t) : Standing e row v t where
  trace := hh.trace.trans h.trace
  resumes := h.resumes.trans hh.resumes
  event := by
    obtain ⟨r, hr, hrest⟩ := h.event
    refine ⟨r, ?_, hrest⟩
    rw [Journal.event?, hh.events]
    exact hr

omit [Host] in
theorem Standing.replays {s t : World} (h : Standing e row v s) (hh : Replays e s t) : Standing e row v t := by
  obtain ⟨r, hr, hid, hd⟩ := h.event
  rcases hh.journal with hj | ⟨q, reason, hq, hc, hj⟩
  · exact ⟨hh.trace.trans h.trace, hj ▸ h.resumes, r, hj ▸ hr, hid, hd⟩
  · obtain rfl := Option.some.inj (hr.symm.trans hq)
    have hs := h.resumes.sending r.tradeId
    refine ⟨hh.trace.trans h.trace, ?_, r.decided (s.journal.sending r.tradeId).recovered reason, ?_, hid, ?_⟩
    · rw [hj]
      exact h.resumes.trans (.of_same rfl rfl rfl rfl)
    · rw [hj]
      simp only [Journal.event?] at hr ⊢
      rw [Rows.lookup_updateWhere (f := EventRow.decided (s.journal.sending r.tradeId).recovered reason) fun _ => rfl, hr]
      simp
    · rw [← hd, hc, hs, hid]
      exact Sending.reported_recovered _

/-- What may happen after a stop while an event is delivered over and over: starts, which may be cut short, and
deliveries, which may be, too. -/
inductive Again (e : CaptureEvent) : Process → Process → Prop
  | receive {w : World} (m : Memory) (env : Answers) :
    Again e ⟨true, w⟩ ⟨true, ((Automatic.receive e).eval env { w with mem := m }).1⟩
  | crash {w : World} (m : Memory) (n : Nat) (env : Answers) :
    Again e ⟨true, w⟩ ⟨false, (Automatic.receive e).stop n env { w with mem := m }⟩
  | start {w : World} (broker : String) (m : Memory) (env : Answers)
    (h : ((boot broker).eval env { w with mem := m }).2 = .ok ()) :
    Again e ⟨false, w⟩ ⟨true, ((boot broker).eval env { w with mem := m }).1⟩
  | abort {w : World} (broker : String) (m : Memory) (n : Nat) (env : Answers) :
    Again e ⟨false, w⟩ ⟨false, (boot broker).stop n env { w with mem := m }⟩

abbrev Redelivered (e : CaptureEvent) : Process → Process → Prop := Relation.ReflTransGen (Again e)

/-- What is known all along: the state that was left, and that a running process has nothing in flight. -/
structure Replayed (e : CaptureEvent) (row : EventRow) (v : World) (p : Process) : Prop where
  kept : Standing e row v p.world
  landed : p.up = true → p.world.journal.Landed

theorem Replayed.again {p q : Process} (hk : e.kind = .accepted) (ha : e.action = .create)
    (hm : v.journal.legacyMigrated = true) (h : Replayed e row v p) (hs : Again e p q) : Replayed e row v q := by
  have hreplays {s t : World} (hst : Relation.ReflTransGen (Replays e) s t) (hs : Standing e row v s) : Standing e row v t :=
    invariant_of_reflTransGen hst (fun _ _ => Standing.replays) hs
  have hreopens {s t : World} (hst : Relation.ReflTransGen Reopens s t) (hs : Standing e row v s) : Standing e row v t :=
    invariant_of_reflTransGen hst (fun _ _ => Standing.reopens) hs
  have hlanded {s t : World} (hst : Relation.ReflTransGen (Replays e) s t) (hs : s.journal.Landed) : t.journal.Landed := by
    refine invariant_of_reflTransGen (I := fun u : World => u.journal.Landed) hst (fun u x hu hux => ?_) hs
    rcases hux.journal with hj | ⟨_, _, _, _, hj⟩
    · exact hj ▸ hu
    · rw [hj]
      exact ⟨hu.trades, hu.attempts⟩
  have hmemory {w : World} (m : Memory) (hw : Standing e row v w) : Standing e row v { w with mem := m } := ⟨hw.trace, hw.resumes, hw.event⟩
  cases hs with
  | @receive w m env =>
    obtain ⟨r, hr, _⟩ := h.kept.event
    have hwp := receive_replays (A := fun _ _ => True) (w := { w with mem := m }) hk ha hr
    have hst := (Prog.wp_eval hwp env fun _ _ => trivial).1
    exact ⟨hreplays hst (hmemory m h.kept), fun _ => hlanded hst ⟨(h.landed rfl).trades, (h.landed rfl).attempts⟩⟩
  | @crash w m n env =>
    obtain ⟨r, hr, _⟩ := h.kept.event
    have hwp := receive_replays (A := fun _ _ => True) (w := { w with mem := m }) hk ha hr
    exact ⟨hreplays (Prog.wp_stop hwp n env fun _ _ => trivial) (hmemory m h.kept), by simp⟩
  | @start w broker m env hok =>
    have hwp := boot_reopens (A := fun _ _ => True) (b := broker) (w := { w with mem := m }) (h.kept.resumes.migrated hm)
    obtain ⟨hst, hdone, _⟩ := Prog.wp_eval hwp env fun _ _ => trivial
    exact ⟨hreopens hst (hmemory m h.kept), fun _ => hdone () hok⟩
  | @abort w broker m n env =>
    have hwp := boot_reopens (A := fun _ _ => True) (b := broker) (w := { w with mem := m }) (h.kept.resumes.migrated hm)
    exact ⟨hreopens (Prog.wp_stop hwp n env fun _ _ => trivial) (hmemory m h.kept), by simp⟩

/-- After any stop that left a bridge create on record, starts and redeliveries write nothing to the broker, and a
redelivery reports what became of the trade just when the decision that the stop left is not behind it. -/
theorem redelivery_truthful (h : Reachable unrestricted ⟨false, v⟩) (hk : e.kind = .accepted) (ha : e.action = .create)
    (hrow : v.journal.event? (e.machine, e.eventId) = some row) (hd : row.decision = .captured ∨ row.decision = .held)
    (hrun : Redelivered e ⟨false, v⟩ ⟨true, w⟩) {m : Memory} {env : Answers} {r : NativeResult}
    (hr : ((Automatic.receive e).eval env { w with mem := m }).2 = .ok r) :
    ((Automatic.receive e).eval env { w with mem := m }).1.trace = v.trace
      ∧ (r.status = w.journal.trueStatus row.tradeId ↔ (v.journal.sending row.tradeId).Told row.decision) := by
  have hm := (h.sound ⟨rfl, rfl⟩).inv.opened.2
  have hreplayed : Replayed e row v ⟨true, w⟩ :=
    invariant_of_reflTransGen hrun (fun _ _ hp hs => hp.again hk ha hm hs) ⟨.refl hrow, by simp⟩
  obtain ⟨q, hq, hid, hreported⟩ := hreplayed.kept.event
  have hwp := receive_replays (A := fun _ _ => True) (w := { w with mem := m }) hk ha hq
  obtain ⟨hst, hstatus, _⟩ := Prog.wp_eval hwp env fun _ _ => trivial
  have hkept : Standing e row v { w with mem := m } := ⟨hreplayed.kept.trace, hreplayed.kept.resumes, hreplayed.kept.event⟩
  refine ⟨(invariant_of_reflTransGen hst (fun _ _ => Standing.replays) hkept).trace, ?_⟩
  have hsending := hreplayed.kept.resumes.sending row.tradeId
  have hs : r.status = (v.journal.sending row.tradeId).reported row.decision := by
    rw [hstatus r hr, hid, ← hreported, ← hsending]
  rw [hs, (hreplayed.landed rfl).trueStatus, hsending]
  exact Sending.reported_iff hd

end Programs

section Sample

attribute [local instance] sampleHost

/-- The process stops while it handles a bridge create. -/
def stoppedBridge (n : Nat) : World := (Op.native sampleEvent none).run.stop n sampleAnswers (started bridgeMemory)

theorem reachable_stoppedBridge (n : Nat) : Reachable unrestricted ⟨false, stoppedBridge n⟩ := by
  obtain ⟨broker, m, h⟩ := reachable_started unrestricted bridgeMemory
  exact ⟨broker, m, h.tail (.crash (.native sampleEvent none) trivial n sampleAnswers)⟩

def restarted (v : World) : World := ((boot "fx").eval sampleAnswers { v with mem := bridgeMemory }).1

/-- What comes of the redelivery after a restart. -/
def redelivery (v : World) : World × Except Exc NativeResult :=
  (Automatic.receive sampleEvent).eval sampleAnswers { restarted v with mem := bridgeMemory }

theorem redelivered_restarted {v : World}
    (h : ((boot "fx").eval sampleAnswers { v with mem := bridgeMemory }).2.toOption.any (fun _ => true) = true) :
    Redelivered sampleEvent ⟨false, v⟩ ⟨true, restarted v⟩ := by
  obtain ⟨⟨⟩, hok, _⟩ := exists_ok h
  exact .single (.start "fx" bridgeMemory sampleAnswers hok)

attribute [local irreducible] stoppedBridge restarted

/-- The attempt was recorded accepted, and its process stopped before the event was decided. -/
theorem redelivery_untruthful : ∃ n row r, (stoppedBridge n).journal.event? (sampleEvent.machine, sampleEvent.eventId) = some row
    ∧ row.decision = .held ∧ Redelivered sampleEvent ⟨false, stoppedBridge n⟩ ⟨true, restarted (stoppedBridge n)⟩
    ∧ (redelivery (stoppedBridge n)).2 = .ok r
    ∧ r.status = .held ∧ (restarted (stoppedBridge n)).journal.trueStatus row.tradeId = .accepted := by
  have hrow : ((stoppedBridge 23).journal.event? (sampleEvent.machine, sampleEvent.eventId)).any (fun row =>
      row.decision = .held ∧ (restarted (stoppedBridge 23)).journal.trueStatus row.tradeId = .accepted) = true := by
    decide +kernel
  have hreport : (redelivery (stoppedBridge 23)).2.toOption.any (fun r =>
      r.status = .held) = true := by
    decide +kernel
  obtain ⟨row, hrow, hc⟩ := (Option.any_eq_true _ _).mp hrow
  obtain ⟨r, hr, hs⟩ := exists_ok hreport
  obtain ⟨hd, ht⟩ := of_decide_eq_true hc
  exact ⟨23, row, r, hrow, hd, redelivered_restarted (by decide +kernel), hr, of_decide_eq_true hs, ht⟩

/-- A stop while the write is in flight is reported uncertain. -/
theorem redelivery_truthful_sample : ∃ n row r, (stoppedBridge n).journal.event? (sampleEvent.machine, sampleEvent.eventId) = some row
    ∧ (redelivery (stoppedBridge n)).2 = .ok r
    ∧ (redelivery (stoppedBridge n)).1.trace = (stoppedBridge n).trace
    ∧ r.status = .uncertain
    ∧ (r.status = (restarted (stoppedBridge n)).journal.trueStatus row.tradeId
      ↔ ((stoppedBridge n).journal.sending row.tradeId).Told row.decision) := by
  have hrow : ((stoppedBridge 15).journal.event? (sampleEvent.machine, sampleEvent.eventId)).any (fun row =>
      row.decision = .held) = true := by
    decide +kernel
  have hreport : (redelivery (stoppedBridge 15)).2.toOption.any (fun r =>
      r.status = .uncertain) = true := by
    decide +kernel
  obtain ⟨row, hrow, hd⟩ := (Option.any_eq_true _ _).mp hrow
  obtain ⟨r, hr, hs⟩ := exists_ok hreport
  have htruth := redelivery_truthful (reachable_stoppedBridge 15) rfl rfl hrow (Or.inr (of_decide_eq_true hd))
    (redelivered_restarted (by decide +kernel)) hr
  exact ⟨15, row, r, hrow, hr, htruth.1, of_decide_eq_true hs, htruth.2⟩

end Sample

end MatchTrader
