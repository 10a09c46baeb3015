import MatchTrader.PammPublisher

/-! A trade is sent to PAMM at most once, verified, and after its row: the row that an attempt leaves
is what bars the next one, whatever became of the first. -/

namespace MatchTrader

open Durable Relation

namespace PammStore

variable {w v : PammStore} {row : PublicationRow} {x : PammSend}

def sendsOf (w : PammStore) (tradeId : String) : Nat := w.sends.countP fun x => x.snapshot.tradeId = tradeId

/-- A snapshot that may be published. -/
def Publishable (s : Snapshot) : Prop := ∃ v, classify s = .ok v ∧ v.verified = true
  ∧ (v.state = .verifiedOpen ∨ v.state = .verifiedClosed)

/-- What was sent was verified and on record, and each trade was sent at most once. The identity of
a trade is the text of a UUID, so it is not empty. -/
structure Sound (w : PammStore) : Prop where
  verified : ∀ x ∈ w.sends, Publishable x.snapshot
  reserved : ∀ x ∈ w.sends, ∃ r ∈ x.table, r.tradeId = x.snapshot.tradeId
  kept : ∀ x ∈ w.sends, ∃ r ∈ w.publications, r.tradeId = x.snapshot.tradeId
  once : ∀ i ≠ "", w.sendsOf i ≤ 1

/-- What a transaction of the publisher does: no other table changes. -/
def Records (w v : PammStore) : Prop := v.journal = w.journal ∧ (w.Sound → v.Sound)

theorem Sound.of_publications (h : w.Sound) (hs : v.sends = w.sends)
    (hp : ∀ r ∈ w.publications, ∃ q ∈ v.publications, q.tradeId = r.tradeId) : v.Sound where
  verified x hx := h.verified x (hs ▸ hx)
  reserved x hx := h.reserved x (hs ▸ hx)
  kept x hx := by
    obtain ⟨r, hr, he⟩ := h.kept x (hs ▸ hx)
    obtain ⟨q, hq, hqr⟩ := hp r hr
    exact ⟨q, hq, hqr.trans he⟩
  once i hi := by
    rw [sendsOf, hs]
    exact h.once i hi

theorem Sound.reserve (row : PublicationRow) (h : w.Sound) : ({ w with publications := w.publications ++ [row] } : PammStore).Sound :=
  h.of_publications rfl fun r hr => ⟨r, List.mem_append_left _ hr, rfl⟩

theorem Sound.settle (h : w.Sound) :
    (⟨w.journal, Rows.updateWhere (fun r => r.key = row.key) row.answer w.publications, w.sends⟩ : PammStore).Sound := by
  refine h.of_publications rfl fun r hr => ⟨_, Rows.mem_updateWhere_of_mem hr, ?_⟩
  split <;> rfl

theorem Sound.send (h : w.Sound) (hx : Publishable x.snapshot) (htable : x.table = w.publications)
    (hrow : ∃ r ∈ w.publications, r.tradeId = x.snapshot.tradeId)
    (hfirst : x.snapshot.tradeId ≠ "" → w.sendsOf x.snapshot.tradeId = 0) :
    ({ w with sends := w.sends ++ [x] } : PammStore).Sound where
  verified y hy := by
    rcases List.mem_append.mp hy with hy | hy
    · exact h.verified y hy
    · obtain rfl := List.mem_singleton.mp hy
      exact hx
  reserved y hy := by
    rcases List.mem_append.mp hy with hy | hy
    · exact h.reserved y hy
    · obtain rfl := List.mem_singleton.mp hy
      rw [htable]
      exact hrow
  kept y hy := by
    rcases List.mem_append.mp hy with hy | hy
    · exact h.kept y hy
    · obtain rfl := List.mem_singleton.mp hy
      exact hrow
  once i hi := by
    have hold := h.once i hi
    simp only [sendsOf, List.countP_append, List.countP_singleton] at hold ⊢
    by_cases he : x.snapshot.tradeId = i
    · subst he
      have hzero := hfirst hi
      simp only [sendsOf] at hzero
      simp [hzero]
    · simpa [he] using hold

theorem Sound.sendsOf_eq_zero (h : w.Sound) {i : String} (hi : ∀ r ∈ w.publications, r.tradeId ≠ i) : w.sendsOf i = 0 := by
  rw [sendsOf, List.countP_eq_zero]
  intro x hx he
  obtain ⟨r, hr, hrx⟩ := h.kept x hx
  exact hi r hr (hrx.trans (by simpa using he))

end PammStore

namespace PammPublisher

open PammStore

variable [WebHost] {w : PammStore} {s : Snapshot} {v : Verdict}

abbrev Any : (q : PammQuery) → PammReply q → Prop := fun _ _ => True

omit [WebHost] in
theorem wp_any {q : PammQuery} {P : PammReply q → PammStore → Prop} {E : Exc → PammStore → Prop}
    {G : PammStore → PammStore → Prop} :
    (Prog.query (R := PammReply) q : PammAct (PammReply q)).wp Any G P E w ↔ ∀ r, P r w :=
  ⟨fun h r => h r trivial, fun h r _ => h r⟩

omit [WebHost] in
theorem statement_quiet : statement.Quiet :=
  (Prog.quiet_query (R := PammReply) PammQuery.statementFails).bind fun fails => by
    cases fails with
    | false => exact Prog.quiet_pure _
    | true => exact Prog.quiet_throw _

omit [WebHost] in
theorem enabled_quiet : enabled.Quiet := by
  refine (Prog.quiet_query (R := PammReply) PammQuery.forwarder).bind fun there => ?_
  cases there with
  | false => exact Prog.quiet_pure _
  | true =>
    refine (Prog.quiet_query (R := PammReply) PammQuery.ticket).bind fun ticket => ?_
    split
    · exact Prog.quiet_pure _
    · exact (Prog.quiet_query (R := PammReply) PammQuery.settings).bind fun _ => Prog.quiet_pure _

omit [WebHost] in
theorem latest_eq_nil {rows : List PublicationRow} {i : String} (hi : i ≠ "") (h : latest rows [i] = []) :
    ∀ r ∈ rows, r.tradeId ≠ i := by
  intro r hr he
  have hmem : r ∈ (rows.insertionSort fun a b => a.publishedAt ≤ b.publishedAt).filter fun r => r.tradeId = i := by
    simp [he, hr]
  have hlast := List.getLast?_eq_some_getLast (List.ne_nil_of_mem hmem)
  have hids : (([i] : List String).dedup.filter fun j => j ≠ "") = [i] := by simp [hi]
  simp only [latest, hids, List.filterMap_cons, hlast, reduceCtorEq] at h

omit [WebHost] in
theorem wp_publications {P : List PublicationRow → PammStore → Prop} {E : Exc → PammStore → Prop} {G : PammStore → PammStore → Prop}
    (hP : ∀ rows, (s.tradeId ≠ "" → rows = [] → ∀ r ∈ w.publications, r.tradeId ≠ s.tradeId) → P rows w)
    (hE : ∀ e, E e w) : (publications [s.tradeId]).wp Any G P E w := by
  unfold publications
  split
  · next hall =>
    refine hP [] fun hi => absurd ?_ hi
    simpa using hall
  · rw [Prog.wp_bind]
    exact statement_quiet.wp (fun _ => hP _ fun hi hnil => latest_eq_nil hi hnil) hE

theorem wp_attempt (hw : w.Sound) (hs : Publishable s) (hfresh : s.tradeId ≠ "" → ∀ r ∈ w.publications, r.tradeId ≠ s.tradeId) :
    (attempt s v).wp Any Records (fun _ t => t.Sound) (fun _ t => t.Sound) w := by
  have hfirst : s.tradeId ≠ "" → w.sendsOf s.tradeId = 0 := fun hi => hw.sendsOf_eq_zero (hfresh hi)
  simp only [attempt, Prog.wp_bind]
  refine (wp_any (q := .forwarder)).mpr fun there => ?_
  cases there with
  | false => exact hw
  | true =>
    simp only [Bool.not_true, Bool.false_eq_true, if_false, Prog.wp_bind]
    refine (wp_any (q := .settings)).mpr fun f => (Prog.wp_ofExcept _).mpr ⟨fun url _ => ?_, fun _ _ => hw⟩
    refine (wp_any (q := .clock)).mpr fun at_ => ?_
    simp only [reserve, Prog.wp_bind]
    refine statement_quiet.wp (fun _ => ?_) fun _ => hw
    rw [Prog.wp_attempt]
    refine ⟨fun _ _ => hw, fun _ t ht => ?_⟩
    split at ht
    · cases ht
    · obtain ⟨rfl, rfl⟩ := Prod.mk.inj (Except.ok.inj ht)
      have hw₁ := hw.reserve { tradeId := s.tradeId, publishedAt := at_.isoformat, errorClass := inFlight }
      refine ⟨⟨rfl, fun _ => hw₁⟩, ?_⟩
      simp only [send, Prog.wp_bind, Prog.wp_commit]
      have hw₂ := hw₁.send (x := ⟨s, url, [(f.authHeader, f.apiKey), ("Content-Type", "application/json")],
        payload s v, _⟩) hs rfl ⟨_, List.mem_append_right _ (List.mem_singleton_self _), rfl⟩ hfirst
      refine ⟨⟨rfl, fun _ => hw₂⟩, wp_any.mpr fun reply => (wp_any (q := .elapsed)).mpr fun duration => ?_⟩
      simp only [settle, Prog.wp_bind]
      refine statement_quiet.wp (fun _ => ?_) fun _ => hw₂
      exact ⟨⟨rfl, fun _ => hw₂.settle⟩, hw₂.settle⟩

theorem wp_publish (hw : w.Sound) : (publish s).wp Any Records (fun _ t => t.Sound) (fun _ t => t.Sound) w := by
  simp only [publish, Option.elim_none, Prog.wp_bind, Prog.wp_ofExcept]
  refine ⟨fun v hv => ?_, fun _ _ => hw⟩
  by_cases hstate : v.verified = true ∧ v.state ∈ verifiedStates
  · have hs : Publishable s := ⟨v, hv, hstate.1, by simpa [verifiedStates] using hstate.2⟩
    simp only [hstate.1, hstate.2, not_true_eq_false, decide_false, Bool.not_true, Bool.or_false, Bool.false_eq_true,
      if_false, Prog.wp_bind]
    refine wp_publications (fun rows hrows => ?_) fun _ => hw
    cases rows with
    | cons r rest => exact hw
    | nil =>
      simp only [List.isEmpty_nil, Bool.not_true, Bool.false_eq_true, if_false, Prog.wp_bind]
      refine enabled_quiet.wp (fun on => ?_) fun _ => hw
      cases on with
      | false => exact hw
      | true =>
        simp only [Bool.not_true, Bool.false_eq_true, if_false, Prog.wp_bind]
        exact wp_attempt hw hs fun hi => hrows hi rfl
  · have hskip : (!v.verified || decide (v.state ∉ verifiedStates)) = true := by
      simp only [Bool.or_eq_true, Bool.not_eq_true', decide_eq_true_eq]
      by_cases hverified : v.verified = true
      · exact Or.inr fun hm => hstate ⟨hverified, hm⟩
      · exact Or.inl (by simpa using hverified)
    simp only [hskip, if_true]
    exact hw

theorem wp_publishEach (snapshots : List Snapshot) (hw : w.Sound) :
    (publishEach snapshots).wp Any Records (fun _ t => t.Sound) (fun _ t => t.Sound) w := by
  induction snapshots generalizing w with
  | nil => exact hw
  | cons s rest ih =>
    simp only [publishEach, Prog.wp_bind]
    exact Prog.wp_consequence (wp_publish hw)
      (fun _ t ht => Prog.wp_consequence (ih ht) (fun _ _ hu => hu) fun _ _ hu => hu) fun _ _ ht => ht

theorem wp_sweep (snapshots : List Snapshot) (hw : w.Sound) :
    (sweep snapshots).wp Any Records (fun _ t => t.Sound) (fun _ t => t.Sound) w := by
  simp only [sweep, Prog.wp_bind]
  refine enabled_quiet.wp (fun on => ?_) fun _ => hw
  cases on with
  | false => exact hw
  | true => exact wp_publishEach snapshots hw

theorem wp_publishVerified (selected : String) (hw : w.Sound) :
    (publishVerified selected).wp Any Records (fun _ t => t.Sound) (fun _ t => t.Sound) w := by
  simp only [publishVerified, Prog.wp_bind]
  refine enabled_quiet.wp (fun on => ?_) fun _ => hw
  cases on with
  | false => exact hw
  | true =>
    simp only [Bool.not_true, Bool.false_eq_true, if_false, Prog.wp_bind, Prog.wp_reads, Prog.wp_tryCatch, Prog.wp_discard]
    exact wp_sweep _ hw

end PammPublisher

open PammPublisher PammStore

section Runs

variable [WebHost]

/-- What the publisher is asked to do. -/
inductive PammOp where
  | sweep (snapshots : List Snapshot)
  | publishVerified (selected : String)

def PammOp.run : PammOp → PammAct Unit
  | sweep snapshots => discard (PammPublisher.sweep snapshots)
  | publishVerified selected => PammPublisher.publishVerified selected

abbrev PammAnswers := Nat → (q : PammQuery) → PammReply q

/-- A history's moves: the forwarder and the upstream answer as they like, a process stops between
any two transactions and another goes on, and the capture tables change in between. -/
inductive PammMove : PammStore → PammStore → Prop
  | serve {w : PammStore} (op : PammOp) (env : PammAnswers) : PammMove w (op.run.eval env w).1
  | crash {w : PammStore} (op : PammOp) (n : Nat) (env : PammAnswers) : PammMove w (op.run.stop n env w)
  | capture {w : PammStore} (j : Journal) : PammMove w { w with journal := j }

variable {w v : PammStore}

theorem PammOp.wp_run (op : PammOp) (hw : w.Sound) :
    op.run.wp Any Records (fun _ t => t.Sound) (fun _ t => t.Sound) w := by
  cases op with
  | sweep snapshots =>
    rw [PammOp.run, Prog.wp_discard]
    exact wp_sweep snapshots hw
  | publishVerified selected => exact wp_publishVerified selected hw

omit [WebHost] in
theorem Records.trans (h : ReflTransGen Records w v) : Records w v := by
  induction h with
  | refl => exact ⟨rfl, id⟩
  | tail _ h ih => exact ⟨h.1.trans ih.1, fun hw => h.2 (ih.2 hw)⟩

theorem PammOp.records (op : PammOp) (hw : w.Sound) (n : Nat) (env : PammAnswers) :
    Records w (op.run.eval env w).1 ∧ Records w (op.run.stop n env w) :=
  ⟨Records.trans (Prog.wp_eval (op.wp_run hw) env fun _ _ => trivial).1,
    Records.trans (Prog.wp_stop (op.wp_run hw) n env fun _ _ => trivial)⟩

theorem PammMove.sound (h : PammMove w v) (hw : w.Sound) : v.Sound := by
  cases h with
  | serve op env => exact (op.records hw 0 env).1.2 hw
  | crash op n env => exact (op.records hw n env).2.2 hw
  | capture j => exact hw.of_publications rfl fun r hr => ⟨r, hr, rfl⟩

theorem PammMove.sound_trans (h : ReflTransGen PammMove w v) (hw : w.Sound) : v.Sound := by
  induction h with
  | refl => exact hw
  | tail _ h ih => exact h.sound ih

omit [WebHost] in
theorem PammStore.sound_nil (j : Journal) (rows : List PublicationRow) : PammStore.Sound ⟨j, rows, []⟩ :=
  ⟨by simp, by simp, by simp, by simp [sendsOf]⟩

end Runs

/-- Over any history from a store that nothing was sent from yet, each trade is sent upstream at most
once, every send was of a verified snapshot and after a committed row, and no publication, at
whatever point it stops, changes another table. -/
theorem pamm_published_once [WebHost] {j : Journal} {rows : List PublicationRow} {w : PammStore}
    (h : ReflTransGen PammMove ⟨j, rows, []⟩ w) :
    (∀ i ≠ "", w.sendsOf i ≤ 1) ∧ (∀ x ∈ w.sends, ∃ r ∈ x.table, r.tradeId = x.snapshot.tradeId)
      ∧ (∀ x ∈ w.sends, ∃ v, classify x.snapshot = .ok v ∧ (v.state = .verifiedOpen ∨ v.state = .verifiedClosed))
      ∧ ∀ (op : PammOp) (n : Nat) (env : PammAnswers),
        (op.run.eval env w).1.journal = w.journal ∧ (op.run.stop n env w).journal = w.journal := by
  have hw := PammMove.sound_trans h (PammStore.sound_nil j rows)
  refine ⟨hw.once, hw.reserved, fun x hx => ?_, fun op n env => ?_⟩
  · obtain ⟨v, hv, _, hstate⟩ := hw.verified x hx
    exact ⟨v, hv, hstate⟩
  · obtain ⟨heval, hstop⟩ := op.records hw n env
    exact ⟨heval.1, hstop.1⟩

section Sample

attribute [local instance] sampleWebHost

def samplePammScope : LegScope := .destination "broker" "account"

/-- A trade with a timed read-back of its position. -/
def sampleVerified : Snapshot :=
  { tradeId := "t1", broker := "broker", accountId := "account", symbol := "EURUSD", side := "BUY", source := .unknown
    lots := none, sourceQuantity := none, sourceState := "", state := .opened, reasons := []
    links := [⟨⟨"t1", .source, samplePammScope, .order, "o1", "", ""⟩, []⟩,
      ⟨⟨"t1", .destination, samplePammScope, .position, "p1", "", ""⟩, ["t1"]⟩]
    quantities := [], actions := []
    destinationObservations := [{
      tradeId := "t1", scope := samplePammScope, positionId := "p1", reader := .openPositions, executionKey := "p1"
      orderId := none, symbol := "EURUSD", side := "BUY", volume := none, openPrice := none, openTime := none
      openTimeMillis := some 1789000000000, closeTime := none, closeReason := none, firstSeenAt := "", updatedAt := "" }]
    outcomeReasons := [] }

/-- Forwarding is live, and the upstream refuses. -/
def sampleRefusal : PammAnswers
  | _, .clock => noon 0
  | _, .statementFails => false
  | _, .forwarder => true
  | _, .ticket => ⟨1, true, true⟩
  | _, .settings => ⟨"https://tradingbox.pro/api/hcamm/events", "key", "X-HCAMM-Key"⟩
  | _, .send .. => .ok 500
  | _, .elapsed => ⟨false, 1, 0⟩

/-- A second sweep finds the row of the first. -/
def sampleSwept : PammStore :=
  ((PammOp.sweep [sampleVerified]).run.eval sampleRefusal
    ((PammOp.sweep [sampleVerified]).run.eval sampleRefusal ⟨{}, [], []⟩).1).1

theorem pamm_published_once_sample : sampleSwept.sendsOf "t1" = 1 ∧ ∀ i ≠ "", sampleSwept.sendsOf i ≤ 1 :=
  ⟨by decide +kernel, (pamm_published_once (.tail (.single (.serve (.sweep [sampleVerified]) sampleRefusal))
    (.serve (.sweep [sampleVerified]) sampleRefusal))).1⟩

end Sample

end MatchTrader
