import MatchTrader.Absorbing

/-! A verified trade was read back. Every stored read-back goes back to reads of the trade's
account that returned its position with its symbol and side, and the times it shows were
reported by such a read. -/

namespace MatchTrader

open Durable

/-- A read of the account returned the position with an open time. -/
def ReadWithTime (trace : List Event) (account position symbol side : String) : Prop :=
  ∃ openTime millis, Reported trace account position symbol side openTime millis
    ∧ (openTime.any (fun s => !blank s) = true ∨ millis.isSome = true)

/-- Where a stored read-back comes from. -/
structure Sourced (w : World) (o : ObservationRow) : Prop where
  trade : ∃ t, w.journal.trade? o.tradeId = some t ∧ t.placed ∧ o.symbol = t.symbol ∧ o.side = t.side
    ∧ o.scope = w.journal.destinationScope t.destination
    ∧ (hasTime o = true → ReadWithTime w.trace t.destination o.positionId o.symbol o.side)

/-- Every stored read-back comes from reads. -/
def Evident (w : World) : Prop := ∀ o ∈ w.journal.observations, Sourced w o

/-- The state a verified trade shows. -/
def VerifiedState.isVerified : VerifiedState → Bool
  | verifiedOpen | verifiedClosed => true
  | _ => false

def RowState.isVerified : RowState → Bool
  | classified s => s.isVerified
  | _ => false

theorem mem_of_bestRow {rows : List ObservationRow} {r : ObservationRow} (h : bestRow rows = some r) : r ∈ rows := by
  cases rows with
  | nil => simp [bestRow] at h
  | cons q rest =>
    simp only [bestRow, Option.some.injEq] at h
    have hmem (l : List ObservationRow) (b : ObservationRow) :
        l.foldl (fun best q => if outranks q best then q else best) b ∈ b :: l := by
      induction l generalizing b with
      | nil => simp
      | cons x xs ih =>
        rw [List.foldl_cons]
        by_cases hx : outranks x b = true
        · rw [if_pos hx]
          exact List.mem_cons_of_mem _ (ih x)
        · rw [if_neg hx]
          rcases List.mem_cons.mp (ih b) with h | h
          · rw [h]
            exact List.mem_cons_self
          · exact List.mem_cons_of_mem _ (List.mem_cons_of_mem _ h)
    exact h ▸ hmem rest q

namespace Snapshot

variable {s : Snapshot}

theorem isVerified_standing (fullyClosed : Bool) : (s.standing fullyClosed).1.isVerified = s.verified := by
  unfold standing
  cases hv : s.verified with
  | true => cases fullyClosed <;> rfl
  | false =>
    simp only [Bool.false_and, Bool.false_eq_true, if_false]
    repeat' split
    all_goals rfl

/-- A verified trade has a linked position, a timed row of evidence, a source, and no guard. -/
theorem verified_evidence (h : s.verified = true) : ∃ l r, s.destinationLink = some l ∧ r ∈ s.evidence
    ∧ hasTime r = true ∧ s.hasSource = true ∧ s.guardedLinks = false := by
  simp only [verified, Bool.and_eq_true, Bool.not_eq_true'] at h
  obtain ⟨⟨⟨⟨hl, hrow⟩, ht⟩, hs⟩, hg⟩ := h
  obtain ⟨l, hl⟩ := Option.isSome_iff_exists.mp hl
  obtain ⟨r, hr⟩ := Option.isSome_iff_exists.mp hrow
  exact ⟨l, r, hl, mem_of_bestRow hr, by simpa [timed, hr] using ht, hs, hg⟩

theorem classify_ok {v : Verdict} (h : classify s = .ok v) :
    v.verified = s.verified ∧ v.state.isVerified = s.verified ∧ v.readBack = s.row := by
  unfold classify at h
  rw [bind_eq_ok] at h
  obtain ⟨fullyClosed, _, h⟩ := h
  obtain rfl := Except.ok.inj h
  exact ⟨rfl, isVerified_standing fullyClosed, rfl⟩

theorem isVerified_paperStanding {v : Verdict} {paper : Bool} {reasons : List String}
    (h : v.verified = v.state.isVerified) : (paperStanding v paper reasons).1.isVerified = v.verified := by
  unfold paperStanding
  split
  · next hp =>
    simp only [Bool.not_eq_true'] at hp
    exact hp.2.symm
  · exact h.symm

/-- No verified trade shows as cancelled, since it has a position. -/
theorem isVerified_cancelledStanding {shown : RowState × List String} (h : shown.1.isVerified = s.verified) :
    (s.cancelledStanding shown).1.isVerified = s.verified := by
  unfold cancelledStanding
  split
  · next hc =>
    cases hv : s.verified with
    | false => rfl
    | true =>
      obtain ⟨l, _, hl, _⟩ := verified_evidence hv
      have hnil := hc.2.2
      simp only [nativeIds, List.map_eq_nil_iff, List.filter_eq_nil_iff] at hnil
      exact absurd (List.find?_some hl) (hnil l (List.mem_of_find?_eq_some hl))
  · exact h

/-- The row of the ledger says of a trade what the verdict says. -/
theorem verifiedRow_ok {enabled : Source → Bool} {paper : Bool} {r : VerifiedRow}
    (h : verifiedRow s enabled paper = .ok r) : r.verified = s.verified ∧ r.state.isVerified = s.verified := by
  unfold verifiedRow at h
  rw [bind_eq_ok] at h
  obtain ⟨v, hv, h⟩ := h
  obtain ⟨h₁, h₂, _⟩ := classify_ok hv
  obtain rfl := Except.ok.inj h
  exact ⟨h₁, isVerified_cancelledStanding ((isVerified_paperStanding (h₁.trans h₂.symm)).trans h₁)⟩

end Snapshot

section Steps

variable [Host] {R : Rules} {w v : World}

omit [Host] in
theorem Reported.mono {trace trace' : List Event} (hs : ∀ e ∈ trace, e ∈ trace')
    {account position symbol side : String} {openTime : Option String} {millis : Option Int}
    (h : Reported trace account position symbol side openTime millis) :
    Reported trace' account position symbol side openTime millis := by
  rcases h with ⟨ps, hp, hrest⟩ | ⟨cs, hc, hrest⟩
  · exact Or.inl ⟨ps, hs _ hp, hrest⟩
  · exact Or.inr ⟨cs, hs _ hc, hrest⟩

theorem Sourced.step (hI : Inv w) (hs : Step R w v) {o : ObservationRow} (ho : o ∈ w.journal.observations)
    (h : Sourced w o) : Sourced v o := by
  obtain ⟨t, ht, hp, hsym, hside, hsc, htime⟩ := h.trade
  obtain ⟨u, hu, hc⟩ := hs.trade ht
  obtain ⟨h₁, h₂, h₃⟩ := hc.evidence ⟨o, ho, (Rows.lookup_mem ht).2.symm⟩
  have hb := (hs.opened hI.opened).1
  refine ⟨u, hu, hc.placed hp, hsym.trans h₁.symm, hside.trans h₂.symm, ?_, fun hh => ?_⟩
  · rw [hsc, Journal.destinationScope, Journal.destinationScope, hb, h₃]
  · obtain ⟨ot, m, hr, hx⟩ := htime hh
    exact ⟨ot, m, h₃ ▸ hr.mono fun _ he => hs.trace_subset he, hx⟩

omit [Host] in
/-- What is merged of two reports has a time only if one of them has. -/
theorem hasTime_fillTimes {o q : ObservationRow} (h : hasTime (o.cleaned.fillTimes (o.cleaned.refresh q)) = true) :
    hasTime q = true ∨ hasTime o = true := by
  have hrt : (o.cleaned.refresh q).openTime = q.openTime ∧ (o.cleaned.refresh q).openTimeMillis = q.openTimeMillis := by
    unfold ObservationRow.refresh
    split <;> exact ⟨rfl, rfl⟩
  simp only [hasTime, ObservationRow.fillTimes, hrt.1, hrt.2, Bool.or_eq_true] at h ⊢
  rcases h with h | h
  · cases hq : q.openTime with
    | some t => simp_all
    | none =>
      simp only [hq, Option.none_or, ObservationRow.cleaned] at h
      split at h
      · simp at h
      · exact Or.inr (Or.inl h)
  · cases hq : q.openTimeMillis with
    | some t => simp
    | none =>
      simp only [hq, Option.none_or, ObservationRow.cleaned] at h
      exact Or.inr (Or.inr h)

omit [Host] in
theorem hasTime_cleaned {o : ObservationRow} (h : hasTime (o.cleaned.fillTimes o.cleaned) = true) : hasTime o = true := by
  simp only [hasTime, ObservationRow.fillTimes, Option.or_self, ObservationRow.cleaned, Bool.or_eq_true] at h ⊢
  rcases h with h | h
  · split at h
    · simp at h
    · exact Or.inl h
  · exact Or.inr h

omit [Host] in
theorem Observes.timed {o : ObservationRow} (h : Observes w o) {t : TradeRow} (ht : w.journal.trade? o.tradeId = some t)
    (hh : hasTime o = true) : ReadWithTime w.trace t.destination o.positionId o.symbol o.side := by
  obtain ⟨u, hu, _, _, _, _, hr, _⟩ := h.trade
  obtain rfl := Option.some.inj (hu.symm.trans ht)
  simp only [hasTime, Bool.or_eq_true] at hh
  exact ⟨_, _, hr, hh⟩

theorem Evident.step (hI : Inv w) (h : Evident w) (hs : Step R w v) : Evident v := by
  have hold {o : ObservationRow} (ho : o ∈ w.journal.observations) : Sourced v o := (h o ho).step hI hs ho
  cases hs with
  | claim hc hp =>
    obtain ⟨_, _, rfl⟩ := Journal.claim_ok hc
    exact fun o ho => hold ho
  | finish hf hne =>
    obtain ⟨_, _, rfl⟩ := Journal.finish_ok hf
    exact fun o ho => hold ho
  | @observe o hob =>
    intro r hr
    obtain ⟨t, ht, hp, hsc, hsym, hside, _⟩ := hob.trade
    rcases Journal.mem_observeDestination hr with ⟨hr, _⟩ | ⟨q, hq, hk, rfl⟩ | ⟨_, rfl⟩
    · exact hold hr
    · obtain ⟨u, hu, _, hqsym, hqside, hqsc, hqt⟩ := (h q hq).trade
      simp only [ObservationRow.key, Prod.mk.injEq] at hk
      obtain ⟨hid, hscope, hpos, _, _⟩ := hk
      obtain rfl : u = t := Option.some.inj (hu.symm.trans (hid ▸ ht))
      have hkeep : (o.cleaned.refresh q).tradeId = q.tradeId ∧ (o.cleaned.refresh q).scope = q.scope
          ∧ (o.cleaned.refresh q).positionId = q.positionId ∧ (o.cleaned.refresh q).symbol = u.symbol
          ∧ (o.cleaned.refresh q).side = u.side := by
        unfold ObservationRow.refresh
        split
        · exact ⟨rfl, rfl, rfl, hsym, hside⟩
        · exact ⟨rfl, rfl, rfl, hqsym, hqside⟩
      obtain ⟨hk₁, hk₂, hk₃, hk₄, hk₅⟩ := hkeep
      refine ⟨u, ?_, hp, hk₄, hk₅, hk₂.trans hqsc, fun hh => ?_⟩
      · exact (congrArg w.journal.trade? hk₁).trans hu
      · change ReadWithTime w.trace u.destination (o.cleaned.refresh q).positionId (o.cleaned.refresh q).symbol
          (o.cleaned.refresh q).side
        rw [hk₃, hk₄, hk₅]
        rcases hasTime_fillTimes hh with hh | hh
        · exact hqsym ▸ hqside ▸ hqt hh
        · exact hpos ▸ hsym ▸ hside ▸ hob.timed ht hh
    · exact ⟨t, ht, hp, hsym, hside, hsc, fun hh => hob.timed ht (hasTime_cleaned hh)⟩
  | _ => exact fun o ho => hold ho

theorem Reachable.evident {s : Process} (hR : R.Plain) (h : Reachable R s) : Evident s.world :=
  h.induct (I := Evident) hR (fun _ _ => by simp [Evident, World.fresh, Journal.created])
    fun _ _ hI hs hw => hw.step hI hs

/-- What a verified trade has: a source, one destination position that no other trade is linked to, and a read of
its account that returned that position with the trade's symbol and side and an open time. -/
structure ReadBack (w : World) (t : TradeRow) : Prop where
  sourced : ∃ k ∈ w.journal.links, k.tradeId = t.tradeId ∧ k.side = .source
  position : ∃ l, (w.journal.links.filter fun k => k.tradeId = t.tradeId ∧ k.side = .destination ∧ k.kind = .position) = [l]
    ∧ (∀ k ∈ w.journal.links, k.side = .destination → k.kind = .position → k.scope = l.scope →
        k.nativeId = l.nativeId → k.tradeId = t.tradeId)
    ∧ (∃ o ∈ w.journal.observations, o.tradeId = t.tradeId ∧ o.positionId = l.nativeId
        ∧ o.scope = .destination (w.journal.broker.getD "") t.destination)
    ∧ ReadWithTime w.trace t.destination l.nativeId t.symbol t.side

omit [Host] in
theorem Journal.links_snapshot {j : Journal} {t : TradeRow} :
    (j.snapshot t).destinationPositions.map LinkView.row
      = j.links.filter fun k => k.tradeId = t.tradeId ∧ k.side = .destination ∧ k.kind = .position := by
  simp only [Snapshot.destinationPositions, Journal.snapshot, List.filter_map, List.map_map, List.filter_filter]
  rw [show (LinkView.row ∘ fun l : LinkRow => (⟨l, if l.kind = .position then j.owners l.side l.scope l.nativeId else []⟩ :
    LinkView)) = id from rfl, List.map_id]
  refine List.filter_congr fun k _ => ?_
  simp only [Function.comp, Bool.decide_and]
  rw [Bool.and_comm]

omit [Host] in
theorem Journal.contributors_snapshot {j : Journal} {t : TradeRow} {l : LinkView} (h : l ∈ (j.snapshot t).links) :
    l.contributors = if l.row.kind = .position then j.owners l.row.side l.row.scope l.row.nativeId else [] := by
  simp only [snapshot, List.mem_map] at h
  obtain ⟨k, _, rfl⟩ := h
  rfl

omit [Host] in
theorem readBack_of_verified (h : Evident w) {t : TradeRow} (ht : w.journal.trade? t.tradeId = some t)
    (hv : (w.journal.snapshot t).verified = true) : ReadBack w t := by
  obtain ⟨l, r, hl, hr, htime, hsrc, hg⟩ := Snapshot.verified_evidence hv
  have hlm : l ∈ (w.journal.snapshot t).destinationPositions := by
    have hp := List.find?_some hl
    simp only [decide_eq_true_eq] at hp
    exact List.mem_filter.mpr ⟨List.mem_of_find?_eq_some hl, by simp [hp.1, hp.2.1]⟩
  simp only [Snapshot.guardedLinks, Bool.or_eq_false_iff, decide_eq_false_iff_not, not_lt, List.any_eq_false] at hg
  have hone : (w.journal.snapshot t).destinationPositions = [l] := by
    obtain ⟨x, hx⟩ := List.length_eq_one_iff.mp (le_antisymm hg.1 (List.length_pos_of_mem hlm))
    rw [hx] at hlm ⊢
    rw [List.mem_singleton.mp hlm]
  have hrows : (w.journal.links.filter fun k => k.tradeId = t.tradeId ∧ k.side = .destination ∧ k.kind = .position)
      = [l.row] := by
    rw [← Journal.links_snapshot, hone, List.map_singleton]
  have hlrow : l.row ∈ w.journal.links ∧ l.row.tradeId = t.tradeId ∧ l.row.side = .destination
      ∧ l.row.kind = .position := by
    have hm := hrows ▸ List.mem_singleton_self l.row
    simpa using hm
  simp only [Snapshot.evidence, hl, List.mem_filter, decide_eq_true_eq] at hr
  obtain ⟨hro, hpos, hsym, hside, hsc⟩ := hr
  simp only [Journal.snapshot, List.mem_insertionSort, List.mem_filter, decide_eq_true_eq] at hro
  refine ⟨?_, l.row, hrows, fun k hk hks hkk hksc hkn => ?_, ⟨r, hro.1, hro.2, hpos, hsc⟩, ?_⟩
  · simp only [Snapshot.hasSource, Journal.snapshot, List.any_map, List.any_filter, List.any_eq_true] at hsrc
    obtain ⟨k, hk, hx⟩ := hsrc
    simp only [Bool.and_eq_true, decide_eq_true_eq, Function.comp] at hx
    exact ⟨k, hk, hx.1, hx.2⟩
  · have hcon := hg.2 l hlm
    rw [Journal.contributors_snapshot (List.mem_of_find?_eq_some hl), if_pos hlrow.2.2.2, hlrow.2.2.1] at hcon
    have hmem {x : LinkRow} (hx : x ∈ w.journal.links) (h₁ : x.side = .destination) (h₂ : x.kind = .position)
        (h₃ : x.scope = l.row.scope) (h₄ : x.nativeId = l.row.nativeId) :
        x.tradeId ∈ w.journal.owners .destination l.row.scope l.row.nativeId := by
      rw [Journal.owners, List.mem_dedup]
      exact List.mem_map_of_mem (List.mem_filter.mpr ⟨hx, by simp [h₁, h₂, h₃, h₄]⟩)
    have hk' := hmem hk hks hkk hksc hkn
    have hl' := hmem hlrow.1 hlrow.2.2.1 hlrow.2.2.2 rfl rfl
    simp only [decide_eq_true_eq, not_lt] at hcon
    obtain ⟨x, hx⟩ := List.length_eq_one_iff.mp (le_antisymm hcon (List.length_pos_of_mem hk'))
    rw [hx, List.mem_singleton] at hk' hl'
    rw [hk', ← hl', hlrow.2.1]
  · obtain ⟨u, hu, _, _, _, _, htimed⟩ := (h r hro.1).trade
    obtain rfl : u = t := Option.some.inj (hu.symm.trans (hro.2 ▸ ht))
    have hrt := htimed htime
    rwa [hpos, hsym, hside] at hrt

/-- In every state a run can get to, a trade is verified only if a broker read said so, and a verdict, like the row of
the ledger made of it, says verified just when it shows a verified state. -/
theorem verified_by_read {s : Process} (h : Reachable unrestricted s) {t : TradeRow}
    (ht : s.world.journal.trade? t.tradeId = some t) :
    (∀ v, classify (s.world.journal.snapshot t) = .ok v →
        v.verified = v.state.isVerified ∧ (v.verified = true → ReadBack s.world t))
      ∧ ∀ enabled paper r, verifiedRow (s.world.journal.snapshot t) enabled paper = .ok r →
        r.verified = r.state.isVerified ∧ (r.verified = true → ReadBack s.world t) := by
  have hback := readBack_of_verified (h.evident ⟨rfl, rfl⟩) ht
  refine ⟨fun v hv => ?_, fun enabled paper r hr => ?_⟩
  · obtain ⟨h₁, h₂, _⟩ := Snapshot.classify_ok hv
    exact ⟨h₁.trans h₂.symm, fun hh => hback (h₁ ▸ hh)⟩
  · obtain ⟨h₁, h₂⟩ := Snapshot.verifiedRow_ok hr
    exact ⟨h₁.trans h₂.symm, fun hh => hback (h₁ ▸ hh)⟩

end Steps

attribute [local instance] sampleHost

def samplePosition : Position :=
  ⟨"P1", "EURUSD", "BUY", .ofNat 1, .ofNat 2, some "2026-01-02T12:00:40Z", none, some "42", []⟩

/-- The broker reports the position that the accepted order became. -/
def positionAnswers : Answers := fun _ q =>
  match q with
  | .openPositions _ => (.ok [samplePosition] : Except Exc (List Position))
  | q => sampleReply q

/-- A bridge order was sent and then read back. -/
def readBackWorld : World :=
  ((Op.reconcile sampleApi "A").run.eval positionAnswers (served [.native sampleEvent none] (started bridgeMemory))).1

theorem reachable_readBackWorld : Reachable unrestricted ⟨true, readBackWorld⟩ := by
  have hs : Reachable unrestricted ⟨true, served [.native sampleEvent none] (started bridgeMemory)⟩ :=
    reachable_served (reachable_started unrestricted bridgeMemory) (by simp [Op.Allowed])
  obtain ⟨broker, m, h⟩ := hs
  exact ⟨broker, m, h.tail (.serve (.reconcile sampleApi "A") trivial positionAnswers)⟩

theorem verified_by_read_sample : ∃ t, readBackWorld.journal.trade? t.tradeId = some t
    ∧ (readBackWorld.journal.snapshot t).verified = true
    ∧ (∀ v, classify (readBackWorld.journal.snapshot t) = .ok v →
        v.verified = v.state.isVerified ∧ (v.verified = true → ReadBack readBackWorld t))
    ∧ ∀ enabled paper r, verifiedRow (readBackWorld.journal.snapshot t) enabled paper = .ok r →
        r.verified = r.state.isVerified ∧ (r.verified = true → ReadBack readBackWorld t) := by
  have hany : (readBackWorld.journal.trade? "t1").any
      (fun t => (readBackWorld.journal.snapshot t).verified) = true := by decide +kernel
  obtain ⟨t, ht, hv⟩ := (Option.any_eq_true _ _).mp hany
  have ht' : readBackWorld.journal.trade? t.tradeId = some t := (Rows.lookup_mem ht).2.symm ▸ ht
  exact ⟨t, ht', hv, verified_by_read (s := ⟨true, readBackWorld⟩) reachable_readBackWorld ht'⟩

end MatchTrader
