import Mathlib.Algebra.BigOperators.Group.Finset.Basic
import Mathlib.Algebra.Order.BigOperators.Group.Finset
import MatchTrader.Decimals
import MatchTrader.ReadBacks

/-! The volume that the record holds closed. Every stored row of closed history keeps one report
of a read, and no two rows of a position share the key of an execution. -/

namespace MatchTrader

open Durable

/-- What is stored of the read-backs: one row for a key, no blank open time, and closed history as
it was reported. -/
structure Filed (w : World) : Prop where
  keys : (w.journal.observations.map ObservationRow.key).Nodup
  times : ∀ o ∈ w.journal.observations, o.openTime.any blank = false
  copies : ∀ o ∈ w.journal.observations, o.reader = .closedPositions →
    ∃ t, w.journal.trade? o.tradeId = some t ∧ CopiesRead w.trace t.destination o

namespace ObservationRow

theorem cleaned_openTime (o : ObservationRow) : o.cleaned.openTime.any blank = false := by
  simp only [cleaned]
  split
  · rfl
  · next h => simpa using h

theorem refresh_openTime (o r : ObservationRow) : (o.refresh r).openTime = r.openTime := by
  unfold refresh
  split <;> rfl

theorem fillTimes_openTime {o r : ObservationRow} (ho : o.openTime.any blank = false) (hr : r.openTime.any blank = false) :
    (o.fillTimes r).openTime.any blank = false := by
  cases h : r.openTime with
  | none => simpa [fillTimes, h] using ho
  | some x => simpa [fillTimes, h] using hr

end ObservationRow

theorem Journal.keys_observeDestination {j : Journal} {o : ObservationRow}
    (h : (j.observations.map ObservationRow.key).Nodup) :
    ((j.observeDestination o).observations.map ObservationRow.key).Nodup := by
  simp only [Journal.observeDestination]
  rw [Rows.keys_updateWhere (f := o.cleaned.fillTimes) o.cleaned.fillTimes_key]
  unfold Rows.upsert
  split
  · rwa [Rows.keys_updateWhere (f := o.cleaned.refresh) o.cleaned.refresh_key]
  · next hn =>
    simp only [Bool.not_eq_true, Rows.has_eq_false_iff] at hn
    exact Rows.nodup_append h hn

theorem Copies.fillTimes {o r : ObservationRow} {c : ClosedTrade} (h : Copies r c) : Copies (o.fillTimes r) c :=
  ⟨h.position, h.symbol, h.side, h.execution, h.volume⟩

theorem Copies.cleaned {o : ObservationRow} {c : ClosedTrade} (h : Copies o c) : Copies o.cleaned c :=
  ⟨h.position, h.symbol, h.side, h.execution, h.volume⟩

theorem CopiesRead.mono {trace trace' : List Event} (hs : ∀ e ∈ trace, e ∈ trace') {account : String} {o : ObservationRow}
    (h : CopiesRead trace account o) : CopiesRead trace' account o := by
  obtain ⟨cs, hcs, hc⟩ := h
  exact ⟨cs, hs _ hcs, hc⟩

/-- What a refresh leaves copies one of the two reports. -/
theorem CopiesRead.refresh {trace : List Event} {account : String} {o r : ObservationRow} (hk : r.key = o.key)
    (ho : CopiesRead trace account o) (hr : CopiesRead trace account r) : CopiesRead trace account (o.refresh r) := by
  unfold ObservationRow.refresh
  split
  · obtain ⟨cs, hcs, c, hc, h⟩ := ho
    simp only [ObservationRow.key, Prod.mk.injEq] at hk
    obtain ⟨_, _, hpos, _, hexec⟩ := hk
    exact ⟨cs, hcs, c, hc, hpos.trans h.position, h.symbol, h.side, hexec.trans h.execution, h.volume⟩
  · exact hr

section Steps

variable [Host] {R : Rules} {w v : World}

theorem Filed.step (h : Filed w) (hs : Step R w v) : Filed v := by
  have hold {o : ObservationRow} (ho : o ∈ w.journal.observations) (hr : o.reader = .closedPositions) :
      ∃ t, v.journal.trade? o.tradeId = some t ∧ CopiesRead v.trace t.destination o := by
    obtain ⟨t, ht, hc⟩ := h.copies o ho hr
    obtain ⟨u, hu, hch⟩ := hs.trade ht
    obtain ⟨_, _, hd⟩ := hch.evidence ⟨o, ho, (Rows.lookup_mem ht).2.symm⟩
    exact ⟨u, hu, hd ▸ hc.mono fun _ he => hs.trace_subset he⟩
  cases hs with
  | claim hc hp =>
    obtain ⟨_, _, rfl⟩ := Journal.claim_ok hc
    exact ⟨h.keys, h.times, fun o ho => hold ho⟩
  | finish hf hne =>
    obtain ⟨_, _, rfl⟩ := Journal.finish_ok hf
    exact ⟨h.keys, h.times, fun o ho => hold ho⟩
  | @observe o hob =>
    obtain ⟨t, ht, _, _, _, _, _, hcopies⟩ := hob.trade
    refine ⟨Journal.keys_observeDestination h.keys, fun r hr => ?_, fun r hr hreader => ?_⟩
    · rcases Journal.mem_observeDestination hr with ⟨hr, _⟩ | ⟨q, hq, hk, rfl⟩ | ⟨_, rfl⟩
      · exact h.times r hr
      · refine ObservationRow.fillTimes_openTime o.cleaned_openTime ?_
        rw [ObservationRow.refresh_openTime]
        exact h.times q hq
      · exact ObservationRow.fillTimes_openTime o.cleaned_openTime o.cleaned_openTime
    · rcases Journal.mem_observeDestination hr with ⟨hr, _⟩ | ⟨q, hq, hk, rfl⟩ | ⟨_, rfl⟩
      · exact hold hr hreader
      · have hkey := (o.cleaned.fillTimes_key (o.cleaned.refresh q)).trans ((o.cleaned.refresh_key q).trans hk)
        have hid : (o.cleaned.fillTimes (o.cleaned.refresh q)).tradeId = o.tradeId := congrArg Prod.fst hkey
        have hread : o.reader = .closedPositions := (congrArg (fun k => k.2.2.2.1) hkey).symm.trans hreader
        obtain ⟨cs, hcs, c, hc, ho⟩ := hcopies hread
        have hq₁ : q.tradeId = o.tradeId := congrArg Prod.fst hk
        obtain ⟨u, hu, hq⟩ := h.copies q hq ((congrArg (fun k => k.2.2.2.1) hk).trans hread)
        obtain rfl : u = t := Option.some.inj (hu.symm.trans (hq₁ ▸ ht))
        obtain ⟨ds, hds, d, hd, hm⟩ := CopiesRead.refresh (o := o.cleaned) hk ⟨cs, hcs, c, hc, ho.cleaned⟩ hq
        exact ⟨u, hid ▸ ht, ds, hds, d, hd, hm.fillTimes⟩
      · obtain ⟨cs, hcs, c, hc, ho⟩ := hcopies hreader
        exact ⟨t, ht, cs, hcs, c, hc, ho.cleaned.fillTimes⟩
  | _ => exact ⟨h.keys, h.times, fun o ho => hold ho⟩

theorem Reachable.filed {s : Process} (hR : R.Plain) (h : Reachable R s) : Filed s.world :=
  h.induct (I := Filed) hR (fun _ _ => ⟨by simp [World.fresh, Journal.created], by simp [World.fresh, Journal.created],
    by simp [World.fresh, Journal.created]⟩) fun _ _ _ hs hw => hw.step hs

end Steps

/-- The closed history of a position as it was read for an account, report after report. -/
def closedReports (trace : List Event) (account position symbol side : String) : List ClosedTrade :=
  trace.flatMap fun
    | .readClosed a cs => if a = account then cs.filter fun c => c.id = position ∧ c.symbol = symbol ∧ c.side = side else []
    | _ => []

/-- Reports, each with the execution that it truly is of, which they agree on the volume of. -/
structure Executions {ε : Type} (size : ε → ℚ) (reports : List (ClosedTrade × ε)) : Prop where
  volume : ∀ p ∈ reports, p.1.volume.toRat = size p.2
  nonneg : ∀ p ∈ reports, 0 ≤ size p.2

/-- The reports of one execution are filed under one key. -/
def KeyedAlike {ε : Type} (reports : List (ClosedTrade × ε)) : Prop :=
  ∀ p ∈ reports, ∀ q ∈ reports, p.2 = q.2 → Journal.executionKey p.1 = Journal.executionKey q.1

/-- The volume of the distinct executions that are reported. -/
def trueVolume {ε : Type} [DecidableEq ε] (size : ε → ℚ) (reports : List (ClosedTrade × ε)) : ℚ :=
  ∑ x ∈ (reports.map Prod.snd).toFinset, size x

/-- Reports of distinct executions hold no more volume than all the executions that are reported. -/
theorem sum_le_trueVolume {ε : Type} [DecidableEq ε] {size : ε → ℚ} {reports kept : List (ClosedTrade × ε)}
    (h : Executions size reports) (hs : kept ⊆ reports) (hn : (kept.map Prod.snd).Nodup) :
    (kept.map fun p => p.1.volume.toRat).sum ≤ trueVolume size reports := by
  have hsum : (kept.map fun p => p.1.volume.toRat).sum = ((kept.map Prod.snd).map size).sum := by
    rw [List.map_map]
    exact congrArg List.sum (List.map_congr_left fun p hp => h.volume p (hs hp))
  rw [hsum, ← List.sum_toFinset _ hn]
  refine Finset.sum_le_sum_of_subset_of_nonneg (fun x hx => ?_) fun x hx _ => ?_
  · obtain ⟨p, hp, rfl⟩ := List.mem_map.mp (List.mem_toFinset.mp hx)
    exact List.mem_toFinset.mpr (List.mem_map_of_mem (hs hp))
  · obtain ⟨p, hp, rfl⟩ := List.mem_map.mp (List.mem_toFinset.mp hx)
    exact h.nonneg p hp

/-- Reports that have keys of their own are of distinct executions. -/
theorem KeyedAlike.nodup {ε : Type} {reports kept : List (ClosedTrade × ε)} (h : KeyedAlike reports) (hs : kept ⊆ reports)
    (hn : (kept.map fun p => Journal.executionKey p.1).Nodup) : (kept.map Prod.snd).Nodup :=
  hn.of_map.map_on fun p hp q hq he => List.inj_on_of_nodup_map hn hp hq (h p (hs hp) q (hs hq) he)

section Evidence

variable {t : TradeRow} {l : LinkView}

theorem mem_closedReports {trace : List Event} {account position symbol side : String} {c : ClosedTrade} :
    c ∈ closedReports trace account position symbol side ↔
      (∃ cs, .readClosed account cs ∈ trace ∧ c ∈ cs) ∧ c.id = position ∧ c.symbol = symbol ∧ c.side = side := by
  simp only [closedReports, List.mem_flatMap]
  constructor
  · rintro ⟨e, he, hc⟩
    split at hc
    · next a cs =>
      split at hc
      · next ha =>
        subst ha
        simp only [List.mem_filter, decide_eq_true_eq] at hc
        exact ⟨⟨cs, he, hc.1⟩, hc.2⟩
      · simp at hc
    · simp at hc
  · rintro ⟨⟨cs, he, hc⟩, hp⟩
    exact ⟨_, he, by simpa [hc] using hp⟩

theorem Journal.mem_evidence {j : Journal} (hl : (j.snapshot t).destinationLink = some l) {o : ObservationRow} :
    o ∈ (j.snapshot t).evidence ↔ o ∈ j.observations ∧ o.tradeId = t.tradeId ∧ o.positionId = l.row.nativeId
      ∧ o.symbol = t.symbol ∧ o.side = t.side ∧ o.scope = .destination (j.broker.getD "") t.destination := by
  simp only [Snapshot.evidence, hl, List.mem_filter, decide_eq_true_eq]
  simp only [Journal.snapshot, List.mem_insertionSort, List.mem_filter, decide_eq_true_eq, and_assoc]

/-- No two rows of closed history in the evidence share the key of an execution. -/
theorem Journal.nodup_closedRows {j : Journal} (hl : (j.snapshot t).destinationLink = some l)
    (h : (j.observations.map ObservationRow.key).Nodup) :
    ((j.snapshot t).closedRows.map ObservationRow.executionKey).Nodup := by
  have hrows : (j.snapshot t).evidence.Nodup := by
    unfold Snapshot.evidence
    rw [hl]
    exact ((List.perm_insertionSort _ _).nodup_iff.mpr (h.of_map.filter _)).filter _
  unfold Snapshot.closedRows
  refine (hrows.filter _).map_on fun o ho r hr he => ?_
  simp only [List.mem_filter, Journal.mem_evidence hl, isClosedReader, decide_eq_true_eq] at ho hr
  obtain ⟨⟨ho, ho₁, ho₂, _, _, ho₃⟩, ho₄⟩ := ho
  obtain ⟨⟨hr, hr₁, hr₂, _, _, hr₃⟩, hr₄⟩ := hr
  refine List.inj_on_of_nodup_map h ho hr ?_
  simp only [ObservationRow.key, ho₁, ho₂, ho₃, ho₄, hr₁, hr₂, hr₃, hr₄, he]

/-- The rows of closed history in the evidence each keep a report of the position, and their volumes are counted. -/
theorem Filed.closedRows {w : World} (h : Filed w) (ht : w.journal.trade? t.tradeId = some t)
    (hl : (w.journal.snapshot t).destinationLink = some l) :
    ∀ o ∈ (w.journal.snapshot t).closedRows,
      ∃ c ∈ closedReports w.trace t.destination l.row.nativeId t.symbol t.side, Copies o c := by
  intro o ho
  simp only [Snapshot.closedRows, List.mem_filter, Journal.mem_evidence hl, isClosedReader, decide_eq_true_eq] at ho
  obtain ⟨⟨ho, hid, hpos, hsym, hside, _⟩, hreader⟩ := ho
  obtain ⟨u, hu, cs, hcs, c, hc, hcopy⟩ := h.copies o ho hreader
  obtain rfl : u = t := Option.some.inj (hu.symm.trans (hid ▸ ht))
  refine ⟨c, mem_closedReports.mpr ⟨⟨cs, hcs, hc⟩, ?_⟩, hcopy⟩
  exact ⟨hcopy.position.symm.trans hpos, hcopy.symbol.symm.trans hsym, hcopy.side.symm.trans hside⟩

end Evidence

namespace Snapshot

variable {s : Snapshot}

theorem standing_closed_iff {fullyClosed : Bool} :
    (s.standing fullyClosed).1 = .verifiedClosed ↔ s.verified = true ∧ fullyClosed = true := by
  unfold standing
  cases hv : s.verified with
  | true => cases fullyClosed <;> simp
  | false =>
    simp only [Bool.false_and, Bool.false_eq_true, if_false, false_and, iff_false]
    repeat' split
    all_goals simp

theorem fullyClosed_iff : s.fullyClosed = .ok true ↔
    ∃ requested total, destinationRequested s.quantities = some requested ∧ s.closedRows ≠ []
      ∧ closedVolume s.evidence = .ok total ∧ requested ≤ total := by
  unfold fullyClosed
  cases hreq : destinationRequested s.quantities with
  | none => simp
  | some requested =>
    by_cases hrows : s.closedRows = []
    · simp [hrows]
    · cases htotal : closedVolume s.evidence with
      | error e => simp [Except.map, hrows]
      | ok total => simp [Except.map, hrows]

/-- A trade is classified as closed when it is verified and its closed history covers what was requested. -/
theorem classify_closed_iff :
    (∃ v, classify s = .ok v ∧ v.state = .verifiedClosed) ↔ s.verified = true ∧ s.fullyClosed = .ok true := by
  constructor
  · rintro ⟨v, h, hv⟩
    unfold classify at h
    rw [bind_eq_ok] at h
    obtain ⟨fullyClosed, hf, h⟩ := h
    obtain rfl := Except.ok.inj h
    have hst : (s.standing fullyClosed).1 = .verifiedClosed := hv
    obtain ⟨hver, rfl⟩ := standing_closed_iff.mp hst
    exact ⟨hver, hf⟩
  · rintro ⟨hver, hf⟩
    unfold classify
    rw [hf]
    exact ⟨_, rfl, standing_closed_iff.mpr ⟨hver, rfl⟩⟩

end Snapshot

section Volumes

variable {ε : Type} {size : ε → ℚ} {t : TradeRow} {l : LinkView} {e : Int}

/-- Closed rows that keep reports, with a report for each. -/
theorem exists_kept {rows : List ObservationRow} {reports : List (ClosedTrade × ε)}
    (h : ∀ o ∈ rows, ∃ p ∈ reports, Copies o p.1) : ∃ kept ⊆ reports, List.Forall₂ (fun o p => Copies o p.1) rows kept := by
  induction rows with
  | nil => exact ⟨[], List.nil_subset _, .nil⟩
  | cons o rows ih =>
    obtain ⟨kept, hs, hk⟩ := ih fun r hr => h r (List.mem_cons_of_mem _ hr)
    obtain ⟨p, hp, hc⟩ := h o List.mem_cons_self
    exact ⟨p :: kept, List.cons_subset.mpr ⟨hp, hs⟩, .cons hc hk⟩

theorem executionKeys_kept {rows : List ObservationRow} {kept : List (ClosedTrade × ε)}
    (h : List.Forall₂ (fun o p => Copies o p.1) rows kept) :
    rows.map ObservationRow.executionKey = kept.map fun p => Journal.executionKey p.1 := by
  induction h with
  | nil => rfl
  | cons hc _ ih => rw [List.map_cons, List.map_cons, hc.execution, ih]

theorem volumes_kept {rows : List ObservationRow} {kept : List (ClosedTrade × ε)}
    (h : List.Forall₂ (fun o p => Copies o p.1) rows kept) :
    rows.filterMap ObservationRow.volume = kept.map fun p => p.1.volume := by
  induction h with
  | nil => rfl
  | cons hc _ ih => rw [List.filterMap_cons_some hc.volume, List.map_cons, ih]

variable [Host] [DecidableEq ε]

/-- In every state a run can get to, where the reports of one execution have one key, what the record holds closed is
no more than what was closed, so no trade is classified as closed before the requested volume is. -/
theorem closed_volume_bounded {s : Process} (h : Reachable unrestricted s)
    (ht : s.world.journal.trade? t.tradeId = some t) (hl : (s.world.journal.snapshot t).destinationLink = some l)
    {reports : List (ClosedTrade × ε)}
    (hreports : reports.map Prod.fst = closedReports s.world.trace t.destination l.row.nativeId t.symbol t.side)
    (hx : Executions size reports) (hk : KeyedAlike reports)
    (he : Decimal.etiny ≤ e ∧ e ≤ 0) (hspelled : ∀ p ∈ reports, e ≤ p.1.volume.exp)
    (hdigits : trueVolume size reports < (10 : ℚ) ^ ((Decimal.prec : Int) + e)) :
    (∃ total, closedVolume (s.world.journal.snapshot t).evidence = .ok total ∧ total.toRat ≤ trueVolume size reports)
      ∧ ∀ v, classify (s.world.journal.snapshot t) = .ok v → v.state = .verifiedClosed →
        ∃ requested, destinationRequested (s.world.journal.snapshot t).quantities = some requested
          ∧ requested.toRat ≤ trueVolume size reports := by
  have hfiled := h.filed ⟨rfl, rfl⟩
  have hrow : ∀ o ∈ (s.world.journal.snapshot t).closedRows, ∃ p ∈ reports, Copies o p.1 := by
    intro o ho
    obtain ⟨c, hc, hcopy⟩ := hfiled.closedRows ht hl o ho
    rw [← hreports] at hc
    obtain ⟨p, hp, rfl⟩ := List.mem_map.mp hc
    exact ⟨p, hp, hcopy⟩
  obtain ⟨kept, hs, hkept⟩ := exists_kept hrow
  have hnodup := hk.nodup hs (executionKeys_kept hkept ▸ Journal.nodup_closedRows hl hfiled.keys)
  have hle := sum_le_trueVolume hx hs hnodup
  have hvolumes : closedVolumes (s.world.journal.snapshot t).evidence = kept.map fun p => p.1.volume := volumes_kept hkept
  have hfits : Decimal.Fits e (closedVolumes (s.world.journal.snapshot t).evidence) := by
    refine ⟨he, fun d hd => ?_, ?_⟩
    · rw [hvolumes] at hd
      obtain ⟨p, hp, rfl⟩ := List.mem_map.mp hd
      exact ⟨hspelled p (hs hp), hx.volume p (hs hp) ▸ hx.nonneg p (hs hp)⟩
    · rw [hvolumes, List.map_map]
      exact lt_of_le_of_lt hle hdigits
  obtain ⟨total, hsum, hrat⟩ := hfits.sum
  have htotal : closedVolume (s.world.journal.snapshot t).evidence = .ok total := arith_eq_ok.mpr hsum
  have hbound : total.toRat ≤ trueVolume size reports := by
    rw [hrat, hvolumes, List.map_map]
    exact hle
  refine ⟨⟨total, htotal, hbound⟩, fun v hv hstate => ?_⟩
  have hf := (Snapshot.classify_closed_iff.mp ⟨v, hv, hstate⟩).2
  obtain ⟨requested, total', hreq, _, htotal', hcover⟩ := Snapshot.fullyClosed_iff.mp hf
  obtain rfl := Except.ok.inj (htotal.symm.trans htotal')
  exact ⟨requested, hreq, (Decimal.le_iff.mp hcover).trans hbound⟩

end Volumes

attribute [local instance] sampleHost

/-- Half a lot of the position was closed. -/
def halfClosed (uid : Option String) : ClosedTrade :=
  ⟨"P1", "EURUSD", "BUY", ⟨false, 5, -1⟩, .ofNat 2, "2026-01-02T12:00:40Z", "2026-01-02T13:00:00Z", uid, none, none⟩

/-- The broker reports closed history, and nothing open. -/
def closedAnswers (cs : List ClosedTrade) : Answers := fun _ q =>
  match q with
  | .openPositions _ => (.ok [] : Except Exc (List Position))
  | .activeOrders _ => (.ok [] : Except Exc (List Order))
  | .closedPositions _ _ => (.ok cs : Except Exc (List ClosedTrade))
  | q => sampleReply q

def closedRead (cs : List ClosedTrade) (w : World) : World := ((Op.reconcile sampleApi "A").run.eval (closedAnswers cs) w).1

/-- A position of one lot, half of which was closed in one execution, and the closed history read twice. -/
def halfClosedWorld (uid again : Option String) : World :=
  closedRead [halfClosed again] (closedRead [halfClosed uid] readBackWorld)

theorem reachable_halfClosedWorld (uid again : Option String) : Reachable unrestricted ⟨true, halfClosedWorld uid again⟩ := by
  obtain ⟨broker, m, h⟩ := reachable_readBackWorld
  exact ⟨broker, m, (h.tail (.serve (.reconcile sampleApi "A") trivial (closedAnswers [halfClosed uid]))).tail
    (.serve (.reconcile sampleApi "A") trivial (closedAnswers [halfClosed again]))⟩

theorem trueVolume_one {ε : Type} [DecidableEq ε] (size : ε → ℚ) (c d : ClosedTrade) (x : ε) :
    trueVolume size [(c, x), (d, x)] = size x := by
  simp [trueVolume]

theorem executions_half (c d : Option String) :
    Executions (fun _ : Unit => 1 / 2) [(halfClosed c, ()), (halfClosed d, ())] := by
  have hsize (uid : Option String) : (halfClosed uid).volume.toRat = 1 / 2 := by
    norm_num [halfClosed, Decimal.toRat]
  constructor
  · intro p hp
    simp only [List.mem_cons, List.not_mem_nil, or_false] at hp
    rcases hp with rfl | rfl <;> exact hsize _
  · intro p _
    norm_num

/-- Half a lot that is reported once with its uid and once without it counts twice. -/
theorem closed_volume_over_counted : ∃ t l reports total requested v,
    (halfClosedWorld (some "u") none).journal.trade? t.tradeId = some t
      ∧ ((halfClosedWorld (some "u") none).journal.snapshot t).destinationLink = some l
      ∧ reports.map Prod.fst
        = closedReports (halfClosedWorld (some "u") none).trace t.destination l.row.nativeId t.symbol t.side
      ∧ Executions (fun _ : Unit => 1 / 2) reports
      ∧ closedVolume ((halfClosedWorld (some "u") none).journal.snapshot t).evidence = .ok total
      ∧ trueVolume (fun _ : Unit => 1 / 2) reports < total.toRat
      ∧ destinationRequested ((halfClosedWorld (some "u") none).journal.snapshot t).quantities = some requested
      ∧ trueVolume (fun _ : Unit => 1 / 2) reports < requested.toRat
      ∧ classify ((halfClosedWorld (some "u") none).journal.snapshot t) = .ok v ∧ v.state = .verifiedClosed := by
  have hcheck : ((halfClosedWorld (some "u") none).journal.trade? "t1").any (fun t =>
      ((halfClosedWorld (some "u") none).journal.snapshot t).destinationLink.any (fun l =>
        closedReports (halfClosedWorld (some "u") none).trace t.destination l.row.nativeId t.symbol t.side
          = [halfClosed (some "u"), halfClosed none])
      && (closedVolume ((halfClosedWorld (some "u") none).journal.snapshot t).evidence).toOption.any (fun total =>
        total = ⟨false, 10, -1⟩)
      && destinationRequested ((halfClosedWorld (some "u") none).journal.snapshot t).quantities = some (.ofNat 1)
      && (classify ((halfClosedWorld (some "u") none).journal.snapshot t)).toOption.any (fun v =>
        v.state = .verifiedClosed)) = true := by decide +kernel
  obtain ⟨t, ht, hcheck⟩ := (Option.any_eq_true _ _).mp hcheck
  simp only [Bool.and_eq_true, decide_eq_true_eq] at hcheck
  obtain ⟨⟨⟨hlink, htotal⟩, hrequested⟩, hclosed⟩ := hcheck
  obtain ⟨l, hl, hreports⟩ := (Option.any_eq_true _ _).mp hlink
  obtain ⟨total, hvolume, htotal⟩ := exists_ok htotal
  obtain ⟨v, hv, hstate⟩ := exists_ok hclosed
  simp only [decide_eq_true_eq] at hreports htotal hstate
  refine ⟨t, l, [(halfClosed (some "u"), ()), (halfClosed none, ())], total, .ofNat 1, v, (Rows.lookup_mem ht).2.symm ▸ ht,
    hl, hreports.symm, executions_half _ _, hvolume, ?_, hrequested, ?_, hv, hstate⟩
  · rw [trueVolume_one, htotal]
    norm_num [Decimal.toRat]
  · rw [trueVolume_one]
    norm_num [Decimal.toRat, Decimal.ofNat]

/-- Read twice with its uid, the half lot counts once. -/
theorem closed_volume_bounded_sample : ∃ t l total,
    (halfClosedWorld (some "u") (some "u")).journal.trade? t.tradeId = some t
      ∧ ((halfClosedWorld (some "u") (some "u")).journal.snapshot t).destinationLink = some l
      ∧ closedVolume ((halfClosedWorld (some "u") (some "u")).journal.snapshot t).evidence = .ok total
      ∧ total.toRat ≤ trueVolume (fun _ : Unit => 1 / 2) [(halfClosed (some "u"), ()), (halfClosed (some "u"), ())] := by
  have hcheck : ((halfClosedWorld (some "u") (some "u")).journal.trade? "t1").any (fun t =>
      ((halfClosedWorld (some "u") (some "u")).journal.snapshot t).destinationLink.any (fun l =>
        closedReports (halfClosedWorld (some "u") (some "u")).trace t.destination l.row.nativeId t.symbol t.side
          = [halfClosed (some "u"), halfClosed (some "u")])) = true := by decide +kernel
  obtain ⟨t, ht, hlink⟩ := (Option.any_eq_true _ _).mp hcheck
  obtain ⟨l, hl, hreports⟩ := (Option.any_eq_true _ _).mp hlink
  simp only [decide_eq_true_eq] at hreports
  have ht' := (Rows.lookup_mem ht).2.symm ▸ ht
  have hread : [(halfClosed (some "u"), ()), (halfClosed (some "u"), ())].map Prod.fst = closedReports
      (halfClosedWorld (some "u") (some "u")).trace t.destination l.row.nativeId t.symbol t.side := hreports.symm
  have hpairs : ∀ p ∈ [(halfClosed (some "u"), ()), (halfClosed (some "u"), ())], p = (halfClosed (some "u"), ()) := by
    simp
  have hkeyed : KeyedAlike [(halfClosed (some "u"), ()), (halfClosed (some "u"), ())] :=
    fun p hp q hq _ => by rw [hpairs p hp, hpairs q hq]
  have hdigits : trueVolume (fun _ : Unit => 1 / 2) [(halfClosed (some "u"), ()), (halfClosed (some "u"), ())]
      < (10 : ℚ) ^ ((Decimal.prec : Int) + -1) := by
    rw [trueVolume_one]
    norm_num [Decimal.prec]
  have hbounded := closed_volume_bounded (reachable_halfClosedWorld (some "u") (some "u")) ht' hl (e := -1)
    hread (executions_half _ _) hkeyed (by decide) (fun p hp => by rw [hpairs p hp]; decide) hdigits
  obtain ⟨⟨total, hvolume, hle⟩, _⟩ := hbounded
  exact ⟨t, l, total, ht', hl, hvolume, hle⟩

end MatchTrader
