import MatchTrader.ClosedVolumes

/-! What one response of closed history leaves on record, and whether a trade that is resolved
from it shows as closed. -/

namespace MatchTrader

open Durable

namespace ObservationRow

/-- The table after a report. -/
def file (o : ObservationRow) (rows : List ObservationRow) : List ObservationRow :=
  Rows.updateWhere (fun r => r.key = o.cleaned.key) o.cleaned.fillTimes
    (Rows.upsert ObservationRow.key o.cleaned o.cleaned.refresh rows)

variable {o : ObservationRow} {rows : List ObservationRow}

theorem lookup_file {k : String × LegScope × String × Reader × String} :
    Rows.lookup ObservationRow.key k (o.file rows) =
      if k = o.key then some (o.cleaned.fillTimes ((Rows.lookup ObservationRow.key k rows).elim o.cleaned o.cleaned.refresh))
      else Rows.lookup ObservationRow.key k rows := by
  unfold file
  rw [Rows.lookup_updateKey o.cleaned.fillTimes_key, Rows.lookup_upsert o.cleaned.refresh_key,
    Rows.lookup_upsert o.cleaned.refresh_key, ObservationRow.cleaned_key]
  by_cases hk : k = o.key
  · simp [hk]
  · simp [hk]

theorem filter_file {g : String × LegScope × String × Reader × String → Bool} :
    (o.file rows).filter (fun r => g r.key) =
      if g o.key then o.file (rows.filter fun r => g r.key) else rows.filter fun r => g r.key := by
  unfold file
  rw [Rows.filter_updateWhere o.cleaned.fillTimes_key, Rows.filter_upsert o.cleaned.refresh_key, ObservationRow.cleaned_key]
  split
  · rfl
  · next hg =>
    refine Rows.updateWhere_eq_self fun r hr => decide_eq_false fun he => ?_
    rw [List.mem_filter, he] at hr
    exact hg hr.2

theorem keys_file : (o.file rows).map ObservationRow.key =
    if Rows.has ObservationRow.key o.key rows then rows.map ObservationRow.key else rows.map ObservationRow.key ++ [o.key] := by
  unfold file Rows.upsert
  rw [Rows.keys_updateWhere o.cleaned.fillTimes_key, ObservationRow.cleaned_key]
  split
  · exact Rows.keys_updateWhere o.cleaned.refresh_key
  · simp

/-- A report leaves no row that is fresher than both. -/
theorem updatedAt_file {now : String} (ho : o.updatedAt ≤ now) (h : ∀ r ∈ rows, r.updatedAt ≤ now) :
    ∀ r ∈ o.file rows, r.updatedAt ≤ now := by
  have hmerge : ∀ q ∈ rows, (o.cleaned.refresh q).updatedAt ≤ now := by
    intro q hq
    unfold refresh
    split
    · exact ho
    · exact h q hq
  have hupsert : ∀ q ∈ Rows.upsert ObservationRow.key o.cleaned o.cleaned.refresh rows, q.updatedAt ≤ now := by
    intro q hq
    rcases Rows.mem_upsert hq with ⟨s, hs, rfl⟩ | ⟨rfl, _⟩
    · split
      · exact hmerge s hs
      · exact h s hs
    · exact ho
  intro r hr
  obtain ⟨q, hq, rfl⟩ := Rows.mem_updateWhere.mp hr
  split
  · exact hupsert q hq
  · exact hupsert q hq

end ObservationRow

namespace Journal

/-- The row that a report of closed history is stored as. -/
def closedRow (identity : String) (scope : LegScope) (now : String) (c : ClosedTrade) : ObservationRow where
  tradeId := identity
  scope := scope
  positionId := c.id
  reader := .closedPositions
  executionKey := executionKey c
  orderId := c.closingOrderID
  symbol := c.symbol
  side := c.side
  volume := c.volume
  openPrice := c.openPrice
  openTime := some c.openTime
  openTimeMillis := none
  closeTime := some c.time
  closeReason := c.closeReason
  firstSeenAt := now
  updatedAt := now

/-- The stored closed history of a trade's position. -/
def closedOf (j : Journal) (identity position : String) : List ObservationRow :=
  j.observations.filter fun o => o.tradeId = identity ∧ o.positionId = position ∧ o.reader = .closedPositions

/-- The volume on record for an execution once a response is stored: that of the last row that the response has under
its key, or what was stored before. -/
def heldVolume (stored : List ObservationRow) (found : List ClosedTrade) (execution : String) : Option Decimal :=
  ((found.reverse.find? fun c => executionKey c = execution).map ClosedTrade.volume).or
    ((Rows.lookup ObservationRow.executionKey execution stored).bind ObservationRow.volume)

/-- The volumes on record once a response is stored, one for each execution. -/
def heldVolumes (stored : List ObservationRow) (found : List ClosedTrade) : List Decimal :=
  (stored.map ObservationRow.executionKey ++ found.map executionKey).dedup.filterMap (heldVolume stored found)

/-- What is on record once a response is stored covers what was requested. -/
def Covers (j : Journal) (t : TradeRow) (found : List ClosedTrade) : Prop :=
  ∃ requested, destinationRequested (j.quantities.filter fun q => q.tradeId = t.tradeId) = some requested
    ∧ requested.toRat ≤ ((heldVolumes (j.closedOf t.tradeId t.brokerPositionId) found).map Decimal.toRat).sum

section Response

variable {identity position now : String} {scope : LegScope} {rows : List ObservationRow} {found : List ClosedTrade}

/-- A table after all the reports of a response. -/
def respond (identity : String) (scope : LegScope) (now : String) (found : List ClosedTrade)
    (rows : List ObservationRow) : List ObservationRow :=
  found.foldl (fun rows c => (closedRow identity scope now c).file rows) rows

theorem observations_observeClosed {j : Journal} {destination : String} :
    (found.foldl (observeClosedOf identity destination now) j).observations
        = respond identity (j.destinationScope destination) now found j.observations
      ∧ (found.foldl (observeClosedOf identity destination now) j).broker = j.broker := by
  unfold respond
  induction found generalizing j with
  | nil => exact ⟨rfl, rfl⟩
  | cons c found ih =>
    obtain ⟨ho, hb⟩ := ih (j := j.observeClosedOf identity destination now c)
    exact ⟨ho, hb⟩

theorem respond_append (c : ClosedTrade) :
    respond identity scope now (found ++ [c]) rows = (closedRow identity scope now c).file (respond identity scope now found rows) := by
  simp [respond]

theorem updatedAt_respond (h : ∀ r ∈ rows, r.updatedAt ≤ now) :
    ∀ r ∈ respond identity scope now found rows, r.updatedAt ≤ now := by
  induction found using List.reverseRecOn with
  | nil => exact h
  | append_singleton found c ih =>
    rw [respond_append]
    exact ObservationRow.updatedAt_file (le_refl now) ih

/-- The key that a report of the position is stored under. -/
abbrev closedKey (identity : String) (scope : LegScope) (position execution : String) :
    String × LegScope × String × Reader × String :=
  (identity, scope, position, .closedPositions, execution)

theorem volume_respond (hid : ∀ c ∈ found, c.id = position) (hnow : ∀ r ∈ rows, r.updatedAt ≤ now) (k : String) :
    (Rows.lookup ObservationRow.key (closedKey identity scope position k)
        (respond identity scope now found rows)).bind ObservationRow.volume
      = ((found.reverse.find? fun c => executionKey c = k).map ClosedTrade.volume).or
        ((Rows.lookup ObservationRow.key (closedKey identity scope position k) rows).bind ObservationRow.volume) := by
  induction found using List.reverseRecOn with
  | nil => rfl
  | append_singleton found c ih =>
    have hc : c.id = position := hid c (by simp)
    have hrest := ih fun d hd => hid d (List.mem_append_left _ hd)
    have hkey : (closedRow identity scope now c).key = closedKey identity scope position (executionKey c) := by
      rw [← hc]
      rfl
    rw [respond_append, ObservationRow.lookup_file, hkey, List.reverse_append, List.reverse_singleton,
      List.singleton_append, List.find?_cons]
    by_cases hk : k = executionKey c
    · subst hk
      simp only [if_true, decide_true, Option.map_some, Option.some_or, Option.bind_some]
      cases hl : Rows.lookup ObservationRow.key (closedKey identity scope position (executionKey c))
          (respond identity scope now found rows) with
      | none => rfl
      | some q =>
        have hq : q.updatedAt ≤ now := updatedAt_respond hnow q (Rows.lookup_mem hl).1
        simp only [Option.elim_some, ObservationRow.fillTimes, ObservationRow.refresh, ObservationRow.cleaned, closedRow]
        rw [if_pos hq]
    · have hkeys : ¬ closedKey identity scope position k = closedKey identity scope position (executionKey c) := by
        simpa [closedKey] using hk
      rw [if_neg hkeys, hrest]
      simp [Ne.symm hk]

/-- The executions on record after a response are those before it and those it reports. -/
theorem isSome_respond (hid : ∀ c ∈ found, c.id = position) (k : String) :
    (Rows.lookup ObservationRow.key (closedKey identity scope position k) (respond identity scope now found rows)).isSome = true
      ↔ k ∈ found.map executionKey
        ∨ (Rows.lookup ObservationRow.key (closedKey identity scope position k) rows).isSome = true := by
  induction found using List.reverseRecOn with
  | nil => simp [respond]
  | append_singleton found c ih =>
    have hrest := ih fun d hd => hid d (List.mem_append_left _ hd)
    have hkey : (closedRow identity scope now c).key = closedKey identity scope position (executionKey c) := by
      rw [← hid c (by simp)]
      rfl
    rw [respond_append, ObservationRow.lookup_file, hkey]
    by_cases hk : k = executionKey c
    · simp [hk]
    · have hkeys : ¬ closedKey identity scope position k = closedKey identity scope position (executionKey c) := by
        simpa [closedKey] using hk
      rw [if_neg hkeys, hrest]
      simp [hk]

theorem keys_respond (hid : ∀ c ∈ found, c.id = position)
    (hk : ∀ o ∈ rows, o.key = closedKey identity scope position o.executionKey) :
    ∀ o ∈ respond identity scope now found rows, o.key = closedKey identity scope position o.executionKey := by
  suffices h : ∀ k ∈ (respond identity scope now found rows).map ObservationRow.key,
      k = closedKey identity scope position k.2.2.2.2 from fun o ho => h _ (List.mem_map_of_mem ho)
  have hrows : ∀ k ∈ rows.map ObservationRow.key, k = closedKey identity scope position k.2.2.2.2 := by
    intro k hm
    obtain ⟨o, ho, rfl⟩ := List.mem_map.mp hm
    exact hk o ho
  induction found using List.reverseRecOn with
  | nil => exact hrows
  | append_singleton found c ih =>
    have hrest := ih fun d hd => hid d (List.mem_append_left _ hd)
    rw [respond_append, ObservationRow.keys_file]
    split
    · exact hrest
    · intro k hm
      rcases List.mem_append.mp hm with hm | hm
      · exact hrest k hm
      · rw [List.mem_singleton.mp hm, ← hid c (by simp)]
        rfl

theorem timed_respond {c : ClosedTrade} (hc : blank c.openTime = false) :
    ∃ r ∈ respond identity scope now (found ++ [c]) rows, r.key = (closedRow identity scope now c).key ∧ r.openTime.isSome := by
  rw [respond_append]
  have hl : Rows.lookup ObservationRow.key (closedRow identity scope now c).key
      ((closedRow identity scope now c).file (respond identity scope now found rows)) = _ := ObservationRow.lookup_file
  rw [if_pos rfl] at hl
  refine ⟨_, (Rows.lookup_mem hl).1, (Rows.lookup_mem hl).2, ?_⟩
  simp [ObservationRow.fillTimes, ObservationRow.cleaned, closedRow, hc]

theorem lookup_execution (hk : ∀ o ∈ rows, o.key = closedKey identity scope position o.executionKey) (k : String) :
    Rows.lookup ObservationRow.executionKey k rows = Rows.lookup ObservationRow.key (closedKey identity scope position k) rows := by
  unfold Rows.lookup
  induction rows with
  | nil => rfl
  | cons o rows ih =>
    have ho := hk o List.mem_cons_self
    rw [List.find?_cons, List.find?_cons, ih fun r hr => hk r (List.mem_cons_of_mem _ hr), ho]
    simp [closedKey]

/-- After a response, the volumes of a position's rows are those that the record is said to hold. -/
theorem volumes_respond {stored : List ObservationRow}
    (hk : ∀ o ∈ rows, o.key = closedKey identity scope position o.executionKey)
    (hk' : ∀ o ∈ stored, o.key = closedKey identity scope position o.executionKey)
    (hn : (stored.map ObservationRow.key).Nodup) (hs : stored = respond identity scope now found rows)
    (hid : ∀ c ∈ found, c.id = position) (hnow : ∀ r ∈ rows, r.updatedAt ≤ now) :
    (stored.filterMap ObservationRow.volume).Perm (heldVolumes rows found) := by
  have hheld : ∀ o ∈ stored, o.volume = heldVolume rows found o.executionKey := by
    intro o ho
    have hl := Rows.lookup_of_mem hn ho
    rw [hk' o ho, hs] at hl
    have hv : (Rows.lookup ObservationRow.key (closedKey identity scope position o.executionKey)
        (respond identity scope now found rows)).bind ObservationRow.volume = _ := volume_respond hid hnow o.executionKey
    rw [hl, ← lookup_execution hk] at hv
    exact hv
  have hvolumes : stored.filterMap ObservationRow.volume
      = (stored.map ObservationRow.executionKey).filterMap (heldVolume rows found) := by
    rw [List.filterMap_map]
    exact List.filterMap_congr hheld
  have hdistinct : (stored.map ObservationRow.executionKey).Nodup := by
    refine hn.of_map.map_on fun o ho r hr he => List.inj_on_of_nodup_map hn ho hr ?_
    rw [hk' o ho, hk' r hr, he]
  rw [hvolumes, heldVolumes]
  refine List.Perm.filterMap _ ((List.perm_ext_iff_of_nodup hdistinct (List.nodup_dedup _)).mpr fun k => ?_)
  have hmem (l : List ObservationRow) (hl : ∀ o ∈ l, o.key = closedKey identity scope position o.executionKey) :
      k ∈ l.map ObservationRow.executionKey
        ↔ (Rows.lookup ObservationRow.key (closedKey identity scope position k) l).isSome = true := by
    rw [← lookup_execution hl, Rows.lookup, List.find?_isSome]
    simp
  rw [hmem stored hk', hs, isSome_respond hid, List.mem_dedup, List.mem_append, hmem rows hk, or_comm]

theorem filter_respond {g : String × LegScope × String × Reader × String → Bool} :
    (∀ c ∈ found, g (closedRow identity scope now c).key = true) →
      (respond identity scope now found rows).filter (fun r => g r.key)
        = respond identity scope now found (rows.filter fun r => g r.key) := by
  induction found using List.reverseRecOn with
  | nil => exact fun _ => rfl
  | append_singleton found c ih =>
    intro hg
    rw [respond_append, respond_append, ObservationRow.filter_file, if_pos (hg c (by simp)),
      ih fun d hd => hg d (List.mem_append_left _ hd)]

theorem filter_respond_other {g : String × LegScope × String × Reader × String → Bool} :
    (∀ c ∈ found, g (closedRow identity scope now c).key = false) →
      (respond identity scope now found rows).filter (fun r => g r.key) = rows.filter fun r => g r.key := by
  induction found using List.reverseRecOn with
  | nil => exact fun _ => rfl
  | append_singleton found c ih =>
    intro hg
    have hc : ¬ g (closedRow identity scope now c).key = true := by simp [hg c (by simp)]
    rw [respond_append, ObservationRow.filter_file, if_neg hc, ih fun d hd => hg d (List.mem_append_left _ hd)]

end Response

section Frame

variable {j : Journal} {identity destination now : String}

/-- The keys of a trade's rows of closed history. -/
def closedKeys (identity position : String) (k : String × LegScope × String × Reader × String) : Bool :=
  k.1 = identity ∧ k.2.2.1 = position ∧ k.2.2.2.1 = .closedPositions

theorem closedOf_eq (position : String) :
    j.closedOf identity position = j.observations.filter fun o => closedKeys identity position o.key := rfl

theorem closedOf_response {found : List ClosedTrade} {position : String} (h : ∀ c ∈ found, c.id = position) :
    (found.foldl (observeClosedOf identity destination now) j).closedOf identity position
      = respond identity (j.destinationScope destination) now found (j.closedOf identity position) := by
  rw [closedOf_eq, closedOf_eq, observations_observeClosed.1]
  refine filter_respond fun c hc => ?_
  simp [closedKeys, ObservationRow.key, closedRow, h c hc]

theorem closedOf_response_other {found : List ClosedTrade} {i position : String} (h : i ≠ identity) :
    (found.foldl (observeClosedOf identity destination now) j).closedOf i position = j.closedOf i position := by
  rw [closedOf_eq, closedOf_eq, observations_observeClosed.1]
  refine filter_respond_other fun c _ => ?_
  simp [closedKeys, ObservationRow.key, closedRow, Ne.symm h]

theorem link_kept (trade nativeId evidence at_ : String) (side : Leg) (scope : LegScope) (kind : Kind) :
    (j.link trade side scope kind nativeId evidence at_).quantities = j.quantities := by
  unfold link
  split <;> rfl

variable (j identity destination now) in
theorem observePosition_kept (p : Position) (i position : String) :
    (j.observePositionOf identity destination now p).closedOf i position = j.closedOf i position
      ∧ (j.observePositionOf identity destination now p).quantities = j.quantities
      ∧ (j.observePositionOf identity destination now p).broker = j.broker
      ∧ (j.observePositionOf identity destination now p).trades = j.trades := by
  have hp := Passive.link j identity p.id "broker order/position relationship" now .destination
    (j.destinationScope destination) .position
  refine ⟨?_, link_kept .., hp.broker, hp.trades⟩
  rw [closedOf_eq, closedOf_eq, ← hp.observations]
  refine ObservationRow.filter_file.trans (if_neg ?_)
  simp [closedKeys, ObservationRow.key]

variable (j identity destination now) in
theorem observePositions_kept (ps : List Position) (i position : String) :
    (ps.foldl (observePositionOf identity destination now) j).closedOf i position = j.closedOf i position
      ∧ (ps.foldl (observePositionOf identity destination now) j).quantities = j.quantities
      ∧ (ps.foldl (observePositionOf identity destination now) j).broker = j.broker
      ∧ (ps.foldl (observePositionOf identity destination now) j).trades = j.trades := by
  induction ps generalizing j with
  | nil => exact ⟨rfl, rfl, rfl, rfl⟩
  | cons p ps ih =>
    obtain ⟨h₁, h₂, h₃, h₄⟩ := ih (j.observePositionOf identity destination now p)
    obtain ⟨k₁, k₂, k₃, k₄⟩ := j.observePosition_kept identity destination now p i position
    exact ⟨h₁.trans k₁, h₂.trans k₂, h₃.trans k₃, h₄.trans k₄⟩

theorem observeClosed_kept (found : List ClosedTrade) :
    (found.foldl (observeClosedOf identity destination now) j).quantities = j.quantities
      ∧ (found.foldl (observeClosedOf identity destination now) j).trades = j.trades := by
  induction found generalizing j with
  | nil => exact ⟨rfl, rfl⟩
  | cons c found ih => exact ih (j := j.observeClosedOf identity destination now c)

theorem update_kept {u : TradeUpdate} (hu : u.lots = none) : (j.update identity u now).quantities = j.quantities := by
  unfold update
  simp only [hu]
  split
  · rfl
  · split
    · rfl
    · rw [link_kept, link_kept]
      rfl

theorem mem_link (j : Journal) (trade evidence at_ : String) (side : Leg) (scope : LegScope) (kind : Kind) {nativeId : String}
    (h : nativeId ≠ "") :
    ∃ l ∈ (j.link trade side scope kind nativeId evidence at_).links, l.key = (trade, side, scope, kind, nativeId) := by
  unfold link
  rw [if_neg h]
  exact Rows.exists_mem_insertNew

/-- An update of a trade at an account leaves the trade's position linked. -/
theorem update_linked {u : TradeUpdate} {t : TradeRow} (ht : j.trade? identity = some t) (hu : u.lots = none)
    (hd : (u.apply now t).destination ≠ "") (hp : (u.apply now t).brokerPositionId ≠ "") :
    ∃ l ∈ (j.update identity u now).links, l.tradeId = identity ∧ l.side = .destination ∧ l.kind = .position
      ∧ l.nativeId = (u.apply now t).brokerPositionId := by
  have hj : (j.updateTrade identity (u.apply now)).trade? identity = some (u.apply now t) := by
    simp [trade?_updateTrade (f := u.apply now) j identity identity fun _ => rfl, ht]
  unfold update
  simp only [hj, hd, if_false, hu]
  obtain ⟨l, hl, hk⟩ := mem_link _ identity "broker identity" now .destination _ .position hp
  simp only [LinkRow.key, Prod.mk.injEq] at hk
  exact ⟨l, hl, hk.1, hk.2.1, hk.2.2.2.1, hk.2.2.2.2⟩

theorem mem_link_of_mem {l : LinkRow} (h : l ∈ j.links) (trade nativeId evidence at_ : String) (side : Leg) (scope : LegScope)
    (kind : Kind) : l ∈ (j.link trade side scope kind nativeId evidence at_).links := by
  unfold link
  split
  · exact h
  · exact Rows.mem_insertNew_of_mem h

theorem update_links {u : TradeUpdate} {l : LinkRow} (h : l ∈ j.links) : l ∈ (j.update identity u now).links := by
  have hu : l ∈ (j.updateTrade identity (u.apply now)).links := h
  unfold update
  simp only
  split
  · exact hu
  · split
    · exact hu
    · split
      · rw [observeQuantities_links]
        exact mem_link_of_mem (mem_link_of_mem hu ..) ..
      · exact mem_link_of_mem (mem_link_of_mem hu ..) ..

theorem observePositions_links (ps : List Position) {l : LinkRow} (h : l ∈ j.links) :
    l ∈ (ps.foldl (observePositionOf identity destination now) j).links := by
  induction ps generalizing j with
  | nil => exact h
  | cons p ps ih => exact ih (j := j.observePositionOf identity destination now p) (mem_link_of_mem h ..)

theorem observeClosed_links (found : List ClosedTrade) :
    (found.foldl (observeClosedOf identity destination now) j).links = j.links := by
  induction found generalizing j with
  | nil => rfl
  | cons c found ih => exact ih (j := j.observeClosedOf identity destination now c)

end Frame

end Journal

namespace Reconcile

variable {A : (q : Query) → Reply q → Prop} {w v : World} {t b : TradeRow} {destination : String}
  {history : List ClosedTrade} {ps : List Position} {pending : List Order} {at_ : Instant}

/-- No guarantee on single transactions. -/
abbrev Any : World → World → Prop := fun _ _ => True

/-- The rows of closed history that are of a trade's position. -/
def found (history : List ClosedTrade) (t : TradeRow) : List ClosedTrade :=
  history.filter fun c => c.id = t.brokerPositionId ∧ c.symbol = t.symbol ∧ c.side = t.side

def response (destination : String) (history : List ClosedTrade) (t : TradeRow) (now : Instant) (j : Journal) : Journal :=
  (found history t).foldl (Journal.observeClosedOf t.tradeId destination now.isoformat) j

theorem wp_settle {K : Journal → Prop} (h₀ : K v.journal)
    (h₁ : ∀ now, A .clock now → K (response destination history b now v.journal))
    (h₂ : ∀ now later : Instant, A .clock now → found history b ≠ [] →
      K ((response destination history b now v.journal).update b.tradeId
        { state := some .resolved, resolvedAt := some at_.isoformat } later.isoformat)) :
    (settle destination at_ history b).wp A Any (fun _ u => K u.journal ∧ u.trace = v.trace)
      (fun _ u => K u.journal ∧ u.trace = v.trace) v := by
  unfold settle
  rw [Prog.wp_bind, wp_readsWorld]
  split
  · exact ⟨h₀, rfl⟩
  · simp only
    split
    · next hf =>
      rw [Prog.wp_bind]
      unfold Store.observeClosed
      rw [Prog.wp_bind, wp_now]
      intro now hnow
      refine Store.wp_change trivial ⟨h₀, rfl⟩ (fun e he => by simp at he) fun j hj => ⟨trivial, ?_⟩
      obtain rfl := Except.ok.inj hj
      rw [Prog.wp_bind]
      refine Prog.Quiet.wp (Prog.quiet_ofExcept _) (fun total => ?_) fun _ => ⟨h₁ now hnow, rfl⟩
      rw [Prog.wp_bind]
      refine Prog.Quiet.wp (Prog.quiet_ofExcept _) (fun lots => ?_) fun _ => ⟨h₁ now hnow, rfl⟩
      split
      · unfold Store.update
        rw [Prog.wp_bind, wp_now]
        intro later _
        refine Store.wp_change trivial ⟨h₁ now hnow, rfl⟩ (fun e he => by simp at he) fun j hj => ⟨trivial, ?_⟩
        obtain rfl := Except.ok.inj hj
        exact ⟨h₂ now later hnow (by simpa [found] using hf), rfl⟩
      · exact ⟨h₁ now hnow, rfl⟩
    · exact ⟨h₀, rfl⟩

theorem wp_visit {K : Bool → Journal → Prop} (h₀ : ∀ missing, K missing v.journal)
    (h₁ : ∀ missing (candidates : List Position), ∀ now : Instant,
      K missing (candidates.foldl (Journal.observePositionOf b.tradeId destination now.isoformat) v.journal))
    (h₂ : ∀ (candidates : List Position) id state, ∀ now later : Instant, state ≠ some .resolved →
      K false ((candidates.foldl (Journal.observePositionOf b.tradeId destination now.isoformat) v.journal).update
        b.tradeId { brokerPositionId := some id, state } later.isoformat)) :
    (visit destination ps pending b).wp A Any
      (fun missing u => (K missing u.journal ∧ u.trace = v.trace) ∧ (missing = true → b.brokerPositionId ≠ ""))
      (fun _ u => K true u.journal ∧ u.trace = v.trace) v := by
  unfold visit
  simp only
  rw [Prog.wp_bind]
  unfold Store.observePositions
  rw [Prog.wp_bind, wp_now]
  intro now _
  refine Store.wp_change trivial ⟨h₀ _, rfl⟩ (fun e he => by simp at he) fun j hj => ⟨trivial, ?_⟩
  obtain rfl := Except.ok.inj hj
  split
  · unfold Store.update
    rw [Prog.wp_bind, Prog.wp_bind, wp_now]
    intro later _
    refine Store.wp_change trivial ⟨h₁ _ _ now, rfl⟩ (fun e he => by simp at he) fun j hj => ⟨trivial, ?_⟩
    obtain rfl := Except.ok.inj hj
    refine ⟨⟨h₂ _ _ _ now later ?_, rfl⟩, by simp⟩
    split <;> simp
  · refine ⟨⟨h₁ _ _ now, rfl⟩, fun hm => ?_⟩
    simp only [Bool.and_eq_true, decide_eq_true_eq] at hm
    exact hm.2

/-- What a pass leaves of a trade while it deals with others. -/
structure Spared (j k : Journal) (t : TradeRow) : Prop where
  closed : k.closedOf t.tradeId t.brokerPositionId = j.closedOf t.tradeId t.brokerPositionId
  quantities : k.quantities = j.quantities
  broker : k.broker = j.broker
  links : ∀ l ∈ j.links, l ∈ k.links

def Unresolved (j : Journal) (identity : String) : Prop := ∀ u, j.trade? identity = some u → u.state ≠ .resolved

/-- The trade was resolved from a response, the rows of which are on record. -/
structure SettledFrom (A : (q : Query) → Reply q → Prop) (j k : Journal) (t : TradeRow) (history : List ClosedTrade) : Prop where
  found_ne : found history t ≠ []
  position : t.brokerPositionId ≠ ""
  linked : ∃ l ∈ k.links, l.tradeId = t.tradeId ∧ l.side = .destination ∧ l.kind = .position
    ∧ l.nativeId = t.brokerPositionId
  closed : ∃ now : Instant, A .clock now ∧ k.closedOf t.tradeId t.brokerPositionId = Journal.respond t.tradeId
    (j.destinationScope t.destination) now.isoformat (found history t) (j.closedOf t.tradeId t.brokerPositionId)
  quantities : k.quantities = j.quantities

variable {i j k : Journal}

theorem Spared.refl (j : Journal) (t : TradeRow) : Spared j j t := ⟨rfl, rfl, rfl, fun _ h => h⟩

theorem Spared.trans (h : Spared i j t) (hh : Spared j k t) : Spared i k t :=
  ⟨hh.closed.trans h.closed, hh.quantities.trans h.quantities, hh.broker.trans h.broker, fun l hl => hh.links l (h.links l hl)⟩

theorem SettledFrom.spared (h : SettledFrom A i j t history) (hh : Spared j k t) : SettledFrom A i k t history where
  found_ne := h.found_ne
  position := h.position
  linked := by
    obtain ⟨l, hl, hrest⟩ := h.linked
    exact ⟨l, hh.links l hl, hrest⟩
  closed := by
    obtain ⟨now, hnow, hc⟩ := h.closed
    exact ⟨now, hnow, hh.closed.trans hc⟩
  quantities := hh.quantities.trans h.quantities

theorem Spared.update {u : TradeUpdate} {identity later : String} (h : Spared i j t) (hu : u.lots = none) :
    Spared i (j.update identity u later) t where
  closed := by
    rw [← h.closed, Journal.closedOf_eq, Journal.closedOf_eq, Journal.update_observations]
  quantities := (Journal.update_kept hu).trans h.quantities
  broker := (Journal.Passive.update j identity u later).broker.trans h.broker
  links l hl := Journal.update_links (h.links l hl)

theorem found_id : ∀ c ∈ found history t, c.id = t.brokerPositionId := fun c hc => by
  simp only [found, List.mem_filter, decide_eq_true_eq] at hc
  exact hc.2.1

theorem Spared.response {now : Instant} (hb : t.tradeId ≠ b.tradeId) : Spared j (response destination history b now j) t where
  closed := Journal.closedOf_response_other hb
  quantities := (Journal.observeClosed_kept _).1
  broker := Journal.observations_observeClosed.2
  links _ hl := (Journal.observeClosed_links (found history b)).symm ▸ hl

theorem trade?_response {now : Instant} (identity : String) :
    (response destination history b now j).trade? identity = j.trade? identity := by
  rw [Journal.trade?, response, (Journal.observeClosed_kept _).2]
  rfl

theorem Unresolved.update {u : TradeUpdate} {identity later : String} (h : Unresolved j t.tradeId)
    (hu : identity = t.tradeId → u.state ≠ some .resolved) : Unresolved (j.update identity u later) t.tradeId := by
  intro r hr
  rw [Journal.update_trade?] at hr
  split at hr
  · next hi =>
    obtain ⟨q, hq, rfl⟩ := Option.map_eq_some_iff.mp hr
    have hs := h q (hi ▸ hq)
    cases hstate : u.state with
    | none => simpa [TradeUpdate.apply, hstate] using hs
    | some x =>
      have hx := hu hi.symm
      rw [hstate] at hx
      simpa [TradeUpdate.apply, hstate] using hx
  · exact h r hr

theorem wp_collect {ts d : List TradeRow} (hc : Current v (ts ++ d)) (hs : Spared j v.journal t)
    (hr : Unresolved v.journal t.tradeId) :
    (collect destination ps pending ts).wp A Any
      (fun ms u => (Current u (ms ++ d) ∧ ms ⊆ ts ∧ ∀ m ∈ ms, m.brokerPositionId ≠ "")
        ∧ Spared j u.journal t ∧ Unresolved u.journal t.tradeId ∧ u.trace = v.trace)
      (fun _ u => Unresolved u.journal t.tradeId) v := by
  induction ts generalizing v d with
  | nil => exact ⟨⟨hc, by simp, by simp⟩, hs, hr, rfl⟩
  | cons b ts ih =>
    unfold collect
    rw [Prog.wp_bind]
    have hfold (candidates : List Position) (now : Instant) :
        Spared j (candidates.foldl (Journal.observePositionOf b.tradeId destination now.isoformat) v.journal) t
          ∧ (candidates.foldl (Journal.observePositionOf b.tradeId destination now.isoformat) v.journal).trades
            = v.journal.trades := by
      obtain ⟨hclosed, hquantities, hbroker, htrades⟩ := v.journal.observePositions_kept b.tradeId destination
        now.isoformat candidates t.tradeId t.brokerPositionId
      exact ⟨hs.trans ⟨hclosed, hquantities, hbroker, fun _ => Journal.observePositions_links candidates⟩, htrades⟩
    have hunresolved {k : Journal} (hk : k.trades = v.journal.trades) : Unresolved k t.tradeId := by
      intro u hu
      rw [Journal.trade?, hk] at hu
      exact hr u hu
    have hskip {u : World} (hu : Current u (b :: ts ++ d)) (missing : Bool) :
        Current u ((if missing then b :: ts else ts) ++ d) := by
      cases missing with
      | true => exact hu
      | false => exact hu.mono (List.sublist_cons_self _ _)
    refine Prog.wp_consequence (wp_visit (K := fun missing k => Current { v with journal := k }
      ((if missing then b :: ts else ts) ++ d) ∧ Spared j k t ∧ Unresolved k t.tradeId) ?_ ?_ ?_) ?_ fun _ u h => h.1.2.2
    · exact fun missing => ⟨hskip hc missing, hs, hr⟩
    · intro missing candidates now
      obtain ⟨hspared, htrades⟩ := hfold candidates now
      exact ⟨hskip (hc.of_trades htrades) missing, hspared, hunresolved htrades⟩
    · intro candidates id state now later hstate
      obtain ⟨hspared, htrades⟩ := hfold candidates now
      have hcur {k : Journal} (hk : k.trades = v.journal.trades) : Current { v with journal := k } (b :: (ts ++ d)) :=
        hc.of_trades hk
      exact ⟨(hcur htrades).update, hspared.update rfl, (hunresolved htrades).update fun _ => hstate⟩
    · rintro missing u ⟨⟨⟨hcur, hspared, hun⟩, htrace⟩, hposition⟩
      have hcur' : Current u ((if missing then b :: ts else ts) ++ d) := hcur.of_trades rfl
      rw [Prog.wp_bind]
      cases missing with
      | false =>
        refine Prog.wp_consequence (ih hcur' hspared hun) ?_ fun _ _ h => h
        rintro ms x ⟨⟨hcur, hsub, hm⟩, hspared, hun, hx⟩
        exact ⟨⟨hcur, List.subset_cons_of_subset _ hsub, hm⟩, hspared, hun, hx.trans htrace⟩
      | true =>
        have hmid : Current u (ts ++ b :: d) := hcur'.perm List.perm_middle.symm
        refine Prog.wp_consequence (ih hmid hspared hun) ?_ fun _ _ h => h
        rintro ms x ⟨⟨hcur, hsub, hm⟩, hspared, hun, hx⟩
        refine ⟨⟨hcur.perm List.perm_middle, List.cons_subset_cons _ hsub, fun m hmem => ?_⟩, hspared, hun, hx.trans htrace⟩
        rcases List.mem_cons.mp hmem with rfl | hmem
        · exact hposition rfl
        · exact hm m hmem

/-- How the trade stands while the missing trades are settled. -/
def Standing (A : (q : Query) → Reply q → Prop) (j k : Journal) (t : TradeRow) (history : List ClosedTrade)
    (rest : List TradeRow) : Prop :=
  (Unresolved k t.tradeId ∧ (t ∈ rest → Spared j k t)) ∨ (t ∉ rest ∧ SettledFrom A j k t history)

theorem Standing.other {rest : List TradeRow} (h : Standing A i j t history (b :: rest)) (hs : Spared j k t)
    (hu : Unresolved j t.tradeId → Unresolved k t.tradeId) : Standing A i k t history rest := by
  rcases h with ⟨hun, hm⟩ | ⟨hn, hset⟩
  · exact Or.inl ⟨hu hun, fun ht => (hm (List.mem_cons_of_mem _ ht)).trans hs⟩
  · exact Or.inr ⟨fun ht => hn (List.mem_cons_of_mem _ ht), hset.spared hs⟩

theorem wp_settle_other {rest : List TradeRow} (hb : t.tradeId ≠ b.tradeId) (hc : Current v (b :: rest))
    (h : Standing A j v.journal t history (b :: rest)) :
    (settle destination at_ history b).wp A Any
      (fun _ u => (Current u rest ∧ Standing A j u.journal t history rest) ∧ u.trace = v.trace)
      (fun _ u => Standing A j u.journal t history [] ∧ u.trace = v.trace) v := by
  have hrest := hc.mono (List.sublist_cons_self _ _)
  have hempty {k : Journal} (hk : Standing A j k t history rest) : Standing A j k t history [] := by
    rcases hk with ⟨hun, _⟩ | ⟨_, hset⟩
    · exact Or.inl ⟨hun, by simp⟩
    · exact Or.inr ⟨by simp, hset⟩
  have hcur (now : Instant) : Current { v with journal := response destination history b now v.journal } (b :: rest) :=
    hc.of_trades (Journal.observeClosed_kept _).2
  have hresponse (now : Instant) : Standing A j (response destination history b now v.journal) t history rest := by
    refine h.other (Spared.response hb) fun hu r hr => ?_
    rw [trade?_response] at hr
    exact hu r hr
  refine Prog.wp_consequence (wp_settle (K := fun k => Current { v with journal := k } rest ∧ Standing A j k t history rest)
    ?_ ?_ ?_) (fun _ u hu => ⟨⟨hu.1.1.of_trades rfl, hu.1.2⟩, hu.2⟩) fun _ u hu => ⟨hempty hu.1.2, hu.2⟩
  · exact ⟨hrest, h.other (Spared.refl _ _) id⟩
  · exact fun now _ => ⟨(hcur now).mono (List.sublist_cons_self _ _), hresponse now⟩
  · intro now later _ _
    refine ⟨(hcur now).update, h.other ((Spared.response hb).update rfl) fun hu => ?_⟩
    have hun : Unresolved (response destination history b now v.journal) t.tradeId := fun r hr => by
      rw [trade?_response] at hr
      exact hu r hr
    exact hun.update fun he => absurd he.symm hb

/-- Settling the trade resolves it from the response, or leaves it unresolved. -/
theorem wp_settle_self {rest : List TradeRow} (hd : t.destination = destination) (hn : destination ≠ "")
    (hp : t.brokerPositionId ≠ "") (hc : Current v (t :: rest)) (h : Standing A j v.journal t history (t :: rest)) :
    (settle destination at_ history t).wp A Any
      (fun _ u => (Current u rest ∧ Standing A j u.journal t history rest) ∧ u.trace = v.trace)
      (fun _ u => Standing A j u.journal t history [] ∧ u.trace = v.trace) v := by
  have hrest := hc.mono (List.sublist_cons_self _ _)
  have hnot : t ∉ rest := fun ht => (List.nodup_cons.mp hc.distinct).1 (List.mem_map_of_mem ht)
  obtain ⟨hun, hspared⟩ : Unresolved v.journal t.tradeId ∧ Spared j v.journal t := by
    rcases h with ⟨hun, hm⟩ | ⟨hm, _⟩
    · exact ⟨hun, hm List.mem_cons_self⟩
    · exact absurd List.mem_cons_self hm
  have hcur (now : Instant) : Current { v with journal := response destination history t now v.journal } (t :: rest) :=
    hc.of_trades (Journal.observeClosed_kept _).2
  have hresponse (now : Instant) : Unresolved (response destination history t now v.journal) t.tradeId := fun r hr => by
    rw [trade?_response] at hr
    exact hun r hr
  have hclosed (now : Instant) : (response destination history t now v.journal).closedOf t.tradeId t.brokerPositionId
      = Journal.respond t.tradeId (j.destinationScope t.destination) now.isoformat (found history t)
        (j.closedOf t.tradeId t.brokerPositionId) := by
    rw [response, Journal.closedOf_response found_id, hspared.closed, Journal.destinationScope, hspared.broker, hd,
      Journal.destinationScope]
  refine Prog.wp_consequence (wp_settle (K := fun k => Current { v with journal := k } rest
    ∧ ((Unresolved k t.tradeId) ∨ SettledFrom A j k t history)) ?_ ?_ ?_) (fun _ u hu => ?_) fun _ u hu => ?_
  · exact ⟨hrest, Or.inl hun⟩
  · exact fun now _ => ⟨(hcur now).mono (List.sublist_cons_self _ _), Or.inl (hresponse now)⟩
  · intro now later hnow hfound
    refine ⟨(hcur now).update, Or.inr ⟨hfound, hp, ?_, ⟨now, hnow, ?_⟩, ?_⟩⟩
    · have ht : (response destination history t now v.journal).trade? t.tradeId = some t := by
        rw [trade?_response]
        exact hc.row t List.mem_cons_self
      exact Journal.update_linked ht rfl (hd ▸ hn) hp
    · rw [Journal.closedOf_eq, Journal.update_observations, ← Journal.closedOf_eq, hclosed]
    · rw [Journal.update_kept rfl, response, (Journal.observeClosed_kept _).1, hspared.quantities]
  · refine ⟨⟨hu.1.1.of_trades rfl, ?_⟩, hu.2⟩
    exact hu.1.2.imp (fun h => ⟨h, fun ht => absurd ht hnot⟩) fun h => ⟨hnot, h⟩
  · exact ⟨hu.1.2.imp (fun h => ⟨h, by simp⟩) fun h => ⟨by simp, h⟩, hu.2⟩

/-- How the trade stands after a pass. -/
def Left (A : (q : Query) → Reply q → Prop) (destination : String) (w u : World) (t : TradeRow) : Prop :=
  Unresolved u.journal t.tradeId
    ∨ ∃ history, u.trace = w.trace ++ [.readClosed destination history] ∧ SettledFrom A w.journal u.journal t history

theorem wp_reconcile [Host] {api : Api} {positions : List Position} (hI : Inv w) (ht : w.journal.trade? t.tradeId = some t)
    (hs : t.state ≠ .resolved) :
    (reconcile api destination positions).wp A Any (fun _ u => Left A destination w u t)
      (fun _ u => Left A destination w u t) w := by
  have hun : Unresolved w.journal t.tradeId := fun u hu => Option.some.inj (ht.symm.trans hu) ▸ hs
  unfold reconcile
  rw [Prog.wp_bind, wp_readsWorld]
  simp only
  split
  · rw [Prog.wp_bind]
    refine Prog.Quiet.wp (quiet_activeOrders _) (fun pending => ?_) fun _ => Or.inl hun
    generalize hts : (w.journal.trades.filter fun t => t.destination = destination ∧ t.state ≠ .observed
      ∧ t.state ≠ .resolved) = ts
    have hcur : Current w ts := by
      rw [← hts]
      refine Current.mono ⟨fun b hb => ?_, hI.tradeIds⟩ List.filter_sublist
      exact Rows.lookup_of_mem hI.tradeIds hb
    rw [Prog.wp_bind]
    refine Prog.wp_consequence (wp_collect (d := []) (by simpa using hcur) (Spared.refl _ _) hun) ?_ fun _ _ h => Or.inl h
    rintro ms v ⟨⟨hc, hsub, hp⟩, hspared, hunv, htrace⟩
    rw [List.append_nil] at hc
    have hsame : ∀ b ∈ ms, b.tradeId = t.tradeId → b = t := by
      intro b hb he
      exact Option.some.inj ((hcur.row b (hsub hb)).symm.trans (he ▸ ht))
    split
    · rw [Prog.wp_bind, wp_now]
      intro (at_ : Instant) _
      rw [Prog.wp_bind]
      unfold closedPositions
      rw [Prog.wp_bind, wp_askClosed]
      intro reply _
      rw [Prog.wp_bind, Prog.wp_ofExcept]
      refine ⟨fun history _ => ?_, fun e _ => Or.inl hunv⟩
      rw [Prog.wp_bind, wp_record, Prog.wp_pure]
      refine ⟨trivial, ?_⟩
      have hleft {u : World} (h : Standing A w.journal u.journal t history [] ∧ u.trace = v.trace ++ [.readClosed destination history]) :
          Left A destination w u t := by
        rcases h.1 with ⟨hu, _⟩ | ⟨_, hset⟩
        · exact Or.inl hu
        · exact Or.inr ⟨history, h.2.trans (by rw [htrace]), hset⟩
      refine Prog.wp_consequence (Prog.wp_forM (E := fun _ u => Standing A w.journal u.journal t history []
          ∧ u.trace = v.trace ++ [.readClosed destination history])
        (I := fun rest u => (Current u rest ∧ Standing A w.journal u.journal t history rest) ∧ rest ⊆ ms
          ∧ u.trace = v.trace ++ [.readClosed destination history]) ms (fun b rest u hu => ?_) ?_)
        (fun _ u hu => hleft ⟨hu.1.2, hu.2.2⟩) fun _ u hu => hleft hu
      · obtain ⟨⟨hcu, hst⟩, hrest, hu⟩ := hu
        have hb := hrest List.mem_cons_self
        have hrest' : rest ⊆ ms := fun x hx => hrest (List.mem_cons_of_mem _ hx)
        by_cases he : t.tradeId = b.tradeId
        · obtain rfl := hsame b hb he.symm
          have hd : b.destination = destination := by
            have hm := hsub hb
            rw [← hts, List.mem_filter, decide_eq_true_eq] at hm
            exact hm.2.1
          have hn : destination ≠ "" := hd ▸ hI.located b.tradeId b ht (Or.inr (hp b hb))
          exact Prog.wp_consequence (wp_settle_self hd hn (hp b hb) hcu hst)
            (fun _ x hx => ⟨hx.1, hrest', hx.2.trans hu⟩) fun _ x hx => ⟨hx.1, hx.2.trans hu⟩
        · exact Prog.wp_consequence (wp_settle_other he hcu hst)
            (fun _ x hx => ⟨hx.1, hrest', hx.2.trans hu⟩) fun _ x hx => ⟨hx.1, hx.2.trans hu⟩
      · exact ⟨⟨hc.of_trades rfl, Or.inl ⟨hunv, fun _ => hspared⟩⟩, List.Subset.refl _, rfl⟩
    · exact Or.inl hunv
  · exact Or.inl hun

end Reconcile

theorem bestRow_timed {rows : List ObservationRow} {r : ObservationRow} (hr : r ∈ rows) (ht : hasTime r = true) :
    (bestRow rows).any hasTime = true := by
  have hfold (l : List ObservationRow) (b : ObservationRow) (h : hasTime b = true ∨ ∃ q ∈ l, hasTime q = true) :
      hasTime (l.foldl (fun best q => if outranks q best then q else best) b) = true := by
    induction l generalizing b with
    | nil => simpa using h
    | cons x l ih =>
      rw [List.foldl_cons]
      refine ih _ ?_
      rcases h with h | ⟨q, hq, h⟩
      · left
        split
        · next hx =>
          by_contra hn
          simp only [Bool.not_eq_true] at hn
          simp [outranks, hn, h] at hx
        · exact h
      · rcases List.mem_cons.mp hq with rfl | hq
        · left
          split
          · exact h
          · next hx =>
            by_contra hn
            simp only [Bool.not_eq_true] at hn
            simp [outranks, hn, h] at hx
        · exact Or.inr ⟨q, hq, h⟩
  cases rows with
  | nil => simp at hr
  | cons q rest =>
    refine hfold rest q ?_
    rcases List.mem_cons.mp hr with rfl | hr
    · exact Or.inl ht
    · exact Or.inr ⟨r, hr, ht⟩

namespace Snapshot

variable {s : Snapshot} {l : LinkView} {r : ObservationRow}

theorem verified_of (hl : s.destinationLink = some l) (hr : r ∈ s.evidence) (ht : hasTime r = true)
    (hs : s.hasSource = true) (hg : s.guardedLinks = false) : s.verified = true := by
  have htimed : s.timed = true := bestRow_timed hr ht
  have hrow : s.row.isSome = true := by
    obtain ⟨x, hx, _⟩ := (Option.any_eq_true _ _).mp htimed
    exact Option.isSome_of_eq_some hx
  simp [verified, hl, hrow, htimed, hs, hg]

end Snapshot

/-- An unguarded trade shows the position that it is linked to. -/
theorem Journal.destinationLink_of_linked {j : Journal} {t : TradeRow} {k : LinkRow} (hk : k ∈ j.links)
    (hid : k.tradeId = t.tradeId) (hside : k.side = .destination) (hkind : k.kind = .position) (hn : k.nativeId ≠ "")
    (hg : (j.snapshot t).guardedLinks = false) :
    ∃ l, (j.snapshot t).destinationLink = some l ∧ l.row.nativeId = k.nativeId := by
  have hmem : k ∈ (j.snapshot t).destinationPositions.map LinkView.row := by
    rw [Journal.links_snapshot]
    exact List.mem_filter.mpr ⟨hk, by simp [hid, hside, hkind]⟩
  obtain ⟨l, hl, hlk⟩ := List.mem_map.mp hmem
  have hone : (j.snapshot t).destinationPositions = [l] := by
    simp only [Snapshot.guardedLinks, Bool.or_eq_false_iff, decide_eq_false_iff_not, not_lt] at hg
    obtain ⟨x, hx⟩ := List.length_eq_one_iff.mp (le_antisymm hg.1 (List.length_pos_of_mem hl))
    rw [hx, List.mem_singleton] at hl
    rw [hx, hl]
  obtain ⟨x, hx⟩ : ∃ x, (j.snapshot t).destinationLink = some x := by
    refine Option.isSome_iff_exists.mp (List.find?_isSome.mpr ⟨l, (List.mem_filter.mp hl).1, ?_⟩)
    simp [hlk, hside, hkind, hn]
  have hxm : x ∈ (j.snapshot t).destinationPositions := by
    have hp := List.find?_some hx
    simp only [decide_eq_true_eq] at hp
    exact List.mem_filter.mpr ⟨List.mem_of_find?_eq_some hx, by simp [hp.1, hp.2.1]⟩
  rw [hone, List.mem_singleton] at hxm
  exact ⟨x, hx, by rw [hxm, hlk]⟩

section Agreement

variable {w : World} {t u : TradeRow} {l : LinkView}

/-- The closed history that is evidence for a trade is what is stored of its position. -/
theorem Evident.closedRows (h : Evident w) (ht : w.journal.trade? t.tradeId = some t)
    (hl : (w.journal.snapshot t).destinationLink = some l) :
    (w.journal.snapshot t).closedRows.Perm (w.journal.closedOf t.tradeId l.row.nativeId) := by
  have hown : ∀ o ∈ w.journal.observations, o.tradeId = t.tradeId →
      o.symbol = t.symbol ∧ o.side = t.side ∧ o.scope = .destination (w.journal.broker.getD "") t.destination := by
    intro o ho hid
    obtain ⟨u, hu, _, hsym, hside, hsc, _⟩ := (h o ho).trade
    obtain rfl : u = t := Option.some.inj (hu.symm.trans (hid ▸ ht))
    exact ⟨hsym, hside, hsc⟩
  have hperm := ((List.perm_insertionSort (fun a b : ObservationRow => a.firstSeenAt ≤ b.firstSeenAt)
    (w.journal.observations.filter fun o => o.tradeId = t.tradeId)).filter fun r => r.positionId = l.row.nativeId
      ∧ r.symbol = t.symbol ∧ r.side = t.side ∧ r.scope = .destination (w.journal.broker.getD "") t.destination).filter isClosedReader
  have hrows : (w.journal.snapshot t).closedRows = (((w.journal.observations.filter fun o => o.tradeId = t.tradeId).insertionSort
      (fun a b => a.firstSeenAt ≤ b.firstSeenAt)).filter fun r => r.positionId = l.row.nativeId
      ∧ r.symbol = t.symbol ∧ r.side = t.side ∧ r.scope = .destination (w.journal.broker.getD "") t.destination).filter isClosedReader := by
    unfold Snapshot.closedRows Snapshot.evidence
    rw [hl]
    rfl
  rw [hrows]
  refine hperm.trans (List.Perm.of_eq ?_)
  rw [List.filter_filter, List.filter_filter, Journal.closedOf]
  refine List.filter_congr fun o ho => ?_
  have hh := hown o ho
  by_cases hid : o.tradeId = t.tradeId
  · obtain ⟨h₁, h₂, h₃⟩ := hh hid
    simp [hid, h₁, h₂, h₃, isClosedReader, Bool.and_comm]
  · simp [hid]

/-- Answers whose clock is not behind what is stored of the trade's closed history. -/
def ClockAhead (w : World) (t : TradeRow) : (q : Query) → Reply q → Prop
  | .clock, now => ∀ o ∈ w.journal.closedOf t.tradeId t.brokerPositionId, o.updatedAt ≤ Instant.isoformat now
  | _, _ => True

open Reconcile in
/-- A trade that a pass resolved shows as closed just when the merged record covers what was requested. -/
theorem SettledFrom.closed_iff {v : World} {history : List ClosedTrade} {e : Int} (hE : Evident w) (hE' : Evident v)
    (hF : Filed v) (ht : w.journal.trade? t.tradeId = some t) (hu : v.journal.trade? t.tradeId = some u)
    (h : SettledFrom (ClockAhead w t) w.journal v.journal t history) (hsource : (v.journal.snapshot u).hasSource = true) (hguard : (v.journal.snapshot u).guardedLinks = false)
    (htimes : ∀ c ∈ found history t, blank c.openTime = false)
    (hfits : Decimal.Fits e (Journal.heldVolumes (w.journal.closedOf t.tradeId t.brokerPositionId) (found history t))) :
    (∃ verdict, classify (v.journal.snapshot u) = .ok verdict ∧ verdict.state = .verifiedClosed)
      ↔ w.journal.Covers t (found history t) := by
  obtain ⟨k, hk, hkid, hkside, hkkind, hkn⟩ := h.linked
  obtain ⟨now, hnow, hclosed⟩ := h.closed
  have huid : u.tradeId = t.tradeId := (Rows.lookup_mem hu).2
  have hu' : v.journal.trade? u.tradeId = some u := huid.symm ▸ hu
  obtain ⟨l, hl, hln⟩ := Journal.destinationLink_of_linked hk (hkid.trans huid.symm) hkside hkkind (hkn ▸ h.position) hguard
  have hperm := hE'.closedRows hu' hl
  rw [hln, hkn, huid] at hperm
  have hkeys : ∀ o ∈ w.journal.closedOf t.tradeId t.brokerPositionId,
      o.key = Journal.closedKey t.tradeId (w.journal.destinationScope t.destination) t.brokerPositionId o.executionKey := by
    intro o ho
    simp only [Journal.closedOf, List.mem_filter, decide_eq_true_eq] at ho
    obtain ⟨ho, hid, hpos, hreader⟩ := ho
    obtain ⟨x, hx, _, _, _, hsc, _⟩ := (hE o ho).trade
    obtain rfl : x = t := Option.some.inj (hx.symm.trans (hid ▸ ht))
    simp only [ObservationRow.key, hid, hpos, hreader, hsc]
  have hkeys' : ∀ o ∈ v.journal.closedOf t.tradeId t.brokerPositionId,
      o.key = Journal.closedKey t.tradeId (w.journal.destinationScope t.destination) t.brokerPositionId o.executionKey := by
    rw [hclosed]
    exact Journal.keys_respond found_id hkeys
  have hdistinct : ((v.journal.closedOf t.tradeId t.brokerPositionId).map ObservationRow.key).Nodup :=
    hF.keys.sublist (List.filter_sublist.map _)
  have hvolumes : (closedVolumes (v.journal.snapshot u).evidence).Perm
      (Journal.heldVolumes (w.journal.closedOf t.tradeId t.brokerPositionId) (found history t)) :=
    (hperm.filterMap _).trans (Journal.volumes_respond hkeys hkeys' hdistinct hclosed found_id hnow)
  have hrats := hvolumes.map Decimal.toRat
  obtain ⟨total, hsum, htotal⟩ : ∃ total, Decimal.sum (closedVolumes (v.journal.snapshot u).evidence) 0 = .ok total
      ∧ total.toRat = ((closedVolumes (v.journal.snapshot u).evidence).map Decimal.toRat).sum :=
    Decimal.Fits.sum ⟨hfits.range, fun d hd => hfits.spelled d (hvolumes.mem_iff.mp hd), hrats.sum_eq ▸ hfits.total⟩
  rw [hrats.sum_eq] at htotal
  obtain ⟨r, hr, htime⟩ : ∃ r ∈ (v.journal.snapshot u).closedRows, hasTime r = true := by
    rcases List.eq_nil_or_concat (found history t) with hnil | ⟨before, c, hlast⟩
    · exact absurd hnil h.found_ne
    · rw [List.concat_eq_append] at hlast
      obtain ⟨r, hr, _, hsome⟩ := Journal.timed_respond (htimes c (by rw [hlast]; simp))
      rw [← hlast, ← hclosed] at hr
      obtain ⟨x, hx⟩ := Option.isSome_iff_exists.mp hsome
      have hblank := hF.times r (List.mem_filter.mp hr).1
      exact ⟨r, hperm.mem_iff.mpr hr, by simp_all [hasTime]⟩
  have hver := Snapshot.verified_of hl (List.mem_filter.mp hr).1 htime hsource hguard
  have hquantities : (v.journal.snapshot u).quantities = w.journal.quantities.filter fun q => q.tradeId = t.tradeId := by
    rw [← h.quantities, ← huid]
    rfl
  rw [Snapshot.classify_closed_iff, Snapshot.fullyClosed_iff, hquantities]
  constructor
  · rintro ⟨_, requested, total', hreq, _, htotal', hle⟩
    obtain rfl := Except.ok.inj ((arith_eq_ok.mpr hsum).symm.trans htotal')
    exact ⟨requested, hreq, htotal ▸ Decimal.le_iff.mp hle⟩
  · rintro ⟨requested, hreq, hle⟩
    exact ⟨hver, requested, total, hreq, List.ne_nil_of_mem hr, arith_eq_ok.mpr hsum, Decimal.le_iff.mpr (htotal ▸ hle)⟩

end Agreement

section Pass

variable [Host] {w : World} {t u : TradeRow} {env : Answers}

/-- The world after a pass. -/
def passed (api : Api) (destination : String) (env : Answers) (w : World) : World :=
  ((Op.reconcile api destination).run.eval env w).1

theorem wp_pass {A : (q : Query) → Reply q → Prop} (api : Api) (destination : String) (hI : Inv w)
    (ht : w.journal.trade? t.tradeId = some t) (hs : t.state ≠ .resolved) :
    (Reconcile.pass api destination).wp A Reconcile.Any
      (fun _ v => Reconcile.Unresolved v.journal t.tradeId ∨ ∃ ps, Reconcile.Left A destination (w.said [.readPositions destination ps]) v t)
      (fun _ v => Reconcile.Unresolved v.journal t.tradeId ∨ ∃ ps, Reconcile.Left A destination (w.said [.readPositions destination ps]) v t)
      w := by
  have hun : Reconcile.Unresolved w.journal t.tradeId := fun x hx => Option.some.inj (ht.symm.trans hx) ▸ hs
  unfold Reconcile.pass openPositions
  rw [Prog.wp_bind, Prog.wp_bind, wp_askPositions]
  intro reply _
  rw [Prog.wp_bind, Prog.wp_ofExcept]
  refine ⟨fun ps _ => ?_, fun e _ => Or.inl hun⟩
  rw [Prog.wp_bind, wp_record, Prog.wp_pure]
  refine ⟨trivial, ?_⟩
  have hI' : Inv (w.said [.readPositions destination (leavesAll ps)]) :=
    hI.step (R := unrestricted) (.say (.positions destination (leavesAll ps)))
  exact Prog.wp_consequence (Reconcile.wp_reconcile hI' ht hs) (fun _ v hv => Or.inr ⟨_, hv⟩) fun _ v hv => Or.inr ⟨_, hv⟩

/-- A pass that resolves a trade has read the closed history of its account, and then the trade shows as closed just
when the record, with the rows of that history merged in under the keys of their executions, covers what was requested. -/
theorem closures_agree (h : Reachable unrestricted ⟨true, w⟩) {api : Api} {destination : String}
    (ht : w.journal.trade? t.tradeId = some t) (hs : t.state ≠ .resolved)
    (hclock : ∀ i, ∀ o ∈ w.journal.closedOf t.tradeId t.brokerPositionId, o.updatedAt ≤ Instant.isoformat (env i .clock))
    (hu : (passed api destination env w).journal.trade? t.tradeId = some u) (hr : u.state = .resolved) :
    ∃ ps history, (passed api destination env w).trace
        = w.trace ++ [.readPositions destination ps, .readClosed destination history]
      ∧ (((passed api destination env w).journal.snapshot u).hasSource = true →
        ((passed api destination env w).journal.snapshot u).guardedLinks = false →
        (∀ c ∈ Reconcile.found history t, blank c.openTime = false) →
        ∀ e, Decimal.Fits e (Journal.heldVolumes (w.journal.closedOf t.tradeId t.brokerPositionId) (Reconcile.found history t)) →
          ((∃ verdict, classify ((passed api destination env w).journal.snapshot u) = .ok verdict
              ∧ verdict.state = .verifiedClosed)
            ↔ w.journal.Covers t (Reconcile.found history t))) := by
  have hpassed : Reachable unrestricted ⟨true, passed api destination env w⟩ := by
    obtain ⟨broker, m, hm⟩ := h
    exact ⟨broker, m, hm.tail (.serve (.reconcile api destination) trivial env)⟩
  have hanswers : ∀ i q, ClockAhead w t q (env i q) := by
    intro i q
    cases q with
    | clock => exact hclock i
    | _ => trivial
  obtain ⟨_, hok, herror⟩ := Prog.wp_eval (wp_pass api destination (h.sound ⟨rfl, rfl⟩).1 ht hs) env hanswers
  have hleft : Reconcile.Unresolved (passed api destination env w).journal t.tradeId
      ∨ ∃ ps, Reconcile.Left (ClockAhead w t) destination (w.said [.readPositions destination ps])
        (passed api destination env w) t := by
    cases hres : ((Reconcile.pass api destination).eval env w).2 with
    | ok a => exact hok a hres
    | error e => exact herror e hres
  rcases hleft with hun | ⟨ps, hun | ⟨history, htrace, hset⟩⟩
  · exact absurd hr (hun u hu)
  · exact absurd hr (hun u hu)
  · refine ⟨ps, history, by simp [htrace], fun hsource hguard htimes e hfits => ?_⟩
    exact SettledFrom.closed_iff (h.evident ⟨rfl, rfl⟩) (hpassed.evident ⟨rfl, rfl⟩) (hpassed.filed ⟨rfl, rfl⟩) ht hu hset
      hsource hguard htimes hfits

end Pass

attribute [local instance] sampleHost

/-- The position was closed in two halves, and a pass reads their rows. -/
def halvesWorld (first second : Option String) : World :=
  passed sampleApi "A" (closedAnswers [halfClosed first, halfClosed second]) readBackWorld

/-- The row of one half of the position, reported twice under one key, resolves the trade and is stored once. -/
theorem closures_disagree : ∃ t u v, readBackWorld.journal.trade? t.tradeId = some t ∧ t.state ≠ .resolved
    ∧ (halvesWorld none none).journal.trade? t.tradeId = some u ∧ u.state = .resolved
    ∧ ((halvesWorld none none).journal.snapshot u).hasSource = true
    ∧ ((halvesWorld none none).journal.snapshot u).guardedLinks = false
    ∧ (∀ c ∈ [halfClosed none, halfClosed none], blank c.openTime = false)
    ∧ classify ((halvesWorld none none).journal.snapshot u) = .ok v ∧ v.state = .verifiedOpen := by
  have hbefore : (readBackWorld.journal.trade? "t1").any (fun t => t.state ≠ .resolved) = true := by decide +kernel
  have hafter : ((halvesWorld none none).journal.trade? "t1").any (fun u => u.state = .resolved
      && ((halvesWorld none none).journal.snapshot u).hasSource && !((halvesWorld none none).journal.snapshot u).guardedLinks
      && (classify ((halvesWorld none none).journal.snapshot u)).toOption.any fun v => v.state = .verifiedOpen) = true := by
    decide +kernel
  obtain ⟨t, ht, hs⟩ := (Option.any_eq_true _ _).mp hbefore
  obtain ⟨u, hu, hcheck⟩ := (Option.any_eq_true _ _).mp hafter
  simp only [Bool.and_eq_true, Bool.not_eq_true', decide_eq_true_eq] at hs hcheck
  obtain ⟨⟨⟨hr, hsource⟩, hguard⟩, hclass⟩ := hcheck
  obtain ⟨v, hv, hstate⟩ := exists_ok hclass
  have hid : t.tradeId = "t1" := (Rows.lookup_mem ht).2
  exact ⟨t, u, v, hid.symm ▸ ht, hs, hid.symm ▸ hu, hr, hsource, hguard, by decide +kernel, hv, by simpa using hstate⟩

/-- Two halves that are reported under keys of their own. -/
theorem closures_agree_sample : ∃ t u, readBackWorld.journal.trade? t.tradeId = some t
    ∧ (halvesWorld (some "u") none).journal.trade? t.tradeId = some u ∧ u.state = .resolved
    ∧ ((∃ verdict, classify ((halvesWorld (some "u") none).journal.snapshot u) = .ok verdict
        ∧ verdict.state = .verifiedClosed)
      ↔ readBackWorld.journal.Covers t [halfClosed (some "u"), halfClosed none]) := by
  have hbefore : (readBackWorld.journal.trade? "t1").any (fun t => t.state ≠ .resolved
      && (readBackWorld.journal.closedOf t.tradeId t.brokerPositionId).isEmpty
      && Reconcile.found [halfClosed (some "u"), halfClosed none] t = [halfClosed (some "u"), halfClosed none]) = true := by
    decide +kernel
  have hafter : ((halvesWorld (some "u") none).journal.trade? "t1").any (fun u => u.state = .resolved
      && ((halvesWorld (some "u") none).journal.snapshot u).hasSource
      && !((halvesWorld (some "u") none).journal.snapshot u).guardedLinks) = true := by decide +kernel
  obtain ⟨t, ht, hcheck⟩ := (Option.any_eq_true _ _).mp hbefore
  simp only [Bool.and_eq_true, List.isEmpty_iff, decide_eq_true_eq] at hcheck
  obtain ⟨⟨hs, hnone⟩, hfound⟩ := hcheck
  obtain ⟨u, hu, hcheck⟩ := (Option.any_eq_true _ _).mp hafter
  simp only [Bool.and_eq_true, Bool.not_eq_true', decide_eq_true_eq] at hcheck
  obtain ⟨⟨hr, hsource⟩, hguard⟩ := hcheck
  have hid : t.tradeId = "t1" := (Rows.lookup_mem ht).2
  have hclock : ∀ i, ∀ o ∈ readBackWorld.journal.closedOf t.tradeId t.brokerPositionId,
      o.updatedAt ≤ Instant.isoformat (closedAnswers [halfClosed (some "u"), halfClosed none] i .clock) := by
    rw [hnone]
    simp
  obtain ⟨ps, history, htrace, hagree⟩ := closures_agree reachable_readBackWorld (hid.symm ▸ ht) hs hclock (hid.symm ▸ hu) hr
  have hread : (halvesWorld (some "u") none).trace = readBackWorld.trace
      ++ [.readPositions "A" [], .readClosed "A" [halfClosed (some "u"), halfClosed none]] := by rfl
  have hhistory : history = [halfClosed (some "u"), halfClosed none] := by
    have hsame := List.append_cancel_left (htrace.symm.trans hread)
    simp only [List.cons.injEq, Event.readClosed.injEq, and_true, true_and] at hsame
    exact hsame.2
  subst hhistory
  have hheld : Journal.heldVolumes [] [halfClosed (some "u"), halfClosed none] = [⟨false, 5, -1⟩, ⟨false, 5, -1⟩] := by
    decide +kernel
  have hfits : Decimal.Fits (-1) [⟨false, 5, -1⟩, ⟨false, 5, -1⟩] := by
    refine ⟨by decide, ?_, ?_⟩
    · simp [Decimal.toRat]
    · norm_num [Decimal.toRat, Decimal.prec]
  rw [hfound, hnone, hheld] at hagree
  have hiff := hagree hsource hguard (by decide +kernel) (-1) hfits
  exact ⟨t, u, hid.symm ▸ ht, hid.symm ▸ hu, hr, hiff⟩

end MatchTrader
