import MatchTrader.Closures

/-! A broker read-back is kept in one row, whatever the order of the reports and of their clocks: its
times of opening are the first ones given, and the rest is the latest report of the greatest stamp. -/

namespace MatchTrader

section Latest

variable {α τ : Type} [LinearOrder τ] {stamp : α → τ} {xs : List α} {l c : α}

/-- The last one of those with the greatest stamp. -/
def Latest (stamp : α → τ) (xs : List α) (l : α) : Prop :=
  ∃ before after, xs = before ++ l :: after ∧ (∀ x ∈ before, stamp x ≤ stamp l) ∧ ∀ x ∈ after, stamp x < stamp l

theorem Latest.greatest (h : Latest stamp xs l) : l ∈ xs ∧ ∀ x ∈ xs, stamp x ≤ stamp l := by
  obtain ⟨before, after, rfl, hbefore, hafter⟩ := h
  refine ⟨List.mem_append_right _ List.mem_cons_self, fun x hx => ?_⟩
  rcases List.mem_append.mp hx with hx | hx
  · exact hbefore x hx
  · rcases List.mem_cons.mp hx with rfl | hx
    · exact le_rfl
    · exact (hafter x hx).le

theorem Latest.one (stamp : α → τ) (c : α) : Latest stamp [c] c :=
  ⟨[], [], rfl, fun _ h => absurd h List.not_mem_nil, fun _ h => absurd h List.not_mem_nil⟩

theorem Latest.newer (h : Latest stamp xs l) (hc : stamp l ≤ stamp c) : Latest stamp (xs ++ [c]) c :=
  ⟨xs, [], rfl, fun x hx => (h.greatest.2 x hx).trans hc, fun _ h => absurd h List.not_mem_nil⟩

theorem Latest.older (h : Latest stamp xs l) (hc : stamp c < stamp l) : Latest stamp (xs ++ [c]) l := by
  obtain ⟨before, after, rfl, hbefore, hafter⟩ := h
  refine ⟨before, after ++ [c], by simp, hbefore, fun x hx => ?_⟩
  rcases List.mem_append.mp hx with hx | hx
  · exact hafter x hx
  · exact List.mem_singleton.mp hx ▸ hc

end Latest

abbrev ObservationKey := String × LegScope × String × Reader × String

/-- What a call of the ledger boundary reports for a key. -/
structure DestinationReport where
  orderId : Option String
  symbol : String
  side : String
  volume : Option Decimal
  openPrice : Option Decimal
  openTime : Option String
  openTimeMillis : Option Int
  closeTime : Option String
  closeReason : Option String
  at_ : String

namespace DestinationReport

def row (k : ObservationKey) (c : DestinationReport) : ObservationRow where
  tradeId := k.1
  scope := k.2.1
  positionId := k.2.2.1
  reader := k.2.2.2.1
  executionKey := k.2.2.2.2
  orderId := c.orderId
  symbol := c.symbol
  side := c.side
  volume := c.volume
  openPrice := c.openPrice
  openTime := c.openTime
  openTimeMillis := c.openTimeMillis
  closeTime := c.closeTime
  closeReason := c.closeReason
  firstSeenAt := c.at_
  updatedAt := c.at_

@[simp] theorem row_key (k : ObservationKey) (c : DestinationReport) : (c.row k).key = k := rfl

def givenTime (c : DestinationReport) : Option String := c.openTime.filter fun s => !blank s

end DestinationReport

namespace Journal

def observeAll (j : Journal) (calls : List (ObservationKey × DestinationReport)) : Journal :=
  calls.foldl (fun j c => j.observeDestination (c.2.row c.1)) j

def rowsOf (j : Journal) (k : ObservationKey) : List ObservationRow := j.observations.filter fun r => r.key = k

end Journal

def reportsOf (k : ObservationKey) (calls : List (ObservationKey × DestinationReport)) : List DestinationReport :=
  (calls.filter fun c => c.1 = k).map Prod.snd

/-- The row shows a report's mutable fields. -/
structure ObservationRow.Shows (r : ObservationRow) (c : DestinationReport) : Prop where
  orderId : r.orderId = c.orderId
  symbol : r.symbol = c.symbol
  side : r.side = c.side
  volume : r.volume = c.volume
  openPrice : r.openPrice = c.openPrice
  closeTime : r.closeTime = c.closeTime
  closeReason : r.closeReason = c.closeReason
  updatedAt : r.updatedAt = c.at_

/-- The row after the reports of its key: first times of opening, first seen, and the latest of the greatest stamp. -/
structure Registered (k : ObservationKey) (own : List DestinationReport) (r : ObservationRow) : Prop where
  key : r.key = k
  openTime : r.openTime = own.findSome? DestinationReport.givenTime
  openTimeMillis : r.openTimeMillis = own.findSome? DestinationReport.openTimeMillis
  firstSeenAt : own.head?.map DestinationReport.at_ = some r.firstSeenAt
  latest : ∃ l, Latest DestinationReport.at_ own l ∧ r.Shows l

variable {k : ObservationKey} {own : List DestinationReport} {r : ObservationRow} {c : DestinationReport}

theorem DestinationReport.cleaned_openTime (k : ObservationKey) (c : DestinationReport) :
    (c.row k).cleaned.openTime = c.givenTime := by
  cases h : c.openTime with
  | none => simp [ObservationRow.cleaned, row, givenTime, h]
  | some s => by_cases hb : blank s <;> simp [ObservationRow.cleaned, row, givenTime, Option.filter, h, hb]

theorem Registered.first (k : ObservationKey) (c : DestinationReport) :
    Registered k [c] ((c.row k).cleaned.fillTimes (c.row k).cleaned) where
  key := rfl
  openTime := by
    simp only [ObservationRow.fillTimes, DestinationReport.cleaned_openTime, Option.or_self]
    simp
  openTimeMillis := by simp [ObservationRow.fillTimes, ObservationRow.cleaned, DestinationReport.row]
  firstSeenAt := rfl
  latest := ⟨c, .one _ c, ⟨rfl, rfl, rfl, rfl, rfl, rfl, rfl, rfl⟩⟩

theorem Registered.next (h : Registered k own r) (c : DestinationReport) :
    Registered k (own ++ [c]) ((c.row k).cleaned.fillTimes ((c.row k).cleaned.refresh r)) := by
  have htimes : ((c.row k).cleaned.refresh r).openTime = r.openTime
      ∧ ((c.row k).cleaned.refresh r).openTimeMillis = r.openTimeMillis
      ∧ ((c.row k).cleaned.refresh r).firstSeenAt = r.firstSeenAt := by
    unfold ObservationRow.refresh
    split <;> exact ⟨rfl, rfl, rfl⟩
  refine ⟨by simp [h.key], ?_, ?_, ?_, ?_⟩
  · simp only [ObservationRow.fillTimes, htimes, h.openTime, DestinationReport.cleaned_openTime, List.findSome?_append]
    simp
  · simp only [ObservationRow.fillTimes, htimes, h.openTimeMillis, List.findSome?_append]
    simp [ObservationRow.cleaned, DestinationReport.row]
  · have hhead : (own ++ [c]).head? = own.head? := by
      cases own with
      | nil => exact absurd h.firstSeenAt (by simp)
      | cons _ _ => rfl
    rw [hhead, h.firstSeenAt]
    exact congrArg some htimes.2.2.symm
  · obtain ⟨l, hl, hs⟩ := h.latest
    by_cases hle : r.updatedAt ≤ c.at_
    · refine ⟨c, hl.newer (hs.updatedAt ▸ hle), ?_⟩
      have hfresh : (c.row k).cleaned.refresh r = { r with
          orderId := c.orderId, symbol := c.symbol, side := c.side, volume := c.volume, openPrice := c.openPrice
          closeTime := c.closeTime, closeReason := c.closeReason, updatedAt := c.at_ } := if_pos hle
      rw [hfresh]
      exact ⟨rfl, rfl, rfl, rfl, rfl, rfl, rfl, rfl⟩
    · refine ⟨l, hl.older (hs.updatedAt ▸ not_le.mp hle), ?_⟩
      have hstale : (c.row k).cleaned.refresh r = r := if_neg hle
      rw [hstale]
      exact ⟨hs.orderId, hs.symbol, hs.side, hs.volume, hs.openPrice, hs.closeTime, hs.closeReason, hs.updatedAt⟩

namespace Journal

variable {j : Journal} {calls : List (ObservationKey × DestinationReport)}

theorem rowsOf_observe (j : Journal) (k l : ObservationKey) (c : DestinationReport) :
    (j.observeDestination (c.row l)).rowsOf k = if l = k then (c.row l).file (j.rowsOf k) else j.rowsOf k := by
  have hfilter := @ObservationRow.filter_file (c.row l) j.observations fun x => decide (x = k)
  rw [DestinationReport.row_key] at hfilter
  by_cases hl : l = k
  · rw [if_pos (decide_eq_true hl)] at hfilter
    rw [if_pos hl]
    exact hfilter
  · rw [if_neg (by simpa using hl)] at hfilter
    rw [if_neg hl]
    exact hfilter

/-- After the reports of a key there is one row for it, which is what they register. -/
theorem registered (hk : j.rowsOf k = []) (calls : List (ObservationKey × DestinationReport)) :
    (reportsOf k calls = [] ∧ (j.observeAll calls).rowsOf k = [])
      ∨ ∃ r, (j.observeAll calls).rowsOf k = [r] ∧ Registered k (reportsOf k calls) r := by
  induction calls using List.reverseRecOn with
  | nil => exact Or.inl ⟨rfl, hk⟩
  | append_singleton calls c ih =>
    obtain ⟨l, c⟩ := c
    have hrun : j.observeAll (calls ++ [(l, c)]) = (j.observeAll calls).observeDestination (c.row l) := by
      rw [observeAll, List.foldl_append]
      rfl
    have hown : reportsOf k (calls ++ [(l, c)]) = reportsOf k calls ++ if l = k then [c] else [] := by
      by_cases hl : l = k <;> simp [reportsOf, hl]
    rw [hrun, hown, rowsOf_observe]
    by_cases hl : l = k
    · subst hl
      rw [if_pos rfl, if_pos rfl]
      have hfile (q : ObservationRow) (hq : q.key = l) : (c.row l).file [q]
          = [(c.row l).cleaned.fillTimes ((c.row l).cleaned.refresh q)] := by
        simp [ObservationRow.file, Rows.upsert, Rows.has, Rows.updateWhere, hq]
      rcases ih with ⟨hnone, hrows⟩ | ⟨r, hrows, hr⟩
      · rw [hrows, hnone]
        exact Or.inr ⟨_, by simp [ObservationRow.file, Rows.upsert, Rows.has, Rows.updateWhere], .first l c⟩
      · rw [hrows]
        exact Or.inr ⟨_, hfile r hr.key, hr.next c⟩
    · rw [if_neg hl, if_neg hl, List.append_nil]
      exact ih

/-- What the reports of a key leave on record: one row, whose times of opening are written once and whose other fields are
those of the latest report of the greatest stamp. -/
structure RegisterLaw (j : Journal) (k : ObservationKey) (calls : List (ObservationKey × DestinationReport)) : Prop where
  row : reportsOf k calls ≠ [] → ∃ r, (j.observeAll calls).rowsOf k = [r] ∧ Registered k (reportsOf k calls) r
  unreported : reportsOf k calls = [] → (j.observeAll calls).rowsOf k = []
  writeOnce : ∀ r, (j.observeAll calls).rowsOf k = [r] → ∀ more, ∃ r', (j.observeAll (calls ++ more)).rowsOf k = [r']
    ∧ r'.firstSeenAt = r.firstSeenAt ∧ (∀ s, r.openTime = some s → r'.openTime = some s)
    ∧ ∀ m, r.openTimeMillis = some m → r'.openTimeMillis = some m
  chronological : ∀ r, (j.observeAll calls).rowsOf k = [r] → ∀ c ∈ reportsOf k calls, ∀ t u : Instant,
    c.at_ = t.isoformat → r.updatedAt = u.isoformat → t ≤ u

/-- Broker time evidence is write-once and snapshots are newest-wins. -/
theorem read_back_registers (hk : ∀ r ∈ j.observations, r.key ≠ k) (calls : List (ObservationKey × DestinationReport)) :
    j.RegisterLaw k calls := by
  have hnone : j.rowsOf k = [] := List.filter_eq_nil_iff.mpr fun r hr => by simpa using hk r hr
  have hlaw (calls : List (ObservationKey × DestinationReport)) {r : ObservationRow} (hr : (j.observeAll calls).rowsOf k = [r]) :
      Registered k (reportsOf k calls) r := by
    rcases registered hnone calls with ⟨-, hrows⟩ | ⟨q, hrows, hq⟩
    · rw [hrows] at hr
      cases hr
    · rw [hrows] at hr
      exact (List.cons.inj hr).1 ▸ hq
  refine ⟨fun hne => ?_, fun he => ?_, fun r hr more => ?_, fun r hr c hc t u ht hu => ?_⟩
  · rcases registered hnone calls with ⟨he, -⟩ | hrow
    · exact absurd he hne
    · exact hrow
  · rcases registered hnone calls with ⟨-, hrows⟩ | ⟨q, -, hq⟩
    · exact hrows
    · have hfirst := hq.firstSeenAt
      rw [he] at hfirst
      cases hfirst
  · have hold := hlaw calls hr
    have hown : reportsOf k (calls ++ more) = reportsOf k calls ++ reportsOf k more := by
      simp [reportsOf]
    rcases registered hnone (calls ++ more) with ⟨he, -⟩ | ⟨r', hrows, hnew⟩
    · rw [hown, List.append_eq_nil_iff] at he
      have hfirst := hold.firstSeenAt
      rw [he.1] at hfirst
      cases hfirst
    · rw [hown] at hnew
      refine ⟨r', hrows, ?_, fun s hs => ?_, fun m hm => ?_⟩
      · have hfirst := hold.firstSeenAt
        have hlater := hnew.firstSeenAt
        rw [List.head?_append, Option.map_or, hfirst, Option.some_or] at hlater
        exact (Option.some.inj hlater).symm
      · rw [hnew.openTime, List.findSome?_append, ← hold.openTime, hs, Option.some_or]
      · rw [hnew.openTimeMillis, List.findSome?_append, ← hold.openTimeMillis, hm, Option.some_or]
  · obtain ⟨l, hl, hs⟩ := (hlaw calls hr).latest
    have hle : c.at_ ≤ l.at_ := hl.greatest.2 c hc
    rw [ht, ← hs.updatedAt, hu] at hle
    exact (Instant.isoformat_le_iff t u).mp hle

end Journal

section Sample

def reportAt (minute : Nat) (time : Option String) (volume : Nat) (h : minute < 60 := by decide) : DestinationReport where
  orderId := none
  symbol := "EURUSD"
  side := "BUY"
  volume := some (.ofNat volume)
  openPrice := none
  openTime := time
  openTimeMillis := none
  closeTime := none
  closeReason := none
  at_ := Instant.isoformat { noon 0 with day := 5, minute, day_pos := by decide, day_le := by decide, minute_lt := h }

def reportKey : ObservationKey := ("t", .destination "fx" "A", "p", .openPositions, "p")

theorem read_back_registers_rollback : (∀ r ∈ (Journal.created "fx").observations, r.key ≠ reportKey) ∧
    (Journal.created "fx").RegisterLaw reportKey [(reportKey, reportAt 5 (some " ") 1), (reportKey, reportAt 9 none 2),
      (reportKey, reportAt 7 (some "07:00") 3)] :=
  ⟨fun _ h => absurd h List.not_mem_nil, Journal.read_back_registers (fun _ h => absurd h List.not_mem_nil) _⟩

end Sample

end MatchTrader
