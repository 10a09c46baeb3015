import MatchTrader.EndedLifecycles
import MatchTrader.ReadBackRegisters
import MatchTrader.Spellings

/-! Times are compared as texts, and the order of the texts is the order of the times: a register keeps the
report of the greatest time whatever the order of the reports, except for the columns that a report may fill
or leave as they are. -/

namespace Instant

variable {t u : Instant}

theorem lt_iff_micros_lt : t < u ↔ t.micros < u.micros :=
  ⟨micros_lt, fun h => by
    by_contra hle
    have hge : u.micros ≤ t.micros := by
      by_cases he : u.isoformat = t.isoformat
      · exact (congrArg micros (isoformat_injective he)).le
      · have hlt : u.isoformat < t.isoformat := lt_of_le_of_ne ((isoformat_le_iff u t).mpr hle) he
        exact (micros_lt ((isoformat_lt_iff u t).mp hlt)).le
    omega⟩

theorem isoformat_lt_iff_micros_lt : t.isoformat < u.isoformat ↔ t.micros < u.micros :=
  (isoformat_lt_iff t u).trans lt_iff_micros_lt

theorem isoformat_le_iff_micros_le : t.isoformat ≤ u.isoformat ↔ t.micros ≤ u.micros := by
  rw [← not_lt, isoformat_lt_iff_micros_lt, not_lt]

end Instant

namespace MatchTrader

section Latest

variable {α β τ υ : Type} [LinearOrder τ] [LinearOrder υ] {stamp : α → τ} {xs ys : List α} {l m c : α}

theorem Latest.of_order {stamp' : α → υ} (h : Latest stamp xs l)
    (ho : ∀ x y, stamp x ≤ stamp y ↔ stamp' x ≤ stamp' y) : Latest stamp' xs l := by
  obtain ⟨before, after, rfl, hbefore, hafter⟩ := h
  refine ⟨before, after, rfl, fun x hx => (ho x l).mp (hbefore x hx), fun x hx => ?_⟩
  have hlt := hafter x hx
  rw [← not_le] at hlt ⊢
  exact fun hle => hlt ((ho l x).mpr hle)

theorem Latest.of_map {stamp : β → τ} {f : α → β} {b : β} (h : Latest stamp (xs.map f) b) :
    ∃ a, f a = b ∧ Latest (fun x => stamp (f x)) xs a := by
  obtain ⟨before, after, he, hbefore, hafter⟩ := h
  obtain ⟨first, rest, rfl, rfl, hrest⟩ := List.map_eq_append_iff.mp he
  obtain ⟨a, last, rfl, rfl, rfl⟩ := List.map_eq_cons_iff.mp hrest
  exact ⟨a, rfl, first, last, rfl, fun x hx => hbefore _ (List.mem_map_of_mem hx), fun x hx => hafter _ (List.mem_map_of_mem hx)⟩

/-- When no two have the same stamp, the order in which they came does not matter. -/
theorem Latest.perm (h : Latest stamp xs l) (hp : xs.Perm ys) (hn : (xs.map stamp).Nodup) (h' : Latest stamp ys m) : l = m := by
  obtain ⟨hl, hgreat⟩ := h.greatest
  obtain ⟨hm, hgreat'⟩ := h'.greatest
  have he : stamp l = stamp m := le_antisymm (hgreat' l (hp.mem_iff.mp hl)) (hgreat m (hp.mem_iff.mpr hm))
  exact List.inj_on_of_nodup_map hn hl (hp.mem_iff.mpr hm) he

/-- Those that were no older than any that came before. -/
def current (stamp : α → τ) : List α → List α → List α
  | _, [] => []
  | before, c :: rest =>
    if before.all fun x => stamp x ≤ stamp c then c :: current stamp (before ++ [c]) rest
    else current stamp (before ++ [c]) rest

theorem current_append (before xs : List α) (c : α) : current stamp before (xs ++ [c]) =
    current stamp before xs ++ if (before ++ xs).all fun x => stamp x ≤ stamp c then [c] else [] := by
  induction xs generalizing before with
  | nil => simp [current]
  | cons x xs ih =>
    have hnext := ih (before ++ [x])
    rw [List.append_assoc, List.singleton_append] at hnext
    by_cases hx : before.all fun y => stamp y ≤ stamp x
    · simp only [List.cons_append, current, if_pos hx, hnext]
    · simp only [List.cons_append, current, if_neg hx, hnext]

theorem current_newer (h : Latest stamp xs l) (hc : stamp l ≤ stamp c) :
    current stamp [] (xs ++ [c]) = current stamp [] xs ++ [c] := by
  have hall : (xs.all fun x => stamp x ≤ stamp c) = true :=
    List.all_eq_true.mpr fun x hx => decide_eq_true ((h.greatest.2 x hx).trans hc)
  rw [current_append, List.nil_append, if_pos hall]

theorem current_older (h : Latest stamp xs l) (hc : stamp c < stamp l) :
    current stamp [] (xs ++ [c]) = current stamp [] xs := by
  have hall : ¬ (xs.all fun x => stamp x ≤ stamp c) = true := by
    intro hall
    have hle := of_decide_eq_true (List.all_eq_true.mp hall l h.greatest.1)
    exact absurd hle (not_le.mpr hc)
  rw [current_append, List.nil_append, if_neg hall, List.append_nil]

/-- In the order of their stamps, all of them. -/
theorem current_sorted {before : List α} (hs : (before ++ xs).Pairwise fun x y => stamp x ≤ stamp y) : current stamp before xs = xs := by
  induction xs generalizing before with
  | nil => rfl
  | cons c xs ih =>
    have hbefore : ∀ x ∈ before, stamp x ≤ stamp c := fun x hx =>
      (List.pairwise_append.mp hs).2.2 x hx c List.mem_cons_self
    have hall : (before.all fun x => stamp x ≤ stamp c) = true :=
      List.all_eq_true.mpr fun x hx => decide_eq_true (hbefore x hx)
    have hrest : current stamp (before ++ [c]) xs = xs := ih (by simpa using hs)
    rw [current, if_pos hall, hrest]

end Latest

def callsOf {κ α : Type} [DecidableEq κ] (k : κ) (calls : List (κ × α)) : List α :=
  (calls.filter fun c => c.1 = k).map Prod.snd

theorem callsOf_append {κ α : Type} [DecidableEq κ] (k l : κ) (calls : List (κ × α)) (c : α) :
    callsOf k (calls ++ [(l, c)]) = callsOf k calls ++ if l = k then [c] else [] := by
  by_cases hl : l = k <;> simp [callsOf, hl]

structure VolumeReport where
  volume : Decimal
  at_ : Instant

/-- What a call of `quantities` stores for a trade. -/
structure QuantityReport where
  requested : Option Decimal
  cumulative : Option Decimal
  remaining : Option Decimal
  unit : String
  at_ : Instant

abbrev PositionKey := Leg × LegScope × String

abbrev QuantityKey := String × Leg × LegScope

def VolumeReport.row (k : PositionKey) (c : VolumeReport) : PositionRow := ⟨k.1, k.2.1, k.2.2, c.volume, c.at_.isoformat⟩

def QuantityReport.row (k : QuantityKey) (c : QuantityReport) : QuantityRow :=
  ⟨k.1, k.2.1, k.2.2, c.requested, c.cumulative, c.remaining, c.unit, c.at_.isoformat⟩

/-- `ON CONFLICT … WHERE excluded.updated_at>=position_observations.updated_at`. -/
def VolumeReport.merge (c : VolumeReport) (r : PositionRow) : PositionRow :=
  if r.updatedAt ≤ c.at_.isoformat then { r with volume := c.volume, updatedAt := c.at_.isoformat } else r

theorem VolumeReport.merge_key (c : VolumeReport) (r : PositionRow) : (c.merge r).key = r.key := by
  unfold merge
  split <;> rfl

theorem VolumeReport.merge_newer {k : PositionKey} {l c : VolumeReport} (h : l.at_.micros ≤ c.at_.micros) :
    c.merge (l.row k) = c.row k :=
  if_pos (Instant.isoformat_le_iff_micros_le.mpr h)

theorem VolumeReport.merge_older {k : PositionKey} {l c : VolumeReport} (h : c.at_.micros < l.at_.micros) :
    c.merge (l.row k) = l.row k :=
  if_neg fun hle => absurd (Instant.isoformat_le_iff_micros_le.mp hle) (not_le.mpr h)

namespace Journal

def positionAll (j : Journal) (calls : List (PositionKey × VolumeReport)) : Journal :=
  calls.foldl (fun j c => j.observePosition (c.2.row c.1)) j

def quantitiesAll (j : Journal) (calls : List (QuantityKey × QuantityReport)) : Journal :=
  calls.foldl (fun j c => j.observeQuantities (c.2.row c.1)) j

variable {j : Journal}

theorem lookup_observePosition (j : Journal) (k l : PositionKey) (c : VolumeReport) :
    Rows.lookup PositionRow.key k (j.observePosition (c.row l)).positions
      = if k = l then some ((Rows.lookup PositionRow.key k j.positions).elim (c.row l) c.merge)
        else Rows.lookup PositionRow.key k j.positions :=
  @Rows.lookup_upsert _ _ _ PositionRow.key (c.row l) _ c.merge k c.merge_key

theorem lookup_positionAll {k : PositionKey} (hk : Rows.lookup PositionRow.key k j.positions = none)
    (calls : List (PositionKey × VolumeReport)) :
    (callsOf k calls = [] ∧ Rows.lookup PositionRow.key k (j.positionAll calls).positions = none)
      ∨ ∃ l, Latest (fun c => c.at_.micros) (callsOf k calls) l
        ∧ Rows.lookup PositionRow.key k (j.positionAll calls).positions = some (l.row k) := by
  induction calls using List.reverseRecOn with
  | nil => exact Or.inl ⟨rfl, hk⟩
  | append_singleton calls c ih =>
    obtain ⟨i, c⟩ := c
    have hrun : j.positionAll (calls ++ [(i, c)]) = (j.positionAll calls).observePosition (c.row i) := by
      rw [positionAll, List.foldl_append]
      rfl
    rw [hrun, lookup_observePosition, callsOf_append]
    by_cases hi : k = i
    · subst hi
      rw [if_pos rfl, if_pos rfl]
      rcases ih with ⟨hnone, hrow⟩ | ⟨l, hl, hrow⟩
      · rw [hrow, hnone]
        exact Or.inr ⟨c, .one _ c, rfl⟩
      · rw [hrow, Option.elim_some]
        rcases le_or_gt l.at_.micros c.at_.micros with hle | hlt
        · rw [VolumeReport.merge_newer hle]
          exact Or.inr ⟨c, hl.newer hle, rfl⟩
        · rw [VolumeReport.merge_older hlt]
          exact Or.inr ⟨l, hl.older hlt, rfl⟩
    · rw [if_neg hi, if_neg fun h => hi h.symm, List.append_nil]
      exact ih

end Journal

/-- The row of a trade's quantities after the calls `own`: unit and time of the latest one, and in each column the last
value among the calls that were no older than any before them. -/
structure Quantified (own : List QuantityReport) (r : QuantityRow) : Prop where
  latest : ∃ l, Latest (fun c => c.at_.micros) own l ∧ r.unit = l.unit ∧ r.updatedAt = l.at_.isoformat
  requested : r.requested = (current (fun c => c.at_.micros) [] own).reverse.findSome? QuantityReport.requested
  cumulative : r.cumulative = (current (fun c => c.at_.micros) [] own).reverse.findSome? QuantityReport.cumulative
  remaining : r.remaining = (current (fun c => c.at_.micros) [] own).reverse.findSome? QuantityReport.remaining

theorem Quantified.first (k : QuantityKey) (c : QuantityReport) : Quantified [c] (c.row k) where
  latest := ⟨c, .one _ c, rfl, rfl⟩
  requested := by cases hc : c.requested <;> simp [current, QuantityReport.row, hc]
  cumulative := by cases hc : c.cumulative <;> simp [current, QuantityReport.row, hc]
  remaining := by cases hc : c.remaining <;> simp [current, QuantityReport.row, hc]

/-- `COALESCE(excluded, …)`: what the call leaves out stays. -/
def QuantityReport.merge (c : QuantityReport) (r : QuantityRow) : QuantityRow :=
  { r with requested := c.requested.or r.requested, cumulative := c.cumulative.or r.cumulative,
           remaining := c.remaining.or r.remaining, unit := c.unit, updatedAt := c.at_.isoformat }

theorem QuantityReport.merge_key (c : QuantityReport) (r : QuantityRow) : (c.merge r).key = r.key := rfl

theorem findSome_newer {own : List QuantityReport} {column : QuantityReport → Option Decimal} {l c : QuantityReport}
    (hl : Latest (fun c => c.at_.micros) own l) (hle : l.at_.micros ≤ c.at_.micros) :
    (current (fun c => c.at_.micros) [] (own ++ [c])).reverse.findSome? column
      = (column c).or ((current (fun c => c.at_.micros) [] own).reverse.findSome? column) := by
  rw [current_newer hl hle, List.reverse_append, List.reverse_singleton, List.singleton_append, List.findSome?_cons]
  cases column c <;> rfl

theorem Quantified.newer {own : List QuantityReport} {r : QuantityRow} {c : QuantityReport} (h : Quantified own r)
    (hle : r.updatedAt ≤ c.at_.isoformat) : Quantified (own ++ [c]) (c.merge r) := by
  obtain ⟨l, hl, -, hat⟩ := h.latest
  rw [hat, Instant.isoformat_le_iff_micros_le] at hle
  refine ⟨⟨c, hl.newer hle, rfl, rfl⟩, ?_, ?_, ?_⟩
  · rw [findSome_newer hl hle, ← h.requested]
    rfl
  · rw [findSome_newer hl hle, ← h.cumulative]
    rfl
  · rw [findSome_newer hl hle, ← h.remaining]
    rfl

theorem Quantified.older {own : List QuantityReport} {r : QuantityRow} {c : QuantityReport} (h : Quantified own r)
    (hlt : c.at_.isoformat < r.updatedAt) : Quantified (own ++ [c]) r := by
  obtain ⟨l, hl, hunit, hat⟩ := h.latest
  rw [hat, Instant.isoformat_lt_iff_micros_lt] at hlt
  refine ⟨⟨l, hl.older hlt, hunit, hat⟩, ?_, ?_, ?_⟩
  · rw [current_older hl hlt]
    exact h.requested
  · rw [current_older hl hlt]
    exact h.cumulative
  · rw [current_older hl hlt]
    exact h.remaining

namespace Journal

variable {j : Journal}

theorem lookup_observeQuantities (j : Journal) (k l : QuantityKey) (c : QuantityReport) :
    Rows.lookup QuantityRow.key k (j.observeQuantities (c.row l)).quantities
      = if k = l then some ((Rows.lookup QuantityRow.key k j.quantities).elim (c.row l) fun r =>
          if c.at_.isoformat < r.updatedAt then r else c.merge r)
        else Rows.lookup QuantityRow.key k j.quantities := by
  unfold observeQuantities
  have hkey : (c.row l).key = l := rfl
  by_cases hk : k = l
  · subst hk
    rw [if_pos rfl, hkey]
    cases hold : Rows.lookup QuantityRow.key k j.quantities with
    | none =>
      have hrow : Rows.lookup QuantityRow.key k (j.quantities ++ [c.row k]) = some (c.row k) := by
        rw [Rows.lookup_append, hold, hkey]
        exact if_pos rfl
      exact hrow
    | some old =>
      by_cases hlt : c.at_.isoformat < old.updatedAt
      · have hdrop : (c.row k).updatedAt < old.updatedAt := hlt
        simp only [hdrop, if_true, hold, Option.elim_some, hlt]
      · have hkeep : ¬ (c.row k).updatedAt < old.updatedAt := hlt
        simp only [hkeep, if_false, Option.elim_some, hlt]
        have hrow := @Rows.lookup_updateKey _ _ _ QuantityRow.key _ j.quantities k k c.merge_key
        rw [if_pos rfl, hold] at hrow
        exact hrow
  · rw [if_neg hk, hkey]
    cases hold : Rows.lookup QuantityRow.key l j.quantities with
    | none => exact Rows.lookup_append_of_ne fun h => hk (hkey ▸ h).symm
    | some old =>
      by_cases hlt : (c.row l).updatedAt < old.updatedAt
      · simp only [hlt, if_true]
      · simp only [hlt, if_false]
        have hrow := @Rows.lookup_updateKey _ _ _ QuantityRow.key _ j.quantities k l c.merge_key
        rw [if_neg hk] at hrow
        exact hrow

theorem lookup_quantitiesAll {k : QuantityKey} (hk : Rows.lookup QuantityRow.key k j.quantities = none)
    (calls : List (QuantityKey × QuantityReport)) :
    (callsOf k calls = [] ∧ Rows.lookup QuantityRow.key k (j.quantitiesAll calls).quantities = none)
      ∨ ∃ r, Rows.lookup QuantityRow.key k (j.quantitiesAll calls).quantities = some r ∧ Quantified (callsOf k calls) r := by
  induction calls using List.reverseRecOn with
  | nil => exact Or.inl ⟨rfl, hk⟩
  | append_singleton calls c ih =>
    obtain ⟨i, c⟩ := c
    have hrun : j.quantitiesAll (calls ++ [(i, c)]) = (j.quantitiesAll calls).observeQuantities (c.row i) := by
      rw [quantitiesAll, List.foldl_append]
      rfl
    rw [hrun, lookup_observeQuantities, callsOf_append]
    by_cases hi : k = i
    · subst hi
      rw [if_pos rfl, if_pos rfl]
      rcases ih with ⟨hnone, hrow⟩ | ⟨r, hrow, hr⟩
      · rw [hrow, hnone]
        exact Or.inr ⟨c.row k, rfl, .first k c⟩
      · rw [hrow, Option.elim_some]
        by_cases hlt : c.at_.isoformat < r.updatedAt
        · rw [if_pos hlt]
          exact Or.inr ⟨r, rfl, hr.older hlt⟩
        · rw [if_neg hlt]
          exact Or.inr ⟨c.merge r, rfl, hr.newer (not_lt.mp hlt)⟩
    · rw [if_neg hi, if_neg fun h => hi h.symm, List.append_nil]
      exact ih

end Journal

theorem Quantified.sorted {own : List QuantityReport} {r : QuantityRow} (h : Quantified own r)
    (hs : own.Pairwise fun x y => x.at_.micros ≤ y.at_.micros) : r.requested = own.reverse.findSome? QuantityReport.requested
      ∧ r.cumulative = own.reverse.findSome? QuantityReport.cumulative
      ∧ r.remaining = own.reverse.findSome? QuantityReport.remaining := by
  have hall : current (fun c : QuantityReport => c.at_.micros) [] own = own := current_sorted hs
  have hrequested := h.requested
  have hcumulative := h.cumulative
  have hremaining := h.remaining
  rw [hall] at hrequested hcumulative hremaining
  exact ⟨hrequested, hcumulative, hremaining⟩

namespace Journal

variable {j : Journal}

theorem positionAll_perm {k : PositionKey} {calls calls' : List (PositionKey × VolumeReport)} (hp : calls.Perm calls')
    (hn : ((callsOf k calls).map fun c => c.at_.micros).Nodup) (hk : Rows.lookup PositionRow.key k j.positions = none) :
    Rows.lookup PositionRow.key k (j.positionAll calls).positions = Rows.lookup PositionRow.key k (j.positionAll calls').positions := by
  have hown : (callsOf k calls).Perm (callsOf k calls') := (hp.filter _).map _
  rcases lookup_positionAll hk calls with ⟨he, hrow⟩ | ⟨l, hl, hrow⟩ <;>
    rcases lookup_positionAll hk calls' with ⟨he', hrow'⟩ | ⟨l', hl', hrow'⟩
  · rw [hrow, hrow']
  · rw [he] at hown
    exact absurd hl'.greatest.1 (by simp [hown.nil_eq.symm])
  · rw [he'] at hown
    exact absurd hl.greatest.1 (by simp [hown.eq_nil])
  · rw [hrow, hrow', hl.perm hown hn hl']

theorem quantitiesAll_sorted {k : QuantityKey} {calls : List (QuantityKey × QuantityReport)} {r : QuantityRow}
    (hk : Rows.lookup QuantityRow.key k j.quantities = none)
    (hs : (callsOf k calls).Pairwise fun x y => x.at_.micros ≤ y.at_.micros)
    (hr : Rows.lookup QuantityRow.key k (j.quantitiesAll calls).quantities = some r) :
    r.requested = (callsOf k calls).reverse.findSome? QuantityReport.requested
      ∧ r.cumulative = (callsOf k calls).reverse.findSome? QuantityReport.cumulative
      ∧ r.remaining = (callsOf k calls).reverse.findSome? QuantityReport.remaining := by
  rcases lookup_quantitiesAll hk calls with ⟨-, hrow⟩ | ⟨q, hrow, hq⟩
  · rw [hr] at hrow
    cases hrow
  · rw [hr] at hrow
    cases hrow
    exact hq.sorted hs

end Journal

def DestinationReport.seenAt (c : DestinationReport) (t : Instant) : DestinationReport := { c with at_ := t.isoformat }

/-- The row of a read-back after the reports `own`: the first times of opening, and the rest as in the latest one. -/
structure TimedRow (own : List (DestinationReport × Instant)) (r : ObservationRow) : Prop where
  openTime : r.openTime = own.findSome? fun c => c.1.givenTime
  openTimeMillis : r.openTimeMillis = own.findSome? fun c => c.1.openTimeMillis
  latest : ∃ l, Latest (fun c => c.2.micros) own l ∧ r.Shows (l.1.seenAt l.2)

namespace Journal

def observeTimed (j : Journal) (calls : List (ObservationKey × DestinationReport × Instant)) : Journal :=
  j.observeAll (calls.map fun c => (c.1, c.2.1.seenAt c.2.2))

theorem reportsOf_timed (k : ObservationKey) (calls : List (ObservationKey × DestinationReport × Instant)) :
    reportsOf k (calls.map fun c => (c.1, c.2.1.seenAt c.2.2)) = (callsOf k calls).map fun c => c.1.seenAt c.2 := by
  simp only [reportsOf, callsOf, List.filter_map, List.map_map]
  rfl

theorem rowsOf_observeTimed {j : Journal} {k : ObservationKey} (hk : ∀ r ∈ j.observations, r.key ≠ k)
    {calls : List (ObservationKey × DestinationReport × Instant)} (hne : callsOf k calls ≠ []) :
    ∃ r, (j.observeTimed calls).rowsOf k = [r] ∧ TimedRow (callsOf k calls) r := by
  have hown := reportsOf_timed k calls
  obtain ⟨r, hrow, hr⟩ := (read_back_registers hk (calls.map fun c => (c.1, c.2.1.seenAt c.2.2))).row (by simpa [hown] using hne)
  rw [hown] at hr
  refine ⟨r, hrow, ?_, ?_, ?_⟩
  · rw [hr.openTime, List.findSome?_map]
    rfl
  · rw [hr.openTimeMillis, List.findSome?_map]
    rfl
  · obtain ⟨l, hl, hs⟩ := hr.latest
    obtain ⟨c, rfl, hc⟩ := hl.of_map
    exact ⟨c, hc.of_order fun x y => Instant.isoformat_le_iff_micros_le, hs⟩

end Journal

/-- What the order of texts comes to: in every register, in whatever order its calls come, and in the test for a later end. -/
structure TimeOrder [Host] (s : Process) : Prop where
  earlier : ∀ t u : Instant, t.isoformat < u.isoformat ↔ t.micros < u.micros
  same : ∀ t u : Instant, t.isoformat = u.isoformat ↔ t = u
  position : ∀ (j : Journal) k calls, Rows.lookup PositionRow.key k j.positions = none → callsOf k calls ≠ [] →
    ∃ l, Latest (fun c => c.at_.micros) (callsOf k calls) l
      ∧ Rows.lookup PositionRow.key k (j.positionAll calls).positions = some (l.row k)
  positionOrder : ∀ (j : Journal) k calls calls', calls.Perm calls' → ((callsOf k calls).map fun c => c.at_.micros).Nodup →
    Rows.lookup PositionRow.key k j.positions = none →
    Rows.lookup PositionRow.key k (j.positionAll calls).positions = Rows.lookup PositionRow.key k (j.positionAll calls').positions
  readBack : ∀ (j : Journal) k calls, (∀ r ∈ j.observations, r.key ≠ k) → callsOf k calls ≠ [] →
    ∃ r, (j.observeTimed calls).rowsOf k = [r] ∧ TimedRow (callsOf k calls) r
  quantities : ∀ (j : Journal) k calls, Rows.lookup QuantityRow.key k j.quantities = none → callsOf k calls ≠ [] →
    ∃ r, Rows.lookup QuantityRow.key k (j.quantitiesAll calls).quantities = some r ∧ Quantified (callsOf k calls) r
  quantitiesInOrder : ∀ (j : Journal) k calls r, Rows.lookup QuantityRow.key k j.quantities = none →
    (callsOf k calls).Pairwise (fun x y => x.at_.micros ≤ y.at_.micros) →
    Rows.lookup QuantityRow.key k (j.quantitiesAll calls).quantities = some r →
    r.requested = (callsOf k calls).reverse.findSome? QuantityReport.requested
      ∧ r.cumulative = (callsOf k calls).reverse.findSome? QuantityReport.cumulative
      ∧ r.remaining = (callsOf k calls).reverse.findSome? QuantityReport.remaining
  laterEnd : ∀ c sig raw closed api destination verified now,
    (SignalCopy.context s.world c sig raw closed api destination verified now).laterEndRecorded = true
      ↔ ∃ r ∈ SignalCopy.related (s.world.lanes c.lane) raw, isEndKind r.kind = true
        ∧ ∃ u : Instant, r.emitted = u.isoformat ∧ sig.timestampUtc.micros ≤ u.micros

theorem later_end_iff [Host] {w : World} {c : LaneCall} {sig : Signal} {raw : Json} {closed : List (List (Option String))}
    {api : Option Api} {destination : String} {verified : Bool} {now : Instant}
    (hf : ∀ r ∈ (w.lanes c.lane).signals, r.Formed) :
    (SignalCopy.context w c sig raw closed api destination verified now).laterEndRecorded = true
      ↔ ∃ r ∈ SignalCopy.related (w.lanes c.lane) raw, isEndKind r.kind = true
        ∧ ∃ u : Instant, r.emitted = u.isoformat ∧ sig.timestampUtc.micros ≤ u.micros := by
  simp only [SignalCopy.context, List.any_eq_true, Bool.and_eq_true, decide_eq_true_eq]
  refine exists_congr fun r => and_congr_right fun hr => and_congr_right fun _ => ?_
  obtain ⟨u, hu⟩ := (hf r (List.mem_of_mem_filter hr)).emitted
  constructor
  · intro hle
    rw [hu] at hle
    exact ⟨u, hu, Instant.isoformat_le_iff_micros_le.mp hle⟩
  · rintro ⟨v, hv, hle⟩
    rw [hv]
    exact Instant.isoformat_le_iff_micros_le.mpr hle

/-- Comparing stored times as texts is comparing times. -/
theorem texts_keep_time [Host] {s : Process} (h : Reachable unrestricted s) : TimeOrder s where
  earlier _ _ := Instant.isoformat_lt_iff_micros_lt
  same _ _ := Instant.isoformat_injective.eq_iff
  position _ _ calls hk hne := ((Journal.lookup_positionAll hk calls).resolve_left fun hnone => hne hnone.1)
  positionOrder _ _ _ _ hp hn hk := Journal.positionAll_perm hp hn hk
  readBack _ _ _ hk hne := Journal.rowsOf_observeTimed hk hne
  quantities _ _ calls hk hne := ((Journal.lookup_quantitiesAll hk calls).resolve_left fun hnone => hne hnone.1)
  quantitiesInOrder _ _ _ _ hk hs hr := Journal.quantitiesAll_sorted hk hs hr
  laterEnd c _ _ _ _ _ _ _ := later_end_iff ((h.sound ⟨rfl, rfl⟩).inv.formed c.lane)

section Sample

attribute [local instance] sampleHost

theorem texts_keep_time_started : TimeOrder ⟨true, started sampleMemory⟩ :=
  texts_keep_time (reachable_started unrestricted sampleMemory)

def quantityKey : QuantityKey := ("t", .destination, .destination "fx" "A")

def quantityAt (second : Fin 60) (filled : Option Decimal) : QuantityReport := ⟨none, filled, none, "lots", noon second⟩

def filledOf (calls : List QuantityReport) : Option (Option Decimal) :=
  (Rows.lookup QuantityRow.key quantityKey
    ((Journal.created "fx").quantitiesAll (calls.map (quantityKey, ·))).quantities).map QuantityRow.cumulative

def openTimesOf (calls : List (DestinationReport × Instant)) : List (Option String) :=
  (((Journal.created "fx").observeTimed (calls.map (reportKey, ·))).rowsOf reportKey).map ObservationRow.openTime

/-- What was filled is kept or lost with the order of two reports, and of two times of opening the first one is kept. -/
theorem latest_value_lost :
    (noon 1).micros < (noon 2).micros
      ∧ filledOf [quantityAt 1 (some (.ofNat 5)), quantityAt 2 none] = some (some (.ofNat 5))
      ∧ filledOf [quantityAt 2 none, quantityAt 1 (some (.ofNat 5))] = some none
      ∧ openTimesOf [(reportAt 1 (some "09:00") 1, noon 1), (reportAt 2 (some "10:00") 1, noon 2)] = [some "09:00"] := by
  refine ⟨?_, ?_, ?_, ?_⟩
  · decide
  · decide +kernel
  · decide +kernel
  · decide +kernel

end Sample

end MatchTrader
