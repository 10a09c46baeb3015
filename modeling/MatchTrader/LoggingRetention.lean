import Mathlib.Data.List.Sort
import Mathlib.Logic.Relation
import MatchTrader.LoggingStore
import MatchTrader.Retention

/-! Whatever is accepted under whatever limits, the archive has the newest observations that the
limits of its last acceptance allow, and it accounts for the others. -/

namespace MatchTrader

open Retention

variable {f g : LoggingFile} {s : LoggingStore} {rows older newer : List LoggingRow} {r : LoggingRow} {o : Observation}

namespace LoggingFile

/-- The numbers of the rows grow with the rows. -/
def Ordered (rows : List LoggingRow) : Prop := rows.Pairwise fun q r => q.seq < r.seq

structure WellFormed (f : LoggingFile) : Prop where
  ordered : Ordered f.observations
  drawn : ∀ r ∈ f.observations, 1 ≤ r.seq ∧ r.seq ≤ f.sequence

theorem Ordered.nodup (h : Ordered rows) : (rows.map LoggingRow.seq).Nodup :=
  List.pairwise_map.mpr (h.imp Nat.ne_of_lt)

theorem Ordered.newestFirst (h : Ordered rows) : newestFirst rows = rows.reverse := by
  have hsorted : (LoggingFile.newestFirst rows).Pairwise fun q r => r.seq ≤ q.seq := List.pairwise_insertionSort _ _
  have hreverse : rows.reverse.Pairwise fun q r => r.seq ≤ q.seq :=
    List.pairwise_reverse.mpr (h.imp fun hlt => Nat.le_of_lt hlt)
  have hperm : (LoggingFile.newestFirst rows).Perm rows := List.perm_insertionSort _ rows
  apply (hperm.trans (List.reverse_perm rows).symm).eq_of_pairwise _ hsorted hreverse
  intro q r hq hr hle hge
  exact List.inj_on_of_nodup_map h.nodup (hperm.mem_iff.mp hq) (List.mem_reverse.mp hr) (Nat.le_antisymm hge hle)

/-- The rows before a row are the ones with smaller numbers. -/
theorem Ordered.split (h : Ordered (older ++ r :: newer)) : Ordered older ∧ Ordered newer
    ∧ (∀ q ∈ older, q.seq < r.seq) ∧ ∀ q ∈ newer, r.seq < q.seq := by
  obtain ⟨ho, hn, hlt⟩ := List.pairwise_append.mp h
  obtain ⟨hr, hn⟩ := List.pairwise_cons.mp hn
  exact ⟨ho, hn, fun q hq => hlt q hq r List.mem_cons_self, hr⟩

theorem Ordered.filter_gt (h : Ordered (older ++ r :: newer)) :
    ((older ++ r :: newer).filter fun q => ¬ q.seq ≤ r.seq) = newer := by
  obtain ⟨_, _, hold, hnew⟩ := h.split
  rw [List.filter_append, List.filter_cons, List.filter_eq_nil_iff.mpr, List.filter_eq_self.mpr]
  · simp
  · intro q hq
    have hlt := hnew q hq
    simp only [decide_eq_true_eq]
    omega
  · intro q hq
    have hlt := hold q hq
    simp only [decide_eq_true_eq]
    omega

theorem Ordered.filter_lt (h : Ordered (older ++ r :: newer)) :
    ((older ++ r :: newer).filter fun q => q.seq < r.seq) = older := by
  obtain ⟨_, _, hold, hnew⟩ := h.split
  rw [List.filter_append, List.filter_cons, List.filter_eq_self.mpr, List.filter_eq_nil_iff.mpr]
  · simp
  · intro q hq
    have hlt := hnew q hq
    simp only [decide_eq_true_eq]
    omega
  · intro q hq
    exact decide_eq_true (hold q hq)

theorem insert_ok (h : f.insert o = .ok g) : g = { f with
    observations := f.observations ++ [⟨o, f.sequence + 1⟩], sequence := f.sequence + 1 } := by
  simp only [insert, bind_eq_ok] at h
  obtain ⟨_, _, _, _, h⟩ := h
  exact (Except.ok.inj h).symm

theorem WellFormed.insert (h : f.WellFormed) (hi : f.insert o = .ok g) : g.WellFormed := by
  rw [insert_ok hi]
  constructor
  · apply List.pairwise_append.mpr
    refine ⟨h.ordered, List.pairwise_singleton _ _, ?_⟩
    intro q hq r hr
    have hle := (h.drawn q hq).2
    rw [List.mem_singleton.mp hr]
    show q.seq < f.sequence + 1
    omega
  · intro r hr
    rcases List.mem_append.mp hr with hr | hr
    · have hh := h.drawn r hr
      exact ⟨hh.1, Nat.le_succ_of_le hh.2⟩
    · rw [List.mem_singleton.mp hr]
      exact ⟨Nat.succ_pos _, Nat.le_refl _⟩

theorem WellFormed.of_suffix (h : f.WellFormed) {n : Option Nat} (hs : rows <:+ f.observations) :
    ({ f with observations := rows, evicted := n } : LoggingFile).WellFormed :=
  ⟨h.ordered.sublist hs.sublist, fun r hr => h.drawn r (hs.subset hr)⟩

end LoggingFile

namespace LoggingStore

/-- The limits allow these rows together. -/
def Fits (s : LoggingStore) (rows : List LoggingRow) : Prop :=
  Within (fun r : LoggingRow => r.size) s.maxRecords s.maxBytes rows

/-- The constructor creates what is missing of the tables, unless it raises before. -/
theorem init_cases (maxRecords maxBytes : Int) (fault : Option OpeningStep) (f : LoggingFile) :
    (init maxRecords maxBytes fault f).2 = f.createTables
      ∨ ((init maxRecords maxBytes fault f).2 = f ∧ ∃ e, (init maxRecords maxBytes fault f).1 = .error e) := by
  unfold init
  split
  · exact Or.inr ⟨rfl, _, rfl⟩
  · cases fault with
    | none => exact Or.inl rfl
    | some step =>
      cases step with
      | script => exact Or.inr ⟨rfl, _, rfl⟩
      | metadata => exact Or.inl rfl

theorem cutoffFrom_none {index total : Nat} (h : s.cutoffFrom index total rows = none)
    (hi : index ≤ s.maxRecords) (ht : total ≤ s.maxBytes) :
    index + rows.length ≤ s.maxRecords ∧ total + (rows.map fun r => r.size).sum ≤ s.maxBytes := by
  induction rows generalizing index total with
  | nil => exact ⟨hi, ht⟩
  | cons r rows ih =>
    rw [cutoffFrom] at h
    split at h
    · cases h
    · next hc =>
      have hh := ih h (by omega) (by omega)
      rw [List.length_cons, List.map_cons, List.sum_cons]
      omega

/-- The search reads the newest rows that fit, and stops at the first one that does not. -/
theorem cutoffFrom_some {index total cutoff : Nat} (h : s.cutoffFrom index total rows = some cutoff)
    (hi : index ≤ s.maxRecords) (ht : total ≤ s.maxBytes) :
    ∃ newer r older, rows = newer ++ r :: older ∧ r.seq = cutoff
      ∧ index + newer.length ≤ s.maxRecords ∧ total + (newer.map fun r => r.size).sum ≤ s.maxBytes
      ∧ ¬ (index + newer.length < s.maxRecords ∧ total + (newer.map fun r => r.size).sum + r.size ≤ s.maxBytes) := by
  induction rows generalizing index total with
  | nil => cases h
  | cons r rows ih =>
    rw [cutoffFrom] at h
    split at h
    · next hc =>
      refine ⟨[], r, rows, rfl, Option.some.inj h, hi, ht, ?_⟩
      simp only [List.length_nil, List.map_nil, List.sum_nil]
      omega
    · next hc =>
      obtain ⟨newer, q, older, rfl, hq, hn, hb, hx⟩ := ih h (by omega) (by omega)
      refine ⟨r :: newer, q, older, rfl, hq, ?_, ?_, ?_⟩ <;>
        (simp only [List.length_cons, List.map_cons, List.sum_cons]; omega)

theorem fits_reverse (s : LoggingStore) (rows : List LoggingRow) : s.Fits rows.reverse ↔ s.Fits rows := by
  simp only [Fits, Within, List.length_reverse, List.map_reverse, List.sum_reverse]

/-- What the search leaves is the longest suffix that fits. -/
theorem cutoffFrom_longest (h : LoggingFile.Ordered rows) :
    match s.cutoffFrom 0 0 rows.reverse with
    | some cutoff => Longest s.Fits rows (rows.filter fun r => ¬ r.seq ≤ cutoff)
    | none => Longest s.Fits rows rows := by
  cases hc : s.cutoffFrom 0 0 rows.reverse with
  | none =>
    have hh := cutoffFrom_none hc (Nat.zero_le _) (Nat.zero_le _)
    rw [Nat.zero_add, Nat.zero_add] at hh
    exact longest_self ((fits_reverse s rows).mp hh)
  | some cutoff =>
    obtain ⟨newer, r, older, he, rfl, hn, hb, hx⟩ := cutoffFrom_some hc (Nat.zero_le _) (Nat.zero_le _)
    have hrows : rows = older.reverse ++ r :: newer.reverse := by
      rw [← List.reverse_reverse rows, he]
      simp
    subst hrows
    rw [Nat.zero_add] at hn hb hx
    simp only [h.filter_gt]
    apply longest_of_cut within_hereditary
    · exact (fits_reverse s newer).mpr ⟨hn, hb⟩
    · rw [within_cons, List.length_reverse, List.map_reverse, List.sum_reverse]
      omega

/-- The row that an acceptance writes. -/
def newRow (f : LoggingFile) (o : Observation) : LoggingRow := ⟨o, f.sequence + 1⟩

/-- What the statements of an acceptance do to the tables. -/
theorem record_ok (hf : f.WellFormed) (h : s.record f o = .ok g) :
    g.WellFormed ∧ Longest s.Fits (f.observations ++ [newRow f o]) g.observations ∧ g.sequence = f.sequence + 1
      ∧ g.evicted = f.evicted.map (· + (f.observations.length + 1 - g.observations.length)) := by
  simp only [record, bind_eq_ok] at h
  obtain ⟨k, hk, h⟩ := h
  have hw := hf.insert hk
  have hlongest := cutoffFrom_longest (s := s) hw.ordered
  rw [← hw.ordered.newestFirst] at hlongest
  obtain rfl := LoggingFile.insert_ok hk
  cases hc : s.cutoffFrom 0 0 (LoggingFile.newestFirst (f.observations ++ [newRow f o])) with
  | none =>
    simp only [newRow] at hc
    simp only [hc] at h hlongest
    obtain rfl := Except.ok.inj h
    refine ⟨hw, hlongest, rfl, ?_⟩
    simp only [List.length_append, List.length_singleton, Nat.sub_self, Nat.add_zero, Option.map_id']
  | some cutoff =>
    simp only [newRow] at hc
    simp only [hc] at h hlongest
    obtain rfl := Except.ok.inj h
    refine ⟨hw.of_suffix hlongest.suffix, hlongest, rfl, ?_⟩
    simp only [LoggingFile.evict, List.length_append, List.length_singleton]

variable [LoggingHost] {call : LoggingCall} {receipt : LoggingReceipt} {body : List UInt8}

theorem accept_ok (h : s.accept call f = (.ok receipt, g)) : ∃ body, call.body = some body
    ∧ body.length ≤ maxLogBody ∧ receipt = { receiptId := call.identity, receivedAt := call.now }
    ∧ s.record f (observation call body) = .ok g := by
  unfold accept at h
  cases hb : call.body with
  | none => simp only [hb, Prod.mk.injEq, reduceCtorEq, false_and] at h
  | some body =>
    simp only [hb] at h
    split at h
    · cases (Prod.mk.inj h).1
    · next hl =>
      split at h
      · next g' hg =>
        obtain ⟨hr, rfl⟩ := Prod.mk.inj h
        simp only [bind_eq_ok] at hg
        obtain ⟨_, _, hg⟩ := hg
        exact ⟨body, rfl, by omega, (Except.ok.inj hr).symm, hg⟩
      · cases (Prod.mk.inj h).1

theorem accept_error {e : Exc} (h : s.accept call f = (.error e, g)) : g = f := by
  unfold accept at h
  split at h
  · exact (Prod.mk.inj h).2.symm
  · split at h
    · exact (Prod.mk.inj h).2.symm
    · split at h
      · cases (Prod.mk.inj h).1
      · exact (Prod.mk.inj h).2.symm

/-- A body of the allowed size fits by itself, so that the newest row stays. -/
theorem newest_stays (hb : body.length ≤ maxLogBody)
    (h : Longest s.Fits (f.observations ++ [newRow f (observation call body)]) rows) :
    rows.getLast? = some (newRow f (observation call body)) := by
  have hfits : s.Fits [newRow f (observation call body)] := by
    refine ⟨s.one_le_maxRecords, ?_⟩
    have hle := s.maxLogBody_le
    have hsize : (newRow f (observation call body)).size = body.length := rfl
    simp only [List.map_cons, List.map_nil, List.sum_cons, List.sum_nil, hsize]
    omega
  obtain ⟨before, rfl⟩ := h.greatest _ (List.suffix_append _ _) hfits
  exact List.getLast?_concat

section Paging

variable {rest : List LoggingRow} {before : Int}

/-- The rows that a reader has yet to be shown, the newest first. -/
structure Ahead (f : LoggingFile) (before : Int) (rest : List LoggingRow) : Prop where
  nonneg : 0 ≤ before
  suffix : rest <:+ f.observations.reverse
  select : ∀ limit, selectBefore f before limit = rest.take limit.toNat

omit [LoggingHost] in
theorem ahead_start (hf : f.WellFormed) : Ahead f 0 f.observations.reverse where
  nonneg := Int.le_refl 0
  suffix := List.suffix_rfl
  select limit := by
    have hall : (f.observations.filter fun r => (0 : Int) = 0 ∨ (r.seq : Int) < 0) = f.observations := by simp
    rw [selectBefore, hall, hf.ordered.newestFirst]

omit [LoggingHost] in
theorem ahead_of_row (hf : f.WellFormed) (he : f.observations = older ++ r :: newer) : Ahead f r.seq older.reverse where
  nonneg := Int.natCast_nonneg _
  suffix := ⟨newer.reverse ++ [r], by simp [he]⟩
  select limit := by
    have hord := he ▸ hf.ordered
    have hpos : 1 ≤ r.seq := (hf.drawn r (by simp [he])).1
    have hsame : (fun q : LoggingRow => decide ((r.seq : Int) = 0 ∨ (q.seq : Int) < r.seq)) = fun q => decide (q.seq < r.seq) := by
      funext q
      congr 1
      rw [eq_iff_iff]
      omega
    rw [selectBefore, hsame, he, hord.filter_lt, hord.split.1.newestFirst]

/-- A page shows the rows that come next, and leaves its reader before the others. -/
theorem Ahead.feed {evicted : Nat} {limit : Int} (h : Ahead f before rest) (hf : f.WellFormed) (he : f.evicted = some evicted)
    (hl : 1 ≤ limit ∧ limit ≤ 100) : ∃ page, s.feed f before limit = .ok page
      ∧ page.records = (rest.take limit.toNat).map shown ∧ Ahead f page.nextBefore (rest.drop limit.toNat) := by
  have hvalid : ¬ (before < 0 ∨ ¬ (1 ≤ limit ∧ limit ≤ 100)) := by
    have hb := h.nonneg
    omega
  simp only [LoggingStore.feed, if_neg hvalid, he, h.select]
  refine ⟨_, rfl, rfl, ?_⟩
  cases hlast : (rest.take limit.toNat).getLast? with
  | none =>
    have hnil : rest = [] := by
      rcases List.take_eq_nil_iff.mp (List.getLast?_eq_none_iff.mp hlast) with hz | hn
      · omega
      · exact hn
    subst hnil
    rw [List.drop_nil]
    exact h
  | some r =>
    obtain ⟨page, hpage⟩ := List.getLast?_eq_some_iff.mp hlast
    obtain ⟨past, hpast⟩ := h.suffix
    have hrest : rest = page ++ r :: rest.drop limit.toNat := by
      have hsplit := List.take_append_drop limit.toNat rest
      rw [hpage, List.append_assoc] at hsplit
      exact hsplit.symm
    have hrows : f.observations = (rest.drop limit.toNat).reverse ++ r :: (page.reverse ++ past.reverse) := by
      rw [← List.reverse_inj, ← hpast]
      nth_rewrite 1 [hrest]
      simp
    have hahead := ahead_of_row hf hrows
    rwa [List.reverse_reverse] at hahead

/-- Reading on shows the rows one after the other. -/
theorem Ahead.pages {evicted : Nat} {limits : List Int} (h : Ahead f before rest) (hf : f.WellFormed)
    (he : f.evicted = some evicted) (hl : ∀ limit ∈ limits, 1 ≤ limit ∧ limit ≤ 100) :
    s.pages f before limits = .ok ((rest.take (limits.map Int.toNat).sum).map shown) := by
  induction limits generalizing before rest with
  | nil => rfl
  | cons limit limits ih =>
    obtain ⟨page, hpage, hrecords, hnext⟩ := h.feed (s := s) hf he (hl limit List.mem_cons_self)
    have htail := ih hnext fun k hk => hl k (List.mem_cons_of_mem _ hk)
    rw [LoggingStore.pages, hpage]
    simp only [bind, Except.bind, htail, hrecords, pure, Except.pure]
    rw [List.map_cons, List.sum_cons, List.take_add, List.map_append]

end Paging

end LoggingStore

/-- A file that is opened and closed under any limits, beside all that was ever accepted into it. -/
structure LoggingArchive where
  file : LoggingFile := {}
  store : Option LoggingStore := none
  accepted : List Observation := []

namespace LoggingArchive

open LoggingStore

variable [LoggingHost] {a b : LoggingArchive} {call : LoggingCall} {receipt : LoggingReceipt} {body : List UInt8}

/-- What a call has accepted. -/
def taken (call : LoggingCall) : Except Exc LoggingReceipt → List Observation
  | .ok _ => (call.body.map (observation call)).toList
  | .error _ => []

inductive Step : LoggingArchive → LoggingArchive → Prop
  | init {a : LoggingArchive} (maxRecords maxBytes : Int) (fault : Option OpeningStep) :
    Step a { a with
      store := (LoggingStore.init maxRecords maxBytes fault a.file).1.toOption
      file := (LoggingStore.init maxRecords maxBytes fault a.file).2 }
  | close {a : LoggingArchive} : Step a { a with store := none }
  | accept {a : LoggingArchive} {s : LoggingStore} (hs : a.store = some s) (call : LoggingCall) :
    Step a { a with
      file := (s.accept call a.file).2
      accepted := a.accepted ++ taken call (s.accept call a.file).1 }

def Reachable (a : LoggingArchive) : Prop := Relation.ReflTransGen Step {} a

/-- The file has the newest of what was accepted, and counts the rest. -/
structure Sound (a : LoggingArchive) : Prop where
  formed : a.file.WellFormed
  newest : a.file.observations.map LoggingRow.toObservation <:+ a.accepted
  counted : (a.file.evicted.getD 0) + a.file.observations.length = a.accepted.length
  opened : a.store.isSome → a.file.evicted.isSome

omit [LoggingHost] in
theorem Sound.accepted (h : a.Sound) {s : LoggingStore} (hs : a.store = some s) {o : Observation} {g : LoggingFile}
    (hg : s.record a.file o = .ok g) : Sound { a with file := g, accepted := a.accepted ++ [o] } := by
  obtain ⟨hw, hl, _, he⟩ := record_ok h.formed hg
  obtain ⟨n, hn⟩ := Option.isSome_iff_exists.mp (h.opened (by rw [hs]; rfl))
  have hcount := h.counted
  have hle := hl.suffix.length_le
  rw [List.length_append, List.length_singleton] at hle
  rw [hn, Option.getD_some] at hcount
  rw [hn, Option.map_some] at he
  refine ⟨hw, ?_, ?_, fun _ => by rw [he]; rfl⟩
  · have hmap := hl.suffix.map LoggingRow.toObservation
    rw [List.map_append] at hmap
    exact hmap.trans (List.suffix_append_self_iff.mpr h.newest)
  · simp only [he, Option.getD_some, List.length_append, List.length_singleton]
    omega

omit [LoggingHost] in
theorem Sound.created (h : a.Sound) (store : Option LoggingStore) : Sound { a with store, file := a.file.createTables } where
  formed := ⟨h.formed.ordered, h.formed.drawn⟩
  newest := h.newest
  counted := by
    have hcount := h.counted
    cases he : a.file.evicted <;> simpa [LoggingFile.createTables, he] using hcount
  opened _ := by cases he : a.file.evicted <;> simp [LoggingFile.createTables, he]

theorem Sound.step (h : a.Sound) (hs : Step a b) : b.Sound := by
  cases hs with
  | init maxRecords maxBytes fault =>
    rcases init_cases maxRecords maxBytes fault a.file with hf | ⟨hf, e, he⟩
    · rw [hf]
      exact h.created _
    · rw [hf, he]
      exact ⟨h.formed, h.newest, h.counted, fun hn => by cases hn⟩
  | close => exact ⟨h.formed, h.newest, h.counted, fun hn => by cases hn⟩
  | @accept s hs call =>
    generalize ha : s.accept call a.file = r
    obtain ⟨r, g⟩ := r
    cases r with
    | error e =>
      obtain rfl := accept_error ha
      rw [taken, List.append_nil]
      exact h
    | ok receipt =>
      obtain ⟨body, hb, _, _, hg⟩ := accept_ok ha
      have hh := h.accepted hs hg
      simp only [taken, hb]
      exact hh

theorem Reachable.sound (h : Reachable a) : a.Sound := by
  induction h with
  | refl => exact ⟨⟨List.Pairwise.nil, fun r hr => by cases hr⟩, List.suffix_rfl, rfl, fun hn => by cases hn⟩
  | tail _ hs ih => exact ih.step hs

/-- Whatever was accepted under whatever limits, an acceptance leaves the longest suffix that its
limits allow of what was stored and the new observation, which is among it; what is stored is the
newest of all that was accepted, and the counter has the others; and a reader that goes from page
to page is shown each stored row once. -/
theorem acceptance_keeps_newest (h : Reachable a) {s : LoggingStore} (hs : a.store = some s) :
    a.file.observations.map LoggingRow.toObservation <:+ a.accepted
      ∧ (∃ evicted, a.file.evicted = some evicted ∧ evicted + a.file.observations.length = a.accepted.length)
      ∧ (∀ call receipt file, s.accept call a.file = (.ok receipt, file) → ∃ body row, call.body = some body
        ∧ row.toObservation = observation call body
        ∧ Longest (Within (fun r : LoggingRow => r.body.length) s.maxRecords s.maxBytes) (a.file.observations ++ [row]) file.observations
        ∧ file.observations.getLast? = some row
        ∧ file.observations.map LoggingRow.toObservation <:+ a.accepted ++ [observation call body]
        ∧ ∃ evicted, file.evicted = some evicted ∧ evicted + file.observations.length = a.accepted.length + 1)
      ∧ (∀ limits : List Int, (∀ limit ∈ limits, 1 ≤ limit ∧ limit ≤ 100) →
        s.pages a.file 0 limits = .ok ((a.file.observations.reverse.take (limits.map Int.toNat).sum).map shown))
      ∧ (a.file.observations.map LoggingRow.seq).Nodup := by
  have hsound := h.sound
  obtain ⟨n, hn⟩ := Option.isSome_iff_exists.mp (hsound.opened (by rw [hs]; rfl))
  have hcount := hsound.counted
  rw [hn, Option.getD_some] at hcount
  refine ⟨hsound.newest, ⟨n, hn, hcount⟩, ?_, ?_, hsound.formed.ordered.nodup⟩
  · intro call receipt file ha
    obtain ⟨body, hb, hle, _, hg⟩ := accept_ok ha
    obtain ⟨_, hl, _, he⟩ := record_ok hsound.formed hg
    have hafter := hsound.accepted hs hg
    refine ⟨body, newRow a.file (observation call body), hb, rfl, hl, newest_stays hle hl, hafter.newest, ?_⟩
    rw [hn, Option.map_some] at he
    have hcount' := hafter.counted
    rw [he, Option.getD_some, List.length_append, List.length_singleton] at hcount'
    exact ⟨_, he, hcount'⟩
  · intro limits hl
    exact (ahead_start hsound.formed).pages hsound.formed hn hl

end LoggingArchive

section Sample

@[reducible] def sampleLoggingHost : LoggingHost where
  sha256 body := toString body.length
  preview _ := ⟨"", false, none, none⟩

attribute [local instance] sampleLoggingHost

namespace LoggingArchive

def sampleStore : LoggingStore := ⟨1, maxLogBody, le_refl 1, Nat.le_refl _⟩

def sampleCall (identity : String) (body : List UInt8) : LoggingCall := { body := some body, identity, now := "noon" }

/-- An archive of one record, into which a second observation came. -/
def sampleArchive : LoggingArchive where
  file := (sampleStore.accept (sampleCall "b" [2, 3]) (sampleStore.accept (sampleCall "a" [1]) { evicted := some 0 }).2).2
  store := some sampleStore
  accepted := [LoggingStore.observation (sampleCall "a" [1]) [1], LoggingStore.observation (sampleCall "b" [2, 3]) [2, 3]]

theorem acceptance_keeps_newest_sample :
    sampleArchive.file.observations.map LoggingRow.toObservation <:+ sampleArchive.accepted
      ∧ ∃ evicted, sampleArchive.file.evicted = some evicted ∧ evicted + sampleArchive.file.observations.length = 2 := by
  have hinit : Reachable { file := { evicted := some 0 }, store := some sampleStore, accepted := [] } :=
    Relation.ReflTransGen.single (Step.init 1 maxLogBody none)
  have hreach : Reachable sampleArchive :=
    (hinit.tail (Step.accept rfl (sampleCall "a" [1]))).tail (Step.accept rfl (sampleCall "b" [2, 3]))
  have hall := acceptance_keeps_newest hreach rfl
  exact ⟨hall.1, hall.2.1⟩

end LoggingArchive

end Sample

end MatchTrader
