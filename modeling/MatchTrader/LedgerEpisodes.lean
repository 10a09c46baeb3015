import Mathlib.Data.List.Sort
import Mathlib.Data.List.SplitBy
import MatchTrader.Controller
import MatchTrader.Decimals
import MatchTrader.P01Log
import MatchTrader.Spellings

/-! The rows of R01's ledger are divided into the lives of their labels. An intent begins one, and the
distinct brackets of a life are kept with the row that brought them. -/

namespace MatchTrader

section Model

variable [Host]

/-- A row of the ledger as it is loaded, with its levels read. -/
structure LedgerEvent where
  row : Controller.LedgerRow
  sourceLine : Nat
  time : ZonedTime
  entry : Decimal
  sl : Decimal
  tp : Decimal
  entry_read : row.entry.bind Host.decimal = some (some entry)
  sl_read : row.sl.bind Host.decimal = some (some sl)
  tp_read : row.tp.bind Host.decimal = some (some tp)

abbrev EventKey := Option String × Option String × Option String

namespace LedgerEvent

def label (e : LedgerEvent) : EventKey := (e.row.symbol, e.row.label, e.row.side)

def isIntent (e : LedgerEvent) : Bool := e.row.kind = some "intent"

def notAfter (a b : LedgerEvent) : Bool :=
  a.time.instant < b.time.instant ∨ a.time.instant = b.time.instant ∧ a.sourceLine ≤ b.sourceLine

/-- A row whose kind states levels. -/
def isBracket (e : LedgerEvent) : Bool := e.row.kind = some "intent" ∨ e.row.kind = some "regrade" ∨ e.row.kind = some "touched"

/-- The same numbers, however they are spelled. -/
def sameLevels (a b : LedgerEvent) : Bool := a.entry.same b.entry && a.sl.same b.sl && a.tp.same b.tp

end LedgerEvent

abbrev BracketKey := Nat × Decimal × Decimal × Decimal

def LedgerEvent.bracket (e : LedgerEvent) (id : Nat) : BracketKey := (id, e.entry, e.sl, e.tp)

/-- Keys of a dictionary, where numbers are compared by value. -/
def sameKey (a b : BracketKey) : Bool := a.1 = b.1 && a.2.1.same b.2.1 && a.2.2.1.same b.2.2.1 && a.2.2.2.same b.2.2.2

section Loading

variable [LogHost]

/-- `utc`: nothing for a text that is no time with an offset. -/
def utc : Option String → Except Exc (Option ZonedTime)
  | none => .error ⟨.other, "AttributeError", "'NoneType' object has no attribute 'replace'", none⟩
  | some text =>
    match readStamp text.toList with
    | some (.inr time) => .ok (some time)
    | _ => .ok none

def level : (value : Option String) → Except Exc (Option { d : Decimal // value.bind Host.decimal = some (some d) })
  | none => .error (.type "conversion from NoneType to Decimal is not supported")
  | some text =>
    match h : Host.decimal text with
    | some (some d) => .ok (some ⟨d, h⟩)
    | _ => .ok none

/-- A row as it is kept, or nothing for an invalid one. -/
def Controller.LedgerRow.load (row : Controller.LedgerRow) (line : Nat) : Except Exc (Option LedgerEvent) := do
  let some time ← MatchTrader.utc row.utc | return none
  let some entry ← level row.entry | return none
  let some sl ← level row.sl | return none
  let some tp ← level row.tp | return none
  return some { row, sourceLine := line, time, entry := entry.1, sl := sl.1, tp := tp.1
                entry_read := entry.2, sl_read := sl.2, tp_read := tp.2 }

def LedgerEvent.read (r : Controller.LedgerRow × Nat) : Except Exc (Nat × Option LedgerEvent) := do
  return (r.2, ← r.1.load r.2)

/-- `load_ledger`, of the records of a file: the valid rows before the end by their times, and the invalid lines. -/
def loadLedger (records : List Controller.LedgerRow) (end_ : ZonedTime) : Except Exc (List LedgerEvent × List Nat) := do
  -- The header is line one.
  let read ← (records.zipIdx 2).mapM LedgerEvent.read
  let rows := (read.filterMap Prod.snd).filter fun e => e.time.instant < end_.instant
  return (rows.mergeSort LedgerEvent.notAfter, (read.filter fun r => r.2.isNone).map Prod.fst)

end Loading

structure LedgerEpisode where
  id : Nat
  intent : Option LedgerEvent
  events : List LedgerEvent

/-- A bracket of an episode, with the first row that has it. -/
structure BracketState where
  first : LedgerEvent
  episode : LedgerEpisode

/-- The tables of a pass. Episodes are referred to by the order in which they were made. -/
structure EpisodeTables where
  made : List LedgerEpisode := []
  episodes : List (Nat × Nat) := []
  active : List (EventKey × Nat) := []
  states : List (BracketKey × LedgerEvent × Nat) := []

namespace EpisodeTables

/-- A new episode, without events yet, under its row's label. -/
def start (t : EpisodeTables) (row : LedgerEvent) : EpisodeTables :=
  { t with
    made := t.made ++ [⟨row.sourceLine, if row.isIntent then some row else none, []⟩]
    episodes := Rows.setItem (row.sourceLine, t.made.length) t.episodes
    active := Rows.setItem (row.label, t.made.length) t.active }

def place (t : EpisodeTables) (row : LedgerEvent) : EpisodeTables × Nat :=
  match Rows.lookup Prod.fst row.label t.active with
  | some (_, i) => if row.isIntent then (t.start row, t.made.length) else (t, i)
  | none => (t.start row, t.made.length)

def append (t : EpisodeTables) (row : LedgerEvent) (i : Nat) : EpisodeTables :=
  { t with made := t.made.modify i fun episode => { episode with events := episode.events ++ [row] } }

def keep (t : EpisodeTables) (row : LedgerEvent) (i : Nat) : EpisodeTables :=
  match t.made[i]? with
  | some episode =>
    if !row.isBracket ∨ t.states.any (fun s => sameKey s.1 (row.bracket episode.id)) then t
    else { t with states := t.states ++ [(row.bracket episode.id, row, i)] }
  | none => t

def add (t : EpisodeTables) (row : LedgerEvent) : EpisodeTables :=
  let (t, i) := t.place row
  (t.append row i).keep row i

def result (t : EpisodeTables) : List BracketState × List (Nat × LedgerEpisode) :=
  (t.states.filterMap fun s => t.made[s.2.2]?.map fun episode => ⟨s.2.1, episode⟩,
    t.episodes.filterMap fun e => t.made[e.2]?.map fun episode => (e.1, episode))

end EpisodeTables

/-- `states_from_events`. -/
def statesFromEvents (events : List LedgerEvent) : List BracketState × List (Nat × LedgerEpisode) :=
  (events.foldl EpisodeTables.add {}).result

/-- Of the rows that state levels, the first ones with each numbers. -/
def firsts : List LedgerEvent → List LedgerEvent
  | [] => []
  | e :: rest => if e.isBracket then e :: (firsts rest).filter (fun r => !e.sameLevels r) else firsts rest

def LedgerEpisode.label (episode : LedgerEpisode) : Option EventKey := episode.events.head?.map LedgerEvent.label

/-- A row goes on with the life before it, unless it is an intent. -/
def continues (_ e : LedgerEvent) : Bool := !e.isIntent

/-- A ledger's events are divided into episodes, each with one state for every bracket. -/
structure Partition (events : List LedgerEvent) (states : List BracketState) (episodes : List (Nat × LedgerEpisode)) : Prop where
  ids : (episodes.map Prod.fst).Nodup
  named : ∀ p ∈ episodes, ∃ first, p.2.events.head? = some first ∧ p.2.id = p.1 ∧ p.1 = first.sourceLine
    ∧ p.2.intent = if first.isIntent then some first else none
  once : ∀ e ∈ events, ∃! p, p ∈ episodes ∧ e ∈ p.2.events
  label : ∀ p ∈ episodes, ∀ a ∈ p.2.events, ∀ b ∈ p.2.events, a.label = b.label
  order : ∀ p ∈ episodes, p.2.events.Sublist events
  intent : ∀ p ∈ episodes, ∀ e ∈ p.2.events.tail, e.isIntent = false
  cut : ∀ label, (episodes.filter fun p => p.2.label = some label).map (fun p => p.2.events)
    = (events.filter fun e => e.label = label).splitBy continues
  state : ∀ p ∈ episodes, (states.filter fun s => s.episode.id = p.1).map BracketState.first = firsts p.2.events
  owned : ∀ s ∈ states, (s.episode.id, s.episode) ∈ episodes
  found : ∀ p ∈ episodes, ∀ e ∈ p.2.events, e.isBracket = true → ∃ s ∈ states, s.episode = p.2 ∧ s.first.sameLevels e = true
  first : ∀ s ∈ states, s.first.isBracket = true ∧ ∃ before after, s.episode.events = before ++ s.first :: after
    ∧ ∀ e ∈ before, e.isBracket = true → e.sameLevels s.first = false
  distinct : ∀ p ∈ episodes, (states.filter fun s => s.episode.id = p.1).Pairwise fun a b => a.first.sameLevels b.first = false

def withState (states : List (BracketKey × LedgerEvent × Nat)) (row : LedgerEvent) (id i : Nat) : List (BracketKey × LedgerEvent × Nat) :=
  if !row.isBracket ∨ states.any (fun s => sameKey s.1 (row.bracket id)) then states else states ++ [(row.bracket id, row, i)]

def LedgerEvent.opening (row : LedgerEvent) : LedgerEpisode := ⟨row.sourceLine, if row.isIntent then some row else none, [row]⟩

def LedgerEpisode.with_ (episode : LedgerEpisode) (row : LedgerEvent) : LedgerEpisode :=
  { episode with events := episode.events ++ [row] }

namespace EpisodeTables

variable {t : EpisodeTables} {row : LedgerEvent} {label : EventKey}

/-- The active episode of a label is the last one made under it. -/
structure Linked (t : EpisodeTables) : Prop where
  found : ∀ label p, Rows.lookup Prod.fst label t.active = some p →
    ∃ before after, t.made.map LedgerEpisode.label = before ++ some label :: after ∧ before.length = p.2 ∧ some label ∉ after
  absent : ∀ label, Rows.lookup Prod.fst label t.active = none → some label ∉ t.made.map LedgerEpisode.label

theorem keep_at {before after : List LedgerEpisode} {episode : LedgerEpisode} (h : t.made = before ++ episode :: after) :
    t.keep row before.length = { t with states := withState t.states row episode.id before.length } := by
  have hat : t.made[before.length]? = some episode := by rw [h]; simp
  unfold keep withState
  rw [hat]
  by_cases hc : (!row.isBracket) = true ∨ t.states.any (fun s => sameKey s.1 (row.bracket episode.id)) = true
  · simp only [if_pos hc]
  · simp only [if_neg hc]

theorem append_at {before after : List LedgerEpisode} {episode : LedgerEpisode} (h : t.made = before ++ episode :: after) :
    t.append row before.length = { t with made := before ++ episode.with_ row :: after } := by
  have hmodify : t.made.modify before.length (fun x => { x with events := x.events ++ [row] }) = before ++ episode.with_ row :: after := by
    rw [h, List.modify_eq_take_drop]
    simp [LedgerEpisode.with_]
  unfold append
  rw [hmodify]

/-- A row joins the last episode of its label, or else it begins one. -/
theorem add_cases (h : t.Linked) (row : LedgerEvent) :
    (∃ before episode after, t.made = before ++ episode :: after ∧ episode.label = some row.label
      ∧ some row.label ∉ after.map LedgerEpisode.label ∧ row.isIntent = false
      ∧ t.add row = { t with made := before ++ episode.with_ row :: after
                             states := withState t.states row episode.id before.length })
    ∨ ((row.isIntent = true ∨ some row.label ∉ t.made.map LedgerEpisode.label)
      ∧ t.add row = { made := t.made ++ [row.opening]
                      episodes := Rows.setItem (row.sourceLine, t.made.length) t.episodes
                      active := Rows.setItem (row.label, t.made.length) t.active
                      states := withState t.states row row.sourceLine t.made.length }) := by
  have hstart : ((t.start row).append row t.made.length).keep row t.made.length
      = { made := t.made ++ [row.opening]
          episodes := Rows.setItem (row.sourceLine, t.made.length) t.episodes
          active := Rows.setItem (row.label, t.made.length) t.active
          states := withState t.states row row.sourceLine t.made.length } := by
    have happend := @append_at _ (t.start row) row t.made [] _ rfl
    have hkeep := @keep_at _ ((t.start row).append row t.made.length) row _ _ _ (congrArg made happend)
    rw [hkeep, happend]
    rfl
  unfold add place
  cases hl : Rows.lookup Prod.fst row.label t.active with
  | none => exact Or.inr ⟨Or.inr (h.absent _ hl), hstart⟩
  | some p =>
    by_cases hi : row.isIntent = true
    · simp only [if_pos hi]
      exact Or.inr ⟨Or.inl hi, hstart⟩
    · obtain ⟨befores, afters, hlabels, hlen, hafter⟩ := h.found _ _ hl
      obtain ⟨before, rest, hmade, rfl, hrest⟩ := List.map_eq_append_iff.mp hlabels
      obtain ⟨episode, after, rfl, hof, rfl⟩ := List.map_eq_cons_iff.mp hrest
      simp only [if_neg hi]
      refine Or.inl ⟨before, episode, after, hmade, hof, hafter, Bool.not_eq_true _ ▸ hi, ?_⟩
      have happend := @append_at _ t row _ _ _ hmade
      have hkeep := @keep_at _ (t.append row before.length) row _ _ _ (congrArg made happend)
      rw [← hlen, List.length_map, hkeep, happend]
      rfl

theorem Linked.add (h : t.Linked) (row : LedgerEvent) : (t.add row).Linked := by
  rcases add_cases h row with ⟨before, episode, after, hmade, hof, hafter, hi, he⟩ | ⟨-, he⟩
  · have hlabels : (t.add row).made.map LedgerEpisode.label = t.made.map LedgerEpisode.label := by
      have hwith : (episode.with_ row).label = episode.label := by
        cases hev : episode.events with
        | nil => simp [LedgerEpisode.label, hev] at hof
        | cons e rest => simp [LedgerEpisode.label, LedgerEpisode.with_, hev]
      rw [he, hmade]
      simp [hwith]
    have hactive : (t.add row).active = t.active := by rw [he]
    refine ⟨fun label p hl => ?_, fun label hl => ?_⟩
    · rw [hactive] at hl
      rw [hlabels]
      exact h.found label p hl
    · rw [hactive] at hl
      rw [hlabels]
      exact h.absent label hl
  · have hlabels : (t.add row).made.map LedgerEpisode.label = t.made.map LedgerEpisode.label ++ [some row.label] := by
      rw [he, List.map_append]
      rfl
    have hactive (label : EventKey) : Rows.lookup Prod.fst label (t.add row).active
        = if label = row.label then some (row.label, t.made.length) else Rows.lookup Prod.fst label t.active := by
      rw [he]
      exact Rows.lookup_put
    refine ⟨fun label p hl => ?_, fun label hl => ?_⟩
    · rw [hactive] at hl
      rw [hlabels]
      by_cases hlabel : label = row.label
      · rw [if_pos hlabel] at hl
        cases hl
        exact ⟨t.made.map LedgerEpisode.label, [], by rw [hlabel], List.length_map _, List.not_mem_nil⟩
      · rw [if_neg hlabel] at hl
        obtain ⟨before, after, hb, hlen, ha⟩ := h.found label p hl
        refine ⟨before, after ++ [some row.label], by simp [hb], hlen, ?_⟩
        simp [ha, hlabel]
    · rw [hactive] at hl
      rw [hlabels]
      by_cases hlabel : label = row.label
      · simp [hlabel] at hl
      · rw [if_neg hlabel] at hl
        simp [h.absent label hl, hlabel]

end EpisodeTables

section Segments

variable {events : List LedgerEvent} {e : LedgerEvent} {before : List (List LedgerEvent)} {last : List LedgerEvent}

theorem splitBy_opened (h : e.isIntent = true ∨ events = []) :
    (events ++ [e]).splitBy continues = events.splitBy continues ++ [[e]] := by
  rcases h with hi | rfl
  · exact List.splitBy_append_cons [] fun x _ => by simp [continues, hi]
  · rfl

theorem splitBy_joined (h : events.splitBy continues = before ++ [last]) (hi : e.isIntent = false) :
    (events ++ [e]).splitBy continues = before ++ [last ++ [e]] := by
  obtain ⟨hflat, hnil, hchain, hcut⟩ := List.splitBy_eq_iff.mp h
  have hlast : last ≠ [] := fun he => hnil (by simp [he])
  refine List.splitBy_eq_iff.mpr ⟨?_, ?_, ?_, ?_⟩
  · rw [hflat]
    simp
  · simp only [List.mem_append, List.mem_singleton, not_or] at hnil ⊢
    exact ⟨hnil.1, by simp⟩
  · intro m hm
    rcases List.mem_append.mp hm with hm | hm
    · exact hchain m (List.mem_append_left _ hm)
    · rw [List.mem_singleton.mp hm, List.isChain_append]
      refine ⟨hchain last (by simp), List.isChain_singleton e, fun x _ y hy => ?_⟩
      have hy : e = y := by simpa using hy
      simp [continues, ← hy, hi]
  · rw [List.isChain_append] at hcut ⊢
    refine ⟨hcut.1, List.isChain_singleton _, fun x hx y hy => ?_⟩
    have hy : last ++ [e] = y := by simpa using hy
    obtain ⟨hne, hne', hf⟩ := hcut.2.2 x hx last (by simp)
    subst hy
    refine ⟨hne, by simp, ?_⟩
    rw [List.head_append_of_ne_nil hne']
    exact hf

end Segments

section Brackets

variable {a b c : LedgerEvent} {events : List LedgerEvent}

theorem LedgerEvent.sameLevels_iff : a.sameLevels b = true
    ↔ a.entry.toRat = b.entry.toRat ∧ a.sl.toRat = b.sl.toRat ∧ a.tp.toRat = b.tp.toRat := by
  simp only [sameLevels, Bool.and_eq_true, Decimal.same_iff, and_assoc]

theorem LedgerEvent.sameLevels_trans (h : a.sameLevels b = true) : a.sameLevels c = b.sameLevels c := by
  rw [Bool.eq_iff_iff, sameLevels_iff, sameLevels_iff]
  obtain ⟨he, hs, ht⟩ := sameLevels_iff.mp h
  rw [he, hs, ht]

theorem LedgerEvent.sameLevels_symm : a.sameLevels b = b.sameLevels a := by
  rw [Bool.eq_iff_iff, sameLevels_iff, sameLevels_iff]
  simp only [eq_comm]

theorem firsts_append (events : List LedgerEvent) (e : LedgerEvent) : firsts (events ++ [e])
    = firsts events ++ if e.isBracket && !(firsts events).any (·.sameLevels e) then [e] else [] := by
  induction events with
  | nil => by_cases he : e.isBracket = true <;> simp [firsts, he]
  | cons a events ih =>
    by_cases ha : a.isBracket = true
    · rw [List.cons_append, firsts, firsts, if_pos ha, if_pos ha, ih, List.filter_append, List.cons_append]
      congr 2
      by_cases hae : a.sameLevels e = true
      · simp [apply_ite, hae]
      · have hany : ((firsts events).filter fun r => !a.sameLevels r).any (·.sameLevels e) = (firsts events).any (·.sameLevels e) := by
          rw [Bool.eq_iff_iff]
          simp only [List.any_eq_true, List.mem_filter, Bool.not_eq_true']
          refine exists_congr fun x => and_congr_left fun hx => and_iff_left_of_imp fun _ => ?_
          rw [LedgerEvent.sameLevels_symm, LedgerEvent.sameLevels_trans hx, LedgerEvent.sameLevels_symm]
          simpa using hae
        rw [Bool.not_eq_true] at hae
        rw [List.any_cons, hae, Bool.false_or, hany]
        split <;> simp [hae]
    · rw [List.cons_append, firsts, firsts, if_neg ha, if_neg ha, ih]

theorem mem_firsts (h : a ∈ firsts events) : a.isBracket = true ∧ ∃ before after, events = before ++ a :: after
    ∧ ∀ e ∈ before, e.isBracket = true → e.sameLevels a = false := by
  induction events with
  | nil => cases h
  | cons e events ih =>
    by_cases he : e.isBracket = true
    · rw [firsts, if_pos he] at h
      rcases List.mem_cons.mp h with rfl | h
      · exact ⟨he, [], events, rfl, fun x hx => absurd hx List.not_mem_nil⟩
      · rw [List.mem_filter] at h
        obtain ⟨hb, before, after, hevents, hbefore⟩ := ih h.1
        refine ⟨hb, e :: before, after, congrArg (e :: ·) hevents, fun x hx hxb => ?_⟩
        rcases List.mem_cons.mp hx with rfl | hx
        · simpa using h.2
        · exact hbefore x hx hxb
    · rw [firsts, if_neg he] at h
      obtain ⟨hb, before, after, hevents, hbefore⟩ := ih h
      refine ⟨hb, e :: before, after, congrArg (e :: ·) hevents, fun x hx hxb => ?_⟩
      rcases List.mem_cons.mp hx with rfl | hx
      · exact absurd hxb he
      · exact hbefore x hx hxb

theorem exists_firsts (he : b ∈ events) (hb : b.isBracket = true) : ∃ a ∈ firsts events, a.sameLevels b = true := by
  induction events with
  | nil => cases he
  | cons e events ih =>
    by_cases hbracket : e.isBracket = true
    · rw [firsts, if_pos hbracket]
      by_cases hsame : e.sameLevels b = true
      · exact ⟨e, List.mem_cons_self, hsame⟩
      · rcases List.mem_cons.mp he with rfl | he
        · exact absurd (LedgerEvent.sameLevels_iff.mpr ⟨rfl, rfl, rfl⟩) hsame
        · obtain ⟨a, ha, hab⟩ := ih he
          refine ⟨a, List.mem_cons_of_mem e (List.mem_filter.mpr ⟨ha, ?_⟩), hab⟩
          have hae : e.sameLevels a = e.sameLevels b := by
            rw [LedgerEvent.sameLevels_symm, LedgerEvent.sameLevels_trans hab, LedgerEvent.sameLevels_symm]
          simpa [hae] using hsame
    · rw [firsts, if_neg hbracket]
      rcases List.mem_cons.mp he with rfl | he
      · exact absurd hb hbracket
      · exact ih he

theorem firsts_pairwise (events : List LedgerEvent) : (firsts events).Pairwise fun a b => a.sameLevels b = false := by
  induction events with
  | nil => exact List.Pairwise.nil
  | cons e events ih =>
    by_cases he : e.isBracket = true
    · rw [firsts, if_pos he]
      exact List.pairwise_cons.mpr ⟨fun x hx => by simpa using (List.mem_filter.mp hx).2, ih.filter _⟩
    · rw [firsts, if_neg he]
      exact ih

end Brackets

section States

variable {states : List (BracketKey × LedgerEvent × Nat)} {row : LedgerEvent} {id i : Nat}

def firstsAt (states : List (BracketKey × LedgerEvent × Nat)) (i : Nat) : List LedgerEvent :=
  (states.filter fun s => s.2.2 = i).map fun s => s.2.1

theorem sameKey_bracket (a b : LedgerEvent) (m n : Nat) : sameKey (a.bracket m) (b.bracket n) = (decide (m = n) && a.sameLevels b) := by
  simp only [sameKey, LedgerEvent.bracket, LedgerEvent.sameLevels, Bool.and_assoc]
  rfl

theorem any_sameKey (h : ∀ s ∈ states, ∃ n, s.1 = s.2.1.bracket n ∧ (n = id ↔ s.2.2 = i)) (row : LedgerEvent) :
    states.any (fun s => sameKey s.1 (row.bracket id)) = (firstsAt states i).any (·.sameLevels row) := by
  have hkey (s : BracketKey × LedgerEvent × Nat) (hs : s ∈ states) :
      sameKey s.1 (row.bracket id) = true ↔ s.2.2 = i ∧ s.2.1.sameLevels row = true := by
    obtain ⟨n, hkey, hn⟩ := h s hs
    rw [hkey, sameKey_bracket, Bool.and_eq_true, decide_eq_true_eq, hn]
  rw [Bool.eq_iff_iff]
  simp only [firstsAt, List.any_eq_true, List.mem_map, List.mem_filter, decide_eq_true_eq]
  constructor
  · rintro ⟨s, hs, hsame⟩
    obtain ⟨hi, hl⟩ := (hkey s hs).mp hsame
    exact ⟨s.2.1, ⟨s, ⟨hs, hi⟩, rfl⟩, hl⟩
  · rintro ⟨_, ⟨s, ⟨hs, hi⟩, rfl⟩, hl⟩
    exact ⟨s, hs, (hkey s hs).mpr ⟨hi, hl⟩⟩

theorem firstsAt_withState (h : ∀ s ∈ states, ∃ n, s.1 = s.2.1.bracket n ∧ (n = id ↔ s.2.2 = i)) (row : LedgerEvent) :
    firstsAt (withState states row id i) i = firstsAt states i
      ++ if row.isBracket && !(firstsAt states i).any (·.sameLevels row) then [row] else [] := by
  unfold withState
  rw [any_sameKey h]
  by_cases hc : (!row.isBracket) = true ∨ (firstsAt states i).any (·.sameLevels row) = true
  · have hno : (row.isBracket && !(firstsAt states i).any (·.sameLevels row)) = false := by
      rcases hc with hc | hc
      · rw [Bool.not_eq_true'] at hc
        rw [hc, Bool.false_and]
      · rw [hc, Bool.not_true, Bool.and_false]
    rw [if_pos hc, hno, if_neg Bool.false_ne_true, List.append_nil]
  · have hyes : (row.isBracket && !(firstsAt states i).any (·.sameLevels row)) = true := by
      rw [not_or, Bool.not_eq_true, Bool.not_eq_false', Bool.not_eq_true] at hc
      rw [hc.1, hc.2]
      rfl
    rw [if_neg hc, if_pos hyes]
    simp [firstsAt]

theorem firstsAt_other {j : Nat} (h : j ≠ i) : firstsAt (withState states row id i) j = firstsAt states j := by
  unfold withState
  split
  · rfl
  · simp [firstsAt, Ne.symm h]

theorem mem_withState {s : BracketKey × LedgerEvent × Nat} (h : s ∈ withState states row id i) :
    s ∈ states ∨ s = (row.bracket id, row, i) := by
  unfold withState at h
  split at h
  · exact Or.inl h
  · simpa using h

end States

structure FiledEvents (events : List LedgerEvent) (t : EpisodeTables) : Prop where
  linked : t.Linked
  named : ∀ x ∈ t.made, ∃ first rest, x.events = first :: rest ∧ first ∈ events ∧ x.id = first.sourceLine
    ∧ x.intent = if first.isIntent then some first else none
  ids : (t.made.map LedgerEpisode.id).Nodup
  index : t.episodes = (t.made.map LedgerEpisode.id).zipIdx
  column : ∀ label, (t.made.filter fun x => x.label = some label).map LedgerEpisode.events
    = (events.filter fun e => e.label = label).splitBy continues
  firsts : ∀ i x, t.made[i]? = some x → firstsAt t.states i = firsts x.events
  keyed : ∀ s ∈ t.states, ∃ x, t.made[s.2.2]? = some x ∧ s.1 = s.2.1.bracket x.id

namespace FiledEvents

variable {events : List LedgerEvent} {t : EpisodeTables} {row : LedgerEvent}

theorem start : FiledEvents [] {} where
  linked := ⟨fun _ _ h => absurd h nofun, fun _ _ => List.not_mem_nil⟩
  named _ h := absurd h List.not_mem_nil
  ids := List.nodup_nil
  index := rfl
  column _ := rfl
  firsts _ _ h := absurd h nofun
  keyed _ h := absurd h List.not_mem_nil

theorem fresh (h : FiledEvents events t) (hline : row.sourceLine ∉ events.map LedgerEvent.sourceLine) :
    row.sourceLine ∉ t.made.map LedgerEpisode.id := by
  intro hm
  obtain ⟨x, hx, he⟩ := List.mem_map.mp hm
  obtain ⟨first, _, _, hfirst, hid, _⟩ := h.named x hx
  exact hline (List.mem_map.mpr ⟨first, hfirst, hid.symm.trans he⟩)

/-- The episode with an id is the one that was made at its place. -/
theorem keyed_at (h : FiledEvents events t) {i : Nat} {x : LedgerEpisode} (hx : t.made[i]? = some x) :
    ∀ s ∈ t.states, ∃ n, s.1 = s.2.1.bracket n ∧ (n = x.id ↔ s.2.2 = i) := by
  intro s hs
  obtain ⟨y, hy, hkey⟩ := h.keyed s hs
  refine ⟨y.id, hkey, fun he => ?_, fun he => ?_⟩
  · obtain ⟨hi, rfl⟩ := List.getElem?_eq_some_iff.mp hx
    obtain ⟨hj, rfl⟩ := List.getElem?_eq_some_iff.mp hy
    exact (@List.Nodup.getElem_inj_iff _ _ h.ids _ (by simpa using hj) _ (by simpa using hi)).mp (by simpa using he)
  · rw [he, hx] at hy
    rw [Option.some.inj hy]

omit [Host] in
theorem getElem?_replaced {α : Type} (before after : List α) (a b : α) (i : Nat) :
    (before ++ b :: after)[i]? = if i = before.length then some b else (before ++ a :: after)[i]? := by
  rcases lt_trichotomy i before.length with hi | rfl | hi
  · rw [if_neg hi.ne, List.getElem?_append_left hi, List.getElem?_append_left hi]
  · simp
  · obtain ⟨k, rfl⟩ := Nat.exists_eq_add_of_lt hi
    rw [if_neg hi.ne', List.getElem?_append_right hi.le, List.getElem?_append_right hi.le]
    have hk : before.length + k + 1 - before.length = k + 1 := by omega
    rw [hk, List.getElem?_cons_succ, List.getElem?_cons_succ]

theorem joined {before after : List LedgerEpisode} {episode : LedgerEpisode} (h : FiledEvents events t) (hlinked : (t.add row).Linked)
    (hmade : t.made = before ++ episode :: after) (hof : episode.label = some row.label)
    (hafter : some row.label ∉ after.map LedgerEpisode.label) (hi : row.isIntent = false)
    (he : t.add row = { t with made := before ++ episode.with_ row :: after
                               states := withState t.states row episode.id before.length }) :
    FiledEvents (events ++ [row]) (t.add row) := by
  have hat : t.made[before.length]? = some episode := by rw [hmade]; simp
  have hreplaced (i : Nat) : (t.add row).made[i]? = if i = before.length then some (episode.with_ row) else t.made[i]? := by
    rw [he, hmade]
    exact getElem?_replaced before after episode _ i
  have hids : (t.add row).made.map LedgerEpisode.id = t.made.map LedgerEpisode.id := by
    rw [he, hmade, List.map_append, List.map_append]
    rfl
  have hstates : (t.add row).states = withState t.states row episode.id before.length := by rw [he]
  obtain ⟨first, rest, hevents, hfirst, hid, hintent⟩ := h.named episode (hmade ▸ by simp)
  have hwith : (episode.with_ row).label = some row.label := by
    rw [← hof]
    simp [LedgerEpisode.label, LedgerEpisode.with_, hevents]
  refine ⟨hlinked, fun x hx => ?_, hids ▸ h.ids, ?_, fun label => ?_, fun i x hx => ?_, fun s hs => ?_⟩
  · rw [he] at hx
    have hcases : x ∈ t.made ∨ x = episode.with_ row := by
      simp only [List.mem_append, List.mem_cons] at hx
      simp only [hmade, List.mem_append, List.mem_cons]
      tauto
    rcases hcases with hx | rfl
    · obtain ⟨f, r, hev, hf, hrest⟩ := h.named x hx
      exact ⟨f, r, hev, List.mem_append_left _ hf, hrest⟩
    · exact ⟨first, rest ++ [row], by simp [LedgerEpisode.with_, hevents], List.mem_append_left _ hfirst, hid, hintent⟩
  · rw [hids, ← h.index, he]
  · have hcolumn := h.column label
    rw [hmade, List.filter_append, List.filter_cons, hof] at hcolumn
    rw [he, List.filter_append, List.filter_append, List.filter_cons, hwith]
    by_cases hl : some row.label = some label
    · have hnone : after.filter (fun x => x.label = some label) = [] :=
        List.filter_eq_nil_iff.mpr fun x hx hxl => hafter (List.mem_map.mpr ⟨x, hx, (of_decide_eq_true hxl).trans hl.symm⟩)
      rw [if_pos (decide_eq_true hl), hnone, List.map_append] at hcolumn
      rw [if_pos (decide_eq_true hl), hnone, List.map_append, List.filter_singleton, decide_eq_true (Option.some.inj hl)]
      exact (splitBy_joined hcolumn.symm hi).symm
    · have hne : decide (some row.label = some label) = false := decide_eq_false hl
      have hskip : decide (row.label = label) = false := decide_eq_false fun e => hl (congrArg some e)
      rw [hne, if_neg Bool.false_ne_true] at hcolumn
      rw [hne, if_neg Bool.false_ne_true, List.filter_singleton, hskip, hcolumn]
      simp
  · rw [hreplaced] at hx
    rw [hstates]
    by_cases hlast : i = before.length
    · rw [if_pos hlast] at hx
      subst hlast
      cases hx
      rw [firstsAt_withState (h.keyed_at hat), h.firsts _ _ hat]
      exact (firsts_append episode.events row).symm
    · rw [if_neg hlast] at hx
      rw [firstsAt_other hlast]
      exact h.firsts i x hx
  · rw [hstates] at hs
    rcases mem_withState hs with hs | rfl
    · obtain ⟨x, hx, hkey⟩ := h.keyed s hs
      by_cases hlast : s.2.2 = before.length
      · rw [hlast, hat] at hx
        cases hx
        exact ⟨episode.with_ row, by rw [hreplaced, if_pos hlast], hkey⟩
      · exact ⟨x, by rw [hreplaced, if_neg hlast, hx], hkey⟩
    · exact ⟨episode.with_ row, by rw [hreplaced, if_pos rfl], rfl⟩

theorem opened (h : FiledEvents events t) (hlinked : (t.add row).Linked) (hline : row.sourceLine ∉ events.map LedgerEvent.sourceLine)
    (hnew : row.isIntent = true ∨ some row.label ∉ t.made.map LedgerEpisode.label)
    (he : t.add row = { made := t.made ++ [row.opening]
                        episodes := Rows.setItem (row.sourceLine, t.made.length) t.episodes
                        active := Rows.setItem (row.label, t.made.length) t.active
                        states := withState t.states row row.sourceLine t.made.length }) :
    FiledEvents (events ++ [row]) (t.add row) := by
  have hfresh := h.fresh hline
  have hids : (t.add row).made.map LedgerEpisode.id = t.made.map LedgerEpisode.id ++ [row.sourceLine] := by
    rw [he, List.map_append]
    rfl
  have hstates : (t.add row).states = withState t.states row row.sourceLine t.made.length := by rw [he]
  have hkey : ∀ s ∈ t.states, ∃ n, s.1 = s.2.1.bracket n ∧ (n = row.sourceLine ↔ s.2.2 = t.made.length) := by
    intro s hs
    obtain ⟨x, hx, hkey⟩ := h.keyed s hs
    obtain ⟨hlt, rfl⟩ := List.getElem?_eq_some_iff.mp hx
    refine ⟨_, hkey, fun hn => ?_, fun hn => absurd hn hlt.ne⟩
    exact absurd (hn ▸ List.mem_map_of_mem (List.getElem_mem hlt)) hfresh
  have hempty : firstsAt t.states t.made.length = [] := by
    rw [firstsAt, List.map_eq_nil_iff, List.filter_eq_nil_iff]
    intro s hs hlast
    obtain ⟨x, hx, -⟩ := h.keyed s hs
    rw [of_decide_eq_true hlast] at hx
    simp at hx
  refine ⟨hlinked, fun x hx => ?_, ?_, ?_, fun label => ?_, fun i x hx => ?_, fun s hs => ?_⟩
  · rw [he] at hx
    rcases List.mem_append.mp hx with hx | hx
    · obtain ⟨f, r, hev, hf, hrest⟩ := h.named x hx
      exact ⟨f, r, hev, List.mem_append_left _ hf, hrest⟩
    · rw [List.mem_singleton.mp hx]
      exact ⟨row, [], rfl, by simp, rfl, rfl⟩
  · rw [hids, List.nodup_append]
    refine ⟨h.ids, List.nodup_singleton _, fun a ha b hb hab => ?_⟩
    rw [List.mem_singleton.mp hb] at hab
    exact hfresh (hab ▸ ha)
  · have hnone : Rows.has Prod.fst row.sourceLine t.episodes = false := by
      rw [Rows.has_eq_false_iff, h.index]
      intro p hp hkey
      exact hfresh (hkey ▸ List.fst_mem_of_mem_zipIdx hp)
    have hput : Rows.setItem (row.sourceLine, t.made.length) t.episodes = t.episodes ++ [(row.sourceLine, t.made.length)] :=
      if_neg (by rw [hnone]; exact Bool.false_ne_true)
    rw [hids, List.zipIdx_append, ← h.index, he, hput, List.length_map, Nat.zero_add]
    rfl
  · have hcolumn := h.column label
    have hopening : row.opening.label = some row.label := rfl
    rw [he, List.filter_append, List.filter_append, List.map_append, hcolumn, List.filter_singleton, List.filter_singleton, hopening]
    by_cases hl : row.label = label
    · have hbegins : row.isIntent = true ∨ (events.filter fun e => e.label = label) = [] := by
        refine hnew.imp_right fun hno => ?_
        have hnone : t.made.filter (fun x => x.label = some label) = [] :=
          List.filter_eq_nil_iff.mpr fun x hx hxl => hno (List.mem_map.mpr ⟨x, hx, hl ▸ of_decide_eq_true hxl⟩)
        rw [hnone] at hcolumn
        exact List.splitBy_eq_nil.mp hcolumn.symm
      rw [decide_eq_true (congrArg some hl), decide_eq_true hl]
      exact (splitBy_opened hbegins).symm
    · have hskip : decide (some row.label = some label) = false := decide_eq_false fun e => hl (Option.some.inj e)
      rw [hskip, decide_eq_false hl]
      simp
  · rw [he] at hx
    rw [hstates]
    rcases Nat.lt_or_ge i t.made.length with hlt | hge
    · rw [List.getElem?_append_left hlt] at hx
      rw [firstsAt_other hlt.ne]
      exact h.firsts i x hx
    · obtain ⟨hi, rfl⟩ : i = t.made.length ∧ row.opening = x := by
        rw [List.getElem?_append_right hge] at hx
        obtain ⟨hzero, hx⟩ := List.getElem?_eq_some_iff.mp hx
        have hzero : i - t.made.length = 0 := by simpa using hzero
        exact ⟨by omega, by simpa [hzero] using hx⟩
      rw [hi, firstsAt_withState hkey, hempty]
      by_cases hb : row.isBracket = true <;> simp [LedgerEvent.opening, MatchTrader.firsts, hb]
  · rw [hstates] at hs
    rcases mem_withState hs with hs | rfl
    · obtain ⟨x, hx, hkey⟩ := h.keyed s hs
      obtain ⟨hlt, -⟩ := List.getElem?_eq_some_iff.mp hx
      exact ⟨x, by rw [he, List.getElem?_append_left hlt, hx], hkey⟩
    · exact ⟨row.opening, by rw [he]; simp, rfl⟩

theorem foldl (hn : (events.map LedgerEvent.sourceLine).Nodup) : FiledEvents events (events.foldl EpisodeTables.add {}) := by
  induction events using List.reverseRecOn with
  | nil => exact start
  | append_singleton events row ih =>
    rw [List.map_append, List.nodup_append] at hn
    have hf := ih hn.1
    have hline : row.sourceLine ∉ events.map LedgerEvent.sourceLine := fun hm =>
      hn.2.2 row.sourceLine hm row.sourceLine (by simp) rfl
    rw [List.foldl_append]
    rcases EpisodeTables.add_cases hf.linked row with ⟨before, episode, after, hmade, hof, hafter, hi, he⟩ | ⟨hnew, he⟩
    · exact hf.joined (hf.linked.add row) hmade hof hafter hi he
    · exact hf.opened (hf.linked.add row) hline hnew he

theorem label_of_mem (h : FiledEvents events t) {x : LedgerEpisode} (hx : x ∈ t.made) {e : LedgerEvent} (he : e ∈ x.events) :
    x.label = some e.label := by
  obtain ⟨first, rest, hevents, -⟩ := h.named x hx
  have hlabel : x.label = some first.label := by simp [LedgerEpisode.label, hevents]
  have hcolumn : x.events ∈ (events.filter fun e => e.label = first.label).splitBy continues := by
    rw [← h.column]
    exact List.mem_map_of_mem (List.mem_filter.mpr ⟨hx, decide_eq_true hlabel⟩)
  have hmem := (List.sublist_flatten_of_mem hcolumn).subset he
  rw [List.flatten_splitBy, List.mem_filter] at hmem
  rw [hlabel, of_decide_eq_true hmem.2]

theorem mem_column (h : FiledEvents events t) {x : LedgerEpisode} (hx : x ∈ t.made) {e : LedgerEvent} (he : e ∈ x.events) :
    x ∈ t.made.filter fun x => x.label = some e.label :=
  List.mem_filter.mpr ⟨hx, decide_eq_true (h.label_of_mem hx he)⟩

theorem sublist (h : FiledEvents events t) {x : LedgerEpisode} (hx : x ∈ t.made) : x.events.Sublist events := by
  obtain ⟨first, rest, hevents, -⟩ := h.named x hx
  have hcolumn := List.mem_map_of_mem (f := LedgerEpisode.events) (h.mem_column hx (e := first) (by simp [hevents]))
  rw [h.column] at hcolumn
  have hsub := List.sublist_flatten_of_mem hcolumn
  rw [List.flatten_splitBy] at hsub
  exact hsub.trans List.filter_sublist

theorem tail_not_intent (h : FiledEvents events t) {x : LedgerEpisode} (hx : x ∈ t.made) : ∀ e ∈ x.events.tail, e.isIntent = false := by
  obtain ⟨first, rest, hevents, -⟩ := h.named x hx
  have hcolumn := List.mem_map_of_mem (f := LedgerEpisode.events) (h.mem_column hx (e := first) (by simp [hevents]))
  rw [h.column] at hcolumn
  have hchain := List.isChain_of_mem_splitBy hcolumn
  rw [hevents] at hchain ⊢
  intro e he
  obtain ⟨i, hi, rfl⟩ := List.getElem_of_mem he
  have hstep := List.isChain_iff_getElem.mp hchain i (by simpa using hi)
  simpa [continues] using hstep

theorem unique (h : FiledEvents events t) (hn : events.Nodup) {x y : LedgerEpisode} (hx : x ∈ t.made) (hy : y ∈ t.made) {e : LedgerEvent}
    (hex : e ∈ x.events) (hey : e ∈ y.events) : x = y := by
  by_contra hne
  have hflat : ((t.made.filter fun x => x.label = some e.label).map LedgerEpisode.events).flatten.Nodup := by
    rw [h.column, List.flatten_splitBy]
    exact hn.filter _
  have hdisjoint := List.pairwise_map.mp (List.nodup_flatten.mp hflat).2
  have hsymm : Std.Symm fun x y : LedgerEpisode => List.Disjoint x.events y.events := ⟨fun _ _ hd => hd.symm⟩
  exact hdisjoint.forall (h.mem_column hx hex) (h.mem_column hy hey) hne hex hey

theorem exists_episode (h : FiledEvents events t) {e : LedgerEvent} (he : e ∈ events) : ∃ x ∈ t.made, e ∈ x.events := by
  have hmem : e ∈ ((events.filter fun x => x.label = e.label).splitBy continues).flatten := by
    rw [List.flatten_splitBy]
    exact List.mem_filter.mpr ⟨he, decide_eq_true rfl⟩
  rw [← h.column] at hmem
  obtain ⟨l, hl, hel⟩ := List.mem_flatten.mp hmem
  obtain ⟨x, hx, rfl⟩ := List.mem_map.mp hl
  exact ⟨x, (List.mem_filter.mp hx).1, hel⟩

theorem episodes_eq (h : FiledEvents events t) : t.result.2 = t.made.map fun x => (x.id, x) := by
  have hat : ∀ p ∈ t.made.zipIdx, (t.made[p.2]?.map fun x => (p.1.id, x)) = some (p.1.id, p.1) := fun p hp => by
    rw [List.mem_zipIdx_iff_getElem?.mp hp]
    rfl
  rw [EpisodeTables.result, h.index, List.zipIdx_map, List.filterMap_map]
  refine (List.filterMap_congr hat).trans ?_
  have hfst : t.made.zipIdx.map (fun p => (p.1.id, p.1)) = (t.made.zipIdx.map Prod.fst).map fun x => (x.id, x) := by
    rw [List.map_map]
    rfl
  rw [List.zipIdx_map_fst] at hfst
  rw [← hfst]
  exact congrFun List.filterMap_eq_map' _

theorem states_eq (h : FiledEvents events t) {i : Nat} {x : LedgerEpisode} (hx : t.made[i]? = some x) :
    (t.result.1.filter fun s => s.episode.id = x.id).map BracketState.first = MatchTrader.firsts x.events := by
  rw [EpisodeTables.result, ← h.firsts i x hx, firstsAt, List.filter_filterMap, List.map_filterMap, ← List.filterMap_eq_map', List.filterMap_filter]
  refine List.filterMap_congr fun s hs => ?_
  obtain ⟨y, hy, hkey⟩ := h.keyed s hs
  obtain ⟨n, hn, hiff⟩ := h.keyed_at hx s hs
  have hid : y.id = n := congrArg Prod.fst (hkey.symm.trans hn)
  rw [hy]
  by_cases hs : s.2.2 = i
  · simp [Option.filter, hid, hiff.mpr hs, hs]
  · simp [Option.filter, hid, mt hiff.mp hs, hs]

/-- A state is of an episode, and has a first row with its numbers. -/
theorem mem_states (h : FiledEvents events t) {s : BracketState} (hs : s ∈ t.result.1) :
    s.episode ∈ t.made ∧ s.first ∈ MatchTrader.firsts s.episode.events := by
  obtain ⟨r, hr, hmap⟩ := List.mem_filterMap.mp hs
  obtain ⟨x, hx, rfl⟩ := Option.map_eq_some_iff.mp hmap
  refine ⟨List.mem_of_getElem? hx, ?_⟩
  rw [← h.firsts _ _ hx]
  exact List.mem_map.mpr ⟨r, List.mem_filter.mpr ⟨hr, decide_eq_true rfl⟩, rfl⟩

theorem partition (h : FiledEvents events t) (hn : events.Nodup) : Partition events t.result.1 t.result.2 := by
  rw [h.episodes_eq]
  have hmem {p : Nat × LedgerEpisode} (hp : p ∈ t.made.map fun x => (x.id, x)) : p.2 ∈ t.made ∧ p.1 = p.2.id := by
    obtain ⟨x, hx, rfl⟩ := List.mem_map.mp hp
    exact ⟨hx, rfl⟩
  have hstates {p : Nat × LedgerEpisode} (hp : p ∈ t.made.map fun x => (x.id, x)) :
      (t.result.1.filter fun s => s.episode.id = p.1).map BracketState.first = MatchTrader.firsts p.2.events := by
    obtain ⟨i, hi⟩ := List.mem_iff_getElem?.mp (hmem hp).1
    rw [(hmem hp).2]
    exact h.states_eq hi
  refine ⟨?_, fun p hp => ?_, fun e he => ?_, fun p hp a ha b hb => ?_, fun p hp => ?_, fun p hp => ?_, fun label => ?_,
    fun p hp => hstates hp, fun s hs => ?_, fun p hp e he hb => ?_, fun s hs => ?_, fun p hp => ?_⟩
  · rw [List.map_map]
    exact h.ids
  · obtain ⟨first, rest, hevents, -, hid, hintent⟩ := h.named p.2 (hmem hp).1
    exact ⟨first, by rw [hevents]; rfl, (hmem hp).2.symm, (hmem hp).2.trans hid, hintent⟩
  · obtain ⟨x, hx, hex⟩ := h.exists_episode he
    refine ⟨(x.id, x), ⟨List.mem_map_of_mem hx, hex⟩, fun p hp => ?_⟩
    have hsame : p.2 = x := h.unique hn (hmem hp.1).1 hx hp.2 hex
    exact Prod.ext ((hmem hp.1).2.trans (congrArg LedgerEpisode.id hsame)) hsame
  · have hlabels := (h.label_of_mem (hmem hp).1 ha).symm.trans (h.label_of_mem (hmem hp).1 hb)
    exact Option.some.inj hlabels
  · exact h.sublist (hmem hp).1
  · exact h.tail_not_intent (hmem hp).1
  · rw [List.filter_map, List.map_map, ← h.column]
    rfl
  · exact List.mem_map_of_mem (h.mem_states hs).1
  · obtain ⟨a, ha, hsame⟩ := exists_firsts he hb
    rw [← hstates hp] at ha
    obtain ⟨s, hs, rfl⟩ := List.mem_map.mp ha
    rw [List.mem_filter, decide_eq_true_eq] at hs
    refine ⟨s, hs.1, ?_, hsame⟩
    refine List.inj_on_of_nodup_map h.ids (h.mem_states hs.1).1 (hmem hp).1 ?_
    exact hs.2.trans (hmem hp).2
  · exact mem_firsts (h.mem_states hs).2
  · have hpairwise := firsts_pairwise p.2.events
    rw [← hstates hp] at hpairwise
    exact List.pairwise_map.mp hpairwise

end FiledEvents

/-- The events of a ledger are partitioned: by labels, and at the intents of a label. -/
theorem ledger_partitioned {events : List LedgerEvent} (hn : (events.map LedgerEvent.sourceLine).Nodup) :
    Partition events (statesFromEvents events).1 (statesFromEvents events).2 :=
  (FiledEvents.foldl hn).partition (hn.of_map _)

section Loaded

variable [LogHost] {row : Controller.LedgerRow} {line : Nat} {e : LedgerEvent}

theorem load_line (h : row.load line = .ok (some e)) : e.sourceLine = line := by
  obtain ⟨time, -, h⟩ := bind_eq_ok.mp h
  cases time with
  | none => cases h
  | some time =>
    obtain ⟨entry, -, h⟩ := bind_eq_ok.mp h
    cases entry with
    | none => cases h
    | some entry =>
      obtain ⟨sl, -, h⟩ := bind_eq_ok.mp h
      cases sl with
      | none => cases h
      | some sl =>
        obtain ⟨tp, -, h⟩ := bind_eq_ok.mp h
        cases tp with
        | none => cases h
        | some tp =>
          cases h
          rfl

theorem read_lines {records : List (Controller.LedgerRow × Nat)} {read : List (Nat × Option LedgerEvent)}
    (h : records.mapM LedgerEvent.read = .ok read) :
    read.map Prod.fst = records.map Prod.snd ∧ ∀ p ∈ read, ∀ e, p.2 = some e → e.sourceLine = p.1 := by
  induction records generalizing read with
  | nil =>
    cases h
    exact ⟨rfl, fun p hp => absurd hp List.not_mem_nil⟩
  | cons r records ih =>
    rw [List.mapM_cons, bind_eq_ok] at h
    obtain ⟨p, hp, h⟩ := h
    obtain ⟨rest, hrest, h⟩ := bind_eq_ok.mp h
    obtain ⟨loaded, hloaded, hp⟩ := bind_eq_ok.mp hp
    cases h
    cases hp
    obtain ⟨hlines, hevents⟩ := ih hrest
    refine ⟨by rw [List.map_cons, List.map_cons, hlines], fun q hq e he => ?_⟩
    rcases List.mem_cons.mp hq with rfl | hq
    · exact load_line (hloaded.trans (congrArg Except.ok he))
    · exact hevents q hq e he

/-- The rows of a file are counted, so a loaded ledger is partitioned. -/
theorem loaded_partitioned {records : List Controller.LedgerRow} {end_ : ZonedTime} {events : List LedgerEvent} {invalid : List Nat}
    (h : loadLedger records end_ = .ok (events, invalid)) :
    Partition events (statesFromEvents events).1 (statesFromEvents events).2 := by
  obtain ⟨read, hread, h⟩ := bind_eq_ok.mp h
  cases h
  obtain ⟨hlines, hevents⟩ := read_lines hread
  have hnodup : (read.map Prod.fst).Nodup := by
    rw [hlines, List.zipIdx_map_snd]
    exact List.nodup_range'
  have hline : ∀ l : List (Nat × Option LedgerEvent), (∀ p ∈ l, ∀ e, p.2 = some e → e.sourceLine = p.1) →
      ((l.filterMap Prod.snd).map LedgerEvent.sourceLine).Sublist (l.map Prod.fst) := by
    intro l
    induction l with
    | nil => exact fun _ => List.Sublist.slnil
    | cons p l ih =>
      intro hl
      have hrest := ih fun q hq => hl q (List.mem_cons_of_mem p hq)
      cases hp : p.2 with
      | none =>
        rw [List.filterMap_cons_none hp]
        exact hrest.cons p.1
      | some e =>
        rw [List.filterMap_cons_some hp, List.map_cons, hl p List.mem_cons_self e hp]
        exact hrest.cons_cons p.1
  have hn := hnodup.sublist (hline read hevents)
  have hkept := hn.sublist ((List.filter_sublist (p := fun e => e.time.instant < end_.instant)).map LedgerEvent.sourceLine)
  have hsorted := ((List.mergeSort_perm _ LedgerEvent.notAfter).map LedgerEvent.sourceLine).nodup_iff.mpr hkept
  exact (FiledEvents.foldl hsorted).partition (hsorted.of_map _)

end Loaded

end Model

section Sample

@[reducible] def levelHost : Host := { sampleHost with decimal := fun s => some (some (Decimal.ofText s.toList)) }

attribute [local instance] levelHost

def ledgerRow (kind label entry : String) : Controller.LedgerRow where
  kind := some kind
  label := some label
  symbol := some "EURUSD"
  side := some "long"
  entry := some entry
  sl := some "1.0"
  tp := some "1.2"
  grade := none
  utc := some "2026-01-02T12:00:00Z"
  detail := none
  stamp := none
  rfx := none

def ledgerEvent (line : Nat) (kind label entry : String) : LedgerEvent where
  row := ledgerRow kind label entry
  sourceLine := line
  time := ⟨noon 0, 0, ZonedTime.utc_lt⟩
  entry := Decimal.ofText entry.toList
  sl := Decimal.ofText "1.0".toList
  tp := Decimal.ofText "1.2".toList
  entry_read := rfl
  sl_read := rfl
  tp_read := rfl

/-- A row without an intent before it, a bracket spelled in two ways, and a label that is used again. -/
def ledgerEvents : List LedgerEvent :=
  [ledgerEvent 2 "touched" "B" "1.1", ledgerEvent 3 "intent" "A" "1.10", ledgerEvent 4 "regrade" "A" "1.1"
    , ledgerEvent 5 "cancelled" "A" "1.3", ledgerEvent 6 "intent" "A" "1.15"]

theorem ledger_partitioned_sample : (ledgerEvents.map LedgerEvent.sourceLine).Nodup
    ∧ Partition ledgerEvents (statesFromEvents ledgerEvents).1 (statesFromEvents ledgerEvents).2 :=
  ⟨by decide, ledger_partitioned (by decide)⟩

example : ((statesFromEvents ledgerEvents).1.map fun s => s.first.sourceLine) = [2, 3, 6] := by decide +kernel

end Sample

end MatchTrader
