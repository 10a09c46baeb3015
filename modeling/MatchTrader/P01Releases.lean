import MatchTrader.P01Copies
import MatchTrader.Runs

/-! An intent whose lifecycle the log reports as ended is held. The check compares the texts of the
times, which keep each line's own offset, and looks at the events that the feed still shows. -/

namespace MatchTrader

open Durable

section Releases

variable [Host] [LogHost] [P01Numbers]

namespace P01Log

/-- The rows of lines that are recorded one after the other, with their times. -/
def rowsOf (s : P01Log) : List (List Char) → List (ZonedTime × P01Row)
  | [] => []
  | raw :: texts => ((s.event raw).map fun e => (e.1, e.2.1)).toList ++ rowsOf (s.record raw) texts

inductive LogOp where
  | start (file : Option TailedFile)
  | poll (file : Option TailedFile)
  | drainIntents
  | drainReleases

def LogOp.run (s : P01Log) : LogOp → P01Log
  | .start file => s.start file
  | .poll file => (s.poll file).1
  | .drainIntents => s.drainIntents.2
  | .drainReleases => s.drainReleases.2

def LogOp.rows (s : P01Log) : LogOp → List (ZonedTime × P01Row)
  | .poll (some f) => rowsOf (s.readOn f).1 (s.readOn f).2
  | _ => []

def after (s : P01Log) (ops : List LogOp) : P01Log := ops.foldl LogOp.run s

/-- All the rows that a run records. -/
def history (s : P01Log) : List LogOp → List (ZonedTime × P01Row)
  | [] => []
  | op :: ops => op.rows s ++ history (op.run s) ops

/-- Among the rows is the end of an intent's lifecycle, at the time of the intent or after it. -/
def Ended (rows : List (ZonedTime × P01Row)) (t : ZonedTime) (row : P01Row) : Prop :=
  ∃ p ∈ rows, p.2.ends row.tradeId = true ∧ t.instant ≤ p.1.instant

/-- The same of the texts of the times, among the last two hundred rows. -/
def EndedLately (rows : List (ZonedTime × P01Row)) (row : P01Row) : Prop :=
  ∃ p ∈ rows.rtake 200, p.2.ends row.tradeId = true ∧ row.emittedAt ≤ p.2.emittedAt

/-- Whatever the state file says and the surroundings answer, the intent is held and no order is opened. -/
def HeldBack (copy : String → Except Exc Json → Act P01Copied) : Prop :=
  ∀ path state env w, (∃ c, ((copy path state).eval env w).2 = .ok c ∧ c.status = .held)
    ∧ ∃ events, ((copy path state).eval env w).1.trace = w.trace ++ events
      ∧ ∀ owner api call j, Event.sent owner api call j ∈ events → call.opens = false

/-- The feed shows the last of the rows, and every intent that waits is one of them. -/
structure Shows (s : P01Log) (rows : List (ZonedTime × P01Row)) : Prop where
  events : s.events = (rows.map Prod.snd).rtake 200
  intents : ∀ r ∈ s.intents, r ∈ rows.map Prod.snd
  stamped : ∀ p ∈ rows, p.2.emittedAt = p.1.isoformat

variable {s : P01Log} {rows : List (ZonedTime × P01Row)} {t : ZonedTime} {row : P01Row} {texts : List (List Char)}

omit [Host] [P01Numbers] in
theorem Shows.record (h : s.Shows rows) (raw : List Char) :
    (s.record raw).Shows (rows ++ ((s.event raw).map fun e => (e.1, e.2.1)).toList) := by
  unfold P01Log.record
  cases hevent : s.event raw with
  | none => simpa using h
  | some e =>
    obtain ⟨t, r, labels⟩ := e
    refine ⟨?_, fun q hq => ?_, fun p hp => ?_⟩
    · simp only [Option.map_some, Option.toList_some, List.map_append, List.map_cons, List.map_nil, h.events]
      exact Lines.rtake_append
    · simp only [Option.map_some, Option.toList_some, List.map_append, List.map_cons, List.map_nil, List.mem_append,
        List.mem_singleton]
      simp only at hq
      by_cases hi : r.action = .intent
      · rw [if_pos hi] at hq
        rcases List.mem_append.mp (List.mem_of_mem_drop hq) with hq | hq
        · exact Or.inl (h.intents q hq)
        · exact Or.inr (List.mem_singleton.mp hq)
      · rw [if_neg hi] at hq
        exact Or.inl (h.intents q hq)
    · rcases List.mem_append.mp hp with hp | hp
      · exact h.stamped p hp
      · obtain rfl := List.mem_singleton.mp hp
        obtain ⟨⟨u, text⟩, -, he⟩ := Option.map_eq_some_iff.mp hevent
        obtain ⟨rfl, rfl, -⟩ := Prod.mk.injEq .. ▸ he
        rfl

omit [Host] [P01Numbers] in
theorem Shows.foldl (h : s.Shows rows) : (texts.foldl P01Log.record s).Shows (rows ++ rowsOf s texts) := by
  induction texts generalizing s rows with
  | nil => simpa [rowsOf] using h
  | cons raw texts ih =>
    have hnext := ih (h.record raw)
    rw [List.append_assoc] at hnext
    exact hnext

omit [Host] [P01Numbers] in
theorem Shows.run (h : s.Shows rows) (op : LogOp) : (op.run s).Shows (rows ++ op.rows s) := by
  cases op with
  | start file =>
    rw [show (LogOp.start file).rows s = [] from rfl, List.append_nil]
    exact ⟨h.events, List.forall_mem_nil _, h.stamped⟩
  | poll file =>
    cases file with
    | none =>
      rw [show (LogOp.poll none).rows s = [] from rfl, List.append_nil]
      exact ⟨h.events, h.intents, h.stamped⟩
    | some f =>
      have hread : (s.readOn f).1.Shows rows := by
        unfold readOn
        split
        · exact ⟨h.events, h.intents, h.stamped⟩
        · exact ⟨h.events, h.intents, h.stamped⟩
      exact hread.foldl
  | drainIntents =>
    rw [show LogOp.drainIntents.rows s = [] from rfl, List.append_nil]
    exact ⟨h.events, List.forall_mem_nil _, h.stamped⟩
  | drainReleases =>
    rw [show LogOp.drainReleases.rows s = [] from rfl, List.append_nil]
    exact ⟨h.events, h.intents, h.stamped⟩

omit [Host] [P01Numbers] in
theorem Shows.after (h : s.Shows rows) (ops : List LogOp) : (s.after ops).Shows (rows ++ s.history ops) := by
  induction ops generalizing s rows with
  | nil =>
    rw [history, List.append_nil]
    exact h
  | cons op ops ih =>
    have hnext := ih (h.run op)
    rw [List.append_assoc] at hnext
    exact hnext

omit [Host] [P01Numbers] in
theorem shows_history (ops : List LogOp) : (P01Log.after {} ops).Shows (P01Log.history {} ops) :=
  have hfresh : ({} : P01Log).Shows [] := ⟨rfl, List.forall_mem_nil _, List.forall_mem_nil _⟩
  hfresh.after ops

omit [Host] [LogHost] [P01Numbers] in
/-- The check sees what was said lately. -/
theorem Shows.endedIn_iff (h : s.Shows rows) (row : P01Row) : endedIn s.feed row = true ↔ EndedLately rows row := by
  have hmap : (rows.map Prod.snd).rtake 200 = (rows.rtake 200).map Prod.snd := by
    simp only [List.rtake, List.length_map, List.map_drop]
  simp only [endedIn, feed, h.events, hmap, EndedLately, List.any_reverse, List.any_map, List.any_eq_true, Function.comp,
    Bool.and_eq_true, decide_eq_true_eq]

/-- An intent that the check finds ended is held before anything else is looked at. -/
theorem copyP01Intent_of_ended {recent : List P01Row} (h : endedIn recent row = true) (path : String) (state : Except Exc Json) :
    Controller.copyP01Intent path state recent row = pure (heldCopy row) := by
  unfold Controller.copyP01Intent Controller.contain raiseIf
  rw [if_pos h]
  rfl

omit [Host] [LogHost] [P01Numbers] in
theorem heldBack_pure : HeldBack fun _ _ => pure (heldCopy row) :=
  fun _ _ _ w => ⟨⟨heldCopy row, rfl, rfl⟩, [], (List.append_nil w.trace).symm, fun _ _ _ _ h => absurd h List.not_mem_nil⟩

theorem heldBack_of_lately {ops : List LogOp} (h : EndedLately (P01Log.history {} ops) row) :
    HeldBack fun path state => Controller.copyP01Intent path state (P01Log.after {} ops).feed row := by
  have hended := copyP01Intent_of_ended (((shows_history ops).endedIn_iff row).mpr h)
  simp only [hended]
  exact heldBack_pure

omit [Host] [LogHost] [P01Numbers] in
/-- In UTC the texts of two times compare as the times do. -/
theorem isoformat_le_of_utc {u : ZonedTime} (ht : t.offset = 0) (hu : u.offset = 0) (h : t.instant ≤ u.instant) :
    t.isoformat ≤ u.isoformat := by
  have hiso {v : ZonedTime} (hv : v.offset = 0) : v.isoformat = v.local_.isoformat := by
    unfold ZonedTime.isoformat Instant.isoformat Instant.isoChars ZonedTime.localChars
    rw [hv, show ZonedTime.offsetChars 0 = "+00:00".toList by decide]
  have hmicros : t.local_.micros ≤ u.local_.micros := by
    simp only [ZonedTime.instant, ht, hu, Int.sub_zero] at h
    exact h
  rw [hiso ht, hiso hu]
  exact (Instant.isoformat_le_iff _ _).mpr (Instant.le_of_micros_le hmicros)

/-- In a log of UTC times an end that the feed still shows holds the intent. -/
theorem released_held_in_utc {ops : List LogOp} (hutc : ∀ p ∈ P01Log.history {} ops, p.1.offset = 0)
    (ht : (t, row) ∈ P01Log.history {} ops) (h : Ended ((P01Log.history {} ops).rtake 200) t row) :
    HeldBack fun path state => Controller.copyP01Intent path state (P01Log.after {} ops).feed row := by
  have hshows := shows_history ops
  obtain ⟨p, hp, hends, hle⟩ := h
  have hmem : p ∈ P01Log.history {} ops := List.mem_of_mem_drop hp
  have htext : row.emittedAt ≤ p.2.emittedAt := by
    rw [hshows.stamped p hmem, hshows.stamped _ ht]
    exact isoformat_le_of_utc (hutc _ ht) (hutc p hmem) hle
  exact heldBack_of_lately ⟨p, hp, hends, htext⟩

end P01Log

end Releases

section Sample

def spelled (text : String) : Option Decimal :=
  if text = "1" then some (.ofNat 1) else if text = "2" then some (.ofNat 2) else if text = "3" then some (.ofNat 3) else none

@[reducible] def p01Host : Host := { sampleHost with
  upper := fun s => if s = "Limit" then "LIMIT" else s
  readTime := fun v => if v.text? = some "2026-01-02T14:00:10+02:00" then .at (noon 10) else sampleHost.readTime v
  readDecimal := fun v => v.text?.bind spelled }

/-- Ten seconds past noon in UTC, where it is two o'clock. -/
def abroad : ZonedTime := ⟨{ noon 10 with hour := 14, hour_lt := by decide }, 7200000000, by decide⟩

@[reducible] def p01LogHost : LogHost where
  fromisoformat text :=
    if text = "2026-01-02T14:00:10+02:00".toList then some (.inr abroad)
    else if text = "2026-01-02T12:00:20+00:00".toList then some (.inr ⟨noon 20, 0, ZonedTime.utc_lt⟩)
    else none
  isWord c := c.isAlphanum || c = '_'
  isDigit := Char.isDigit

@[reducible] def p01Numbers : P01Numbers where
  equal v text := match v, text.bind spelled with
    | .num d, some e => some (d.same e)
    | _, _ => none

attribute [local instance] p01Host p01LogHost p01Numbers

end Sample

end MatchTrader
