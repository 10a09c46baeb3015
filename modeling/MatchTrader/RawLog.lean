import Mathlib.Data.List.Range
import Mathlib.Logic.Relation
import MatchTrader.JsonText
import MatchTrader.RegexLanguage
import MatchTrader.RestConnection
import MatchTrader.Retention

/-! The diagnostics of the messages: the newest of them within a bound on their number and their bytes, without secrets. -/

namespace MatchTrader

open Regex (Re)
open Retention

section Masks

/-- What the case of a letter is ignored by: four characters besides the ASCII ones stand for a letter. -/
def foldCase (c : Char) : Char :=
  if c.toNat = 0x212a then 'k' else if c.toNat = 0x17f then 's' else if c.toNat = 0x130 ∨ c.toNat = 0x131 then 'i' else c.toLower

def anyCase (text : String) : Re Char := .literal (fun c l => foldCase c = foldCase l) text.toList

def logSpace : Re Char := .char isSpace

def quoted : Char → Bool := (· = '"')

def secretNames : Re Char :=
  .first (anyCase "password") [anyCase "token", anyCase "authorization", anyCase "api_key", anyCase "apiKey", anyCase "aiKey",
    anyCase "x-hcamm-key", anyCase "cookie", anyCase "secret"]

/-- A name of a secret and the quote that begins its value. -/
def secretKey : Re Char :=
  .seq (.char quoted) (.seq secretNames (.seq (.char quoted) (.seq (.star logSpace) (.seq (.char (· = ':')) (.seq (.star logSpace)
    (.char quoted))))))

def secretMember : Re Char := .seq (.group 1 secretKey) (.star (.char (!quoted ·)))

/-- What ends a credential. -/
def credentialStop (c : Char) : Bool := isSpace c || c = '"' || c = '\\'

def bearerScheme : Re Char := .seq (anyCase "Bearer") (.seq logSpace (.star logSpace))

def bearer : Re Char :=
  .seq (anyCase "Bearer") (.seq (.seq logSpace (.star logSpace)) (.seq (.char (!credentialStop ·)) (.star (.char (!credentialStop ·)))))

def redacted : List Char := "[redacted]".toList

def maskMembers (text : List Char) : List Char := Regex.sub secretMember (fun m => (m.captured 1).getD [] ++ redacted) text

def maskBearers (text : List Char) : List Char := Regex.sub bearer (fun _ => "Bearer ".toList ++ redacted) text

end Masks

inductive RawMessage where
  | binary (length : Nat)
  | text (s : String)
  | value (v : Json)

def RawMessage.spelled : RawMessage → List Char
  | .binary length => "[Binary message: ".toList ++ Nat.toDigits 10 length ++ " bytes; content omitted]".toList
  | .text s => s.toList
  | .value v => v.dumps

/-- The text of a message as it is kept, but for its length. -/
def RawMessage.shown (secret : String) : RawMessage → List Char
  | .binary length => (RawMessage.binary length).spelled
  | m =>
    let text := if secret = "" then m.spelled else replaceText secret.toList redacted (m.spelled.length + 1) m.spelled
    maskBearers (maskMembers text)

def utf8Length (text : List Char) : Nat := (text.map Char.utf8Size).sum

/-- The characters that are whole in the first bytes. -/
def fitBytes : Nat → List Char → List Char
  | _, [] => []
  | n, c :: rest => if c.utf8Size ≤ n then c :: fitBytes (n - c.utf8Size) rest else []

def maxShown : Nat := 32768

structure RawRow where
  id : Nat
  receivedAt : String
  direction : String
  transport : String
  raw : List Char
  truncated : Bool

/-- `len(json.dumps(row).encode())`: every character is ASCII. -/
def RawRow.size (r : RawRow) : Nat :=
  (Json.obj [("id", .num (.ofNat r.id)), ("received_at", .str r.receivedAt), ("direction", .str r.direction), ("transport", .str r.transport),
    ("raw", .str (String.ofList r.raw)), ("truncated", .bool r.truncated)]).dumps.length

structure RawLog where
  maxEntries : Nat := 500
  maxBytes : Nat := 2 * 1024 * 1024
  /-- Oldest first, each with its size. -/
  entries : List (RawRow × Nat) := []
  bytes : Int := 0
  revision : Nat := 0
  evicted : Nat := 0
  closed : Bool := false

structure RawView where
  events : List RawRow
  bytes : Int
  maxBytes : Nat
  maxEntries : Nat
  evicted : Nat

structure RawSnapshot where
  revision : Nat
  view : Option RawView

namespace RawLog

def emptyDeque : Exc := ⟨.other, "IndexError", "pop from an empty deque", none⟩

/-- The oldest entries are taken off until the others are within the bounds. -/
def evict (maxEntries maxBytes : Nat) : List (RawRow × Nat) → Int → Nat → Except Exc (List (RawRow × Nat) × Int × Nat)
  | [], bytes, evicted => if (maxBytes : Int) < bytes then .error emptyDeque else .ok ([], bytes, evicted)
  | e :: entries, bytes, evicted =>
    if maxEntries < (e :: entries).length ∨ (maxBytes : Int) < bytes then evict maxEntries maxBytes entries (bytes - e.2) (evicted + 1)
    else .ok (e :: entries, bytes, evicted)

def rowOf (log : RawLog) (direction transport : String) (raw : RawMessage) (secret now : String) : RawRow where
  id := log.revision + 1
  receivedAt := now
  direction := direction
  transport := transport
  raw := fitBytes maxShown (raw.shown secret)
  truncated := maxShown < utf8Length (raw.shown secret)

/-- `append`, at this time. -/
def append (log : RawLog) (direction transport : String) (raw : RawMessage) (secret now : String) : Except Exc RawLog := do
  let row := log.rowOf direction transport raw secret now
  let left ← evict log.maxEntries log.maxBytes (log.entries ++ [(row, row.size)]) (log.bytes + row.size) log.evicted
  return { log with entries := left.1, bytes := left.2.1, evicted := left.2.2, revision := log.revision + 1 }

/-- `stream_snapshot`, once it has waited. -/
def streamSnapshot (log : RawLog) (after : Int) : Option RawSnapshot :=
  if log.closed then none
  else some {
    revision := log.revision
    view := if (log.revision : Int) ≠ after then
      some ⟨(log.entries.map Prod.fst).reverse, log.bytes, log.maxBytes, log.maxEntries, log.evicted⟩ else none }

def close (log : RawLog) : RawLog := { log with closed := true }

end RawLog

/-- A log and every row that was ever appended to it, oldest first. -/
structure RawHistory where
  log : RawLog
  rows : List RawRow := []

namespace RawHistory

/-- One call. A message is shown under the log's lock, whoever sends it. -/
inductive Step : RawHistory → RawHistory → Prop
  | append {h : RawHistory} {log : RawLog} (direction transport : String) (raw : RawMessage) (secret now : String)
    (ha : h.log.append direction transport raw secret now = .ok log) :
    Step h ⟨log, h.rows ++ [h.log.rowOf direction transport raw secret now]⟩
  | close {h : RawHistory} : Step h { h with log := h.log.close }

def Reachable (maxEntries maxBytes : Nat) (h : RawHistory) : Prop :=
  Relation.ReflTransGen Step ⟨{ maxEntries, maxBytes }, []⟩ h

variable {h v : RawHistory} {maxEntries maxBytes : Nat} {entries : List (RawRow × Nat)}

/-- The log has the newest rows that its bounds allow, and accounts for the others. -/
structure Sound (maxEntries maxBytes : Nat) (h : RawHistory) : Prop where
  bounds : h.log.maxEntries = maxEntries ∧ h.log.maxBytes = maxBytes
  sizes : ∀ e ∈ h.log.entries, e.2 = e.1.size
  kept : Longest (Within RawRow.size maxEntries maxBytes) h.rows (h.log.entries.map Prod.fst)
  bytes : h.log.bytes = ((h.log.entries.map Prod.snd).sum : Nat)
  numbered : h.rows.map RawRow.id = List.range' 1 h.log.revision
  counted : h.log.evicted + h.log.entries.length = h.log.revision

theorem within_entries (hs : ∀ e ∈ entries, e.2 = e.1.size) :
    Within RawRow.size maxEntries maxBytes (entries.map Prod.fst) ↔ entries.length ≤ maxEntries ∧ (entries.map Prod.snd).sum ≤ maxBytes := by
  have hsum : entries.map Prod.snd = (entries.map Prod.fst).map RawRow.size := by
    rw [List.map_map]
    exact List.map_congr_left hs
  rw [Within, List.length_map, hsum]

/-- Evicting ends with the longest part of the entries that is within the bounds. -/
theorem evict_spec (hs : ∀ e ∈ entries, e.2 = e.1.size) (evicted : Nat) :
    ∃ older left, entries = older ++ left ∧ Longest (Within RawRow.size maxEntries maxBytes) (entries.map Prod.fst) (left.map Prod.fst)
      ∧ RawLog.evict maxEntries maxBytes entries ((entries.map Prod.snd).sum : Nat) evicted
        = .ok (left, ((left.map Prod.snd).sum : Nat), evicted + older.length) := by
  induction entries generalizing evicted with
  | nil => exact ⟨[], [], rfl, longest_self ⟨Nat.zero_le _, Nat.zero_le _⟩, if_neg (by simp)⟩
  | cons e entries ih =>
    obtain ⟨he, hrest⟩ := List.forall_mem_cons.mp hs
    have hwithin := @within_entries maxEntries maxBytes _ hs
    by_cases hfits : (e :: entries).length ≤ maxEntries ∧ ((e :: entries).map Prod.snd).sum ≤ maxBytes
    · refine ⟨[], e :: entries, rfl, longest_self (hwithin.mpr hfits), if_neg ?_⟩
      omega
    · obtain ⟨older, left, hsplit, hlongest, hevict⟩ := ih hrest (evicted + 1)
      have hover : ¬ Within RawRow.size maxEntries maxBytes ((e :: entries).map Prod.fst) := fun hw => hfits (hwithin.mp hw)
      refine ⟨e :: older, left, by rw [hsplit, List.cons_append], ?_, ?_⟩
      · refine ⟨hlongest.suffix.trans (List.suffix_cons ..), hlongest.holds, fun t ht hp => ?_⟩
        rcases List.suffix_cons_iff.mp ht with rfl | ht
        · exact absurd hp hover
        · exact hlongest.greatest t ht hp
      · have hgo : maxEntries < (e :: entries).length ∨ (maxBytes : Int) < (((e :: entries).map Prod.snd).sum : Nat) := by omega
        have hless : (((e :: entries).map Prod.snd).sum : Nat) - (e.2 : Int) = ((entries.map Prod.snd).sum : Nat) := by
          rw [List.map_cons, List.sum_cons]
          omega
        have hcount : evicted + 1 + older.length = evicted + (e :: older).length := by
          rw [List.length_cons]
          omega
        rw [RawLog.evict, if_pos hgo, hless, hevict, hcount]

/-- An append is never refused, and keeps the newest that the bounds allow. -/
theorem Sound.append (hs : h.Sound maxEntries maxBytes) (direction transport : String) (raw : RawMessage) (secret now : String) :
    ∃ log, h.log.append direction transport raw secret now = .ok log
      ∧ Sound maxEntries maxBytes ⟨log, h.rows ++ [h.log.rowOf direction transport raw secret now]⟩ := by
  let row := h.log.rowOf direction transport raw secret now
  obtain ⟨rfl, rfl⟩ := hs.bounds
  have hsizes : ∀ e ∈ h.log.entries ++ [(row, row.size)], e.2 = e.1.size :=
    List.forall_mem_append.mpr ⟨hs.sizes, List.forall_mem_singleton.mpr rfl⟩
  obtain ⟨older, left, hsplit, hlongest, hevict⟩ := evict_spec hsizes h.log.evicted
  have hsum : h.log.bytes + (row.size : Int) = (((h.log.entries ++ [(row, row.size)]).map Prod.snd).sum : Nat) := by
    rw [List.map_append, List.sum_append, hs.bytes]
    simp
  have hok : h.log.append direction transport raw secret now
      = .ok { h.log with entries := left, bytes := ((left.map Prod.snd).sum : Nat), evicted := h.log.evicted + older.length, revision := h.log.revision + 1 } := by
    change (RawLog.evict h.log.maxEntries h.log.maxBytes (h.log.entries ++ [(row, row.size)]) (h.log.bytes + (row.size : Int)) h.log.evicted
      >>= _) = _
    rw [hsum, hevict]
    rfl
  refine ⟨_, hok, ⟨hs.bounds, fun e he => hsizes e (hsplit ▸ List.mem_append_right older he), ?_, rfl, ?_, ?_⟩⟩
  · rw [List.map_append] at hlongest
    exact hs.kept.snoc (fun t x => within_snoc x) hlongest
  · rw [List.map_append, hs.numbered, List.range'_1_concat]
    exact congrArg (fun n => List.range' 1 h.log.revision ++ [n]) (Nat.add_comm ..)
  · have hlen := congrArg List.length hsplit
    rw [List.length_append, List.length_append, List.length_singleton] at hlen
    have hcounted := hs.counted
    change h.log.evicted + older.length + left.length = h.log.revision + 1
    omega

theorem Sound.step (hs : h.Sound maxEntries maxBytes) (hstep : Step h v) : v.Sound maxEntries maxBytes := by
  cases hstep with
  | append direction transport raw secret now ha =>
    obtain ⟨log, hlog, hsound⟩ := hs.append direction transport raw secret now
    obtain rfl := Except.ok.inj (ha.symm.trans hlog)
    exact hsound
  | close => exact ⟨hs.bounds, hs.sizes, hs.kept, hs.bytes, hs.numbered, hs.counted⟩

theorem Sound.run (hs : h.Sound maxEntries maxBytes) (hrun : Relation.ReflTransGen Step h v) :
    v.Sound maxEntries maxBytes ∧ h.rows <+: v.rows := by
  induction hrun with
  | refl => exact ⟨hs, List.prefix_rfl⟩
  | tail _ hstep ih =>
    refine ⟨ih.1.step hstep, ?_⟩
    cases hstep with
    | append => exact ih.2.trans (List.prefix_append ..)
    | close => exact ih.2

theorem Reachable.sound (hr : Reachable maxEntries maxBytes h) : h.Sound maxEntries maxBytes := by
  refine (Sound.run ?_ hr).1
  exact ⟨⟨rfl, rfl⟩, List.forall_mem_nil _, longest_self ⟨Nat.zero_le _, Nat.zero_le _⟩, rfl, rfl, rfl⟩

theorem Sound.length (hs : h.Sound maxEntries maxBytes) : h.rows.length = h.log.revision := by
  have hlen := congrArg List.length hs.numbered
  rwa [List.length_map, List.length_range'] at hlen

/-- The entries are the rows but for as many as were evicted. -/
theorem Sound.entries_eq (hs : h.Sound maxEntries maxBytes) : h.log.entries.map Prod.fst = h.rows.drop h.log.evicted := by
  have hcut := List.suffix_iff_eq_drop.mp hs.kept.suffix
  have hlen := hs.length
  have hcounted := hs.counted
  rw [List.length_map] at hcut
  rw [hcut]
  congr 1
  omega

/-- Of rows that are numbered, those above a number. -/
theorem filter_numbered {rows : List RawRow} {a : Nat} (hn : rows.map RawRow.id = List.range' a rows.length) (n : Nat) :
    rows.filter (fun r => n < r.id) = rows.drop (n + 1 - a) := by
  induction rows generalizing a with
  | nil => rw [List.filter_nil, List.drop_nil]
  | cons r rows ih =>
    rw [List.map_cons, List.length_cons, List.range'_succ] at hn
    obtain ⟨hid, hrest⟩ := List.cons.inj hn
    have hnext := ih hrest
    by_cases hlt : n < a
    · have hnone : n + 1 - a = 0 := by omega
      have hnone' : n + 1 - (a + 1) = 0 := by omega
      rw [hnone', List.drop_zero] at hnext
      rw [List.filter_cons_of_pos (by simpa [hid] using hlt), hnext, hnone, List.drop_zero]
    · have hone : n + 1 - a = n + 1 - (a + 1) + 1 := by omega
      rw [List.filter_cons_of_neg (by simpa [hid] using hlt), hnext, hone, List.drop_succ_cons]

/-- The rows with a number above `n` that are left are those after the first `n`, but for the evicted ones. -/
theorem Sound.newer (hs : h.Sound maxEntries maxBytes) (n : Nat) :
    (h.log.entries.map Prod.fst).filter (fun r => n < r.id) = h.rows.drop (max n h.log.evicted) := by
  have hnumbered : (h.rows.drop h.log.evicted).map RawRow.id = List.range' (1 + h.log.evicted) (h.rows.drop h.log.evicted).length := by
    rw [List.map_drop, hs.numbered, List.drop_range', List.length_drop, hs.length, Nat.mul_one]
  rw [hs.entries_eq, filter_numbered hnumbered, List.drop_drop]
  congr 1
  omega

/-- Whatever is appended from the first call on, no append is refused, and the log has the longest end of all that was appended
that its bounds allow. A reader that looked before and looks again while the log is open finds what was appended since in order,
but for the oldest of it that were evicted, and nothing where nothing was appended. -/
theorem log_keeps_newest (hr : Reachable maxEntries maxBytes h) (hrun : Relation.ReflTransGen Step h v) :
    Longest (Within RawRow.size maxEntries maxBytes) v.rows (v.log.entries.map Prod.fst)
    ∧ v.log.bytes = (((v.log.entries.map Prod.fst).map RawRow.size).sum : Nat) ∧ v.log.evicted + v.log.entries.length = v.rows.length
    ∧ (∀ direction transport raw secret now, ∃ log, v.log.append direction transport raw secret now = .ok log)
    ∧ h.rows <+: v.rows
    ∧ (v.log.closed = false → ∃ snapshot, v.log.streamSnapshot h.log.revision = some snapshot ∧ snapshot.revision = v.rows.length
      ∧ (snapshot.view = none ↔ v.rows = h.rows)
      ∧ ∀ view, snapshot.view = some view → view.evicted = v.log.evicted ∧ view.events.reverse = v.rows.drop view.evicted
        ∧ view.events.reverse.filter (fun r => h.log.revision < r.id) = v.rows.drop (max h.rows.length view.evicted)) := by
  obtain ⟨hs, hfront⟩ := hr.sound.run hrun
  have hlen := hs.length
  have hlen₀ := hr.sound.length
  refine ⟨hs.kept, ?_, hs.counted.trans hlen.symm, fun direction transport raw secret now => ?_, hfront, fun hopen => ?_⟩
  · rw [hs.bytes, List.map_map]
    exact congrArg (fun l => ((List.sum l : Nat) : Int)) (List.map_congr_left hs.sizes)
  · obtain ⟨log, hlog, -⟩ := hs.append direction transport raw secret now
    exact ⟨log, hlog⟩
  · have hsame : (v.log.revision : Int) ≠ h.log.revision ↔ v.rows ≠ h.rows := by
      rw [Ne, Int.natCast_inj, ← hlen, ← hlen₀]
      constructor
      · exact fun hne heq => hne (congrArg List.length heq)
      · exact fun hne heq => hne (hfront.eq_of_length heq.symm).symm
    unfold RawLog.streamSnapshot
    rw [hopen]
    refine ⟨_, rfl, hlen.symm, ?_, ?_⟩
    · by_cases heq : v.rows = h.rows
      · have hno := mt hsame.mp (not_not.mpr heq)
        simp only [if_neg hno, heq]
      · have hyes := hsame.mpr heq
        simp only [if_pos hyes, heq, reduceCtorEq]
    · intro view hview
      split at hview
      · obtain rfl := Option.some.inj hview
        refine ⟨rfl, ?_, ?_⟩
        · exact (List.reverse_reverse _).trans hs.entries_eq
        · rw [hlen₀]
          exact (congrArg (List.filter fun r : RawRow => h.log.revision < r.id) (List.reverse_reverse _)).trans (hs.newer _)
      · cases hview

section Sample

def sampleSecret : RawMessage := .text "\"token\":\"x\""

def sampleRawRow (n : Nat) : RawRow := ⟨n, "noon", "in", "websocket", "\"token\":\"[redacted]\"".toList, false⟩

theorem sampleSecret_shown : sampleSecret.shown "" = "\"token\":\"[redacted]\"".toList := by decide +kernel

/-- A log with room for one, after so many messages. -/
def sampleLog (n : Nat) : RawLog where
  maxEntries := 1
  entries := [(sampleRawRow n, (sampleRawRow n).size)]
  bytes := (sampleRawRow n).size
  revision := n
  evicted := n - 1

theorem sampleLog_row (log : RawLog) (n : Nat) (h : log.revision = n) :
    log.rowOf "in" "websocket" sampleSecret "" "noon" = sampleRawRow (n + 1) := by
  have hfit : fitBytes maxShown (sampleSecret.shown "") = "\"token\":\"[redacted]\"".toList := by
    rw [sampleSecret_shown]
    decide +kernel
  have hshort : utf8Length (sampleSecret.shown "") ≤ maxShown := by
    rw [sampleSecret_shown]
    decide +kernel
  simp only [RawLog.rowOf, hfit, not_lt.mpr hshort, h, sampleRawRow, decide_false]

theorem sampleLog_append : ({ maxEntries := 1 } : RawLog).append "in" "websocket" sampleSecret "" "noon" = .ok (sampleLog 1)
    ∧ (sampleLog 1).append "in" "websocket" sampleSecret "" "noon" = .ok (sampleLog 2) := by
  have hone : (sampleRawRow 1).size ≤ 2097152 := by decide +kernel
  have htwo : (sampleRawRow 2).size ≤ 2097152 := by decide +kernel
  have hevict {x : RawRow} (hx : x.size ≤ 2097152) (n : Nat) : RawLog.evict 1 2097152 [(x, x.size)] x.size n = .ok ([(x, x.size)], x.size, n) :=
    if_neg (by simp; omega)
  have hfirst := hevict hone 0
  have hsecond := hevict htwo 1
  unfold RawLog.append
  rw [sampleLog_row _ 0 rfl, sampleLog_row _ 1 rfl]
  constructor
  · simp only [List.nil_append, Int.zero_add, hfirst]
    rfl
  · have hfull : RawLog.evict 1 2097152 [(sampleRawRow 1, (sampleRawRow 1).size), (sampleRawRow 2, (sampleRawRow 2).size)]
        ((sampleRawRow 1).size + (sampleRawRow 2).size) 0 = .ok ([(sampleRawRow 2, (sampleRawRow 2).size)], (sampleRawRow 2).size, 1) := by
      rw [RawLog.evict, if_pos (Or.inl (by simp)), add_sub_cancel_left]
      exact hsecond
    simp only [sampleLog, List.cons_append, List.nil_append, hfull]
    rfl

theorem log_keeps_newest_sample : Longest (Within RawRow.size 1 2097152) [sampleRawRow 1, sampleRawRow 2] [sampleRawRow 2]
    ∧ ∃ snapshot, (sampleLog 2).streamSnapshot 1 = some snapshot ∧ snapshot.revision = 2 := by
  have hfirst : Step ⟨{ maxEntries := 1 }, []⟩ ⟨sampleLog 1, [sampleRawRow 1]⟩ :=
    sampleLog_row { maxEntries := 1 } 0 rfl ▸ .append "in" "websocket" sampleSecret "" "noon" sampleLog_append.1
  have hsecond : Step ⟨sampleLog 1, [sampleRawRow 1]⟩ ⟨sampleLog 2, [sampleRawRow 1, sampleRawRow 2]⟩ :=
    sampleLog_row (sampleLog 1) 1 rfl ▸ .append "in" "websocket" sampleSecret "" "noon" sampleLog_append.2
  obtain ⟨hkept, -, -, -, -, hread⟩ := log_keeps_newest (Relation.ReflTransGen.single hfirst) (Relation.ReflTransGen.single hsecond)
  obtain ⟨snapshot, hs, hrevision, -⟩ := hread rfl
  exact ⟨hkept, snapshot, hs, hrevision⟩

end Sample

end RawHistory

end MatchTrader
