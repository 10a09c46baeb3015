import MatchTrader.LedgerTail

/-! What a tail reports of a ledger that only grows: however the appends and the polls alternate,
every line that is completed after the opening, once and in order, as long as each of them reads as
a row. One that does not stops the poll, and what the poll had read before it is lost. -/

namespace MatchTrader

namespace LedgerTail

/-- A tail meets a ledger: something is appended, or the tail is polled. -/
inductive Turn where
  | append (added : List UInt8)
  | poll

def Turn.added : Turn → List UInt8
  | .append added => added
  | .poll => []

def appended (turns : List Turn) : List UInt8 := turns.flatMap Turn.added

/-- The rows that the polls of a run return, until one raises. -/
def watch (t : LedgerTail) (file : TailedFile) : List Turn → Except TailError (List (Nat × LedgerPayload))
  | [] => .ok []
  | .append added :: turns => watch t { file with content := file.content ++ added } turns
  | .poll :: turns =>
    match t.poll (some file) with
    | (t', .ok rows) => (watch t' file turns).map (rows ++ ·)
    | (_, .error e) => .error e

/-- The complete lines from where the tail stands. -/
def lines (t : LedgerTail) (content : List UInt8) : List (List UInt8) := Lines.complete newline (content.drop t.position)

/-- Those that are to be reported: the remainder of a line that was there before is not. -/
def unread (t : LedgerTail) (content : List UInt8) : List (Nat × List UInt8) :=
  (Lines.numbered t.position (t.lines content)).drop (if t.skipPartial then 1 else 0)

def report (header : List String) (l : Nat × List UInt8) : Option (Nat × LedgerPayload) :=
  (payload header (l.2 ++ [newline])).toOption.map fun p => (l.1, p)

/-- The records of the lines, each with the byte at which its line begins. A line that is no record has none. -/
def reports (t : LedgerTail) (content : List UInt8) : List (Nat × LedgerPayload) := (t.unread content).filterMap (report t.header)

/-- A complete line is text in UTF-8 and a row that is not empty. -/
def Readable (line : List UInt8) : Prop :=
  ∃ text row, Utf8.decode? (line ++ [newline]) = some text ∧ Csv.row text = .ok row ∧ row ≠ []

/-- The run raises nothing and loses nothing of what it appends, and returns nothing else. -/
structure LosesNothing (t : LedgerTail) (file : TailedFile) (turns : List Turn) : Prop where
  calm : ∃ rows, t.watch file turns = .ok rows ∧ rows <+: t.reports (file.content ++ appended turns)
  complete : ∀ n, (t.lines (file.content ++ appended turns)).length ≤ 1000 * n →
    t.watch file (turns ++ List.replicate n .poll) = .ok (t.reports (file.content ++ appended turns))
  fresh : ∀ rows, t.watch file turns = .ok rows → ∀ r ∈ rows,
    file.content.length ≤ r.1 ∧ ((file.content ++ appended turns).take r.1).getLast? = some newline

variable {t t' : LedgerTail} {file : TailedFile} {content line tail z : List UInt8} {n : Nat} {rows : List (Nat × LedgerPayload)}

theorem appended_append (added : List UInt8) (turns : List Turn) :
    content ++ appended (.append added :: turns) = content ++ added ++ appended turns := by
  simp [appended, Turn.added]

theorem payload_ok_iff {header : List String} {raw : List UInt8} : (∃ p, payload header raw = .ok p) ↔
    ∃ text row, Utf8.decode? raw = some text ∧ Csv.row text = .ok row ∧ row ≠ [] := by
  unfold payload decode readRow
  cases Utf8.decode? raw with
  | none => exact ⟨fun ⟨p, h⟩ => (by cases h), fun ⟨text, row, h, _⟩ => (by cases h)⟩
  | some text =>
    cases hrow : Csv.row text with
    | error e =>
      refine ⟨fun ⟨p, h⟩ => ?_, fun ⟨text', row, h, hr, _⟩ => ?_⟩
      · simp [hrow, Except.mapError, bind, Except.bind] at h
      · cases h
        rw [hrow] at hr
        cases hr
    | ok row =>
      cases row with
      | nil =>
        refine ⟨fun ⟨p, h⟩ => ?_, fun ⟨text', row, h, hr, hne⟩ => ?_⟩
        · simp [hrow, Except.mapError, bind, Except.bind] at h
        · cases h
          rw [hrow] at hr
          cases hr
          exact absurd rfl hne
      | cons a row =>
        refine ⟨fun _ => ⟨text, a :: row, rfl, hrow, List.cons_ne_nil a row⟩, fun _ => ?_⟩
        simp [hrow, Except.mapError, bind, Except.bind, pure, Except.pure]

def past (t : LedgerTail) (line : List UInt8) : LedgerTail :=
  { t with position := t.position + (line ++ [newline]).length, offset := t.position + (line ++ [newline]).length
           skipPartial := false }

theorem drop_past (hd : content.drop t.position = line ++ newline :: tail) : content.drop (t.past line).position = tail := by
  have hcut : (line ++ newline :: tail).drop (line ++ [newline]).length = tail := by
    rw [List.append_cons line newline tail]
    exact List.drop_left
  rw [show (t.past line).position = t.position + (line ++ [newline]).length from rfl, ← List.drop_drop, hd, hcut]

theorem lines_cons (hl : newline ∉ line) (hd : content.drop t.position = line ++ newline :: tail) :
    t.lines content = line :: (t.past line).lines content := by
  rw [lines, lines, drop_past hd, hd, Lines.complete_line hl]

theorem unread_cons (hl : newline ∉ line) (hd : content.drop t.position = line ++ newline :: tail) :
    t.unread content = (if t.skipPartial then [] else [(t.position, line)]) ++ (t.past line).unread content := by
  have hpast : (t.past line).unread content = Lines.numbered (t.position + line.length + 1) ((t.past line).lines content) := by
    simp [unread, past, Nat.add_assoc]
  rw [hpast, unread, lines_cons hl hd, Lines.numbered]
  by_cases hs : t.skipPartial
  · simp [hs]
  · simp [hs]

theorem readLines_last (h : newline ∉ content.drop t.position) : t.readLines content n = (t, .ok []) := by
  cases n with
  | zero => rfl
  | succ n =>
    have hraw : (Lines.readline newline (content.drop t.position)).getLast? ≠ some newline := by
      rw [Lines.readline_of_not_mem h]
      exact fun he => h (List.mem_of_getLast? he)
    rw [readLines]
    exact if_pos hraw

theorem readLines_line (hl : newline ∉ line) (hd : content.drop t.position = line ++ newline :: tail) :
    t.readLines content (n + 1) = if t.skipPartial then (t.past line).readLines content n
      else match payload t.header (line ++ [newline]) with
        | .error e => (t.past line, .error e)
        | .ok p => (((t.past line).readLines content n).1, ((t.past line).readLines content n).2.map fun rows => (t.position, p) :: rows) := by
  have hraw : Lines.readline newline (content.drop t.position) = line ++ [newline] := by rw [hd, Lines.readline_line hl]
  rw [readLines]
  simp only [hraw, List.getLast?_concat, ne_eq, not_true_eq_false, if_false]
  by_cases hs : t.skipPartial
  · rw [if_pos hs, if_pos hs]
    rfl
  · have hsame : ({ t with position := t.position + (line ++ [newline]).length, offset := t.position + (line ++ [newline]).length } :
        LedgerTail) = t.past line := by
      have hf : t.skipPartial = false := Bool.eq_false_iff.mpr hs
      simp [past, hf]
    rw [if_neg hs, if_neg hs]
    exact hsame ▸ rfl

/-- A tail stands in its ledger, and polls from where it stands. -/
structure Stands (t : LedgerTail) (file : TailedFile) : Prop where
  offset : t.offset = t.position
  inside : t.position ≤ file.content.length
  identity : t.identity = file.identity

theorem Stands.append (h : t.Stands file) (added : List UInt8) :
    t.Stands { file with content := file.content ++ added } where
  offset := h.offset
  inside := h.inside.trans (by simp)
  identity := h.identity

theorem drop_grown (hs : t.Stands file) (hd : file.content.drop t.position = line ++ newline :: tail) (z : List UInt8) :
    (file.content ++ z).drop t.position = line ++ newline :: (tail ++ z) := by
  rw [List.drop_append_of_le_length hs.inside, hd, List.append_assoc, List.cons_append]

theorem Stands.past (hs : t.Stands file) (hd : file.content.drop t.position = line ++ newline :: tail) :
    (t.past line).Stands file where
  offset := rfl
  inside := by
    have hlen := congrArg List.length hd
    simp only [List.length_drop, List.length_append, List.length_cons] at hlen
    simp only [LedgerTail.past, List.length_append, List.length_singleton]
    omega
  identity := hs.identity

/-- Some rounds of a poll: the lines that are read are records, and the tail is behind them, however the ledger goes on. -/
structure Reads (t t' : LedgerTail) (file : TailedFile) (n : Nat) (rows : List (Nat × LedgerPayload))
    (read : List (Nat × List UInt8)) : Prop where
  header : t'.header = t.header
  stands : t'.Stands file
  readable : ∀ l ∈ read, Readable l.2
  rows : rows = read.filterMap (report t.header)
  unread : ∀ z, t.unread (file.content ++ z) = read ++ t'.unread (file.content ++ z)
  fewer : ∀ z, (t'.lines (file.content ++ z)).length ≤ (t.lines (file.content ++ z)).length
  paced : (t'.lines file.content).length = (t.lines file.content).length - n

theorem Reads.none (hs : t.Stands file) (h : (t.lines file.content).length = (t.lines file.content).length - n) :
    t.Reads t file n [] [] :=
  ⟨rfl, hs, List.forall_mem_nil _, rfl, fun _ => rfl, fun _ => Nat.le_refl _, h⟩

theorem Reads.behind (hs : t.Stands file) (hl : newline ∉ line) (hd : file.content.drop t.position = line ++ newline :: tail)
    {read : List (Nat × List UInt8)} (h : (t.past line).Reads t' file n rows read)
    (hread : t.skipPartial = false → ∃ p, payload t.header (line ++ [newline]) = .ok p) :
    t.Reads t' file (n + 1) ((if t.skipPartial then [] else [(t.position, line)]).filterMap (report t.header) ++ rows)
      ((if t.skipPartial then [] else [(t.position, line)]) ++ read) where
  header := h.header
  stands := h.stands
  readable := by
    intro l hmem
    rcases List.mem_append.mp hmem with hmem | hmem
    · cases hskip : t.skipPartial with
      | true => simp [hskip] at hmem
      | false =>
        simp only [hskip, Bool.false_eq_true, if_false, List.mem_singleton] at hmem
        exact hmem ▸ payload_ok_iff.mp (hread hskip)
    · exact h.readable l hmem
  rows := by rw [List.filterMap_append, h.rows]; rfl
  unread := fun z => by rw [unread_cons hl (drop_grown hs hd z), h.unread z, List.append_assoc]
  fewer := fun z => (h.fewer z).trans (by rw [lines_cons hl (drop_grown hs hd z), List.length_cons]; omega)
  paced := by rw [h.paced, lines_cons hl hd, List.length_cons, Nat.add_sub_add_right]

theorem readLines_reads (hs : t.Stands file) (h : t.readLines file.content n = (t', .ok rows)) :
    ∃ read, t.Reads t' file n rows read := by
  induction n generalizing t rows with
  | zero =>
    obtain ⟨rfl, hrows⟩ := Prod.mk.inj h
    obtain rfl := Except.ok.inj hrows
    exact ⟨[], .none hs rfl⟩
  | succ n ih =>
    by_cases hmem : newline ∈ file.content.drop t.position
    · obtain ⟨line, tail, hd, hl⟩ := List.eq_append_cons_of_mem hmem
      rw [readLines_line hl hd] at h
      cases hskip : t.skipPartial with
      | true =>
        rw [if_pos hskip] at h
        obtain ⟨read, hread⟩ := ih (hs.past hd) h
        have hline := hread.behind hs hl hd fun hf => absurd hskip (by simp [hf])
        rw [hskip] at hline
        exact ⟨read, hline⟩
      | false =>
        rw [if_neg (by simp [hskip])] at h
        cases hp : payload t.header (line ++ [newline]) with
        | error e => simp [hp] at h
        | ok p =>
          rw [hp] at h
          obtain ⟨u, r, hrest⟩ : ∃ u r, (t.past line).readLines file.content n = (u, r) := ⟨_, _, rfl⟩
          cases r with
          | error e => simp [hrest, Except.map] at h
          | ok rest =>
            simp only [hrest, Except.map, Prod.mk.injEq, Except.ok.injEq] at h
            obtain ⟨rfl, rfl⟩ := h
            obtain ⟨read, hread⟩ := ih (hs.past hd) hrest
            have hline := hread.behind hs hl hd fun _ => ⟨p, hp⟩
            have hreport : report t.header (t.position, line) = some (t.position, p) := by
              simp [report, hp, Except.toOption]
            rw [hskip] at hline
            simp only [Bool.false_eq_true, if_false, List.filterMap_cons, hreport, List.filterMap_nil] at hline
            exact ⟨(t.position, line) :: read, hline⟩
    · rw [readLines_last hmem] at h
      obtain ⟨rfl, hrows⟩ := Prod.mk.inj h
      obtain rfl := Except.ok.inj hrows
      refine ⟨[], .none hs ?_⟩
      rw [lines, Lines.complete_of_not_mem hmem]
      exact (Nat.zero_sub _).symm

theorem readLines_returns (h : ∀ l ∈ t.unread content, Readable l.2) : ∃ t' rows, t.readLines content n = (t', .ok rows) := by
  induction n generalizing t with
  | zero => exact ⟨t, [], rfl⟩
  | succ n ih =>
    by_cases hmem : newline ∈ content.drop t.position
    · obtain ⟨line, tail, hd, hl⟩ := List.eq_append_cons_of_mem hmem
      rw [unread_cons hl hd] at h
      obtain ⟨t', rows, hrest⟩ := ih fun l hl => h l (List.mem_append_right _ hl)
      rw [readLines_line hl hd]
      cases hskip : t.skipPartial with
      | true => exact ⟨t', rows, (if_pos rfl).trans hrest⟩
      | false =>
        rw [hskip] at h
        obtain ⟨p, hp⟩ := payload_ok_iff.mpr (h (t.position, line) (List.mem_append_left _ List.mem_cons_self))
        refine ⟨t', (t.position, p) :: rows, (if_neg Bool.false_ne_true).trans ?_⟩
        rw [hp, hrest]
        rfl
    · exact ⟨t, [], readLines_last hmem⟩

theorem poll_eq (hs : t.Stands file) : t.poll (some file) = t.readLines file.content 1000 := by
  have hsame : ¬ (file.content.length < t.offset ∨ file.identity ≠ t.identity) := by
    rw [hs.offset, hs.identity, not_or, not_lt]
    exact ⟨hs.inside, fun hne => hne rfl⟩
  exact if_neg hsame

theorem watch_poll {turns : List Turn} (hs : t.Stands file) (h : t.watch file (.poll :: turns) = .ok rows) :
    ∃ t' polled read rest, t.Reads t' file 1000 polled read ∧ t'.watch file turns = .ok rest ∧ rows = polled ++ rest := by
  rw [watch, poll_eq hs] at h
  obtain ⟨u, r, hpoll⟩ : ∃ u r, t.readLines file.content 1000 = (u, r) := ⟨_, _, rfl⟩
  rw [hpoll] at h
  cases r with
  | error e => cases h
  | ok polled =>
    obtain ⟨read, hread⟩ := readLines_reads hs hpoll
    cases hrest : u.watch file turns with
    | error e => simp [hrest, Except.map] at h
    | ok rest =>
      simp only [hrest, Except.map, Except.ok.injEq] at h
      exact ⟨u, polled, read, rest, hread, hrest, h.symm⟩

theorem Reads.reports {read : List (Nat × List UInt8)} (h : t.Reads t' file n rows read) (z : List UInt8) :
    t.reports (file.content ++ z) = rows ++ t'.reports (file.content ++ z) := by
  rw [LedgerTail.reports, LedgerTail.reports, h.unread z, List.filterMap_append, h.rows, h.header]

/-- What the polls of a run return are the first of the records. -/
theorem watch_reports {turns : List Turn} (hs : t.Stands file) (h : t.watch file turns = .ok rows) :
    rows <+: t.reports (file.content ++ appended turns) := by
  induction turns generalizing t file rows with
  | nil =>
    obtain rfl := Except.ok.inj h
    exact List.nil_prefix
  | cons turn turns ih =>
    cases turn with
    | append added =>
      rw [appended_append]
      exact ih (hs.append added) h
    | poll =>
      obtain ⟨t', polled, read, rest, hread, hrest, rfl⟩ := watch_poll hs h
      rw [show appended (.poll :: turns) = appended turns from rfl, hread.reports]
      exact (List.prefix_append_right_inj polled).mpr (ih hread.stands hrest)

/-- Polls enough at the end of a run have read every line, and returned every record. -/
theorem watch_complete {turns : List Turn} (hs : t.Stands file)
    (h : t.watch file (turns ++ List.replicate n .poll) = .ok rows)
    (hn : (t.lines (file.content ++ appended turns)).length ≤ 1000 * n) :
    (∀ l ∈ t.unread (file.content ++ appended turns), Readable l.2) ∧ rows = t.reports (file.content ++ appended turns) := by
  induction turns generalizing t file rows with
  | nil =>
    rw [show appended [] = [] from rfl] at hn ⊢
    rw [List.nil_append] at h
    induction n generalizing t rows with
    | zero =>
      have hnone : t.unread (file.content ++ []) = [] := by
        rw [unread, List.eq_nil_of_length_eq_zero (Nat.le_zero.mp hn)]
        exact List.drop_nil
      obtain rfl := Except.ok.inj h
      rw [reports, hnone]
      exact ⟨List.forall_mem_nil _, rfl⟩
    | succ n ih =>
      obtain ⟨t', polled, read, rest, hread, hrest, rfl⟩ := watch_poll hs h
      have hpaced := hread.paced
      rw [List.append_nil] at hn
      have hfew : (t'.lines (file.content ++ [])).length ≤ 1000 * n := by
        rw [List.append_nil, hpaced]
        omega
      obtain ⟨hall, hrows⟩ := ih hread.stands hrest hfew
      rw [hread.reports, hread.unread, hrows]
      refine ⟨fun l hl => ?_, rfl⟩
      rcases List.mem_append.mp hl with hl | hl
      · exact hread.readable l hl
      · exact hall l hl
  | cons turn turns ih =>
    cases turn with
    | append added =>
      rw [appended_append] at hn ⊢
      exact ih (hs.append added) h hn
    | poll =>
      rw [show appended (.poll :: turns) = appended turns from rfl] at hn ⊢
      obtain ⟨t', polled, read, rest, hread, hrest, rfl⟩ := watch_poll hs h
      obtain ⟨hall, hrows⟩ := ih hread.stands hrest ((hread.fewer _).trans hn)
      rw [hread.reports, hread.unread, hrows]
      refine ⟨fun l hl => ?_, rfl⟩
      rcases List.mem_append.mp hl with hl | hl
      · exact hread.readable l hl
      · exact hall l hl

/-- The lines that are complete already stay the first when the ledger goes on. -/
theorem Stands.unread_prefix (hs : t.Stands file) (z : List UInt8) : t.unread file.content <+: t.unread (file.content ++ z) := by
  have hlines : t.lines file.content <+: t.lines (file.content ++ z) := by
    rw [lines, lines, List.drop_append_of_le_length hs.inside, Lines.complete_append]
    exact List.prefix_append ..
  exact (Lines.numbered_prefix hlines).drop _

theorem watch_returns (turns : List Turn) (hs : t.Stands file)
    (h : ∀ l ∈ t.unread (file.content ++ appended turns), Readable l.2) : ∃ rows, t.watch file turns = .ok rows := by
  induction turns generalizing t file with
  | nil => exact ⟨[], rfl⟩
  | cons turn turns ih =>
    cases turn with
    | append added =>
      rw [appended_append] at h
      exact ih (hs.append added) h
    | poll =>
      rw [show appended (.poll :: turns) = appended turns from rfl] at h
      obtain ⟨t', polled, hpoll⟩ := readLines_returns (n := 1000) fun l hl => h l ((hs.unread_prefix _).subset hl)
      obtain ⟨read, hread⟩ := readLines_reads hs hpoll
      obtain ⟨rest, hrest⟩ := ih hread.stands fun l hl => h l (hread.unread _ ▸ List.mem_append_right _ hl)
      refine ⟨polled ++ rest, ?_⟩
      rw [watch, poll_eq hs, hpoll]
      simp only [hrest]
      rfl

/-- A tail opens at the end of its file, whose last line it skips unless it is complete. -/
theorem openFile_ok (h : openFile (some file) = .ok t) : t.Stands file ∧ t.position = file.content.length
    ∧ (t.skipPartial = false → file.content.getLast? = some newline) := by
  unfold openFile at h
  cases htext : decodeSig (Lines.readline newline file.content) with
  | error e => simp [htext, bind, Except.bind] at h
  | ok text =>
    cases hheader : readRow (text.rdropWhile isSpace) with
    | error e => simp [htext, hheader, bind, Except.bind] at h
    | ok header =>
      simp only [htext, hheader, bind, Except.bind, pure, Except.pure] at h
      by_cases hcolumns : columns.all header.contains = true
      · rw [if_pos hcolumns] at h
        obtain rfl := Except.ok.inj h
        refine ⟨⟨rfl, Nat.le_refl _, rfl⟩, rfl, fun hskip => ?_⟩
        have hcontent : file.content ≠ [] := by
          intro hnil
          rw [hnil] at htext
          obtain rfl := Except.ok.inj htext
          obtain rfl := Except.ok.inj hheader
          exact absurd hcolumns (by decide)
        have hlen : file.content.length ≠ 0 := fun h0 => hcontent (List.eq_nil_of_length_eq_zero h0)
        simpa [hlen] using hskip
      · simp [hcolumns] at h

theorem fresh_of_reports (hs : t.position = file.content.length)
    (hskip : t.skipPartial = false → file.content.getLast? = some newline) {r : Nat × LedgerPayload}
    (hr : r ∈ t.reports (file.content ++ z)) :
    file.content.length ≤ r.1 ∧ ((file.content ++ z).take r.1).getLast? = some newline := by
  obtain ⟨l, hl, hreport⟩ := List.mem_filterMap.mp hr
  obtain ⟨p, -, hp⟩ := Option.map_eq_some_iff.mp hreport
  have hfst : l.1 = r.1 := congrArg Prod.fst hp
  have hmem : (l.1, l.2) ∈ Lines.numbered t.position (Lines.complete newline ((file.content ++ z).drop t.position)) :=
    List.mem_of_mem_drop hl
  obtain ⟨hle, hlast⟩ := Lines.mem_numbered_complete hmem
  rw [← hfst]
  refine ⟨hs ▸ hle, ?_⟩
  rcases hlast with heq | hlast
  · cases hp : t.skipPartial with
    | true =>
      rw [unread, hp] at hl
      exact absurd heq (Nat.ne_of_gt (Lines.lt_of_mem_drop_numbered hl))
    | false =>
      rw [heq, hs, List.take_left]
      exact hskip hp
  · exact hlast

/-- **A tail loses nothing of what is appended to its ledger if and only if each line that this completes reads as a row.** -/
theorem ledger_tail_loses_nothing (ho : openFile (some file) = .ok t) (turns : List Turn) :
    t.LosesNothing file turns ↔ ∀ l ∈ t.unread (file.content ++ appended turns), Readable l.2 := by
  obtain ⟨hs, hposition, hskip⟩ := openFile_ok ho
  constructor
  · intro h
    have hn : (t.lines (file.content ++ appended turns)).length ≤ 1000 * (t.lines (file.content ++ appended turns)).length := by
      omega
    exact (watch_complete hs (h.complete _ hn) hn).1
  · intro h
    obtain ⟨rows, hrows⟩ := watch_returns turns hs h
    refine ⟨⟨rows, hrows, watch_reports hs hrows⟩, fun n hn => ?_, fun rows' hrows' r hr => ?_⟩
    · have hpolls : appended (turns ++ List.replicate n Turn.poll) = appended turns := by
        simp [appended, Turn.added]
      obtain ⟨all, hall⟩ := watch_returns (turns ++ List.replicate n .poll) hs (hpolls ▸ h)
      rw [hall, (watch_complete hs hall hn).2]
    · exact fresh_of_reports hposition hskip ((watch_reports hs hrows').subset hr)

/-- A line of text without quotes, not blank, is read as what its commas separate. -/
theorem readable_of_plain (ha : Utf8.Ascii line) (hne : line ≠ []) (hlen : line.length ≤ 131072)
    (hplain : ∀ b ∈ line, b.toNat ≠ 34 ∧ b.toNat ≠ 10 ∧ b.toNat ≠ 13) : Readable line := by
  let text := line.map fun b => Char.ofNat b.toNat
  have hcode {b : UInt8} {c : Char} (hb : b ∈ line) (he : Char.ofNat b.toNat = c) : b.toNat = c.toNat := by
    have hvalid : b.toNat.isValidChar := Or.inl (lt_trans (ha b hb) (by decide))
    rw [← he, Char.ofNat, dif_pos hvalid]
    rfl
  have htext : Csv.Plain text := by
    intro c hc
    obtain ⟨b, hb, he⟩ := List.mem_map.mp hc
    have hnone := hplain b hb
    refine ⟨fun hq => hnone.1 ?_, fun hq => hnone.2.1 ?_, fun hq => hnone.2.2 ?_⟩
    · exact hcode hb (he.trans hq)
    · exact hcode hb (he.trans hq)
    · exact hcode hb (he.trans hq)
  have hnl : Utf8.Ascii (line ++ [newline]) := by
    intro b hb
    rcases List.mem_append.mp hb with hb | hb
    · exact ha b hb
    · rw [List.mem_singleton.mp hb]
      decide
  refine ⟨text ++ ['\n'], _, ?_, Csv.row_plain htext (by simpa [text] using hne) fun f hf => ?_, ?_⟩
  · rw [Utf8.decode?_ascii hnl, List.map_append]
    rfl
  · exact (Lines.length_le_of_mem_splitOn hf).trans (by simpa [text] using hlen)
  · simp

section Sample

def sampleLedger : TailedFile := ⟨(1, 1), Utf8.ascii "utc,kind,label,symbol,side,entry,sl,tp\ncut"⟩

def sampleRow : List UInt8 := Utf8.ascii "2026-09-09T10:00:00Z,touched,label,XAUUSD,short,2400,2410,2380,extra\n"

def sampleTurns : List Turn := [.append (Utf8.ascii " short\n"), .poll, .append (sampleRow ++ sampleRow.take 20), .poll,
  .append (sampleRow.drop 20), .poll]

theorem ledger_tail_loses_nothing_sample :
    ∃ t, openFile (some sampleLedger) = .ok t ∧ t.LosesNothing sampleLedger sampleTurns := by
  have hopen : (openFile (some sampleLedger)).toOption.any (fun t => (t.unread (sampleLedger.content ++ appended sampleTurns)).all
      fun l => (payload t.header (l.2 ++ [newline])).toOption.isSome) = true := by decide +kernel
  cases ht : openFile (some sampleLedger) with
  | error e =>
    rw [ht] at hopen
    cases hopen
  | ok t =>
    rw [ht] at hopen
    refine ⟨t, rfl, (ledger_tail_loses_nothing ht sampleTurns).mpr fun l hl => ?_⟩
    have hl' := List.all_eq_true.mp hopen l hl
    cases hp : payload t.header (l.2 ++ [newline]) with
    | error e =>
      rw [hp] at hl'
      cases hl'
    | ok p => exact payload_ok_iff.mp ⟨p, hp⟩

def blankTurns : List Turn := [.append (Utf8.ascii "\n" ++ sampleRow ++ Utf8.ascii "\n"), .poll]

/-- The poll that reads them raises, and the row is not returned. -/
theorem blank_line_stops_poll : ¬ ∀ file t, openFile (some file) = .ok t → ∀ turns, t.LosesNothing file turns := by
  intro hall
  have hopen : (openFile (some sampleLedger)).toOption.any (fun t =>
      (t.watch sampleLedger blankTurns).toOption.isNone) = true := by decide +kernel
  cases ht : openFile (some sampleLedger) with
  | error e =>
    rw [ht] at hopen
    cases hopen
  | ok t =>
    obtain ⟨rows, hrows, -⟩ := (hall sampleLedger t ht blankTurns).calm
    have hnone : (t.watch sampleLedger blankTurns).toOption.isNone = true := by simpa [ht, Except.toOption] using hopen
    rw [hrows] at hnone
    cases hnone

end Sample

end LedgerTail

end MatchTrader
