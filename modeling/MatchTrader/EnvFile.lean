import MatchTrader.P01Log
import MatchTrader.Rows

/-! The file of settings, as the launcher reads it and as it writes it back. -/

namespace EnvFile

abbrev Text := List Char

/-- Where `str.splitlines` ends a line. -/
def isBreak (c : Char) : Bool :=
  let n := c.toNat
  (10 ≤ n && n ≤ 13) || (28 ≤ n && n ≤ 30) || n = 0x85 || n = 0x2028 || n = 0x2029

/-- The byte order mark. -/
def mark : Char := '\ufeff'

/-- A text file is opened with line ends of any kind as newlines. -/
def newlines : Text → Text
  | [] => []
  | '\r' :: '\n' :: rest => '\n' :: newlines rest
  | c :: rest => (if c = '\r' then '\n' else c) :: newlines rest

/-- `read_text(encoding='utf-8-sig')`, of a file's decoded bytes. -/
def readText (file : Text) : Text := newlines (if file.head? = some mark then file.tail else file)

/-- `write_text(…, encoding='utf-8')`, on a platform whose lines end in CR LF or in LF. -/
def writeText (crlf : Bool) (text : Text) : Text := text.flatMap fun c => if crlf ∧ c = '\n' then ['\r', '\n'] else [c]

/-- `str.splitlines`, of a text without carriage returns. -/
def splitlines : Text → List Text
  | [] => []
  | c :: rest =>
    if isBreak c then [] :: splitlines rest
    else match splitlines rest with
      | [] => [[c]]
      | line :: lines => (c :: line) :: lines

/-- The lines of a file; a missing file has none. -/
def linesOf (file : Option Text) : List Text := file.elim [] fun text => splitlines (readText text)

/-- A quoted value: the same quote at both ends. -/
def quoted (value : Text) : Bool :=
  2 ≤ value.length ∧ value.head? = value.getLast? ∧ (value.head? = some '\'' ∨ value.head? = some '"')

def unquote (value : Text) : Text := if quoted value then value.tail.dropLast else value

/-- The setting on a line. -/
def entry (line : Text) : Option (Text × Text) :=
  let stripped := MatchTrader.strip line
  if stripped = [] ∨ stripped.head? = some '#' ∨ '=' ∉ stripped then none
  else some (MatchTrader.strip (stripped.takeWhile (· ≠ '=')),
    unquote (MatchTrader.strip ((stripped.dropWhile (· ≠ '=')).drop 1)))

/-- Of a key that is assigned more than once, the last value counts. -/
def settings (lines : List Text) : List (Text × Text) :=
  (lines.filterMap entry).foldl (fun values e => Rows.setItem e values) []

/-- `read_env`. -/
def readEnv (file : Option Text) : List (Text × Text) := settings (linesOf file)

/-- The key that a line assigns, as the writer sees it. -/
def lineKey (line : Text) : Option Text :=
  if '=' ∈ line ∧ (line.dropWhile MatchTrader.isSpace).head? ≠ some '#' then
    some (MatchTrader.strip (line.takeWhile (· ≠ '=')))
  else none

/-- `f'{key}={value}'`. -/
def assign (u : Text × Text) : Text := u.1 ++ '=' :: u.2

/-- The lines that are written: the first assignment of each pending key replaced, and the keys that no line has behind. -/
def rewrite : List Text → List (Text × Text) → List Text
  | [], pending => pending.map assign
  | line :: rest, pending =>
    match (lineKey line).bind fun key => Rows.lookup Prod.fst key pending with
    | some u => assign u :: rewrite rest (pending.filter fun p => p.1 ≠ u.1)
    | none => line :: rewrite rest pending

/-- `'\\n'.join(lines) + '\\n'`. -/
def ended (lines : List Text) : Text := ['\n'].intercalate lines ++ ['\n']

/-- `write_env`. -/
def writeEnv (crlf : Bool) (file : Option Text) (updates : List (Text × Text)) : Text :=
  writeText crlf (ended (rewrite (linesOf file) updates))

/-- An identifier has none of these in it. -/
structure PlainKey (key : Text) : Prop where
  nonempty : key ≠ []
  chars : ∀ c ∈ key, c ≠ '=' ∧ c ≠ '#' ∧ c ≠ mark ∧ MatchTrader.isSpace c = false

/-- No line break, and no whitespace around. -/
structure PlainValue (value : Text) : Prop where
  unbroken : ∀ c ∈ value, isBreak c = false
  stripped : MatchTrader.strip value = value

def assigns (updates : List (Text × Text)) (line : Text) : Bool := (lineKey line).any fun key => key ∈ updates.map Prod.fst

def valueIn (values : List (Text × Text)) (key : Text) : Option Text := (Rows.lookup Prod.fst key values).map Prod.snd

/-- How often a key is assigned. -/
def times (lines : List Text) (key : Text) : Nat := lines.countP fun line => lineKey line = some key

section Strip

open MatchTrader

variable {a b text : Text}

theorem dropWhile_around {p : Char → Bool} {c : Char} (hc : p c = false) (a b : Text) :
    (a ++ c :: b).dropWhile p = a.dropWhile p ++ c :: b := by
  induction a with
  | nil => simp [hc]
  | cons x a ih => by_cases hx : p x = true <;> simp [hx, ih]

theorem rdropWhile_around {p : Char → Bool} {c : Char} (hc : p c = false) (a b : Text) :
    (a ++ c :: b).rdropWhile p = a ++ c :: b.rdropWhile p := by
  have hrev : (a ++ c :: b).reverse = b.reverse ++ c :: a.reverse := by simp
  simp [List.rdropWhile, hrev, dropWhile_around hc]

theorem dropWhile_rdropWhile (p : Char → Bool) (text : Text) : (text.rdropWhile p).dropWhile p = (text.dropWhile p).rdropWhile p := by
  by_cases h : ∀ c ∈ text, p c = true
  · rw [List.rdropWhile_eq_nil_iff.mpr h, List.dropWhile_eq_nil_iff.mpr h]
    rfl
  · push Not at h
    obtain ⟨c, hc, hp⟩ := h
    obtain ⟨a, b, rfl⟩ := List.append_of_mem hc
    have hp : p c = false := Bool.not_eq_true _ ▸ hp
    rw [rdropWhile_around hp, dropWhile_around hp, dropWhile_around hp, rdropWhile_around hp]

theorem strip_dropWhile (text : Text) : strip (text.dropWhile isSpace) = strip text := by
  rw [strip, List.dropWhile_idempotent, strip]

theorem strip_rdropWhile (text : Text) : strip (text.rdropWhile isSpace) = strip text := by
  rw [strip, dropWhile_rdropWhile, List.rdropWhile_idempotent, strip]

theorem strip_assignment (a b : Text) : strip (a ++ '=' :: b) = a.dropWhile isSpace ++ '=' :: b.rdropWhile isSpace := by
  rw [strip, dropWhile_around rfl, rdropWhile_around rfl]

theorem not_mem_dropWhile {c : Char} (h : c ∉ a) : c ∉ a.dropWhile isSpace := fun hm => h ((List.dropWhile_suffix _).subset hm)

theorem takeWhile_before {c : Char} (h : c ∉ a) (b : Text) : (a ++ c :: b).takeWhile (· ≠ c) = a := by
  have hne : ∀ x ∈ a, decide (x ≠ c) = true := fun x hx => decide_eq_true fun he => h (he ▸ hx)
  rw [List.takeWhile_append_of_pos hne]
  simp

theorem dropWhile_before {c : Char} (h : c ∉ a) (b : Text) : (a ++ c :: b).dropWhile (· ≠ c) = c :: b := by
  have hne : ∀ x ∈ a, decide (x ≠ c) = true := fun x hx => decide_eq_true fun he => h (he ▸ hx)
  rw [List.dropWhile_append_of_pos hne]
  simp

end Strip

section Lines

open MatchTrader

variable {a b line : Text} {u : Text × Text}

theorem lineKey_none (h : '=' ∉ line) : lineKey line = none := if_neg fun hc => h hc.1

theorem entry_none (h : '=' ∉ line) : entry line = none := by
  have hs : '=' ∉ strip line := fun hm => h ((List.dropWhile_suffix _).subset ((List.rdropWhile_prefix _ _).subset hm))
  exact if_pos (Or.inr (Or.inr hs))

theorem lineKey_assignment (h : '=' ∉ a) (b : Text) :
    lineKey (a ++ '=' :: b) = if (a.dropWhile isSpace ++ ['=']).head? = some '#' then none else some (strip a) := by
  have hmem : '=' ∈ a ++ '=' :: b := by simp
  have hhead : ((a ++ '=' :: b).dropWhile isSpace).head? = (a.dropWhile isSpace ++ ['=']).head? := by
    rw [dropWhile_around rfl, List.head?_append, List.head?_append]
    rfl
  unfold lineKey
  rw [hhead, takeWhile_before h]
  by_cases hc : (a.dropWhile isSpace ++ ['=']).head? = some '#'
  · rw [if_pos hc, if_neg fun hh => hh.2 hc]
  · rw [if_neg hc, if_pos ⟨hmem, hc⟩]

theorem entry_assignment (h : '=' ∉ a) (b : Text) :
    entry (a ++ '=' :: b) = (lineKey (a ++ '=' :: b)).map fun key => (key, unquote (strip b)) := by
  have hhead : (strip (a ++ '=' :: b)).head? = (a.dropWhile isSpace ++ ['=']).head? := by
    rw [strip_assignment, List.head?_append, List.head?_append]
    rfl
  have hne : strip (a ++ '=' :: b) ≠ [] := by rw [strip_assignment]; simp
  have hmem : '=' ∈ strip (a ++ '=' :: b) := by rw [strip_assignment]; simp
  rw [lineKey_assignment h]
  unfold entry
  by_cases hc : (a.dropWhile isSpace ++ ['=']).head? = some '#'
  · rw [if_pos hc]
    exact if_pos (Or.inr (Or.inl (hhead.trans hc)))
  · rw [if_neg hc]
    have hno : ¬ (strip (a ++ '=' :: b) = [] ∨ (strip (a ++ '=' :: b)).head? = some '#' ∨ '=' ∉ strip (a ++ '=' :: b)) := by
      rintro (hh | hh | hh)
      · exact hne hh
      · exact hc (hhead.symm.trans hh)
      · exact hh hmem
    simp only [if_neg hno]
    rw [strip_assignment, takeWhile_before (not_mem_dropWhile h), dropWhile_before (not_mem_dropWhile h), strip_dropWhile]
    simp [strip_rdropWhile]

/-- The writer and the reader see the same keys. -/
theorem entry_key (line : Text) : (entry line).map Prod.fst = lineKey line := by
  by_cases h : '=' ∈ line
  · obtain ⟨a, b, rfl, ha⟩ := List.eq_append_cons_of_mem h
    rw [entry_assignment ha, Option.map_map]
    exact Option.map_id'
  · rw [entry_none h, lineKey_none h]
    rfl

theorem PlainKey.dropWhile {key : Text} (h : PlainKey key) : key.dropWhile isSpace = key := by
  cases key with
  | nil => rfl
  | cons c key => simp [(h.chars c List.mem_cons_self).2.2.2]

theorem PlainKey.strip {key : Text} (h : PlainKey key) : strip key = key := by
  rw [MatchTrader.strip, h.dropWhile, List.rdropWhile_eq_self_iff]
  intro hne
  simp [(h.chars _ (List.getLast_mem hne)).2.2.2]

theorem PlainKey.not_mem {key : Text} (h : PlainKey key) : '=' ∉ key := fun hm => (h.chars _ hm).1 rfl

theorem lineKey_assign (hk : PlainKey u.1) : lineKey (assign u) = some u.1 := by
  have hhead : (u.1.dropWhile isSpace ++ ['=']).head? ≠ some '#' := by
    rw [hk.dropWhile]
    obtain ⟨c, key, hkey⟩ := List.exists_cons_of_ne_nil hk.nonempty
    rw [hkey]
    simp [(hk.chars c (hkey ▸ List.mem_cons_self)).2.1]
  rw [assign, lineKey_assignment hk.not_mem, if_neg hhead, hk.strip]

theorem entry_assign (hk : PlainKey u.1) (hv : PlainValue u.2) : entry (assign u) = some (u.1, unquote u.2) := by
  have hkey := lineKey_assign hk
  rw [assign] at hkey ⊢
  rw [entry_assignment hk.not_mem, hkey, hv.stripped]
  rfl

end Lines

section Rewriting

variable {lines rest : List Text} {line key : Text} {u : Text × Text} {pending : List (Text × Text)}

theorem settings_append (lines : List Text) (line : Text) : settings (lines ++ [line])
    = (entry line).elim (settings lines) fun e => Rows.setItem e (settings lines) := by
  unfold settings
  rw [List.filterMap_append, List.foldl_append]
  cases h : entry line <;> simp [h]

theorem valueIn_append (lines rest : List Text) (key : Text) :
    valueIn (settings (lines ++ rest)) key = (valueIn (settings rest) key).or (valueIn (settings lines) key) := by
  induction rest using List.reverseRecOn with
  | nil => simp [settings, valueIn, Rows.lookup]
  | append_singleton rest line ih =>
    rw [← List.append_assoc, settings_append, settings_append]
    cases h : entry line with
    | none => exact ih
    | some e =>
      have hput (values : List (Text × Text)) : valueIn (Rows.setItem e values) key = if key = e.1 then some e.2 else valueIn values key := by
        rw [valueIn, Rows.setItem, Rows.lookup_put]
        split <;> rfl
      rw [Option.elim_some, Option.elim_some, hput, hput]
      by_cases hk : key = e.1
      · rw [if_pos hk, if_pos hk, Option.some_or]
      · rw [if_neg hk, if_neg hk]
        exact ih

theorem valueIn_cons (line : Text) (rest : List Text) (key : Text) :
    valueIn (settings (line :: rest)) key = (valueIn (settings rest) key).or (valueIn (settings [line]) key) :=
  valueIn_append [line] rest key

theorem valueIn_other (h : lineKey line ≠ some key) : valueIn (settings [line]) key = none := by
  have hkey := entry_key line
  cases he : entry line with
  | none => simp [settings, valueIn, Rows.lookup, he]
  | some e =>
    rw [he] at hkey
    have hne : e.1 ≠ key := fun hk => h (hkey.symm.trans (congrArg some hk))
    simp [settings, valueIn, Rows.lookup, Rows.setItem, Rows.put, Rows.upsert, Rows.has, he, hne]

theorem valueIn_entry {value : Text} (h : entry line = some (key, value)) : valueIn (settings [line]) key = some value := by
  simp [settings, valueIn, Rows.lookup, Rows.setItem, Rows.put, Rows.upsert, Rows.has, h]

theorem valueIn_isSome (lines : List Text) (key : Text) : (valueIn (settings lines) key).isSome = true ↔ 0 < times lines key := by
  induction lines with
  | nil => simp [settings, valueIn, Rows.lookup, times]
  | cons line rest ih =>
    rw [valueIn_cons, times, List.countP_cons]
    by_cases h : lineKey line = some key
    · have hkey := entry_key line
      rw [h] at hkey
      obtain ⟨e, he, rfl⟩ := Option.map_eq_some_iff.mp hkey
      rw [valueIn_entry he]
      simp [h]
    · rw [valueIn_other h, Option.or_none, ih]
      simp [h, times]

/-- Updates as a dictionary has them, with keys and values that may be written. -/
structure Writable (pending : List (Text × Text)) : Prop where
  nodup : (pending.map Prod.fst).Nodup
  key : ∀ u ∈ pending, PlainKey u.1
  value : ∀ u ∈ pending, PlainValue u.2

theorem Writable.filter (h : Writable pending) (p : Text × Text → Bool) : Writable (pending.filter p) where
  nodup := h.nodup.sublist (List.filter_sublist.map _)
  key u hu := h.key u (List.mem_filter.mp hu).1
  value u hu := h.value u (List.mem_filter.mp hu).1

theorem Writable.tail (h : Writable (u :: pending)) : Writable pending where
  nodup := (List.nodup_cons.mp h.nodup).2
  key v hv := h.key v (List.mem_cons_of_mem u hv)
  value v hv := h.value v (List.mem_cons_of_mem u hv)

theorem rewrite_assigned (h : lineKey line = some key) (hu : Rows.lookup Prod.fst key pending = some u) (rest : List Text) :
    rewrite (line :: rest) pending = assign u :: rewrite rest (pending.filter fun p => p.1 ≠ u.1) := by
  simp only [rewrite, h, Option.bind_some, hu]

theorem rewrite_kept (h : ∀ key, lineKey line = some key → Rows.lookup Prod.fst key pending = none) (rest : List Text) :
    rewrite (line :: rest) pending = line :: rewrite rest pending := by
  have hnone : ((lineKey line).bind fun key => Rows.lookup Prod.fst key pending) = none := by
    cases hk : lineKey line with
    | none => rfl
    | some key => exact h key hk
  simp only [rewrite, hnone]

theorem valueIn_assigned (h : Writable pending) (key : Text) : valueIn (settings (pending.map assign)) key
    = (Rows.lookup Prod.fst key pending).map fun u => unquote u.2 := by
  induction pending with
  | nil => rfl
  | cons u pending ih =>
    have hu := entry_assign (h.key u List.mem_cons_self) (h.value u List.mem_cons_self)
    have hrest := ih h.tail
    rw [List.map_cons, valueIn_cons, hrest]
    by_cases hk : u.1 = key
    · subst hk
      have hnone : Rows.lookup Prod.fst u.1 pending = none := Rows.lookup_eq_none_iff.mpr fun p hp he =>
        (List.nodup_cons.mp h.nodup).1 (he ▸ List.mem_map_of_mem hp)
      rw [hnone, valueIn_entry hu]
      simp [Rows.lookup]
    · have hother : valueIn (settings [assign u]) key = none :=
        valueIn_other fun he => hk (Option.some.inj ((lineKey_assign (h.key u List.mem_cons_self)).symm.trans he))
      rw [hother, Option.or_none]
      simp [Rows.lookup, hk]

/-- What is read of a key after the lines are rewritten: an update where at most one line had assigned the key, and else what
the last of them assigns. -/
theorem valueIn_rewrite (lines : List Text) (h : Writable pending) (key : Text) : valueIn (settings (rewrite lines pending)) key
    = (Rows.lookup Prod.fst key pending).elim (valueIn (settings lines) key) fun u =>
        if 1 < times lines key then valueIn (settings lines) key else some (unquote u.2) := by
  induction lines generalizing pending with
  | nil =>
    rw [rewrite, valueIn_assigned h]
    cases Rows.lookup Prod.fst key pending <;> simp [settings, valueIn, Rows.lookup, times]
  | cons line rest ih =>
    have htimes : times (line :: rest) key = times rest key + if lineKey line = some key then 1 else 0 := by
      rw [times, List.countP_cons, times]
      simp
    have hsome := valueIn_isSome rest key
    by_cases hassigned : ∃ k u, lineKey line = some k ∧ Rows.lookup Prod.fst k pending = some u
    · obtain ⟨k, u, hk, hu⟩ := hassigned
      obtain ⟨hmem, rfl⟩ := Rows.lookup_mem hu
      have hentry := entry_assign (h.key u hmem) (h.value u hmem)
      rw [rewrite_assigned hk hu, valueIn_cons, ih (h.filter _)]
      by_cases hkey : u.1 = key
      · subst hkey
        rw [Rows.lookup_filter_self, hu, valueIn_entry hentry, Option.elim_none, Option.elim_some, htimes, if_pos hk,
          valueIn_cons line rest]
        cases hv : valueIn (settings rest) u.1 with
        | none =>
          have hzero : times rest u.1 = 0 := by
            by_contra hne
            have hpos := hsome.mpr (Nat.pos_of_ne_zero hne)
            rw [hv] at hpos
            cases hpos
          rw [hzero, if_neg (by omega)]
          rfl
        | some x =>
          have hpos : 0 < times rest u.1 := hsome.mp (by rw [hv]; rfl)
          rw [if_pos (by omega)]
          rfl
      · have hother : lineKey line ≠ some key := fun he => hkey (Option.some.inj (hk.symm.trans he))
        have hnew : valueIn (settings [assign u]) key = none :=
          valueIn_other fun he => hkey (Option.some.inj ((lineKey_assign (h.key u hmem)).symm.trans he))
        rw [Rows.lookup_filter_ne (Ne.symm hkey), hnew, Option.or_none, valueIn_cons line rest, valueIn_other hother, Option.or_none, htimes,
          if_neg hother, Nat.add_zero]
    · have hkept : ∀ k, lineKey line = some k → Rows.lookup Prod.fst k pending = none := fun k hk => by
        by_contra hne
        obtain ⟨u, hu⟩ := Option.ne_none_iff_exists'.mp hne
        exact hassigned ⟨k, u, hk, hu⟩
      rw [rewrite_kept hkept, valueIn_cons, ih h, valueIn_cons line rest, htimes]
      by_cases hkey : lineKey line = some key
      · rw [hkept key hkey]
        rfl
      · rw [valueIn_other hkey, Option.or_none, Option.or_none, if_neg hkey, Nat.add_zero]

theorem lookup_cases (line : Text) (pending : List (Text × Text)) :
    (∃ k u, lineKey line = some k ∧ Rows.lookup Prod.fst k pending = some u)
      ∨ ∀ k, lineKey line = some k → Rows.lookup Prod.fst k pending = none := by
  by_cases h : ∃ k u, lineKey line = some k ∧ Rows.lookup Prod.fst k pending = some u
  · exact Or.inl h
  · refine Or.inr fun k hk => ?_
    by_contra hne
    obtain ⟨u, hu⟩ := Option.ne_none_iff_exists'.mp hne
    exact h ⟨k, u, hk, hu⟩

theorem unassigned_sublist {updates : List (Text × Text)} (lines : List Text)
    (h : ∀ u ∈ pending, u.1 ∈ updates.map Prod.fst) :
    (lines.filter fun line => !assigns updates line).Sublist (rewrite lines pending) := by
  induction lines generalizing pending with
  | nil => exact List.nil_sublist _
  | cons line rest ih =>
    rcases lookup_cases line pending with ⟨k, u, hk, hu⟩ | hkept
    · obtain ⟨hmem, rfl⟩ := Rows.lookup_mem hu
      have hassigns : assigns updates line = true := by
        rw [assigns, hk]
        exact decide_eq_true (h u hmem)
      rw [rewrite_assigned hk hu, List.filter_cons_of_neg (by simp [hassigns])]
      exact (ih fun v hv => h v (List.mem_filter.mp hv).1).cons (assign u)
    · rw [rewrite_kept hkept]
      by_cases hassigns : assigns updates line = true
      · rw [List.filter_cons_of_neg (by simp [hassigns])]
        exact (ih h).cons line
      · rw [List.filter_cons_of_pos (by simpa using hassigns)]
        exact (ih h).cons_cons line

theorem rewrite_assign (h : Writable pending) : rewrite (pending.map assign) pending = pending.map assign := by
  induction pending with
  | nil => rfl
  | cons u pending ih =>
    have hself : Rows.lookup Prod.fst u.1 (u :: pending) = some u := by simp [Rows.lookup]
    have hrest : (u :: pending).filter (fun p => p.1 ≠ u.1) = pending := by
      rw [List.filter_cons_of_neg (by simp), List.filter_eq_self]
      intro p hp
      exact decide_eq_true fun he => (List.nodup_cons.mp h.nodup).1 (he ▸ List.mem_map_of_mem hp)
    rw [List.map_cons, rewrite_assigned (lineKey_assign (h.key u List.mem_cons_self)) hself, hrest, ih h.tail]

theorem rewrite_rewrite (lines : List Text) (h : Writable pending) : rewrite (rewrite lines pending) pending = rewrite lines pending := by
  induction lines generalizing pending with
  | nil => exact rewrite_assign h
  | cons line rest ih =>
    rcases lookup_cases line pending with ⟨k, u, hk, hu⟩ | hkept
    · obtain ⟨hmem, rfl⟩ := Rows.lookup_mem hu
      rw [rewrite_assigned hk hu, rewrite_assigned (lineKey_assign (h.key u hmem)) hu, ih (h.filter _)]
    · rw [rewrite_kept hkept, rewrite_kept hkept, ih h]

def Unbroken (line : Text) : Prop := ∀ c ∈ line, isBreak c = false

theorem isSpace_of_isBreak {c : Char} (h : isBreak c = true) : MatchTrader.isSpace c = true := by
  simp only [isBreak, MatchTrader.isSpace, Bool.or_eq_true, Bool.and_eq_true, decide_eq_true_eq] at h ⊢
  omega

theorem unbroken_assign (hk : PlainKey u.1) (hv : PlainValue u.2) : Unbroken (assign u) := by
  intro c hc
  rcases List.mem_append.mp hc with hc | hc
  · by_contra hb
    have hspace := isSpace_of_isBreak (Bool.not_eq_false _ ▸ hb)
    rw [(hk.chars c hc).2.2.2] at hspace
    cases hspace
  · rcases List.mem_cons.mp hc with rfl | hc
    · rfl
    · exact hv.unbroken c hc

theorem unbroken_rewrite (hl : ∀ line ∈ lines, Unbroken line) (h : Writable pending) : ∀ line ∈ rewrite lines pending, Unbroken line := by
  induction lines generalizing pending with
  | nil =>
    intro line hline
    obtain ⟨u, hu, rfl⟩ := List.mem_map.mp hline
    exact unbroken_assign (h.key u hu) (h.value u hu)
  | cons line rest ih =>
    have hrest : ∀ x ∈ rest, Unbroken x := fun x hx => hl x (List.mem_cons_of_mem line hx)
    intro x hx
    rcases lookup_cases line pending with ⟨k, u, hk, hu⟩ | hkept
    · obtain ⟨hmem, rfl⟩ := Rows.lookup_mem hu
      rw [rewrite_assigned hk hu] at hx
      rcases List.mem_cons.mp hx with rfl | hx
      · exact unbroken_assign (h.key u hmem) (h.value u hmem)
      · exact ih hrest (h.filter _) x hx
    · rw [rewrite_kept hkept] at hx
      rcases List.mem_cons.mp hx with rfl | hx
      · exact hl x List.mem_cons_self
      · exact ih hrest h x hx

end Rewriting

section Files

variable {text line : Text} {lines : List Text} {crlf : Bool}

theorem unbroken_splitlines (text : Text) : ∀ line ∈ splitlines text, Unbroken line := by
  induction text with
  | nil => exact fun _ h => absurd h List.not_mem_nil
  | cons c rest ih =>
    unfold splitlines
    by_cases hc : isBreak c = true
    · rw [if_pos hc]
      intro line hline
      rcases List.mem_cons.mp hline with rfl | hline
      · exact fun _ h => absurd h List.not_mem_nil
      · exact ih line hline
    · rw [if_neg hc]
      have hc : isBreak c = false := Bool.not_eq_true _ ▸ hc
      cases hrest : splitlines rest with
      | nil => simp [Unbroken, hc]
      | cons first lines =>
        rw [hrest] at ih
        intro line hline
        rcases List.mem_cons.mp hline with rfl | hline
        · intro x hx
          rcases List.mem_cons.mp hx with rfl | hx
          · exact hc
          · exact ih first List.mem_cons_self x hx
        · exact ih line (List.mem_cons_of_mem first hline)

theorem splitlines_line (h : Unbroken line) (rest : Text) : splitlines (line ++ '\n' :: rest) = line :: splitlines rest := by
  induction line with
  | nil => rfl
  | cons c line ih =>
    have hc : isBreak c = false := h c List.mem_cons_self
    rw [List.cons_append, splitlines, hc, if_neg Bool.false_ne_true, ih fun x hx => h x (List.mem_cons_of_mem c hx)]

theorem ended_cons (line next : Text) (lines : List Text) : ended (line :: next :: lines) = line ++ '\n' :: ended (next :: lines) := by
  simp [ended, List.intercalate]

theorem splitlines_ended (h : ∀ line ∈ lines, Unbroken line) (hne : lines ≠ []) : splitlines (ended lines) = lines := by
  induction lines with
  | nil => exact absurd rfl hne
  | cons line lines ih =>
    have hline := h line List.mem_cons_self
    cases lines with
    | nil =>
      have hone : ended [line] = line ++ '\n' :: [] := by simp [ended, List.intercalate]
      rw [hone, splitlines_line hline]
      rfl
    | cons next lines =>
      rw [ended_cons, splitlines_line hline, ih (fun x hx => h x (List.mem_cons_of_mem line hx)) (List.cons_ne_nil _ _)]

theorem newlines_writeText (h : '\r' ∉ text) : newlines (writeText crlf text) = text := by
  induction text with
  | nil => rfl
  | cons c text ih =>
    have hc : c ≠ '\r' := fun he => h (he ▸ List.mem_cons_self)
    have hrest := ih fun hm => h (List.mem_cons_of_mem c hm)
    rw [writeText, List.flatMap_cons]
    by_cases hn : crlf = true ∧ c = '\n'
    · rw [if_pos hn, hn.2]
      simpa [newlines, writeText] using hrest
    · rw [if_neg hn]
      have hstep : newlines (c :: writeText crlf text) = c :: newlines (writeText crlf text) := by
        rw [newlines, if_neg hc]
        intro rest he
        exact absurd he hc
      exact hstep.trans (congrArg (c :: ·) hrest)

theorem head_writeText (crlf : Bool) (text : Text) : (writeText crlf text).head? = some mark ↔ text.head? = some mark := by
  cases text with
  | nil => simp [writeText]
  | cons c text =>
    by_cases hn : crlf = true ∧ c = '\n'
    · simp [writeText, hn.1, hn.2, mark]
    · simp [writeText, hn]

theorem ended_one (line : Text) : ended [line] = line ++ ['\n'] := by simp [ended, List.intercalate]

theorem Unbroken.not_return (h : Unbroken line) : '\r' ∉ line := fun hm => absurd (h _ hm) (by decide)

theorem not_mem_ended (h : ∀ line ∈ lines, Unbroken line) : '\r' ∉ ended lines := by
  induction lines with
  | nil => decide
  | cons line lines ih =>
    have hline := (h line List.mem_cons_self).not_return
    cases lines with
    | nil =>
      rw [ended_one]
      simp [hline]
    | cons next lines =>
      rw [ended_cons]
      simp [hline, ih fun x hx => h x (List.mem_cons_of_mem line hx)]

/-- The first line begins with the mark. -/
def Marked (lines : List Text) : Prop := ∃ line rest, lines = (mark :: line) :: rest

theorem marked_splitlines (text : Text) : Marked (splitlines text) ↔ text.head? = some mark := by
  cases text with
  | nil => simp [Marked, splitlines]
  | cons c rest =>
    by_cases hc : isBreak c = true
    · have hne : c ≠ mark := by
        rintro rfl
        exact absurd hc (by decide)
      simp [Marked, splitlines, hc, hne]
    · rw [splitlines, if_neg hc]
      cases splitlines rest with
      | nil => simp [Marked]
      | cons line lines => simp [Marked]

theorem ended_marked (line : Text) (rest : List Text) : ended ((mark :: line) :: rest) = mark :: ended (line :: rest) := by
  cases rest with
  | nil => rw [ended_one, ended_one, List.cons_append]
  | cons next rest => rw [ended_cons, ended_cons, List.cons_append]

theorem head_ended (lines : List Text) : (ended lines).head? = some mark ↔ Marked lines := by
  cases lines with
  | nil => simp [ended, Marked, mark]
  | cons line rest =>
    cases line with
    | nil => cases rest <;> simp [ended_one, ended_cons, Marked, mark]
    | cons c line =>
      have hhead : (ended ((c :: line) :: rest)).head? = some c := by cases rest <;> simp [ended_one, ended_cons]
      rw [hhead]
      simp [Marked]

/-- What was written is read, line by line, unless the mark is taken off it. -/
theorem linesOf_written (h : ∀ line ∈ lines, Unbroken line) (hm : ¬ Marked lines) :
    linesOf (some (writeText crlf (ended lines))) = if lines = [] then [[]] else lines := by
  have hread : readText (writeText crlf (ended lines)) = ended lines := by
    have hhead : (writeText crlf (ended lines)).head? ≠ some mark := fun he =>
      hm ((head_ended lines).mp ((head_writeText crlf _).mp he))
    rw [readText, if_neg hhead, newlines_writeText (not_mem_ended h)]
  rw [linesOf, Option.elim_some, hread]
  by_cases hnil : lines = []
  · rw [if_pos hnil, hnil]
    rfl
  · rw [if_neg hnil, splitlines_ended h hnil]

theorem linesOf_marked {rest : List Text} (h : ∀ x ∈ (mark :: line) :: rest, Unbroken x) :
    linesOf (some (writeText crlf (ended ((mark :: line) :: rest)))) = line :: rest := by
  have hlines : ∀ x ∈ line :: rest, Unbroken x := by
    intro x hx
    rcases List.mem_cons.mp hx with rfl | hx
    · exact fun c hc => h _ List.mem_cons_self c (List.mem_cons_of_mem mark hc)
    · exact h x (List.mem_cons_of_mem _ hx)
  have hwritten : writeText crlf (mark :: ended (line :: rest)) = mark :: writeText crlf (ended (line :: rest)) := by
    simp [writeText, mark]
  rw [ended_marked, hwritten, linesOf, Option.elim_some, readText, List.head?_cons, if_pos rfl, List.tail_cons,
    newlines_writeText (not_mem_ended hlines), splitlines_ended hlines (List.cons_ne_nil _ _)]

end Files

section Agreement

variable {crlf : Bool} {file : Option Text} {updates : List (Text × Text)} {line : Text} {rest lines : List Text}

/-- What the reader and the writer owe one another. -/
structure Agrees (crlf : Bool) (file : Option Text) (updates : List (Text × Text)) : Prop where
  read : ∀ key, valueIn (readEnv (some (writeEnv crlf file updates))) key
    = ((Rows.lookup Prod.fst key updates).map Prod.snd).or (valueIn (readEnv file) key)
  kept : ((linesOf file).filter fun line => !assigns updates line).Sublist (linesOf (some (writeEnv crlf file updates)))
  again : writeEnv crlf (some (writeEnv crlf file updates)) updates = writeEnv crlf file updates

/-- The last line that assigns a key gives it a value. -/
def LastSets (lines : List Text) (key value : Text) : Prop :=
  ∃ before line after, lines = before ++ line :: after ∧ entry line = some (key, value) ∧ ∀ l ∈ after, lineKey l ≠ some key

/-- No second mark begins the file; of a key that is assigned more than once, the last line has the new value already, and the new
value of any other key is not quoted. -/
def Safe (file : Option Text) (updates : List (Text × Text)) : Prop :=
  ¬ Marked (linesOf file) ∧ ∀ u ∈ updates,
    if 1 < times (linesOf file) u.1 then LastSets (linesOf file) u.1 u.2 else quoted u.2 = false

theorem lastSets_append {key value : Text} : LastSets (lines ++ [line]) key value
    ↔ entry line = some (key, value) ∨ LastSets lines key value ∧ lineKey line ≠ some key := by
  constructor
  · rintro ⟨before, l, after, he, hl, hafter⟩
    rcases List.eq_nil_or_concat' after with rfl | ⟨after, last, rfl⟩
    · have hlast : [line] = [l] := List.append_inj_right' he rfl
      rw [(List.cons.inj hlast).1]
      exact Or.inl hl
    · rw [← List.cons_append, ← List.append_assoc] at he
      have hlast : [line] = [last] := List.append_inj_right' he rfl
      rw [(List.cons.inj hlast).1]
      refine Or.inr ⟨⟨before, l, after, List.append_inj_left' he rfl, hl, fun x hx => ?_⟩, hafter last (by simp)⟩
      exact hafter x (List.mem_append_left _ hx)
  · rintro (hl | ⟨⟨before, l, after, rfl, hl, hafter⟩, hother⟩)
    · exact ⟨lines, line, [], rfl, hl, fun _ h => absurd h List.not_mem_nil⟩
    · refine ⟨before, l, after ++ [line], by simp, hl, fun x hx => ?_⟩
      rcases List.mem_append.mp hx with hx | hx
      · exact hafter x hx
      · exact List.mem_singleton.mp hx ▸ hother

theorem valueIn_eq_some {key value : Text} : valueIn (settings lines) key = some value ↔ LastSets lines key value := by
  induction lines using List.reverseRecOn with
  | nil =>
    refine iff_of_false nofun ?_
    rintro ⟨before, l, after, he, -⟩
    simp at he
  | append_singleton lines line ih =>
    rw [valueIn_append, lastSets_append, ← ih]
    by_cases hk : lineKey line = some key
    · have hkey := entry_key line
      rw [hk] at hkey
      obtain ⟨e, he, rfl⟩ := Option.map_eq_some_iff.mp hkey
      rw [valueIn_entry he, Option.some_or, he]
      simp [hk, Prod.ext_iff]
    · have hne : entry line ≠ some (key, value) := fun he => hk (by rw [← entry_key line, he]; rfl)
      rw [valueIn_other hk, Option.none_or]
      simp [hk, hne]

theorem unquote_eq_self (value : Text) : unquote value = value ↔ quoted value = false := by
  unfold unquote
  by_cases h : quoted value = true
  · rw [if_pos h, h]
    constructor
    · intro he
      have hlen := congrArg List.length he
      have htwo : 2 ≤ value.length := by
        simp only [quoted, decide_eq_true_eq] at h
        exact h.1
      simp only [List.length_dropLast, List.length_tail] at hlen
      omega
    · exact nofun
  · rw [if_neg h]
    simp [h]

theorem marked_unassigned (h : Writable updates) :
    ∀ k, lineKey (mark :: line) = some k → Rows.lookup Prod.fst k updates = none := by
  intro k hk
  by_contra hne
  obtain ⟨u, hu⟩ := Option.ne_none_iff_exists'.mp hne
  obtain ⟨hmem, rfl⟩ := Rows.lookup_mem hu
  by_cases heq : '=' ∈ line
  · obtain ⟨a, b, rfl, ha⟩ := List.eq_append_cons_of_mem heq
    have ha' : '=' ∉ mark :: a := by simp [mark, ha]
    have hstrip : MatchTrader.strip (mark :: a) = mark :: a.rdropWhile MatchTrader.isSpace := by
      have hspace : MatchTrader.isSpace mark = false := by decide
      rw [MatchTrader.strip, List.dropWhile_cons_of_neg (by rw [hspace]; exact Bool.false_ne_true)]
      exact rdropWhile_around hspace [] a
    rw [← List.cons_append, lineKey_assignment ha', hstrip] at hk
    split at hk
    · cases hk
    · have hin : mark ∈ u.1 := Option.some.inj hk ▸ List.mem_cons_self
      exact ((h.key u hmem).chars mark hin).2.2.1 rfl
  · rw [lineKey_none (by simp [mark, heq])] at hk
    cases hk

theorem not_marked_assign {u : Text × Text} (h : PlainKey u.1) (rest : List Text) : ¬ Marked (assign u :: rest) := by
  rintro ⟨line, lines, he⟩
  obtain ⟨c, key, hkey⟩ := List.exists_cons_of_ne_nil h.nonempty
  have hc : c ≠ mark := (h.chars c (hkey ▸ List.mem_cons_self)).2.2.1
  have hfirst : assign u = mark :: line := (List.cons.inj he).1
  rw [assign, hkey] at hfirst
  exact hc (List.cons.inj hfirst).1

theorem marked_rewrite (h : Writable updates) (lines : List Text) : Marked (rewrite lines updates) ↔ Marked lines := by
  cases lines with
  | nil =>
    have hno : ¬ Marked (rewrite [] updates) := by
      rw [rewrite]
      cases updates with
      | nil => exact nofun
      | cons u updates => exact not_marked_assign (h.key u List.mem_cons_self) _
    exact iff_of_false hno nofun
  | cons line rest =>
    rcases lookup_cases line updates with ⟨k, u, hk, hu⟩ | hkept
    · obtain ⟨hmem, rfl⟩ := Rows.lookup_mem hu
      rw [rewrite_assigned hk hu]
      refine iff_of_false (not_marked_assign (h.key u hmem) _) ?_
      rintro ⟨l, ls, he⟩
      cases he
      rw [marked_unassigned h _ hk] at hu
      cases hu
    · rw [rewrite_kept hkept]
      constructor <;> (rintro ⟨l, ls, he⟩; cases he; exact ⟨_, _, rfl⟩)

theorem unbroken_linesOf (file : Option Text) : ∀ line ∈ linesOf file, Unbroken line := by
  cases file with
  | none => exact fun _ h => absurd h List.not_mem_nil
  | some text => exact unbroken_splitlines _

theorem assign_ne_marked {u : Text × Text} (h : PlainKey u.1) : assign u ≠ mark :: line := fun he =>
  not_marked_assign h [] ⟨line, [], by rw [he]⟩

theorem count_rewrite (h : Writable updates) (lines : List Text) : (rewrite lines updates).count (mark :: line) ≤ lines.count (mark :: line) := by
  induction lines generalizing updates with
  | nil =>
    rw [rewrite, List.count_eq_zero.mpr]
    · exact Nat.zero_le _
    · intro hm
      obtain ⟨u, hu, he⟩ := List.mem_map.mp hm
      exact assign_ne_marked (h.key u hu) he
  | cons first rest ih =>
    rcases lookup_cases first updates with ⟨k, u, hk, hu⟩ | hkept
    · obtain ⟨hmem, rfl⟩ := Rows.lookup_mem hu
      rw [rewrite_assigned hk hu, List.count_cons_of_ne (assign_ne_marked (h.key u hmem))]
      exact (ih (h.filter _)).trans (List.count_le_count_cons)
    · rw [rewrite_kept hkept, List.count_cons, List.count_cons]
      exact Nat.add_le_add_right (ih h) _

theorem marked_not_assigns (h : Writable updates) : assigns updates (mark :: line) = false := by
  unfold assigns
  cases hk : lineKey (mark :: line) with
  | none => rfl
  | some k =>
    have hnone := Rows.lookup_eq_none_iff.mp (marked_unassigned h k hk)
    refine decide_eq_false fun hm => ?_
    obtain ⟨u, hu, he⟩ := List.mem_map.mp hm
    exact hnone u hu he

/-- The first line of a file with a second mark loses it when the file is written and read. -/
theorem not_kept (h : Writable updates) (hm : Marked (linesOf file)) :
    ¬ ((linesOf file).filter fun line => !assigns updates line).Sublist (linesOf (some (writeEnv crlf file updates))) := by
  have hout := unbroken_rewrite (unbroken_linesOf file) h
  obtain ⟨line, rest, hlines⟩ := hm
  have hrewrite : rewrite (linesOf file) updates = (mark :: line) :: rewrite rest updates := by
    rw [hlines, rewrite_kept (marked_unassigned h)]
  rw [writeEnv, hrewrite, linesOf_marked (hrewrite ▸ hout)]
  intro hsub
  have hcount := hsub.count_le (mark :: line)
  have hne : line ≠ mark :: line := fun he => absurd (congrArg List.length he) (by simp)
  have hfilter : ((linesOf file).filter fun line => !assigns updates line).count (mark :: line) = (linesOf file).count (mark :: line) :=
    List.count_filter (by rw [marked_not_assigns h]; rfl)
  rw [hfilter, hlines, List.count_cons_self, List.count_cons_of_ne hne] at hcount
  have hrest : (rewrite rest updates).count (mark :: line) ≤ rest.count (mark :: line) := count_rewrite h rest
  omega

theorem read_written (h : Writable updates) (hm : ¬ Marked (linesOf file)) (key : Text) :
    valueIn (readEnv (some (writeEnv crlf file updates))) key
      = (Rows.lookup Prod.fst key updates).elim (valueIn (readEnv file) key) fun u =>
          if 1 < times (linesOf file) key then valueIn (readEnv file) key else some (unquote u.2) := by
  have hlines : linesOf (some (writeEnv crlf file updates))
      = if rewrite (linesOf file) updates = [] then [[]] else rewrite (linesOf file) updates :=
    linesOf_written (unbroken_rewrite (unbroken_linesOf file) h) fun hr => hm ((marked_rewrite h _).mp hr)
  rw [readEnv, hlines, readEnv, ← valueIn_rewrite _ h]
  by_cases hnil : rewrite (linesOf file) updates = []
  · rw [if_pos hnil, hnil]
    rfl
  · rw [if_neg hnil]

/-- The new settings are read over the old ones when a key that is assigned more than once has its new value already and no other
new value is quoted. -/
theorem reads_iff (h : Writable updates) (hm : ¬ Marked (linesOf file)) :
    (∀ key, valueIn (readEnv (some (writeEnv crlf file updates))) key
      = ((Rows.lookup Prod.fst key updates).map Prod.snd).or (valueIn (readEnv file) key))
    ↔ ∀ u ∈ updates, if 1 < times (linesOf file) u.1 then LastSets (linesOf file) u.1 u.2 else quoted u.2 = false := by
  have hfound {u : Text × Text} (hu : u ∈ updates) : Rows.lookup Prod.fst u.1 updates = some u := Rows.lookup_of_mem h.nodup hu
  constructor
  · intro hread u hu
    have hkey := hread u.1
    rw [read_written h hm, hfound hu, Option.elim_some, Option.map_some, Option.some_or] at hkey
    by_cases hmany : 1 < times (linesOf file) u.1
    · rw [if_pos hmany] at hkey ⊢
      exact valueIn_eq_some.mp hkey
    · rw [if_neg hmany] at hkey ⊢
      exact (unquote_eq_self u.2).mp (Option.some.inj hkey)
  · intro hsafe key
    rw [read_written h hm]
    cases hl : Rows.lookup Prod.fst key updates with
    | none => rfl
    | some u =>
      obtain ⟨hu, rfl⟩ := Rows.lookup_mem hl
      have hu := hsafe u hu
      rw [Option.elim_some, Option.map_some, Option.some_or]
      by_cases hmany : 1 < times (linesOf file) u.1
      · rw [if_pos hmany] at hu ⊢
        exact valueIn_eq_some.mpr hu
      · rw [if_neg hmany] at hu ⊢
        exact congrArg some ((unquote_eq_self u.2).mpr hu)

theorem written_again (h : Writable updates) (hm : ¬ Marked (linesOf file)) :
    writeEnv crlf (some (writeEnv crlf file updates)) updates = writeEnv crlf file updates := by
  have hlines : linesOf (some (writeEnv crlf file updates))
      = if rewrite (linesOf file) updates = [] then [[]] else rewrite (linesOf file) updates :=
    linesOf_written (unbroken_rewrite (unbroken_linesOf file) h) fun hr => hm ((marked_rewrite h _).mp hr)
  have hagain : writeEnv crlf (some (writeEnv crlf file updates)) updates
      = writeText crlf (ended (rewrite (if rewrite (linesOf file) updates = [] then [[]] else rewrite (linesOf file) updates) updates)) := by
    rw [← hlines]
    rfl
  rw [hagain]
  by_cases hnil : rewrite (linesOf file) updates = []
  · have hempty : updates = [] := by
      cases hl : linesOf file with
      | nil =>
        rw [hl] at hnil
        exact List.map_eq_nil_iff.mp hnil
      | cons line rest =>
        rcases lookup_cases line updates with ⟨k, u, hk, hu⟩ | hkept
        · rw [hl, rewrite_assigned hk hu] at hnil
          cases hnil
        · rw [hl, rewrite_kept hkept] at hnil
          cases hnil
    rw [if_pos hnil, writeEnv, hnil, hempty]
    rfl
  · rw [if_neg hnil, rewrite_rewrite _ h]
    rfl

/-- The reader and the writer agree on a file and its updates when, and only when, these are safe. -/
theorem env_agrees_iff (h : Writable updates) : Agrees crlf file updates ↔ Safe file updates := by
  constructor
  · intro ha
    have hm : ¬ Marked (linesOf file) := fun hm => not_kept h hm ha.kept
    exact ⟨hm, (reads_iff h hm).mp ha.read⟩
  · rintro ⟨hm, hu⟩
    refine ⟨(reads_iff h hm).mpr hu, ?_, written_again h hm⟩
    have hkeys : ∀ u ∈ updates, u.1 ∈ updates.map Prod.fst := fun _ hu => List.mem_map_of_mem hu
    have hsub := unassigned_sublist (linesOf file) hkeys
    have hlines : linesOf (some (writeEnv crlf file updates))
        = if rewrite (linesOf file) updates = [] then [[]] else rewrite (linesOf file) updates :=
      linesOf_written (unbroken_rewrite (unbroken_linesOf file) h) fun hr => hm ((marked_rewrite h _).mp hr)
    rw [hlines]
    by_cases hnil : rewrite (linesOf file) updates = []
    · rw [hnil] at hsub
      rw [if_pos hnil, List.sublist_nil.mp hsub]
      exact List.nil_sublist _
    · rw [if_neg hnil]
      exact hsub

end Agreement

section Sample

def settingsFile : Option Text := some "# account\nUSER=me\nUSER=you\n".toList

theorem writable_one {key value : Text} (hk : PlainKey key) (hv : PlainValue value) : Writable [(key, value)] where
  nodup := List.nodup_singleton key
  key _ hu := List.mem_singleton.mp hu ▸ hk
  value _ hu := List.mem_singleton.mp hu ▸ hv

theorem forall_of_all {p : Char → Prop} [DecidablePred p] {text : Text} (h : (text.all fun c => p c) = true) : ∀ c ∈ text, p c :=
  fun c hc => of_decide_eq_true (List.all_eq_true.mp h c hc)

theorem writable_password : Writable [("PASSWORD".toList, "a b".toList)] :=
  writable_one ⟨by decide, forall_of_all (by decide)⟩ ⟨forall_of_all (by decide), by decide⟩

theorem env_agrees_iff_password : Writable [("PASSWORD".toList, "a b".toList)]
    ∧ (Agrees true settingsFile [("PASSWORD".toList, "a b".toList)] ↔ Safe settingsFile [("PASSWORD".toList, "a b".toList)]) :=
  ⟨writable_password, env_agrees_iff writable_password⟩

/-- A quoted password loses its quotes, and of a key that is assigned twice the old value is read. -/
theorem env_disagrees :
    (¬ ∀ key, valueIn (readEnv (some (writeEnv false (some []) [("PASSWORD".toList, "'secret'".toList)]))) key
        = ((Rows.lookup Prod.fst key [("PASSWORD".toList, "'secret'".toList)]).map Prod.snd).or (valueIn (readEnv (some [])) key))
      ∧ ¬ ∀ key, valueIn (readEnv (some (writeEnv false settingsFile [("USER".toList, "x".toList)]))) key
        = ((Rows.lookup Prod.fst key [("USER".toList, "x".toList)]).map Prod.snd).or (valueIn (readEnv settingsFile) key) := by
  constructor
  · intro h
    exact absurd (h "PASSWORD".toList) (by decide +kernel)
  · intro h
    exact absurd (h "USER".toList) (by decide +kernel)

end Sample

end EnvFile
