import MatchTrader.ExactSums
import MatchTrader.P01Log
import MatchTrader.Store

/-! The closed trades of an account over an interval: every closing execution once. The record of
copied trades keys the same executions in its own way, and the two keys part where the broker names
neither the execution nor its order. -/

namespace MatchTrader

/-- A closed trade with all that the history shows of it; values the model does not type are kept as their text. -/
structure HistoryRecord extends ClosedTrade where
  closePrice : Decimal
  profit : Decimal
  netProfit : Decimal
  commission : Option Decimal := none
  swap : Option Decimal := none
  stopLoss : Option String := none
  takeProfit : Option String := none
deriving DecidableEq

structure HistoryApi where
  accountId : String
  closedPositions : Except Exc (List HistoryRecord)
  /-- The currency of the account's balance. -/
  balance : Except Exc String

structure HistorySummary where
  closed : Nat
  wins : Nat
  losses : Nat
  breakevens : Nat
  netProfit : String
deriving DecidableEq

structure History where
  accountId : String
  currency : String
  from_ : String
  to_ : String
  updatedAt : String
  operations : List HistoryRecord
  summary : HistorySummary
deriving DecidableEq

namespace History

/-- `row.get('uid') or (row['id'], row.get('closingOrderID'), row['time'])`. -/
def key (r : HistoryRecord) : String ⊕ (String × Option String × String) :=
  match r.uid.filter (· ≠ "") with
  | some uid => .inl uid
  | none => .inr (r.id, r.closingOrderID, r.time)

def conflicting : Exc := .value "Broker returned conflicting close records"

section

variable [LogHost] {from_ to_ : ZonedTime} {rows more records : List HistoryRecord} {r q : HistoryRecord}

/-- `datetime.fromisoformat(row['time'].replace('Z', '+00:00'))`. -/
def closedAt (r : HistoryRecord) : Except Exc ZonedTime :=
  match readStamp r.time.toList with
  | none => .error (.value "Invalid isoformat string")
  | some (.inl _) => .error (.value "Broker returned a close timestamp without timezone")
  | some (.inr t) => .ok t

/-- One turn of the loop; the rows are also what `identities` has, by their keys. -/
def admitRow (from_ to_ : ZonedTime) (rows : List HistoryRecord) (r : HistoryRecord) : Except Exc (List HistoryRecord) := do
  let closed ← closedAt r
  if from_.instant ≤ closed.instant ∧ closed.instant < to_.instant then
    match Rows.lookup key (key r) rows with
    | some old => if old ≠ r then .error conflicting else .ok rows
    | none => .ok (rows ++ [r])
  else .ok rows

/-- The newest first; rows of one instant keep their order. -/
def newestFirst (rows : List HistoryRecord) : List HistoryRecord :=
  rows.insertionSort fun q r => (closedAt r).toOption.elim 0 ZonedTime.instant ≤ (closedAt q).toOption.elim 0 ZonedTime.instant

def summarize (rows : List HistoryRecord) (total : Decimal) : HistorySummary where
  closed := rows.length
  wins := rows.countP fun r => 0 < r.netProfit
  losses := rows.countP fun r => r.netProfit < 0
  breakevens := rows.countP fun r => r.netProfit.same 0
  netProfit := total.toString

def connected (api : Option HistoryApi) (accountId : String) : Except Exc HistoryApi :=
  match api with
  | none => .error (.value "Connect the selected account before loading closed trades")
  | some api =>
    if accountId = "" ∨ api.accountId ≠ accountId then
      .error (.value "Connect the selected account before loading closed trades")
    else .ok api

def day : Int := 86400 * 1000000

/-- `read_history(api, account_id, payload)`, where the payload's interval has been read. -/
def readHistory (api : Option HistoryApi) (accountId : String) (from_ to_ : ZonedTime) (now : String) : Except Exc History := do
  raiseIf (to_.instant ≤ from_.instant) (Exc.value "from must precede to")
  raiseIf (93 * day < to_.instant - from_.instant) (Exc.value "Choose a date range of at most 93 days")
  let api ← connected api accountId
  let records ← api.closedPositions
  let rows ← records.foldlM (admitRow from_ to_) []
  let rows := newestFirst rows
  let currency ← api.balance
  let total ← arith (Decimal.sum (rows.map HistoryRecord.netProfit) 0)
  return { accountId, currency, from_ := from_.isoformat, to_ := to_.isoformat, updatedAt := now, operations := rows
           summary := summarize rows total }

/-- The record is of the interval. -/
def Inside (from_ to_ : ZonedTime) (r : HistoryRecord) : Prop :=
  ∃ t, closedAt r = .ok t ∧ from_.instant ≤ t.instant ∧ t.instant < to_.instant

theorem closedAt_ne_conflicting : closedAt r ≠ .error conflicting := by
  unfold closedAt
  split
  · decide
  · decide
  · exact nofun

/-- What a turn can do: the record is not of the interval, is there already, or is added. -/
theorem admit_ok (h : admitRow from_ to_ rows r = .ok more) : (¬ Inside from_ to_ r ∧ more = rows)
    ∨ (Inside from_ to_ r ∧ r ∈ rows ∧ more = rows)
    ∨ (Inside from_ to_ r ∧ (∀ q ∈ rows, key q ≠ key r) ∧ more = rows ++ [r]) := by
  obtain ⟨t, ht, hrest⟩ := bind_eq_ok.mp h
  split at hrest
  · next hin =>
    have hinside : Inside from_ to_ r := ⟨t, ht, hin⟩
    cases hl : Rows.lookup key (key r) rows with
    | some old =>
      simp only [hl] at hrest
      split at hrest
      · cases hrest
      · next he =>
        obtain rfl := not_not.mp he
        exact Or.inr (Or.inl ⟨hinside, (Rows.lookup_mem hl).1, (Except.ok.inj hrest).symm⟩)
    | none =>
      simp only [hl] at hrest
      exact Or.inr (Or.inr ⟨hinside, Rows.lookup_eq_none_iff.mp hl, (Except.ok.inj hrest).symm⟩)
  · next hout =>
    refine Or.inl ⟨?_, (Except.ok.inj hrest).symm⟩
    rintro ⟨u, hu, hin⟩
    obtain rfl := Except.ok.inj (ht.symm.trans hu)
    exact hout hin

theorem admit_conflict (h : admitRow from_ to_ rows r = .error conflicting) :
    Inside from_ to_ r ∧ ∃ old ∈ rows, key old = key r ∧ old ≠ r := by
  unfold admitRow at h
  cases ht : closedAt r with
  | error e =>
    rw [ht] at h
    have he : e = conflicting := Except.error.inj h
    rw [he] at ht
    exact absurd ht closedAt_ne_conflicting
  | ok t =>
    rw [ht] at h
    simp only [bind, Except.bind] at h
    split at h
    · next hin =>
      cases hl : Rows.lookup key (key r) rows with
      | some old =>
        simp only [hl] at h
        split at h
        · next hne => exact ⟨⟨t, ht, hin⟩, old, (Rows.lookup_mem hl).1, (Rows.lookup_mem hl).2, hne⟩
        · cases h
      | none =>
        simp only [hl] at h
        cases h
    · cases h

/-- What the loop has after some records: each of the interval once, and one for a key. -/
structure Admitted (from_ to_ : ZonedTime) (rows records : List HistoryRecord) : Prop where
  keys : (rows.map key).Nodup
  mem : ∀ r, r ∈ rows ↔ r ∈ records ∧ Inside from_ to_ r

theorem Admitted.admitRow (h : Admitted from_ to_ rows records) (ha : History.admitRow from_ to_ rows r = .ok more) :
    Admitted from_ to_ more (records ++ [r]) := by
  have hmem : ∀ q, q ∈ records ++ [r] ∧ Inside from_ to_ q ↔ q ∈ rows ∨ (q = r ∧ Inside from_ to_ q) := by
    intro q
    rw [List.mem_append, List.mem_singleton, or_and_right, h.mem]
  rcases admit_ok ha with ⟨hout, rfl⟩ | ⟨_, hr, rfl⟩ | ⟨hin, hkey, rfl⟩
  · refine ⟨h.keys, fun q => ?_⟩
    rw [hmem, iff_self_or]
    rintro ⟨rfl, hq⟩
    exact absurd hq hout
  · refine ⟨h.keys, fun q => ?_⟩
    rw [hmem, iff_self_or]
    rintro ⟨rfl, _⟩
    exact hr
  · refine ⟨Rows.nodup_append h.keys hkey, fun q => ?_⟩
    rw [hmem, List.mem_append, List.mem_singleton]
    refine or_congr_right ⟨fun hq => ⟨hq, hq ▸ hin⟩, And.left⟩

/-- The loop over all records; where it raises a conflict, two of them have one key and other data. -/
theorem admitted (h : Admitted from_ to_ rows records) (more : List HistoryRecord) :
    (∀ kept, more.foldlM (admitRow from_ to_) rows = .ok kept → Admitted from_ to_ kept (records ++ more))
      ∧ (more.foldlM (admitRow from_ to_) rows = .error conflicting → ∃ q r, q ∈ records ++ more ∧ r ∈ records ++ more
        ∧ Inside from_ to_ q ∧ Inside from_ to_ r ∧ key q = key r ∧ q ≠ r) := by
  induction more generalizing rows records with
  | nil =>
    refine ⟨fun kept hk => ?_, nofun⟩
    obtain rfl := Except.ok.inj hk
    rwa [List.append_nil]
  | cons r more ih =>
    rw [List.foldlM_cons]
    cases ha : admitRow from_ to_ rows r with
    | ok next =>
      have hh := ih (h.admitRow ha)
      rw [List.append_assoc] at hh
      exact hh
    | error e =>
      refine ⟨nofun, fun he => ?_⟩
      have hconf : e = conflicting := Except.error.inj he
      obtain ⟨hin, old, hold, hkey, hne⟩ := admit_conflict (hconf ▸ ha)
      have hseen := (h.mem old).mp hold
      exact ⟨old, r, List.mem_append_left _ hseen.1, List.mem_append_right _ List.mem_cons_self, hseen.2, hin, hkey, hne⟩

omit [LogHost] in
theorem key_eq_iff : key q = key r ↔ (∃ uid, q.uid.filter (· ≠ "") = some uid ∧ r.uid.filter (· ≠ "") = some uid)
    ∨ (q.uid.filter (· ≠ "") = none ∧ r.uid.filter (· ≠ "") = none
      ∧ q.id = r.id ∧ q.closingOrderID = r.closingOrderID ∧ q.time = r.time) := by
  unfold key
  cases hq : q.uid.filter (· ≠ "") <;> cases hr : r.uid.filter (· ≠ "") <;> simp [eq_comm]

omit [LogHost] in
theorem orElse_eq (a : Option String) (b : String) : Journal.orElse a b = (a.filter (· ≠ "")).getD b := by
  cases a with
  | none => rfl
  | some s =>
    by_cases hs : s = ""
    · subst hs
      rfl
    · simp [Journal.orElse, hs, Option.filter]

/-- The broker names neither the execution nor the order that closed. -/
def Unnamed (r : HistoryRecord) : Prop := r.uid.filter (· ≠ "") = none ∧ r.closingOrderID.filter (· ≠ "") = none

omit [LogHost] in
theorem executionKey_unnamed (h : Unnamed r) :
    Journal.executionKey r.toClosedTrade = r.id ++ "@" ++ r.time ++ ":" ++ Journal.executionQuantity r.volume := by
  rw [Journal.executionKey, orElse_eq, orElse_eq, h.1, h.2, Option.getD_none, Option.getD_none]

/-- Closes that the broker does not name, of one position and at one time, have one volume. -/
def Unambiguous (from_ to_ : ZonedTime) (records : List HistoryRecord) : Prop :=
  ∀ q ∈ records, ∀ r ∈ records, Inside from_ to_ q → Inside from_ to_ r → Unnamed q → Unnamed r → q.id = r.id →
    q.closingOrderID = r.closingOrderID → q.time = r.time → Journal.executionQuantity q.volume = Journal.executionQuantity r.volume

/-- Records with one key are one execution to the record of copied trades too. -/
theorem Unambiguous.executionKey (h : Unambiguous from_ to_ records) (hq : q ∈ records) (hr : r ∈ records)
    (hqi : Inside from_ to_ q) (hri : Inside from_ to_ r) (hk : key q = key r) :
    Journal.executionKey q.toClosedTrade = Journal.executionKey r.toClosedTrade := by
  rcases key_eq_iff.mp hk with ⟨uid, hqu, hru⟩ | ⟨hqu, hru, hid, hclosing, htime⟩
  · simp only [Journal.executionKey, orElse_eq, hqu, hru, Option.getD_some]
  · cases hc : r.closingOrderID.filter (· ≠ "") with
    | none =>
      have hqn : Unnamed q := ⟨hqu, hclosing ▸ hc⟩
      have hrn : Unnamed r := ⟨hru, hc⟩
      rw [executionKey_unnamed hqn, executionKey_unnamed hrn, hid, htime, h q hq r hr hqi hri hqn hrn hid hclosing htime]
    | some order =>
      have hqc : q.closingOrderID.filter (· ≠ "") = some order := hclosing ▸ hc
      simp only [Journal.executionKey, orElse_eq, hqu, hru, hqc, hc, Option.getD_none, Option.getD_some]

variable {api : HistoryApi} {accountId now : String}

omit [LogHost] in
theorem connected_ok {a : HistoryApi} (h : connected (some api) accountId = .ok a) : a = api := by
  simp only [connected] at h
  split at h
  · cases h
  · exact (Except.ok.inj h).symm

omit [LogHost] in
theorem connected_error {e : Exc} (h : connected (some api) accountId = .error e) : e ≠ conflicting := by
  simp only [connected] at h
  split at h
  · rw [← Except.error.inj h]
    decide
  · cases h

omit [LogHost] in
theorem arith_error {α : Type} {x : Except Decimal.Signal α} {e : Exc} (h : arith x = .error e) : e.kind = .arithmeticError := by
  cases x with
  | ok a => cases h
  | error s =>
    rw [← Except.error.inj h]
    cases s <;> rfl

/-- The request is answered: a fair interval, of the selected account, with its balance. -/
structure Answered (api : HistoryApi) (accountId : String) (from_ to_ : ZonedTime) (records : List HistoryRecord) : Prop where
  precedes : from_.instant < to_.instant
  short : to_.instant - from_.instant ≤ 93 * day
  account : accountId ≠ "" ∧ api.accountId = accountId
  balance : ∃ currency, api.balance = .ok currency
  timed : ∀ r ∈ records, ∃ t, closedAt r = .ok t

/-- What is asked of the history of some records: each close of the interval once and summed, a
conflict only over one execution, and every two executions of a position told apart. -/
structure KeepsExecutions (api : HistoryApi) (accountId : String) (from_ to_ : ZonedTime) (records : List HistoryRecord)
    (outcome : Except Exc History) : Prop where
  once : ∀ h, outcome = .ok h → h.operations.Nodup ∧ ∀ r, r ∈ h.operations ↔ r ∈ records ∧ Inside from_ to_ r
  summed : ∀ h, outcome = .ok h → ∃ total, Decimal.sum (h.operations.map HistoryRecord.netProfit) 0 = .ok total
    ∧ h.summary = summarize h.operations total
    ∧ (Decimal.HeldRun ((h.operations.map HistoryRecord.netProfit).map Decimal.toRat) →
      total.toRat = ((h.operations.map HistoryRecord.netProfit).map Decimal.toRat).sum)
  conflict : outcome = .error conflicting → ∃ q r, q ∈ records ∧ r ∈ records ∧ Inside from_ to_ q ∧ Inside from_ to_ r
    ∧ Journal.executionKey q.toClosedTrade = Journal.executionKey r.toClosedTrade ∧ q ≠ r
  returned : Answered api accountId from_ to_ records → outcome ≠ .error conflicting → (∃ h, outcome = .ok h)
    ∨ ∃ (rows : List HistoryRecord) (s : Decimal.Signal), rows.Nodup ∧ (∀ r, r ∈ rows ↔ r ∈ records ∧ Inside from_ to_ r)
      ∧ Decimal.sum (rows.map HistoryRecord.netProfit) 0 = .error s
  apart : ∀ q ∈ records, ∀ r ∈ records, Inside from_ to_ q → Inside from_ to_ r → q.id = r.id →
    Journal.executionKey q.toClosedTrade ≠ Journal.executionKey r.toClosedTrade → key q ≠ key r

theorem newestFirst_perm (rows : List HistoryRecord) : (newestFirst rows).Perm rows := List.perm_insertionSort _ _

/-- The rows that the loop leaves, in their order. -/
theorem Admitted.newestFirst (h : Admitted from_ to_ rows records) :
    (newestFirst rows).Nodup ∧ ∀ r, r ∈ newestFirst rows ↔ r ∈ records ∧ Inside from_ to_ r := by
  have hp := newestFirst_perm rows
  have hrows : rows.Nodup := h.keys.of_map key
  exact ⟨hp.nodup_iff.mpr hrows, fun r => hp.mem_iff.trans (h.mem r)⟩

theorem admit_error {e : Exc} {t : ZonedTime} (ht : closedAt r = .ok t) (h : admitRow from_ to_ rows r = .error e) : e = conflicting := by
  unfold admitRow at h
  rw [ht] at h
  simp only [bind, Except.bind] at h
  split at h
  · cases hl : Rows.lookup key (key r) rows with
    | some old =>
      simp only [hl] at h
      split at h
      · exact (Except.error.inj h).symm
      · cases h
    | none =>
      simp only [hl] at h
      cases h
  · cases h

theorem foldlM_admit_error {e : Exc} (ht : ∀ r ∈ records, ∃ t, closedAt r = .ok t)
    (h : records.foldlM (admitRow from_ to_) rows = .error e) : e = conflicting := by
  induction records generalizing rows with
  | nil => cases h
  | cons r records ih =>
    rw [List.foldlM_cons] at h
    cases ha : admitRow from_ to_ rows r with
    | ok next =>
      rw [ha] at h
      exact ih (fun q hq => ht q (List.mem_cons_of_mem _ hq)) h
    | error d =>
      rw [ha] at h
      obtain ⟨t, hr⟩ := ht r List.mem_cons_self
      rw [← Except.error.inj h]
      exact admit_error hr ha

theorem readHistory_ok {h : History} (hr : api.closedPositions = .ok records) (hh : readHistory (some api) accountId from_ to_ now = .ok h) :
    ∃ rows total, records.foldlM (admitRow from_ to_) [] = .ok rows ∧ h.operations = newestFirst rows
      ∧ Decimal.sum (h.operations.map HistoryRecord.netProfit) 0 = .ok total ∧ h.summary = summarize h.operations total := by
  simp only [readHistory, bind_eq_ok] at hh
  obtain ⟨_, _, _, _, a, ha, rs, hrs, rows, hrows, currency, _, total, htotal, hh⟩ := hh
  rw [connected_ok ha, hr] at hrs
  rw [← Except.ok.inj hrs] at hrows
  obtain rfl := Except.ok.inj hh
  refine ⟨rows, total, hrows, rfl, ?_, rfl⟩
  cases hs : Decimal.sum ((newestFirst rows).map HistoryRecord.netProfit) 0 with
  | ok d =>
    rw [hs] at htotal
    exact congrArg Except.ok (Except.ok.inj htotal)
  | error s =>
    rw [hs] at htotal
    cases htotal

theorem readHistory_conflict (hr : api.closedPositions = .ok records) (hb : api.balance ≠ .error conflicting)
    (hh : readHistory (some api) accountId from_ to_ now = .error conflicting) :
    records.foldlM (admitRow from_ to_) [] = .error conflicting := by
  simp only [readHistory, bind_eq_error] at hh
  rcases hh with hp | ⟨_, _, hd | ⟨_, _, hc | ⟨a, hc, hclosed | ⟨rs, hrs, hf | ⟨rows, _, hcur | ⟨currency, _, hsum | ⟨total, _, hnil⟩⟩⟩⟩⟩⟩⟩
  · exact absurd (raiseIf_eq_error hp) (by decide)
  · exact absurd (raiseIf_eq_error hd) (by decide)
  · exact absurd rfl (connected_error hc)
  · rw [connected_ok hc, hr] at hclosed
    cases hclosed
  · rw [connected_ok hc, hr] at hrs
    rwa [← Except.ok.inj hrs] at hf
  · exact absurd (connected_ok hc ▸ hcur) hb
  · have hkind := arith_error hsum
    cases hkind
  · cases hnil

theorem Answered.readHistory (ha : Answered api accountId from_ to_ records) (hr : api.closedPositions = .ok records) (now : String) :
    ∃ currency, History.readHistory (some api) accountId from_ to_ now = do
      let rows ← records.foldlM (History.admitRow from_ to_) []
      let total ← arith (Decimal.sum ((History.newestFirst rows).map HistoryRecord.netProfit) 0)
      return { accountId, currency, from_ := from_.isoformat, to_ := to_.isoformat, updatedAt := now
               operations := History.newestFirst rows, summary := summarize (History.newestFirst rows) total } := by
  obtain ⟨currency, hcur⟩ := ha.balance
  have hconn : connected (some api) accountId = .ok api := by
    have hno : ¬ (accountId = "" ∨ api.accountId ≠ accountId) := by
      simp [ha.account.1, ha.account.2]
    simp only [connected, if_neg hno]
  have hprecedes := raiseIf_eq_ok (e := Exc.value "from must precede to") (u := ()) |>.mpr (not_le.mpr ha.precedes)
  have hshort := raiseIf_eq_ok (e := Exc.value "Choose a date range of at most 93 days") (u := ()) |>.mpr (not_lt.mpr ha.short)
  refine ⟨currency, ?_⟩
  unfold History.readHistory
  rw [hprecedes, hshort, hconn]
  simp only [bind, Except.bind, hr, hcur]

/-- The history keeps every execution exactly when the closes that the broker does not name are told
apart by what it keys them with. -/
theorem executions_kept_unless_volumes_differ (hr : api.closedPositions = .ok records) (hb : api.balance ≠ .error conflicting) :
    KeepsExecutions api accountId from_ to_ records (readHistory (some api) accountId from_ to_ now)
      ↔ Unambiguous from_ to_ records := by
  have hstart : Admitted from_ to_ [] [] := ⟨List.nodup_nil, fun r => by simp⟩
  obtain ⟨hkept, hconflict⟩ := admitted hstart records
  rw [List.nil_append] at hkept hconflict
  constructor
  · intro hk q hq r hr' hqi hri hqn hrn hid hclosing htime
    by_contra hne
    have hexec : Journal.executionKey q.toClosedTrade ≠ Journal.executionKey r.toClosedTrade := by
      rw [executionKey_unnamed hqn, executionKey_unnamed hrn, hid, htime]
      exact fun he => hne (String.append_right_inj _ |>.mp he)
    exact hk.apart q hq r hr' hqi hri hid hexec (key_eq_iff.mpr (Or.inr ⟨hqn.1, hrn.1, hid, hclosing, htime⟩))
  · intro hu
    refine ⟨fun h hh => ?_, fun h hh => ?_, fun hh => ?_, fun ha hno => ?_, fun q hq r hr' hqi hri _ hexec hkey => ?_⟩
    · obtain ⟨rows, _, hrows, hops, _⟩ := readHistory_ok hr hh
      rw [hops]
      exact (hkept rows hrows).newestFirst
    · obtain ⟨rows, total, _, _, htotal, hsummary⟩ := readHistory_ok hr hh
      refine ⟨total, htotal, hsummary, fun hheld => ?_⟩
      obtain ⟨sum, hs, hsum⟩ := hheld.sum
      obtain rfl := Except.ok.inj (htotal.symm.trans hs)
      exact hsum
    · obtain ⟨q, r, hq, hr', hqi, hri, hkey, hne⟩ := hconflict (readHistory_conflict hr hb hh)
      exact ⟨q, r, hq, hr', hqi, hri, hu.executionKey hq hr' hqi hri hkey, hne⟩
    · obtain ⟨currency, hread⟩ := ha.readHistory hr now
      cases hf : records.foldlM (admitRow from_ to_) [] with
      | error e =>
        rw [hread, hf, foldlM_admit_error ha.timed hf] at hno
        exact absurd rfl hno
      | ok rows =>
        obtain ⟨hnodup, hmem⟩ := (hkept rows hf).newestFirst
        cases hs : Decimal.sum ((newestFirst rows).map HistoryRecord.netProfit) 0 with
        | error s => exact Or.inr ⟨newestFirst rows, s, hnodup, hmem, hs⟩
        | ok total =>
          rw [hread, hf]
          simp only [bind, Except.bind, hs]
          exact Or.inl ⟨_, rfl⟩
    · exact hexec (hu.executionKey hq hr' hqi hri hkey)

end

@[reducible] def historyHost : LogHost where
  fromisoformat text := if text = "2026-01-02T12:00:20+00:00".toList then some (.inr ⟨noon 20, 0, ZonedTime.utc_lt⟩) else none
  isWord c := c.isAlphanum || c = '_'
  isDigit := Char.isDigit

attribute [local instance] historyHost

def closeOf (uid : Option String) (volume : Decimal) : HistoryRecord where
  id := "P1"
  symbol := "EURUSD"
  side := "BUY"
  volume := volume
  openPrice := ⟨false, 1, 0⟩
  openTime := "2026-01-02T12:00:00Z"
  time := "2026-01-02T12:00:20Z"
  uid := uid
  closingOrderID := none
  closeReason := none
  closePrice := ⟨false, 2, 0⟩
  profit := ⟨false, 1, 0⟩
  netProfit := ⟨false, 1, 0⟩

def historyApi (records : List HistoryRecord) : HistoryApi := ⟨"A", .ok records, .ok "USD"⟩

def dayFrom : ZonedTime := ⟨noon 0, 0, ZonedTime.utc_lt⟩

def dayTo : ZonedTime := ⟨noon 40, 0, ZonedTime.utc_lt⟩

def namedCloses : List HistoryRecord := [closeOf (some "E1") ⟨false, 3, -1⟩, closeOf (some "E2") ⟨false, 7, -1⟩, closeOf (some "E1") ⟨false, 3, -1⟩]

theorem executions_kept_sample : KeepsExecutions (historyApi namedCloses) "A" dayFrom dayTo namedCloses
    (readHistory (some (historyApi namedCloses)) "A" dayFrom dayTo "now") ↔ Unambiguous dayFrom dayTo namedCloses :=
  executions_kept_unless_volumes_differ rfl (by decide)

/-- Two parts of one position that close together. -/
def partialCloses : List HistoryRecord := [closeOf none ⟨false, 3, -1⟩, closeOf none ⟨false, 7, -1⟩]

/-- The record of copied trades keeps both parts; the history calls them conflicting. -/
theorem partial_closes_conflict : readHistory (some (historyApi partialCloses)) "A" dayFrom dayTo "now" = .error conflicting
    ∧ (partialCloses.map fun r => Journal.executionKey r.toClosedTrade) = ["P1@2026-01-02T12:00:20Z:0.3", "P1@2026-01-02T12:00:20Z:0.7"] := by
  constructor
  · rfl
  · decide

end History

end MatchTrader
