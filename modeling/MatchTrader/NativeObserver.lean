import Mathlib.Data.List.Count
import Mathlib.Logic.Relation
import MatchTrader.ChangeReports
import MatchTrader.Decimal

/-! The observer in Quantower. The platform calls it back on its own threads, about the orders and positions that it watches; what it
passes on of them is what has changed. Between two locks anything may happen. -/

namespace MatchTrader.Quantower

open Reports (Register about)

/-- Ticks of a tenth of a microsecond since the epoch, and the minutes of the zone. -/
structure DateTimeOffset where
  ticks : Int
  offset : Int
deriving DecidableEq

def DateTimeOffset.unixEpoch : DateTimeOffset := ⟨0, 0⟩

structure CaptureEvent where
  schemaVersion : Nat := 1
  eventId : String
  machine : String
  connectionId : String := "unknown"
  accountId : String := "unknown"
  orderId : String := ""
  positionId : String := ""
  executionId : String := ""
  requestId : String := ""
  emittedAt : DateTimeOffset
  kind : String := "ORDER"
  action : String := "OBSERVE"
  source : String := "UNKNOWN"
  sourceLabel : String := ""
  sendingSource : String := ""
  status : String := ""
  snapshot : Bool := false
  symbol : String := ""
  side : String := ""
  orderType : String := "UNKNOWN"
  quantity : Decimal := 0
  price : Decimal := 0
  sl : Decimal := 0
  tp : Decimal := 0
  bracketsAbsolute : Bool := true
deriving DecidableEq

def CaptureEvent.key (e : CaptureEvent) : String := "|".intercalate [e.connectionId, e.accountId, e.kind, e.orderId, e.positionId]

/-- What counts as a change: all but the identity of the event and its time. Its JSON text tells each of its fields. -/
def CaptureEvent.state (e : CaptureEvent) : CaptureEvent := { e with eventId := "", emittedAt := .unixEpoch }

def CaptureEvent.report (e : CaptureEvent) : String × CaptureEvent := (e.key, e.state)

/-- An object of the platform, which the sets tell apart by its identity. -/
inductive Watched where
  | order (ref : Nat)
  | position (ref : Nat)
deriving DecidableEq

/-- What a thread is about to do. -/
inductive Task where
  /-- One of those that were there at the start. -/
  | enlist (o : Watched)
  | snapshot (o : Watched)
  | add (o : Watched)
  | remove (o : Watched)
  | read (o : Watched)
  | change (item : CaptureEvent)
  | send (item : CaptureEvent)
deriving DecidableEq

structure NativeObserver where
  attached : Bool := false
  /-- `orders` and `positions`. -/
  watched : List Watched := []
  /-- How often the observer's handler is on the updates of an object. -/
  handlers : Watched → Nat := fun _ => 0
  lastState : Register String CaptureEvent := {}
  /-- Whether `Dispose` has cleared the states. -/
  cleared : Bool := false
  tasks : List Task := []
  /-- The changed items, and those that are sent as they are. -/
  noted : List CaptureEvent := []
  direct : List CaptureEvent := []
  sent : List CaptureEvent := []

namespace NativeObserver

def watch (o : Watched) (s : NativeObserver) : NativeObserver :=
  if o ∈ s.watched then s
  else { s with watched := s.watched ++ [o], handlers := Function.update s.handlers o (s.handlers o + 1) }

def unwatch (o : Watched) (s : NativeObserver) : NativeObserver :=
  if o ∈ s.watched then { s with watched := s.watched.erase o, handlers := Function.update s.handlers o (s.handlers o - 1) } else s

/-- The section of `Changed` that holds the lock. -/
def changed (item : CaptureEvent) (s : NativeObserver) : NativeObserver :=
  { s with
    lastState := s.lastState.report 10000 item.report
    noted := if Reports.remembered s.lastState.last item.key = some item.state then s.noted else s.noted ++ [item] }

/-- The section of `Dispose` that holds the lock. -/
def release (s : NativeObserver) : NativeObserver :=
  { s with
    watched := []
    handlers := fun o => if o ∈ s.watched then s.handlers o - 1 else s.handlers o
    lastState := s.lastState.forget
    cleared := true }

/-- A thread goes on to the next lock, reading of the platform, or call. What is read there is any event. -/
inductive Runs : NativeObserver → Task → NativeObserver → List Task → Prop
  | enlist {s : NativeObserver} (o : Watched) : Runs s (.enlist o) (s.watch o) [.snapshot o]
  | snapshot {s : NativeObserver} (o : Watched) (item : CaptureEvent) :
    Runs s (.snapshot o) { s with direct := s.direct ++ [item] } [.send item]
  | add {s : NativeObserver} (o : Watched) : Runs s (.add o) (s.watch o) [.read o]
  | remove {s : NativeObserver} (o : Watched) : Runs s (.remove o) (s.unwatch o) [.read o]
  | read {s : NativeObserver} (o : Watched) (item : CaptureEvent) : Runs s (.read o) s [.change item]
  | change {s : NativeObserver} (item : CaptureEvent) : Runs s (.change item) (s.changed item)
    (if Reports.remembered s.lastState.last item.key = some item.state then [] else [.send item])
  | send {s : NativeObserver} (item : CaptureEvent) : Runs s (.send item) { s with sent := s.sent ++ [item] } []
  /-- The callback raised, and that is reported as a fault. -/
  | fault {s : NativeObserver} (t : Task) (ht : ∀ item, t ≠ .send item) : Runs s t s []

inductive Step : NativeObserver → NativeObserver → Prop
  | start {s : NativeObserver} (accounts : List CaptureEvent) (items : List Watched) : Step s { s with
      attached := true
      tasks := s.tasks ++ accounts.map .send ++ items.map .enlist
      direct := s.direct ++ accounts }
  | added {s : NativeObserver} (o : Watched) (ha : s.attached = true) : Step s { s with tasks := s.tasks ++ [.add o] }
  | removed {s : NativeObserver} (o : Watched) (ha : s.attached = true) : Step s { s with tasks := s.tasks ++ [.remove o] }
  /-- Each handler is called. -/
  | updated {s : NativeObserver} (o : Watched) : Step s { s with tasks := s.tasks ++ List.replicate (s.handlers o) (.read o) }
  /-- A request, its result, or a trade. -/
  | told {s : NativeObserver} (item : CaptureEvent) (ha : s.attached = true) : Step s { s with
      tasks := s.tasks ++ [.send item]
      direct := s.direct ++ [item] }
  | runs {s t : NativeObserver} {before after next : List Task} {task : Task} (ht : s.tasks = before ++ task :: after)
    (hr : Runs s task t next) : Step s { t with tasks := before ++ next ++ after }
  | detach {s : NativeObserver} : Step s { s with attached := false }
  | release {s : NativeObserver} : Step s s.release

def Reachable (s : NativeObserver) : Prop := Relation.ReflTransGen Step {} s

section Runs

variable {s t : NativeObserver} {task : Task} {next : List Task}

/-- What is watched has one handler, and what is remembered is what was passed on. -/
structure Sound (s : NativeObserver) : Prop where
  nodup : s.watched.Nodup
  handlers : ∀ o, s.handlers o = if o ∈ s.watched then 1 else 0
  faithful : s.lastState.Faithful
  exact : s.cleared = false → s.lastState.Exact 10000
  noted : s.lastState.passed = s.noted.map CaptureEvent.report

/-- What was noted, and what is sent as it is, was sent or is about to be. -/
def Accounted (s : NativeObserver) : Prop :=
  ∀ item, s.sent.count item + s.tasks.count (.send item) = s.noted.count item + s.direct.count item

theorem Sound.of_same (h : s.Sound) (hw : t.watched = s.watched) (hh : t.handlers = s.handlers) (hl : t.lastState = s.lastState)
    (hc : t.cleared = s.cleared) (hn : t.noted = s.noted) : t.Sound where
  nodup := hw ▸ h.nodup
  handlers o := by
    rw [hh, hw]
    exact h.handlers o
  faithful := hl ▸ h.faithful
  exact hf := hl ▸ h.exact (hc ▸ hf)
  noted := by
    rw [hl, hn]
    exact h.noted

theorem Sound.watch (h : s.Sound) (o : Watched) : (s.watch o).Sound := by
  unfold NativeObserver.watch
  by_cases ho : o ∈ s.watched
  · rw [if_pos ho]
    exact h
  · rw [if_neg ho]
    refine ⟨?_, fun i => ?_, h.faithful, h.exact, h.noted⟩
    · refine List.nodup_append.mpr ⟨h.nodup, List.nodup_singleton o, fun i hi j hj he => ?_⟩
      exact ho (List.mem_singleton.mp hj ▸ he ▸ hi)
    · change Function.update s.handlers o (s.handlers o + 1) i = if i ∈ s.watched ++ [o] then 1 else 0
      by_cases hi : i = o
      · subst hi
        rw [Function.update_self, h.handlers, if_neg ho, if_pos (List.mem_append_right _ List.mem_cons_self)]
      · rw [Function.update_of_ne hi, h.handlers]
        simp [hi]

theorem Sound.unwatch (h : s.Sound) (o : Watched) : (s.unwatch o).Sound := by
  unfold NativeObserver.unwatch
  by_cases ho : o ∈ s.watched
  · rw [if_pos ho]
    refine ⟨h.nodup.erase o, fun i => ?_, h.faithful, h.exact, h.noted⟩
    change Function.update s.handlers o (s.handlers o - 1) i = if i ∈ s.watched.erase o then 1 else 0
    by_cases hi : i = o
    · subst hi
      rw [Function.update_self, h.handlers, if_pos ho, if_neg fun hm => (h.nodup.mem_erase_iff.mp hm).1 rfl]
    · rw [Function.update_of_ne hi, h.handlers]
      simp only [List.mem_erase_of_ne hi]
  · rw [if_neg ho]
    exact h

theorem Sound.release (h : s.Sound) : s.release.Sound where
  nodup := List.nodup_nil
  handlers o := by
    change (if o ∈ s.watched then s.handlers o - 1 else s.handlers o) = if o ∈ [] then 1 else 0
    rw [h.handlers]
    by_cases ho : o ∈ s.watched
    · simp [ho]
    · simp [ho]
  faithful := h.faithful.forget
  exact hc := by cases hc
  noted := h.noted

theorem Sound.changed (h : s.Sound) (item : CaptureEvent) : (s.changed item).Sound where
  nodup := h.nodup
  handlers := h.handlers
  faithful := h.faithful.report
  exact hc := (h.exact hc).report
  noted := by
    by_cases hsame : Reports.remembered s.lastState.last item.key = some item.state
    · have hreport : s.lastState.report 10000 item.report = { s.lastState with seen := s.lastState.seen ++ [item.report] } :=
        if_pos hsame
      have hnoted : (s.changed item).noted = s.noted := if_pos hsame
      rw [hnoted, ← h.noted]
      change (s.lastState.report 10000 item.report).passed = s.lastState.passed
      rw [hreport]
    · have hpassed : (s.lastState.report 10000 item.report).passed = s.lastState.passed ++ [item.report] := by
        unfold Register.report
        rw [if_neg]
        exact hsame
      have hnoted : (s.changed item).noted = s.noted ++ [item] := if_neg hsame
      rw [hnoted, List.map_append, ← h.noted]
      exact hpassed

theorem Runs.sound (hr : Runs s task t next) (h : s.Sound) : t.Sound := by
  cases hr with
  | enlist o => exact h.watch o
  | snapshot o item => exact h.of_same rfl rfl rfl rfl rfl
  | add o => exact h.watch o
  | remove o => exact h.unwatch o
  | read o item => exact h
  | change item => exact h.changed item
  | send item => exact h.of_same rfl rfl rfl rfl rfl
  | fault => exact h

theorem watch_told (o : Watched) : (s.watch o).sent = s.sent ∧ (s.watch o).noted = s.noted ∧ (s.watch o).direct = s.direct := by
  unfold NativeObserver.watch
  split <;> exact ⟨rfl, rfl, rfl⟩

theorem unwatch_told (o : Watched) : (s.unwatch o).sent = s.sent ∧ (s.unwatch o).noted = s.noted ∧ (s.unwatch o).direct = s.direct := by
  unfold NativeObserver.unwatch
  split <;> exact ⟨rfl, rfl, rfl⟩

/-- What a thread sends is off its hands, and what it has noted is on them. -/
theorem Runs.accounted (hr : Runs s task t next) (item : CaptureEvent) :
    t.sent.count item + next.count (.send item) + (s.noted.count item + s.direct.count item)
      = s.sent.count item + [task].count (.send item) + (t.noted.count item + t.direct.count item) := by
  cases hr with
  | enlist o =>
    obtain ⟨hs, hn, hd⟩ := watch_told (s := s) o
    rw [hs, hn, hd]
    rfl
  | snapshot o e =>
    have hcount : (s.direct ++ [e]).count item = s.direct.count item + [e].count item := List.count_append
    have hsend : [Task.send e].count (.send item) = [e].count item := by simp [List.count_singleton]
    have hnone : [Task.snapshot o].count (.send item) = 0 := by simp
    change s.sent.count item + [Task.send e].count (.send item) + _ = _ + _ + (s.noted.count item + (s.direct ++ [e]).count item)
    rw [hcount, hsend, hnone]
    omega
  | add o =>
    obtain ⟨hs, hn, hd⟩ := watch_told (s := s) o
    rw [hs, hn, hd]
    rfl
  | remove o =>
    obtain ⟨hs, hn, hd⟩ := unwatch_told (s := s) o
    rw [hs, hn, hd]
    rfl
  | read o e => rfl
  | change e =>
    have hnone : [Task.change e].count (.send item) = 0 := by simp
    have hsend : [Task.send e].count (.send item) = [e].count item := by simp [List.count_singleton]
    change s.sent.count item + _ + _ = _ + _ + (List.count item (if _ then _ else _) + s.direct.count item)
    rw [hnone]
    by_cases hsame : Reports.remembered s.lastState.last e.key = some e.state
    · rw [if_pos hsame, if_pos hsame, List.count_nil]
    · rw [if_neg hsame, if_neg hsame, hsend, List.count_append]
      omega
  | send e =>
    have hcount : (s.sent ++ [e]).count item = s.sent.count item + [e].count item := List.count_append
    have hsend : [Task.send e].count (.send item) = [e].count item := by simp [List.count_singleton]
    change (s.sent ++ [e]).count item + _ + _ = _ + _ + (s.noted.count item + s.direct.count item)
    rw [hcount, hsend, List.count_nil]
    omega
  | fault task ht =>
    have hnone : [task].count (.send item) = 0 := List.count_eq_zero.mpr fun hm => ht item (List.mem_singleton.mp hm).symm
    rw [hnone, List.count_nil]

theorem Step.sound (hstep : Step s t) (h : s.Sound) : t.Sound := by
  cases hstep with
  | start | added | removed | updated | told | detach => exact h.of_same rfl rfl rfl rfl rfl
  | runs ht hr => exact (hr.sound h).of_same rfl rfl rfl rfl rfl
  | release => exact h.release

theorem count_sends (items : List CaptureEvent) (item : CaptureEvent) : (items.map Task.send).count (.send item) = items.count item :=
  List.count_map_of_injective items Task.send (fun _ _ he => Task.send.inj he) item

theorem Step.accounted (hstep : Step s t) (h : s.Accounted) : t.Accounted := by
  intro item
  have hs := h item
  cases hstep with
  | start accounts items =>
    have henlist : (items.map Task.enlist).count (.send item) = 0 := List.count_eq_zero.mpr fun hm => by
      obtain ⟨o, -, he⟩ := List.mem_map.mp hm
      cases he
    change s.sent.count item + List.count (.send item) (s.tasks ++ accounts.map .send ++ items.map .enlist)
      = s.noted.count item + (s.direct ++ accounts).count item
    rw [List.count_append, List.count_append, List.count_append, count_sends, henlist]
    omega
  | added o | removed o =>
    change s.sent.count item + List.count (.send item) (s.tasks ++ [_]) = _
    rw [List.count_append]
    exact hs
  | updated o =>
    change s.sent.count item + List.count (.send item) (s.tasks ++ List.replicate _ _) = _
    have hnone : (List.replicate (s.handlers o) (Task.read o)).count (.send item) = 0 := List.count_eq_zero.mpr fun hm => by
      cases List.eq_of_mem_replicate hm
    rw [List.count_append, hnone]
    exact hs
  | told e =>
    change s.sent.count item + List.count (.send item) (s.tasks ++ [e].map .send) = s.noted.count item + (s.direct ++ [e]).count item
    rw [List.count_append, List.count_append, count_sends]
    omega
  | @runs t before after next task ht hr =>
    have hrun := hr.accounted item
    rw [ht, List.count_append, List.count_cons] at hs
    change t.sent.count item + List.count (.send item) (before ++ next ++ after) = t.noted.count item + t.direct.count item
    rw [List.count_singleton] at hrun
    rw [List.count_append, List.count_append]
    omega
  | detach => exact hs
  | release => exact hs

theorem Reachable.sound (h : s.Reachable) : s.Sound ∧ s.Accounted := by
  induction h with
  | refl =>
    refine ⟨⟨List.nodup_nil, fun o => rfl, ⟨fun k v hk => (by cases hk), fun k => rfl⟩, fun _ => ⟨List.nodup_nil, List.nil_subset _, ?_⟩, rfl⟩,
      fun item => rfl⟩
    exact fun _ k => ⟨rfl, rfl⟩
  | tail _ hstep ih => exact ⟨hstep.sound ih.1, hstep.accounted ih.2⟩

theorem Reachable.only (h : s.Reachable) (ht : s.tasks = [task]) (hr : Runs s task t next) :
    Reachable { t with tasks := next } := by
  have hstep : Step s { t with tasks := [] ++ next ++ [] } := .runs ht hr
  rw [List.nil_append, List.append_nil] at hstep
  exact h.tail hstep

end Runs

end NativeObserver

end MatchTrader.Quantower
