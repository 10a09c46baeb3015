import MatchTrader.Deliveries

/-! Whole runs: a process starts on what the last one left, serves what it is asked in
any order, and may stop between any two transactions. Every run is a sequence of steps,
so the invariant holds wherever a run can get to. -/

namespace MatchTrader

open Durable

section Runs

variable [Host]

/-- What a running process is asked to do. -/
inductive Op where
  | native (e : CaptureEvent) (captureGeneration : Option Nat)
  | signals (payload : List Json)
  | ledgerRow (row : Controller.LedgerRow)
  | sendTrade (tradeId : String) (volume : Json)
  | refreshPositions
  | copyControls (mode : Mode) (sources : List Source)
  | copyConfig (config : CopyConfig)
  | copyConfigState (id : String) (mode : Option Mode) (enabled : Option Bool)
  | deleteCopyConfig (id : String)
  /-- Sessions, selection, capture and saved settings change. -/
  | memory (m : Memory)
  /-- A batch is given to a lane. -/
  | batch (c : LaneCall) (symbols : SymbolMap) (payload : List Json) (api : Option Api) (destination : String)
    (verified : Bool)
  | record (e : CaptureEvent)
  /-- An event is given to the router. -/
  | route (arming : Arming) (config : Option RouteConfig) (e : CaptureEvent) (api : Option Api) (destination : String)
  | send (controls : Controls) (tradeId : String) (volume : Json) (api : Option Api) (destination : String)
    (config : Option RouteConfig)
  | unwind (s : Ending) (api : Option Api) (destination : String) (verified : Bool) (tradeId : Option String)
  | reconcile (api : Api) (destination : String)

namespace Op

def run : Op → Act Unit
  | native e g => discard (Controller.receiveNative e g)
  | signals payload => discard (Controller.receiveSignals payload)
  | ledgerRow row => discard (Controller.copyR01Row row)
  | sendTrade tradeId volume => discard (Controller.sendTrade tradeId volume)
  | refreshPositions => Controller.refreshPositions
  | copyControls mode sources => Controller.configureCopyControls mode sources
  | copyConfig config => Controller.configureCopyConfig config
  | copyConfigState id mode enabled => Controller.setCopyConfigState id mode enabled
  | deleteCopyConfig id => Controller.deleteCopyConfig id
  | memory m => setMem fun _ => m
  | batch c symbols payload api destination verified =>
    discard (SignalCopy.receive c symbols payload api destination verified)
  | record e => discard (Store.record e)
  | route arming config e api destination => discard (Router.receive arming config e api destination)
  | send controls tradeId volume api destination config =>
    discard (ManualSend.send .manual controls tradeId volume api destination config)
  | unwind s api destination verified tradeId => discard (Unwind.apply s api destination verified tradeId)
  | reconcile api destination => Reconcile.pass api destination

/-- The rules of a run bind the router and the lanes; a live send names its account. -/
def Allowed (R : Rules) : Op → Prop
  | batch c .. => R.legacy = false → c.copyMode.isSome = true
  | route arming .. => R.routed = true ∨ arming.armed = false
  | send _ _ _ api destination _ => api.isSome = true → destination ≠ ""
  | _ => True

end Op

/-- A process starts: the journal is opened first, then the lanes that are always there. -/
def boot (broker : String) : Act Unit := do
  Store.openJournal broker
  SignalCopy.openLane .main
  SignalCopy.openLane .r01

/-- A journal as it is created at the current schema. -/
def Journal.created (broker : String) : Journal :=
  { broker := some broker, schemaVersion := some mappingSchemaVersion, legacyMigrated := true }

omit [Host] in
theorem Journal.initMapping_empty (broker : String) : Journal.initMapping broker {} = .ok (.created broker) := rfl

/-- Nothing is on record yet. -/
def World.fresh (broker : String) (m : Memory) : World :=
  { journal := .created broker, lanes := fun _ => {}, mem := m, trace := [], faulted := false }

/-- The answers that a program's questions get. -/
abbrev Answers := Nat → (q : Query) → Reply q

/-- The surroundings answer a query somewhere with that. -/
def Given (env : Answers) (q : Query) (r : Reply q) : Prop := ∃ i, env i q = r

structure Process where
  up : Bool
  world : World

/-- A run's moves. The surroundings answer as they like, and a stop may fall between any two
transactions or answers. -/
inductive Move (R : Rules) : Process → Process → Prop
  | serve {w : World} (op : Op) (h : op.Allowed R) (env : Answers) :
    Move R ⟨true, w⟩ ⟨true, (op.run.eval env w).1⟩
  | crash {w : World} (op : Op) (h : op.Allowed R) (n : Nat) (env : Answers) :
    Move R ⟨true, w⟩ ⟨false, op.run.stop n env w⟩
  | start {w : World} (broker : String) (m : Memory) (env : Answers)
    (h : ((boot broker).eval env { w with mem := m }).2 = .ok ()) :
    Move R ⟨false, w⟩ ⟨true, ((boot broker).eval env { w with mem := m }).1⟩
  | abort {w : World} (broker : String) (m : Memory) (n : Nat) (env : Answers) :
    Move R ⟨false, w⟩ ⟨false, (boot broker).stop n env { w with mem := m }⟩

abbrev Moves (R : Rules) : Process → Process → Prop := Relation.ReflTransGen (Move R)

/-- Where a program leaves the world: at its end, or where its process stops. -/
inductive Leaves {α : Type} (p : Act α) (w : World) : World → Prop
  | done (env : Answers) : Leaves p w (p.eval env w).1
  | stopped (n : Nat) (env : Answers) : Leaves p w (p.stop n env w)

/-- What a run from a new journal can get to. -/
def Reachable (R : Rules) (s : Process) : Prop :=
  ∃ broker m, Moves R ⟨false, .fresh broker m⟩ s

section Steps

variable {R : Rules} {w v : World} {A : (q : Query) → Reply q → Prop}

omit [Host] in
theorem Prog.wp_unit {α : Type} {p : Act α} {G : World → World → Prop} (h : p.wp A G (fun _ v => Idle v) (fun _ v => Idle v) w) :
    (discard p).wp A G (fun _ v => Idle v) (fun _ v => Idle v) w := by
  rwa [Prog.wp_discard]

/-- A request that leaves the episodes alone. -/
def Op.Aside (episodes : List (String × Episode)) : Op → Prop
  | ledgerRow _ => False
  | memory m => m.r01Episodes = episodes
  | _ => True

theorem Op.run_served (hR : R.Plain) {op : Op} (ha : op.Allowed R) (hs : op.Aside w.mem.r01Episodes) (hI : Inv w)
    (hi : Idle w) : op.run.wp A (Served R) (fun _ v => Idle v) (fun _ v => Idle v) w := by
  cases op with
  | native e g => exact Prog.wp_unit (Controller.receiveNative_idle hR hI hi)
  | signals payload => exact Prog.wp_unit (Controller.receiveSignals_idle hR hI hi)
  | ledgerRow row => exact hs.elim
  | sendTrade tradeId volume => exact Prog.wp_unit (wp_widen hI (Controller.sendTrade_idle hI hi))
  | refreshPositions => exact wp_widen hI (Controller.refreshPositions_idle hI hi)
  | copyControls mode sources => exact Controller.configureCopyControls_idle hi
  | copyConfig config => exact Controller.configureCopyConfig_idle hI hi
  | copyConfigState id mode enabled => exact Controller.setCopyConfigState_idle hi
  | deleteCopyConfig id => exact Controller.deleteCopyConfig_idle hi
  | memory m => exact ⟨⟨.single (.memory _), hs⟩, hi⟩
  | batch c symbols payload api destination verified =>
    exact Prog.wp_unit (Controller.wp_within (SignalCopy.receive_idle hI hi hR.closed hR.known ha))
  | record e =>
    refine Prog.wp_unit (wp_widen hI (Store.wp_record hI (Or.inl rfl) (fun _ => hi) fun a j hj _ => ?_))
    exact hi.imp_right fun h a ha => h a (hj.attempts ▸ ha)
  | route arming config e api destination => exact Prog.wp_unit (wp_widen hI (Router.receive_idle ha hI hi))
  | send controls tradeId volume api destination config =>
    exact Prog.wp_unit (wp_widen hI (ManualSend.send_idle hI hi ⟨ha, fun _ h => by simp at h⟩))
  | unwind s api destination verified tradeId =>
    refine Prog.wp_unit (wp_widen hI ?_)
    exact Prog.wp_consequence (Unwind.apply_idle hI hi) (fun _ _ h => h.2) fun _ _ h => h
  | reconcile api destination => exact wp_widen hI (Reconcile.pass_idle hI hi)

theorem Op.run_idle (hR : R.Plain) {op : Op} (ha : op.Allowed R) (hI : Inv w) (hi : Idle w) :
    op.run.wp A (Steps R) (fun _ v => Idle v) (fun _ v => Idle v) w := by
  cases op with
  | ledgerRow row => exact Prog.wp_unit (Controller.copyR01Row_idle hR hI hi)
  | memory m => exact ⟨.single (.memory _), hi⟩
  | _ => exact wp_steps (Op.run_served hR ha trivial hI hi)

theorem boot_idle {b : String} (hI : Inv w) :
    (boot b).wp A (Steps R) (fun _ v => Idle v) (fun _ _ => True) w := by
  unfold boot
  refine wp_then (M := fun _ v => Idle v) (F := fun _ _ => True) hI ?_ ?_ fun _ _ _ _ h => h
  · exact Prog.wp_consequence (wp_local hI (Store.openJournal_idle hI)) (fun _ _ h => h.2) fun _ _ _ => trivial
  · intro _ v _ hI hi
    refine wp_then (M := fun _ v => Idle v) (F := fun _ v => Idle v) hI (wp_steps (SignalCopy.openLane_idle hi)) ?_
      fun _ _ _ _ _ => trivial
    intro _ v _ _ hi
    exact Prog.wp_consequence (wp_steps (SignalCopy.openLane_idle hi)) (fun _ _ h => h) fun _ _ _ => trivial

theorem inv_fresh (broker : String) (m : Memory) : Inv (World.fresh broker m) where
  opened := ⟨rfl, rfl⟩
  tradeIds := List.nodup_nil
  located i t h := by simp [World.fresh, Journal.created, Journal.trade?, Rows.lookup] at h
  evidenced o ho := by simp [World.fresh, Journal.created] at ho
  attempted tw api c j h := by simp [World.fresh] at h
  rowIds _ := List.nodup_nil
  formed l r hr := by simp [World.fresh] at hr
  captured l r hr := by simp [World.fresh] at hr
  sentRow sw api c j h := by simp [World.fresh] at h
  decidedRow l m c h := by simp [World.fresh] at h

/-- What holds where a run stands: the invariant, and no attempt in flight while the process is up. -/
structure Sound (s : Process) : Prop where
  inv : Inv s.world
  idle : s.up = true → Idle s.world

omit [Host] in
theorem Leaves.discard {α : Type} {p : Act α} (h : Leaves p w v) : Leaves (discard p) w v := by
  cases h with
  | done env => exact Prog.eval_map (fun _ => PUnit.unit) p env w ▸ Leaves.done (p := Functor.discard p) env
  | stopped n env => exact Prog.stop_map (fun _ => PUnit.unit) p n env w ▸ Leaves.stopped (p := Functor.discard p) n env

theorem Leaves.steps {α : Type} {p : Act α} {P : α → World → Prop} {E : Exc → World → Prop} (h : Leaves p w v)
    (hp : p.wp (fun _ _ => True) (Steps R) P E w) : Steps R w v := by
  cases h with
  | done env =>
    have hr := (Prog.wp_eval hp env fun _ _ => trivial).1
    rwa [Relation.reflTransGen_eq_self] at hr
  | stopped n env =>
    have hr := Prog.wp_stop hp n env fun _ _ => trivial
    rwa [Relation.reflTransGen_eq_self] at hr

theorem Move.sound {s t : Process} (hR : R.Plain) (hs : Sound s) (h : Move R s t) :
    Steps R s.world t.world ∧ Sound t := by
  suffices hh : Steps R s.world t.world ∧ (t.up = true → Idle t.world) from
    ⟨hh.1, hs.inv.steps hh.1, hh.2⟩
  cases h with
  | serve op ha env =>
    have hwp := Op.run_idle (A := fun _ _ => True) hR ha hs.inv (hs.idle rfl)
    obtain ⟨hr, ho, he⟩ := Prog.wp_eval hwp env fun _ _ => trivial
    rw [Relation.reflTransGen_eq_self] at hr
    refine ⟨hr, fun _ => ?_⟩
    cases hres : (op.run.eval env _).2 with
    | ok a => exact ho a hres
    | error e => exact he e hres
  | crash op ha n env =>
    have hwp := Op.run_idle (A := fun _ _ => True) hR ha hs.inv (hs.idle rfl)
    have hr := Prog.wp_stop hwp n env fun _ _ => trivial
    rw [Relation.reflTransGen_eq_self] at hr
    exact ⟨hr, fun h => by simp at h⟩
  | @start w broker m env hb =>
    have hm := Step.memory (R := R) (w := w) m
    have hwp := boot_idle (R := R) (A := fun _ _ => True) (b := broker) (hs.inv.step hm)
    obtain ⟨hr, ho, _⟩ := Prog.wp_eval hwp env fun _ _ => trivial
    rw [Relation.reflTransGen_eq_self] at hr
    exact ⟨.head hm hr, fun _ => ho () hb⟩
  | @abort w broker m n env =>
    have hm := Step.memory (R := R) (w := w) m
    have hwp := boot_idle (R := R) (A := fun _ _ => True) (b := broker) (hs.inv.step hm)
    have hr := Prog.wp_stop hwp n env fun _ _ => trivial
    rw [Relation.reflTransGen_eq_self] at hr
    exact ⟨.head hm hr, fun h => by simp at h⟩

theorem Moves.sound {s t : Process} (hR : R.Plain) (hs : Sound s) (h : Moves R s t) :
    Steps R s.world t.world ∧ Sound t := by
  induction h with
  | refl => exact ⟨.refl, hs⟩
  | tail _ hm ih =>
    obtain ⟨hst, hso⟩ := Move.sound hR ih.2 hm
    exact ⟨ih.1.trans hst, hso⟩

theorem Reachable.sound {s : Process} (hR : R.Plain) (h : Reachable R s) : Sound s := by
  obtain ⟨broker, m, h⟩ := h
  exact (Moves.sound hR ⟨inv_fresh broker m, by simp⟩ h).2

/-- Where a request leaves a running process, a run can get to. -/
theorem Reachable.leaves {op : Op} (h : Reachable R ⟨true, w⟩) (ha : op.Allowed R) (hv : Leaves op.run w v) :
    ∃ up, Reachable R ⟨up, v⟩ := by
  obtain ⟨broker, m, h⟩ := h
  cases hv with
  | done env => exact ⟨true, broker, m, h.tail (.serve op ha env)⟩
  | stopped n env => exact ⟨false, broker, m, h.tail (.crash op ha n env)⟩

/-- What holds at first and is kept by every step holds wherever a run can get to. -/
theorem Reachable.induct {I : World → Prop} {s : Process} (hR : R.Plain) (h : Reachable R s)
    (h₀ : ∀ broker m, I (World.fresh broker m)) (hs : ∀ w v, Inv w → Step R w v → I w → I v) : I s.world := by
  obtain ⟨broker, m, h⟩ := h
  have hst := (Moves.sound hR ⟨inv_fresh broker m, by simp⟩ h).1
  exact (Durable.invariant_of_reflTransGen (I := fun w => Inv w ∧ I w) hst
    (fun w v hi hv => ⟨hi.1.step hv, hs w v hi.1 hv hi.2⟩) ⟨inv_fresh broker m, h₀ broker m⟩).2

end Steps

end Runs

section Sample

def sampleApi : Api := { accountId := "A", enableWrites := true, session := 0 }

def sampleMapping : SymbolMapping := { destination := "EURUSD", lots := .ofNat 1, orderType := .limit }

/-- A dashboard that copies one symbol from one source to its selected account. -/
def sampleMemory : Memory where
  mode := .live
  copyModeSince := noon 0
  sources := [.manual]
  selected := "A"
  connected := true
  api := some sampleApi
  running := true
  captureGeneration := 0
  enableWrites := true
  interactiveCopying := true
  route := none
  profiles := [sampleApi]
  symbols := [("EURUSD", sampleMapping)]
  signalConfig := some { machineId := "PC", source := "panel", destinationAccount := "A" }
  r01Config := none
  r01Episodes := []
  configs := []
  copyConfigSince := []
  copyLanes := []

def sampleInstrument : Instrument where
  symbol := "EURUSD"
  pricePrecision := some 5
  volumeMin := some ⟨false, 1, -2⟩
  volumeMax := some (.ofNat 100)
  volumeStep := some ⟨false, 1, -2⟩
  contractSize := some (.ofNat 100000)
  closeOnly := false
  longOnly := false

/-- Every statement succeeds, and every write is accepted with the order's identity. -/
def sampleReply : (q : Query) → Reply q
  | .clock => noon 30
  | .uuid4 => "t1"
  | .commitFails => false
  | .instruments _ => .ok [sampleInstrument]
  | .quotes _ _ => .ok []
  | .equity _ => .ok (.ofNat 1000)
  | .openPositions _ => .ok []
  | .activeOrders _ => .ok [⟨"42", "EURUSD", "BUY", "LIMIT"⟩]
  | .closedPositions _ _ => .ok []
  | .write _ _ => .ok ⟨some "OK", some "42", none, by decide⟩

def sampleAnswers : Answers := fun _ => sampleReply

attribute [local instance] sampleHost

/-- The world of a process that has just started. -/
def started (m : Memory) : World := ((boot "fx").eval sampleAnswers (World.fresh "fx" m)).1

theorem started_up (m : Memory) :
    ((boot "fx").eval sampleAnswers (World.fresh "fx" m)).2 = .ok () := rfl

theorem reachable_started (R : Rules) (m : Memory) : Reachable R ⟨true, started m⟩ :=
  ⟨"fx", m, .single (.start (w := .fresh "fx" m) "fx" m sampleAnswers (started_up m))⟩

/-- The world after some requests, one after the other. -/
def served (ops : List Op) (w : World) : World := ops.foldl (fun w op => (op.run.eval sampleAnswers w).1) w

theorem reachable_served {R : Rules} {w : World} {ops : List Op} (h : Reachable R ⟨true, w⟩)
    (ha : ∀ op ∈ ops, op.Allowed R) : Reachable R ⟨true, served ops w⟩ := by
  induction ops generalizing w with
  | nil => exact h
  | cons op ops ih =>
    obtain ⟨broker, m, hm⟩ := h
    exact ih ⟨broker, m, hm.tail (.serve op (ha op (by simp)) sampleAnswers)⟩ fun o ho => ha o (by simp [ho])

/-- An accepted limit order of the source, under a lifecycle label. -/
def sampleEvent : CaptureEvent where
  schemaVersion := .v1_1_0
  eventId := "e1"
  machine := "PC"
  connectionId := "c"
  accountId := "a"
  orderId := "o1"
  positionId := ""
  executionId := ""
  requestId := "r1"
  emittedAt := noon 20
  kind := .accepted
  action := .create
  source := .manual
  sendingSource := ""
  sourceLabel := "P01RR_1"
  status := ""
  snapshot := false
  symbol := "EURUSD"
  side := .buy
  orderType := .limit
  quantity := .ofNat 1
  quantityUnit := "lots"
  fillEffect := .unknown
  orderQuantity := none
  cumulativeFilledQuantity := none
  remainingQuantity := none
  positionQuantity := none
  price := .ofNat 2
  sl := .ofNat 1
  tp := .ofNat 3
  bracketsAbsolute := true

theorem second_bounds : 1 ≤ "e2".length ∧ "e2".length ≤ 200 := by decide

/-- A signal of one lifecycle, some seconds past noon. -/
def sampleSignal (kind client : String) (second : Nat) : Json :=
  .obj [("clientEventId", .str client), ("machineId", .str "PC"), ("source", .str "panel"), ("kind", .str kind),
    ("label", .str "P01RR_1"), ("timestampUtc", .num (.ofNat second)), ("symbol", .str "EURUSD"), ("side", .str "BUY"),
    ("entry", .num (.ofNat 2)), ("stopLoss", .num (.ofNat 1)), ("takeProfit", .num (.ofNat 3))]

def sampleScope : List (Option String) :=
  [some "PC", some "panel", some "", some "", some "EURUSD", some "P01RR_1"]

def sampleRoute : RouteConfig where
  machine := "PC"
  connectionId := "c"
  accountId := "a"
  destinationAccount := "A"
  sources := [.manual]
  symbols := [("EURUSD", { destination := "EURUSD", quantityMultiplier := .ofNat 1, maxLots := .ofNat 10, fixedLots := none })]

/-- The selected account also takes the orders of the bridge. -/
def bridgeMemory : Memory := { sampleMemory with route := some sampleRoute }

end Sample

end MatchTrader
