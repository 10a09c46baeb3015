import MatchTrader.Frames
import MatchTrader.Runs

/-! A process start never resumes live. What governs an opening is the master mode or a saved
configuration; under a switch that is not armed no request opens anything, and only the operator
arms one. -/

namespace MatchTrader

open Durable

/-- What governs the opening writes of a lane: the master mode, or the configurations kept under one directory name. -/
inductive Switch where
  | master
  | config (directory : String)
deriving DecidableEq

def LaneId.switch : LaneId → Switch
  | .main | .r01 => .master
  | .config directory => .config directory

def Owner.switch : Owner → Switch
  | .trade _ => .master
  | .signal w => w.lane.switch

def Event.opensUnder (g : Switch) : Event → Bool
  | .sent owner _ call _ => owner.switch = g && call.opens
  | _ => false

/-- Nothing is opened under the switch. -/
def Mute (g : Switch) (w v : World) : Prop := ∃ said, v.trace = w.trace ++ said ∧ ∀ e ∈ said, e.opensUnder g = false

namespace Mute

variable {g : Switch} {w v u : World}

theorem of_trace (h : v.trace = w.trace) : Mute g w v := ⟨[], by simp [h], by simp⟩

theorem trans (h : Mute g w v) (h' : Mute g v u) : Mute g w u := by
  obtain ⟨l, hl, hall⟩ := h
  obtain ⟨m, hm, hall'⟩ := h'
  refine ⟨l ++ m, by rw [hm, hl, List.append_assoc], fun e he => ?_⟩
  exact (List.mem_append.mp he).elim (hall e) (hall' e)

theorem of_reflTransGen (h : Relation.ReflTransGen (Mute g) w v) : Mute g w v :=
  invariant_of_reflTransGen (I := fun v => Mute g w v) h (fun _ _ => trans) (of_trace rfl)

end Mute

/-- The program opens nothing under the switch and keeps what is said of the memory. -/
abbrev Hushed {α : Type} (J : Memory → Prop) (g : Switch) (p : Act α) : Prop := p.Keeps (fun w => J w.mem) (Mute g)

section Hushed

variable {J : Memory → Prop} {g : Switch}

theorem hushed_setMem {f : Memory → Memory} (h : ∀ m, J m → J (f m)) : Hushed J g (setMem f) :=
  Prog.keeps_commit fun w hJ => ⟨.of_trace rfl, h w.mem hJ⟩

/-- An event that opens nothing under the switch concerns neither the memory nor what was said. -/
theorem hushedFrame [Host] : FrameRule (fun _ => True) (fun w => J w.mem) (Mute g) (fun e => e.opensUnder g = false) where
  journal := fun w o j _ _ hJ => ⟨.of_trace rfl, hJ⟩
  mild := fun _ _ => trivial
  fault := fun w hJ => ⟨.of_trace rfl, hJ⟩
  say := fun w e he hJ => ⟨⟨[e], rfl, fun x hx => by rw [List.mem_singleton.mp hx]; exact he⟩, hJ⟩
  heard := fun e he => by
    cases e with
    | sent owner api call j => simp [Event.writes] at he
    | _ => rfl
  removes := fun v api call j hc => by simp [Event.opensUnder, hc]

theorem hushed_lanes : LanesFree (fun w => J w.mem) (Mute g) := fun _ _ _ hJ => ⟨.of_trace rfl, hJ⟩

variable [Host] {c : LaneCall} {symbols : SymbolMap} {api : Option Api} {destination : String} {verified : Bool}

omit [Host] in
theorem hushed_opens {owner : Owner} {api : Api} {call : Call} {j : Journal} (h : owner.switch ≠ g) :
    (Event.sent owner api call j).opensUnder g = false := by simp [Event.opensUnder, h]

theorem hushed_licensed {key : String} {raw : Json} (h : c.lane.switch = g → c.copyMode = some .paper) :
    Licensed (fun e => e.opensUnder g = false) c destination key raw := by
  refine ⟨?_, fun api call j hc => ?_⟩
  · by_cases hg : c.lane.switch = g
    · exact Or.inl (h hg)
    · exact Or.inr fun api call j _ => hushed_opens hg
  · have hopens : call.opens = false := by cases call <;> first | rfl | simp [Call.cancels] at hc
    simp [Event.opensUnder, hopens]

/-- A lane opens under its own switch only, and on paper it opens nothing. -/
theorem hushed_receive {payload : List Json} (h : c.lane.switch = g → c.copyMode = some .paper) :
    Hushed J g (SignalCopy.receive c symbols payload api destination verified) :=
  hushedFrame.receive fun _ _ s _ => ⟨hushed_lanes.row c.lane (SignalCopy.signalKey s), hushed_licensed h⟩

/-- A send on paper opens nothing; a live one is governed by the master mode. -/
theorem hushed_send {entry : Entry} {controls : Controls} {tradeId : String} {volume : Json} {route : Option RouteConfig}
    (h : g = .master → controls.mode = .paper) :
    Hushed J g (ManualSend.send entry controls tradeId volume api destination route) := by
  refine hushedFrame.send (fun _ => trivial) ?_
  by_cases hg : g = .master
  · exact Or.inl (h hg)
  · exact Or.inr fun v a call j => hushed_opens fun he => hg he.symm

end Hushed

section Controllers

variable [Host] {g : Switch}

def Switch.Armed (m : Memory) : Switch → Prop
  | .master => m.mode = .live
  | .config directory => ∃ c ∈ m.configs, Controller.directory c.id = directory ∧ c.enabled = true ∧ c.mode = .live

/-- The switch is not armed. -/
def Switch.Safe (g : Switch) (m : Memory) : Prop := ¬ g.Armed m

/-- What is said of the memory concerns the mode and the configurations only. -/
def Modal (J : Memory → Prop) : Prop := ∀ m n : Memory, n.mode = m.mode → n.configs = m.configs → J m → J n

theorem Switch.modal_safe (g : Switch) : Modal g.Safe := by
  intro m n hm hc h ha
  refine h ?_
  cases g with
  | master =>
    have hn : n.mode = .live := ha
    exact hm.symm.trans hn
  | config directory =>
    obtain ⟨c, hin, hd⟩ := ha
    exact ⟨c, hc ▸ hin, hd⟩

omit [Host] in
theorem Mode.eq_paper {mode : Mode} (h : mode ≠ .live) : mode = .paper := by
  cases mode with
  | paper => rfl
  | live => exact absurd rfl h

theorem Switch.Safe.paper {m : Memory} (h : g.Safe m) (hg : g = .master) : m.mode = .paper :=
  Mode.eq_paper fun hl => h (hg ▸ hl)

theorem Switch.Safe.config_paper {m : Memory} {c : CopyConfig} (h : g.Safe m) (hc : c ∈ m.configs) (he : c.enabled = true)
    (hg : (Controller.configLane c.id).switch = g) : c.mode = .paper :=
  Mode.eq_paper fun hl => h (hg ▸ ⟨c, hc, rfl, he, hl⟩)

variable {J : Memory → Prop}

namespace Controller

theorem hushed_laneFor (hJ : Modal J) (id : String) : Hushed J g (laneFor id) := by
  refine Prog.Keeps.bind ?_ fun _ => Prog.keeps_pure _
  unfold ensureLane
  refine FrameRule.reads fun m => ?_
  split
  · exact Prog.keeps_pure _
  · exact Prog.Keeps.bind (hushedFrame.transactLane fun w hJ => hushed_lanes w _ _ hJ) fun _ => hushed_setMem fun m => hJ m _ rfl rfl

theorem laneFor_yields (id : String) : (laneFor id).Yields fun lane => lane = configLane id :=
  Prog.yields_bind fun _ => Prog.yields_pure rfl

omit [Host] in
theorem hushed_contain {α : Type} {p : Act α} {f : Exc → α} (h : Hushed J g p) : Hushed J g (contain p f) := by
  refine Prog.Keeps.tryCatch h fun e => ?_
  split
  · exact Prog.keeps_pure _
  · exact Prog.keeps_throw _

theorem hushed_deliver {config : CopyConfig} {elements : List Json} (hJ : Modal J)
    (h : (configLane config.id).switch = g → config.mode = .paper) : Hushed J g (deliver config elements) := by
  unfold deliver
  refine Prog.Keeps.bind_yields (hushed_laneFor hJ config.id) (laneFor_yields config.id) fun lane hlane => ?_
  refine Prog.Keeps.bind (hushed_setMem fun m => hJ m _ rfl rfl) fun _ => FrameRule.reads fun m => ?_
  refine hushed_contain (Prog.Keeps.discard (hushed_receive fun hg => ?_))
  have hswitch : lane.switch = g := hg
  exact congrArg some (h (hlane ▸ hswitch))

theorem hushed_routeToConfigs (payload : List Json) : Hushed g.Safe g (routeToConfigs payload) := by
  unfold routeToConfigs
  refine Prog.keeps_reads fun w hw => ?_
  split
  · refine Prog.keeps_forM _ fun config hc => ?_
    unfold routeToConfig
    split
    · next he => exact hushed_deliver g.modal_safe fun hg => hw.config_paper hc he.1 hg
    · exact Prog.keeps_pure _
  · exact Prog.keeps_pure _

theorem hushed_receiveSignals (payload : List Json) : Hushed g.Safe g (receiveSignals payload) := by
  unfold receiveSignals
  refine Prog.keeps_reads fun w hw => Prog.Keeps.bind (hushed_receive fun hg => ?_) fun results => ?_
  · exact congrArg some (hw.paper hg.symm)
  · exact Prog.Keeps.bind (hushed_routeToConfigs payload) fun _ => Prog.keeps_pure _

theorem hushed_copyR01Row (row : LedgerRow) : Hushed g.Safe g (copyR01Row row) := by
  unfold copyR01Row
  refine Prog.keeps_reads fun w hw => ?_
  split
  · exact Prog.keeps_pure _
  · simp only
    split
    · exact Prog.keeps_pure _
    · refine Prog.Keeps.bind (hushed_setMem fun m => g.modal_safe m _ rfl rfl) fun _ => ?_
      split
      · exact Prog.keeps_pure _
      · refine hushed_contain (Prog.Keeps.map (hushed_receive fun hg => ?_))
        exact congrArg some (hw.paper hg.symm)

theorem hushed_sendTrade (tradeId : String) (volume : Json) : Hushed g.Safe g (sendTrade tradeId volume) := by
  unfold sendTrade
  refine Prog.Keeps.bind FrameRule.raiseIf fun _ => Prog.keeps_reads fun w hw => Prog.Keeps.bind (FrameRule.ofExcept _) fun api => ?_
  exact hushed_send fun hg => hw.paper hg

theorem hushed_refreshPositions : Hushed J g refreshPositions := by
  unfold refreshPositions
  refine FrameRule.reads fun m => ?_
  split
  · exact Prog.keeps_throw _
  · exact hushedFrame.pass _ _

omit [Host] in
theorem hushed_markSince (hJ : Modal J) (id : String) : Hushed J g (markSince id) :=
  Prog.Keeps.bind FrameRule.now fun _ => hushed_setMem fun m => hJ m _ rfl rfl

end Controller

namespace Automatic

open Controller

theorem hushed_recordDecision (e : CaptureEvent) (r : NativeResult) : Hushed J g (recordDecision e r) := by
  unfold recordDecision
  refine FrameRule.reads fun journal => ?_
  split
  · exact Prog.keeps_throw _
  · exact hushedFrame.decision _ _ _

theorem hushed_settle {e : CaptureEvent} {r : NativeResult} {p : Act NativeResult} (h : Hushed J g p) :
    Hushed J g (settle e r p) := by
  refine Prog.Keeps.bind (Prog.Keeps.tryCatch h fun _ => Prog.keeps_pure _) fun r => ?_
  exact Prog.Keeps.bind (hushed_recordDecision e r) fun _ => Prog.keeps_pure _

theorem hushed_settleSignal {e : CaptureEvent} {r : NativeResult} {p : Act NativeResult} (h : Hushed J g p) :
    Hushed J g (settleSignal e r p) := by
  unfold settleSignal
  refine Prog.Keeps.bind (Prog.Keeps.tryCatch (Prog.Keeps.map h) fun _ => Prog.keeps_pure _) fun updated => ?_
  cases updated with
  | ok r =>
    refine Prog.Keeps.tryCatch (Prog.Keeps.bind (hushed_recordDecision e r) fun _ => Prog.keeps_pure _) fun exc => ?_
    exact Prog.Keeps.bind (hushed_recordDecision e _) fun _ => Prog.keeps_pure _
  | error r => exact Prog.Keeps.bind (hushed_recordDecision e r) fun _ => Prog.keeps_pure _

theorem hushed_cancelSignalCopy {e : CaptureEvent} {rows : List SignalRow} {r : NativeResult} :
    Hushed g.Safe g (cancelSignalCopy e rows r) := by
  unfold cancelSignalCopy
  split
  · refine Prog.Keeps.bind (hushed_receiveSignals _) fun decisions => ?_
    cases decisions with
    | nil => exact Prog.keeps_throw _
    | cons d rest => exact Prog.keeps_pure _
  · exact Prog.keeps_throw _

theorem hushed_cancel {e : CaptureEvent} {identity : String} {r : NativeResult} : Hushed J g (cancel e identity r) := by
  unfold cancel
  refine FrameRule.reads fun m => Prog.Keeps.bind (hushedFrame.apply _ _ _ _ _) fun o => ?_
  cases o with
  | none => exact Prog.keeps_throw _
  | some o => exact Prog.keeps_pure _

theorem hushed_create {e : CaptureEvent} {identity : String} {r : NativeResult} : Hushed g.Safe g (create e identity r) := by
  unfold create
  refine Prog.keeps_reads fun w hw => ?_
  have hmode : g = .master → w.mem.mode = .paper := hw.paper
  refine Prog.Keeps.bind FrameRule.raiseIf fun _ => ?_
  simp only [id]
  split
  · exact Prog.keeps_throw _
  · refine Prog.Keeps.bind (FrameRule.ofExcept _) fun mapping => Prog.Keeps.bind FrameRule.raiseIf fun _ => Prog.Keeps.bind FrameRule.now fun at_ =>
      Prog.Keeps.bind FrameRule.raiseIf fun _ => Prog.Keeps.bind FrameRule.raiseIf fun _ => Prog.Keeps.bind (FrameRule.ofExcept _) fun lots =>
        Prog.Keeps.bind FrameRule.raiseIf fun _ => Prog.Keeps.bind (hushed_send hmode) fun o => ?_
    exact Prog.keeps_pure _

theorem hushed_act {e : CaptureEvent} {identity : String} {r : NativeResult} : Hushed g.Safe g (act e identity r) := by
  unfold act
  refine FrameRule.reads fun w => ?_
  extract_lets trade rows
  split
  · split
    · exact hushed_settle (Prog.keeps_pure _)
    · split
      · exact hushed_settleSignal hushed_cancelSignalCopy
      · exact hushed_settle hushed_cancel
  · exact hushed_settle hushed_create

theorem hushed_receiveNative (e : CaptureEvent) (captureGeneration : Option Nat) :
    Hushed g.Safe g (Controller.receiveNative e captureGeneration) := by
  refine FrameRule.reads fun m => Prog.Keeps.bind FrameRule.raiseIf fun _ => FrameRule.reads fun m => ?_
  refine Prog.Keeps.bind (hushedFrame.route rfl) fun result => ?_
  split
  · exact Prog.keeps_pure _
  · split
    · exact Prog.keeps_pure _
    · exact hushed_act

end Automatic

end Controllers

section Sessions

variable [Host] {g : Switch} {w v u : World}

/-- What the dashboard is asked: no request but the operator's own changes the mode or a configuration, the router is never
armed, and the log of the main lane's own feed comes in its mode. -/
def Op.Offered (m : Memory) : Op → Prop
  | memory n => n.mode = m.mode ∧ n.configs = m.configs
  | batch c .. => c.lane = .main ∧ c.copyMode = some m.mode
  | route arming .. => arming.armed = false
  | send controls .. => controls.mode = m.mode
  | _ => True

/-- The operator sets a mode. -/
def Op.operates : Op → Bool
  | copyControls .. | copyConfig _ | copyConfigState .. => true
  | _ => false

theorem Op.hushed {op : Op} (hw : g.Safe w.mem) (ho : op.Offered w.mem) (hn : op.operates = false) : Hushed g.Safe g op.run := by
  cases op with
  | native e n => exact (Automatic.hushed_receiveNative e n).discard
  | signals payload => exact (Controller.hushed_receiveSignals payload).discard
  | ledgerRow row => exact (Controller.hushed_copyR01Row row).discard
  | sendTrade tradeId volume => exact (Controller.hushed_sendTrade tradeId volume).discard
  | refreshPositions => exact Controller.hushed_refreshPositions
  | copyControls | copyConfig | copyConfigState => simp [operates] at hn
  | deleteCopyConfig id =>
    refine Prog.Keeps.bind FrameRule.raiseIf fun _ => FrameRule.reads fun m => Prog.Keeps.bind FrameRule.raiseIf fun _ => ?_
    refine hushed_setMem fun m hm ha => hm ?_
    cases g with
    | master => exact ha
    | config directory =>
      obtain ⟨c, hc, hd⟩ := ha
      exact ⟨c, (List.mem_filter.mp hc).1, hd⟩
  | memory m => exact hushed_setMem fun _ _ => g.modal_safe w.mem m ho.1 ho.2 hw
  | batch c symbols payload api destination verified =>
    refine Prog.Keeps.discard (hushed_receive fun hg => ?_)
    rw [ho.1] at hg
    rw [ho.2, hw.paper hg.symm]
  | record e => exact (hushedFrame.recordEvent e).discard
  | route arming config e api destination => exact Prog.Keeps.discard (hushedFrame.route ho)
  | send controls tradeId volume api destination config =>
    exact Prog.Keeps.discard (hushed_send fun hg => ho.trans (hw.paper hg))
  | unwind s api destination verified tradeId => exact Prog.Keeps.discard (hushedFrame.apply _ _ _ _ _)
  | reconcile api destination => exact hushedFrame.pass _ _

/-- Nothing is said of the memory. -/
def Any (_ : Memory) : Prop := True

/-- An action of the operator writes nothing. -/
theorem Op.hushed_operates {op : Op} (hn : op.operates = true) : Hushed Any g op.run := by
  have hmodal : Modal Any := fun _ _ _ _ _ => trivial
  cases op with
  | copyControls mode sources => exact Prog.Keeps.bind FrameRule.now fun _ => hushed_setMem fun _ _ => trivial
  | copyConfig config =>
    refine FrameRule.reads fun m => Prog.Keeps.bind FrameRule.raiseIf fun _ => Prog.Keeps.bind FrameRule.raiseIf fun _ => ?_
    refine Prog.Keeps.bind (hushed_setMem fun _ _ => trivial) fun _ => Prog.Keeps.bind (Controller.hushed_laneFor hmodal _) fun _ => ?_
    split
    · exact Controller.hushed_markSince hmodal _
    · exact Prog.keeps_pure _
  | copyConfigState id mode enabled =>
    refine Prog.Keeps.bind FrameRule.raiseIf fun _ => FrameRule.reads fun m => ?_
    split
    · exact Prog.keeps_throw _
    · refine Prog.Keeps.bind (hushed_setMem fun _ _ => trivial) fun _ => ?_
      split
      · exact Controller.hushed_markSince hmodal _
      · exact Prog.keeps_pure _
  | _ => simp [operates] at hn

/-- The requests of one process, of which no action of the operator has armed the switch. -/
inductive Session (g : Switch) (w : World) : World → Prop
  | start : Session g w w
  | serve {v : World} (op : Op) (env : Answers) (h : Session g w v) (ho : op.Offered v.mem)
    (hn : op.operates = true → g.Safe (op.run.eval env v).1.mem) : Session g w (op.run.eval env v).1

theorem Session.safe (h : Session g w v) (hw : g.Safe w.mem) : g.Safe v.mem ∧ Mute g w v := by
  induction h with
  | start => exact ⟨hw, .of_trace rfl⟩
  | @serve v op env h ho hn ih =>
    cases hop : op.operates with
    | true =>
      have hsaid := (Prog.Keeps.eval (s := v) (Op.hushed_operates (g := g) hop) trivial env).1
      exact ⟨hn hop, ih.2.trans (.of_reflTransGen hsaid)⟩
    | false =>
      obtain ⟨hsaid, hsafe⟩ := (Op.hushed ih.1 ho hop).eval ih.1 env
      exact ⟨hsafe, ih.2.trans (.of_reflTransGen hsaid)⟩

theorem Session.leaves {op : Op} (h : Session g w v) (hw : g.Safe w.mem) (ho : op.Offered v.mem)
    (hl : Leaves op.run v u) : Mute g w u := by
  obtain ⟨hsafe, hsaid⟩ := h.safe hw
  refine hsaid.trans ?_
  cases hop : op.operates with
  | true =>
    have hhush := Op.hushed_operates (g := g) hop
    cases hl with
    | done env => exact .of_reflTransGen (Prog.Keeps.eval hhush trivial env).1
    | stopped n env => exact .of_reflTransGen (Prog.Keeps.stop hhush trivial n env)
  | false =>
    have hhush := Op.hushed hsafe ho hop
    cases hl with
    | done env => exact .of_reflTransGen (hhush.eval hsafe env).1
    | stopped n env => exact .of_reflTransGen (hhush.stop hsafe n env)

/-- What the files of the dashboard say. -/
structure Saved where
  controls : Option (Mode × List Source)
  configs : List CopyConfig
  route : Option RouteConfig
  signalConfig : Option Lane
  r01Config : Option Lane
  symbols : SymbolMap

/-- The controls as a process start sees them: the mode comes back as paper, whatever the file says. -/
def loadControls : Option (Mode × List Source) → Mode × List Source
  | none => (.paper, [])
  | some saved => (.paper, saved.2)

/-- The saved configurations, by their ids. -/
def loadConfigs (saved : List CopyConfig) : List CopyConfig :=
  saved.foldl (fun configs c => Rows.upsert CopyConfig.id c (fun _ => c) configs) []

/-- The memory of a process that starts. -/
def Memory.opened (saved : Saved) (selected : String) (interactiveCopying : Bool) (at_ : Instant) : Memory where
  mode := (loadControls saved.controls).1
  copyModeSince := at_
  sources := (loadControls saved.controls).2
  selected := selected
  connected := false
  api := none
  running := false
  captureGeneration := 0
  enableWrites := saved.route.isSome || interactiveCopying
  interactiveCopying := interactiveCopying
  route := saved.route
  profiles := []
  symbols := saved.symbols
  signalConfig := saved.signalConfig
  r01Config := saved.r01Config
  r01Episodes := []
  configs := loadConfigs saved.configs
  copyConfigSince := []
  copyLanes := []

/-- Capture starts. -/
def Memory.startCapture (m : Memory) : Memory :=
  if m.running then m else { m with running := true, captureGeneration := m.captureGeneration + 1 }

omit [Host] in
theorem loadControls_paper (saved : Option (Mode × List Source)) : (loadControls saved).1 = .paper := by
  cases saved <;> rfl

theorem hushed_boot (broker : String) : Hushed J g (boot broker) := by
  refine Prog.Keeps.bind (hushedFrame.openJournal broker) fun _ => Prog.Keeps.bind ?_ fun _ => ?_
  · exact hushedFrame.transactLane fun w hJ => hushed_lanes w _ _ hJ
  · exact hushedFrame.transactLane fun w hJ => hushed_lanes w _ _ hJ

/-- No process start resumes live: whatever the stores hold, nothing is opened under the master mode until the operator has
set it to live in the same process, and nothing by the lane of a configuration until the operator has enabled a live one
there, if none was saved so. -/
theorem restart_unarmed {saved : Saved} {selected broker : String} {interactiveCopying : Bool} {at_ : Instant} {env : Answers}
    {op : Op} (hsaved : ∀ directory, g = .config directory → ∀ c ∈ loadConfigs saved.configs,
      Controller.directory c.id = directory → c.enabled = true → c.mode ≠ .live)
    (hsession : Session g ((boot broker).eval env { w with mem := .opened saved selected interactiveCopying at_ }).1 v)
    (ho : op.Offered v.mem) (hu : Leaves op.run v u) : Mute g w u := by
  have hsafe : g.Safe (Memory.opened saved selected interactiveCopying at_) := by
    intro ha
    cases g with
    | master =>
      have hlive : (loadControls saved.controls).1 = .live := ha
      rw [loadControls_paper] at hlive
      cases hlive
    | config directory =>
      obtain ⟨c, hc, hd, he, hl⟩ := ha
      exact hsaved directory rfl c hc hd he hl
  have hboot : Hushed g.Safe g (boot broker) := hushed_boot broker
  obtain ⟨hsaid, hbooted⟩ := hboot.eval (s := { w with mem := .opened saved selected interactiveCopying at_ }) hsafe env
  have hstart : Mute g w ((boot broker).eval env { w with mem := .opened saved selected interactiveCopying at_ }).1 :=
    Mute.trans (v := { w with mem := .opened saved selected interactiveCopying at_ }) (.of_trace rfl) (.of_reflTransGen hsaid)
  exact hstart.trans (hsession.leaves hbooted ho hu)

end Sessions

section Sample

attribute [local instance] sampleHost

/-- A saved configuration that is enabled. -/
def savedConfig (mode : Mode) : CopyConfig :=
  ⟨"c1", { machineId := "PC", source := "panel", destinationAccount := "A" }, mode, true⟩

/-- The files of a dashboard whose master mode was live. -/
def savedFiles (mode : Mode) : Saved := ⟨some (.live, []), [savedConfig mode], none, none, none, sampleMemory.symbols⟩

def wokenUp (mode : Mode) : World :=
  ((boot "fx").eval sampleAnswers
    { World.fresh "fx" sampleMemory with mem := .opened (savedFiles mode) "A" true (noon 0) }).1

/-- The account is connected, and capture starts. -/
def Memory.captures (m : Memory) : Memory := Memory.startCapture { m with connected := true, api := some sampleApi }

theorem captures_mode (m : Memory) : m.captures.mode = m.mode := by
  unfold Memory.captures Memory.startCapture
  split <;> rfl

theorem captures_configs (m : Memory) : m.captures.configs = m.configs := by
  unfold Memory.captures Memory.startCapture
  split <;> rfl

def woken (mode : Mode) : World := served [.memory (wokenUp mode).mem.captures] (wokenUp mode)

theorem session_woken (g : Switch) (mode : Mode) : Session g (wokenUp mode) (woken mode) :=
  .serve (.memory (wokenUp mode).mem.captures) sampleAnswers .start ⟨captures_mode _, captures_configs _⟩ fun h => by
    simp [Op.operates] at h

def sampleDelivery : Op := .signals [sampleSignal "intent" "s1" 20]

theorem restart_unarmed_sample : Mute (.config (Controller.directory "c1")) (World.fresh "fx" sampleMemory)
    (served [sampleDelivery] (woken .paper)) := by
  have hsession : Session (.config (Controller.directory "c1")) (wokenUp .paper) (woken .paper) := session_woken _ .paper
  unfold wokenUp at hsession
  refine restart_unarmed (fun directory _ c hc _ _ => ?_) hsession ?_ (.done (p := sampleDelivery.run) sampleAnswers)
  · obtain rfl := List.mem_singleton.mp hc
    decide
  · trivial

/-- A configuration that was saved live copies again as soon as capture starts; the operator has set nothing. -/
theorem restart_resumes_live : ∃ w v, Session (.config (Controller.directory "c1")) w v ∧ w.mem.mode = .paper
    ∧ w.trace.any (Event.opensUnder (.config (Controller.directory "c1"))) = false
    ∧ v.trace.any (Event.opensUnder (.config (Controller.directory "c1"))) = true := by
  refine ⟨wokenUp .live, served [sampleDelivery] (woken .live), ?_, by decide +kernel, by decide +kernel, by decide +kernel⟩
  have hoffered : sampleDelivery.Offered (woken .live).mem := trivial
  exact .serve sampleDelivery sampleAnswers (session_woken _ .live) hoffered fun h => by simp [sampleDelivery, Op.operates] at h

end Sample

end MatchTrader
