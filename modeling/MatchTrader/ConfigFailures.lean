import MatchTrader.ConfigIsolation
import MatchTrader.Runs

/-! What the failure of one copy configuration does to the others: the loop over the configurations,
each with its own surroundings, with a configuration and as if it were absent. -/

namespace MatchTrader

open Durable

section Model

variable [Host]

namespace Controller

/-- How the steps before a lane's own statements end: its directory, its settings and its database. A
configuration's directory holds no settings of its own, so they leave the symbol map alone. -/
abbrev Openings := String → Except Exc Unit

def openFiles (opened : Openings) (id : String) : Act Unit := do
  let m ← reads World.mem
  if m.copyLanes.contains id then pure () else Prog.ofExcept (opened id)

/-- `_lane_for` at a configuration's first use, with all that may fail in it. -/
def createLane (opened : Openings) (id : String) : Act Unit := do
  openFiles opened id
  ensureLane id

/-- One round of the loop of `_route_to_configs`. -/
def routeFrom (opened : Openings) (payload : List Json) (config : CopyConfig) : Act Unit :=
  if config.enabled ∧ subset config payload ≠ [] then do
    openFiles opened config.id
    deliver config (subset config payload)
  else pure ()

/-- The loop, with the answers that each configuration's sessions and record give; what escapes a round
ends it. -/
def routed (opened : Openings) (payload : List Json) (answers : String → Answers) :
    List CopyConfig → World → World × Except Exc Unit
  | [], w => (w, .ok ())
  | config :: rest, w =>
    match (routeFrom opened payload config).eval (answers config.id) w with
    | (v, .ok ()) => routed opened payload answers rest v
    | (v, .error e) => (v, .error e)

/-- The main lane's part of `receive_signals`. -/
def mainReceive (payload : List Json) : Act (List SignalResult) := do
  let m ← reads World.mem
  SignalCopy.receive (mainCall m) m.symbols payload m.api m.selected m.destinationVerified

/-- `receive_signals`: what the main lane made of the batch is returned if the loop is. -/
def received (opened : Openings) (payload : List Json) (main : Answers) (answers : String → Answers) (w : World) :
    World × Except Exc (List SignalResult) :=
  match (mainReceive payload).eval main w with
  | (v, .error e) => (v, .error e)
  | (v, .ok results) =>
    if v.mem.running then
      match routed opened payload answers v.mem.configs v with
      | (u, .ok ()) => (u, .ok results)
      | (u, .error e) => (u, .error e)
    else (v, .ok results)

inductive Phase where
  | creating
  | receiving
deriving DecidableEq, Repr

/-- What a configuration's lane raises at its turn. -/
def raised (opened : Openings) (payload : List Json) (config : CopyConfig) (env : Answers) (w : World) : Option (Phase × Exc) :=
  if config.enabled ∧ subset config payload ≠ [] then
    match (createLane opened config.id).eval env w with
    | (_, .error e) => some (.creating, e)
    | (v, .ok ()) =>
      match (receives config (subset config payload)).eval ((createLane opened config.id).rest env w) v with
      | (_, .error e) => some (.receiving, e)
      | (_, .ok ()) => none
  else none

/-- What a configuration's lane raises in a delivery, if its turn comes. -/
def failure (opened : Openings) (payload : List Json) (main : Answers) (answers : String → Answers) (config : CopyConfig)
    (w : World) : Option (Phase × Exc) :=
  match (mainReceive payload).eval main w with
  | (_, .error _) => none
  | (v, .ok _) =>
    if v.mem.running then
      match routed opened payload answers (v.mem.configs.takeWhile fun c => c.id ≠ config.id) v with
      | (u, .ok ()) => raised opened payload config (answers config.id) u
      | (_, .error _) => none
    else none

/-- The world as if the configuration were absent. -/
def without (id : String) (w : World) : World := { w with mem := w.mem.besides id }

/-- The same came of both deliveries, but for the one configuration's own. -/
def Isolated (id : String) (a b : World × Except Exc (List SignalResult)) : Prop :=
  besides id a.1 = besides id b.1 ∧ a.2 = b.2

end Controller

end Model

section Rounds

variable [Host] {opened : Controller.Openings} {payload : List Json} {answers : String → Answers} {id : String}
  {w s t : World} {x : CopyConfig}

omit [Host] in
theorem Journal.Upkeep.trade?_eq_none {j k : Journal} (h : j.Upkeep k) {i : String} (hi : j.trade? i = none) : k.trade? i = none := by
  have hkeys : ∀ l : Journal, l.trades.map TradeRow.tradeId = (l.trades.map TradeRow.identity).map Prod.fst := by
    intro l
    simp [TradeRow.identity, Function.comp_def]
  have hsame : k.trades.map TradeRow.tradeId = j.trades.map TradeRow.tradeId := by rw [hkeys, hkeys, h.identities]
  simp only [Journal.trade?, Rows.lookup_eq_none_iff] at hi ⊢
  intro r hr hri
  have hmem : i ∈ j.trades.map TradeRow.tradeId := hsame ▸ List.mem_map.mpr ⟨r, hr, hri⟩
  obtain ⟨q, hq, hqi⟩ := List.mem_map.mp hmem
  exact hi q hq hqi

omit [Host] in
theorem Journal.Upkeep.linkedTrades {j k : Journal} (h : j.Upkeep k) {machine label : String}
    (hn : j.linkedTrades machine label = []) : k.linkedTrades machine label = [] := by
  have hevents : ∀ l : Journal, (l.events.filter fun e => e.payload.kind = .accepted ∧ e.payload.action = .create
        ∧ e.payload.machine = machine ∧ e.payload.sourceLabel = label).filterMap EventRow.tradeId
      = ((l.events.map EventRow.filed).filter fun e => e.2.2.2.kind = .accepted ∧ e.2.2.2.action = .create
        ∧ e.2.2.2.machine = machine ∧ e.2.2.2.sourceLabel = label).filterMap fun e => e.2.2.1 := by
    intro l
    rw [List.filter_map, List.filterMap_map]
    rfl
  unfold Journal.linkedTrades at hn ⊢
  by_cases hnamed : machine = "" ∨ label = ""
  · rw [if_pos hnamed]
  · rw [if_neg hnamed, List.filterMap_eq_nil_iff] at hn ⊢
    intro i hi
    rw [hevents, h.filed, ← hevents] at hi
    exact h.trade?_eq_none (hn i hi)

theorem LedgerFree.upkeep {j k : Journal} {elements : List Json} (hf : LedgerFree j elements) (h : j.Upkeep k) :
    LedgerFree k elements := fun raw hraw s hs hc => h.linkedTrades (hf raw hraw s hs hc)

theorem Unseeing.upkeep {α : Type} {p : Act α} (h : Unseeing id p) (env : Answers) (w : World) :
    w.journal.Upkeep (p.eval env w).1.journal := by
  have hsteps := h.steps env w
  generalize (p.eval env w).1 = v at hsteps
  induction hsteps with
  | refl => exact .refl _
  | tail _ hstep ih => exact ih.trans hstep

namespace Controller

/-- No other configuration shares an identity or a directory with this one. -/
def Apart (id : String) (config : CopyConfig) : Prop := config.id ≠ id ∧ directory config.id ≠ directory id

theorem Apart.lane {config : CopyConfig} (h : Apart id config) : configLane config.id ≠ configLane id :=
  fun he => h.2 (LaneId.config.inj he)

theorem routed_cons_ok {config : CopyConfig} {rest : List CopyConfig} {v : World}
    (h : (routeFrom opened payload config).eval (answers config.id) w = (v, .ok ())) :
    routed opened payload answers (config :: rest) w = routed opened payload answers rest v := by
  rw [routed, h]

theorem routed_cons_error {config : CopyConfig} {rest : List CopyConfig} {v : World} {e : Exc}
    (h : (routeFrom opened payload config).eval (answers config.id) w = (v, .error e)) :
    routed opened payload answers (config :: rest) w = (v, .error e) := by
  rw [routed, h]

theorem routed_congr {configs : List CopyConfig} {others : String → Answers} (h : ∀ c ∈ configs, answers c.id = others c.id) :
    routed opened payload answers configs w = routed opened payload others configs w := by
  induction configs generalizing w with
  | nil => rfl
  | cons config configs ih =>
    have htail := fun v => ih (w := v) fun c hc => h c (List.mem_cons_of_mem _ hc)
    rw [routed, routed, h config List.mem_cons_self]
    simp only [htail]

theorem routeFrom_opened (config : CopyConfig) (env : Answers) (w : World) :
    (routeFrom (fun _ => .ok ()) payload config).eval env w = (routeToConfig payload config).eval env w := by
  unfold routeFrom routeToConfig
  split
  · have hopened : openFiles (fun _ => .ok ()) config.id = (reads World.mem >>= fun _ => pure ()) := by
      unfold openFiles
      congr
      funext m
      split <;> rfl
    rw [hopened]
    rfl
  · rfl

/-- The loop of the controller is a run of these rounds: each configuration's answers are a part of the one
sequence of answers. -/
theorem forM_routed (payload : List Json) {configs : List CopyConfig} (hn : (configs.map CopyConfig.id).Nodup) (env : Answers) (w : World) :
    ∃ answers, (configs.forM (routeToConfig payload)).eval env w = routed (fun _ => .ok ()) payload answers configs w := by
  induction configs generalizing env w with
  | nil => exact ⟨fun _ => env, rfl⟩
  | cons config configs ih =>
    rw [List.map_cons, List.nodup_cons] at hn
    change ∃ answers, (routeToConfig payload config >>= fun _ => configs.forM (routeToConfig payload)).eval env w = _
    rcases hr : (routeToConfig payload config).eval env w with ⟨v, e | ⟨⟩⟩
    all_goals rw [← routeFrom_opened] at hr
    · refine ⟨fun _ => env, ?_⟩
      rw [routed_cons_error hr]
      rw [routeFrom_opened] at hr
      exact Prog.eval_bind_error hr
    · obtain ⟨answers, htail⟩ := ih hn.2 ((routeToConfig payload config).rest env w) v
      let joined : String → Answers := fun id => if id = config.id then env else answers id
      have hhead : joined config.id = env := if_pos rfl
      have hagree : ∀ c ∈ configs, joined c.id = answers c.id := by
        intro c hc
        exact if_neg fun he : c.id = config.id => hn.1 (he ▸ List.mem_map_of_mem hc)
      refine ⟨joined, ?_⟩
      rw [← hhead] at hr
      rw [routed_cons_ok hr, routed_congr hagree, ← htail]
      rw [hhead, routeFrom_opened] at hr
      exact Prog.eval_bind_ok hr

end Controller

end Rounds

section Deliveries

variable [Host] {opened : Controller.Openings} {payload : List Json} {main : Answers} {answers : String → Answers}
  {w v : World} {x : CopyConfig}

theorem frame_mem (m : Memory) : FrameRule (fun _ => True) (fun w => w.mem = m) (fun _ _ => True) fun _ => True where
  journal _ _ _ _ _ h := ⟨trivial, h⟩
  fault _ h := ⟨trivial, h⟩
  mild _ _ := trivial
  say _ _ _ h := ⟨trivial, h⟩
  heard _ _ := trivial
  removes _ _ _ _ _ := trivial

namespace Controller

theorem mainReceive_mem (payload : List Json) (env : Answers) (w : World) : ((mainReceive payload).eval env w).1.mem = w.mem := by
  have hlanes : LanesFree (fun v => v.mem = w.mem) fun _ _ => True := fun _ _ _ h => ⟨trivial, h⟩
  have hkeeps : Prog.Keeps (fun v => v.mem = w.mem) (fun _ _ => True) (mainReceive payload) :=
    FrameRule.reads fun m => (frame_mem w.mem).receive fun raw _ s _ =>
      ⟨hlanes.row _ _, ⟨Or.inr fun _ _ _ _ => trivial, fun _ _ _ _ => trivial⟩⟩
  exact (Prog.Keeps.eval hkeeps rfl env).2

theorem received_error {e : Exc} (h : (mainReceive payload).eval main w = (v, .error e)) :
    received opened payload main answers w = (v, .error e) := by
  rw [received, h]

theorem received_ok (opened : Openings) (answers : String → Answers) {results : List SignalResult} (h : (mainReceive payload).eval main w = (v, .ok results)) :
    received opened payload main answers w = if v.mem.running then
      ((routed opened payload answers v.mem.configs v).1, (routed opened payload answers v.mem.configs v).2.map fun _ => results)
      else (v, .ok results) := by
  rw [received, h]
  dsimp only
  split
  · rcases routed opened payload answers v.mem.configs v with ⟨u, e | ⟨⟩⟩ <;> rfl
  · rfl

/-- A delivery of the controller is such a delivery in which every lane could be opened. -/
theorem receiveSignals_received (hids : (w.mem.configs.map CopyConfig.id).Nodup) (env : Answers) :
    ∃ answers, (receiveSignals payload).eval env w = received (fun _ => .ok ()) payload env answers w := by
  have hparts : receiveSignals payload = (mainReceive payload >>= fun results =>
      routeToConfigs payload >>= fun _ => pure results) := by
    unfold receiveSignals mainReceive
    rw [bind_assoc]
  have hmem := mainReceive_mem payload env w
  rw [hparts]
  rcases hm : (mainReceive payload).eval env w with ⟨v, e | results⟩
  · refine ⟨fun _ => env, ?_⟩
    rw [received_error hm]
    exact Prog.eval_bind_error hm
  · rw [hm] at hmem
    rw [Prog.eval_bind_ok hm]
    obtain ⟨answers, hloop⟩ := forM_routed payload (hmem.symm ▸ hids) ((mainReceive payload).rest env w) v
    refine ⟨answers, ?_⟩
    rw [received_ok _ _ hm, ← hloop]
    have hroute : (routeToConfigs payload).eval ((mainReceive payload).rest env w) v = if v.mem.running then
        (v.mem.configs.forM (routeToConfig payload)).eval ((mainReceive payload).rest env w) v else (v, .ok ()) := by
      change (if v.mem.running then v.mem.configs.forM (routeToConfig payload) else pure () : Act Unit).eval _ v = _
      split <;> rfl
    by_cases hrun : v.mem.running = true
    · rw [if_pos hrun] at hroute ⊢
      rw [← hroute]
      rcases hq : (routeToConfigs payload).eval ((mainReceive payload).rest env w) v with ⟨u, e | ⟨⟩⟩
      · exact Prog.eval_bind_error hq
      · exact Prog.eval_bind_ok hq
    · rw [if_neg hrun] at hroute ⊢
      exact Prog.eval_bind_ok hroute

end Controller

end Deliveries

section Sample

open Controller

attribute [local instance] sampleHost

def sampleConfig (id : String) : CopyConfig :=
  { id, lane := { machineId := "PC", source := "panel", destinationAccount := "A" }, mode := .live, enabled := true }

/-- Two configurations copy the same source, and the main lane copies nothing. -/
def twinMemory : Memory :=
  { sampleMemory with signalConfig := none, configs := [sampleConfig "x", sampleConfig "y"] }

/-- The broker of the first configuration does not answer. -/
def silentAnswers : Answers := fun i q =>
  match q with
  | .activeOrders _ => .error ⟨.osError, "ConnectionError", "", none⟩
  | q => sampleAnswers i q

/-- The first configuration has these surroundings, and every other configuration is served. -/
def firstWith (env : Answers) (id : String) : Answers := if id = "x" then env else sampleAnswers

def allOpen : Openings := fun _ => .ok ()

def decisions (w : World) (id : String) : List Decision := (w.lanes (configLane id)).signals.map SignalRow.decision

def ofSecondLifecycle (signal : Json) : Json := signal.update [("label", .str "P01RR_2")]

/-- Both lanes hold an accepted copy of the second lifecycle, the ledger holds the order of the first one, and
another account is selected since. -/
def ledgered : World :=
  let w := served [.native sampleEvent (some 0), .signals [ofSecondLifecycle (sampleSignal "intent" "c1" 21)]]
    (started { twinMemory with route := some sampleRoute })
  { w with mem := { w.mem with selected := "B" } }

/-- The broker of the first configuration stops answering after a while. -/
def waningAnswers : Answers := fun i => if i < 8 then sampleAnswers i else silentAnswers i

def endings : List Json := [sampleSignal "cancelled" "c2" 22, ofSecondLifecycle (sampleSignal "cancelled" "c3" 23)]

/-- The ledger is one for all lanes: what a configuration removed through it before it failed, no other one
removes again. -/
theorem ledger_shared :
    failure allOpen endings sampleAnswers (firstWith waningAnswers) (sampleConfig "x") ledgered
        = some (.receiving, ⟨.osError, "ConnectionError", "", none⟩)
      ∧ decisions (received allOpen endings sampleAnswers (firstWith waningAnswers) ledgered).1 "y"
        = [.accepted, .held, .accepted]
      ∧ decisions (received allOpen endings sampleAnswers (firstWith waningAnswers) (without "x" ledgered)).1 "y"
        = [.accepted, .accepted, .accepted] :=
  ⟨by decide +kernel, by decide +kernel, by decide +kernel⟩

end Sample

end MatchTrader
