import MatchTrader.Reconcile
import MatchTrader.SignalCopy

/-! The dashboard controller: sessions and destinations, the Paper/Live mode, the saved
copy configurations, and the deliveries of signals, ledger rows and native events. -/

namespace MatchTrader

open Durable

variable [Host]

namespace Memory

def destinationVerified (m : Memory) : Bool := m.connected && m.api.any fun a => a.accountId = m.selected

/-- The connected session that serves an account. -/
def sessionFor (m : Memory) (accountId : String) : Option Api :=
  if accountId = "" then none
  else
    match (if m.connected then m.api.filter fun a => a.accountId = accountId else none) with
    | some api => some api
    | none => m.profiles.find? fun a => a.accountId = accountId

def controls (m : Memory) : Controls :=
  ⟨m.mode, fun s => (s = .p01 || s = .x17 || s = .manual) && m.sources.contains s⟩

def config? (m : Memory) (id : String) : Option CopyConfig := m.configs.find? fun c => c.id = id

end Memory

def CopyConfig.setState (c : CopyConfig) (mode : Option Mode) (enabled : Option Bool) : CopyConfig :=
  { c with mode := mode.getD c.mode, enabled := enabled.getD c.enabled }

def CopyConfig.matches (c : CopyConfig) (machineId source : String) : Bool :=
  machineId = c.lane.machineId && (source = c.lane.source || c.lane.additionalSources.contains source)

namespace Controller

def configureCopyControls (mode : Mode) (sources : List Source) : Act Unit := do
  let at_ ← now
  setMem fun m => { m with
    copyModeSince := if mode ≠ m.mode then at_ else m.copyModeSince, mode, sources }

/-- The directory of a configuration's record. -/
def directory (id : String) : String := String.ofList ((Host.sha256 (.str id)).toList.take 16)

def configLane (id : String) : LaneId := .config (directory id)

/-- Open a configuration's record at its first use. -/
def ensureLane (id : String) : Act Unit := do
  let m ← reads World.mem
  if m.copyLanes.contains id then pure ()
  else do
    SignalCopy.openLane (configLane id)
    setMem fun m => { m with copyLanes := m.copyLanes ++ [id] }

def laneFor (id : String) : Act LaneId := do
  ensureLane id
  return configLane id

def assign (since : List (String × Instant)) (id : String) (at_ : Instant) : List (String × Instant) :=
  since.filter (fun s => s.1 ≠ id) ++ [(id, at_)]

/-- A fresh no-replay mark. -/
def markSince (id : String) : Act Unit := do
  let at_ ← now
  setMem fun m => { m with copyConfigSince := assign m.copyConfigSince id at_ }

def configureCopyConfig (config : CopyConfig) : Act Unit := do
  let m ← reads World.mem
  raiseIf (!m.interactiveCopying) (Exc.value "Interactive copying is disabled")
  raiseIf (25 ≤ m.configs.length ∧ (m.config? config.id).isNone)
    (Exc.value "Configure at most 25 copy configurations")
  setMem fun m => { m with configs := Rows.upsert CopyConfig.id config (fun _ => config) m.configs }
  let _ ← laneFor config.id
  if config.enabled then markSince config.id else pure ()

/-- Flip one configuration's Paper/Live or On/Off, independently of every other. -/
def setCopyConfigState (id : String) (mode : Option Mode) (enabled : Option Bool) : Act Unit := do
  raiseIf (id = "") (Exc.value "A config id is required")
  let m ← reads World.mem
  match m.config? id with
  | none => throw (Exc.value "Unknown copy configuration")
  | some config =>
    setMem fun m => { m with
      configs := Rows.updateWhere (fun c => c.id = id) (fun _ => config.setState mode enabled) m.configs }
    if (config.setState mode enabled).enabled then markSince id else pure ()

def deleteCopyConfig (id : String) : Act Unit := do
  raiseIf (id = "") (Exc.value "A config id is required")
  let m ← reads World.mem
  raiseIf ((m.config? id).isNone) (Exc.value "Unknown copy configuration")
  setMem fun m => { m with
    configs := m.configs.filter fun c => c.id ≠ id
    copyLanes := m.copyLanes.filter fun l => l ≠ id
    copyConfigSince := m.copyConfigSince.filter fun s => s.1 ≠ id }

def rawText (raw : Json) (name : String) : String := ((raw.get? name).getD (.str "")).pyStr

/-- The elements of a payload that belong to a configuration. -/
def subset (config : CopyConfig) (payload : List Json) : List Json :=
  payload.filter fun raw => config.matches (rawText raw "machineId") (rawText raw "source")

/-- How a configuration's lane stands for a delivery. -/
def configCall (m : Memory) (config : CopyConfig) (lane : LaneId) : LaneCall :=
  ⟨lane, some config.lane, some config.mode, true, (m.copyConfigSince.find? fun s => s.1 = config.id).map Prod.snd⟩

/-- The contained failures of a lane do not reach its caller. -/
def contain {α : Type} (p : Act α) (f : Exc → α) : Act α :=
  tryCatch p fun e => if e.isContained then pure (f e) else throw e

/-- Deliver its elements of a payload to one configuration. Its failure must not disturb the others. -/
def deliver (config : CopyConfig) (elements : List Json) : Act Unit := do
  let lane ← laneFor config.id
  setMem fun m => { m with
    copyConfigSince := if m.copyConfigSince.any fun s => s.1 = config.id then m.copyConfigSince
      else assign m.copyConfigSince config.id m.copyModeSince }
  let m ← reads World.mem
  let destination := config.lane.destinationAccount
  let api := m.sessionFor destination
  contain (discard (SignalCopy.receive (configCall m config lane) m.symbols elements api destination api.isSome))
    fun _ => ()

def routeToConfig (payload : List Json) (config : CopyConfig) : Act Unit :=
  if config.enabled ∧ subset config payload ≠ [] then deliver config (subset config payload) else pure ()

def routeToConfigs (payload : List Json) : Act Unit := do
  let m ← reads World.mem
  if m.running then m.configs.forM (routeToConfig payload) else pure ()

/-- How the main lane stands for a delivery. -/
def mainCall (m : Memory) : LaneCall :=
  ⟨.main, m.signalConfig, some m.mode, m.signalConfig.isSome && m.running, some m.copyModeSince⟩

def receiveSignals (payload : List Json) : Act (List SignalResult) := do
  let m ← reads World.mem
  let results ← SignalCopy.receive (mainCall m) m.symbols payload m.api m.selected m.destinationVerified
  routeToConfigs payload
  return results

/-- One row of the R01 ledger; a short row leaves its last columns without a value. -/
structure LedgerRow where
  kind : Option String
  label : Option String
  symbol : Option String
  side : Option String
  entry : Option String
  sl : Option String
  tp : Option String
  grade : Option String
  utc : Option String
  detail : Option String
  stamp : Option String
  rfx : Option String
  extraFields : List String := []

/-- R01 writes seven fractional digits; the signal shape takes six. -/
def r01Timestamp (value : Option String) : String :=
  let text := (value.getD "").toList
  let tail := (text.dropWhile fun c => c ≠ '.').drop 1
  if '.' ∈ text then
    let digits := tail.filter Host.isDigit
    String.ofList ((text.takeWhile fun c => c ≠ '.') ++ '.' :: (digits.take 6 ++ List.replicate (6 - digits.length) '0')
      ++ tail.drop digits.length)
  else String.ofList text

def optional : Option String → Json
  | some s => .str s
  | none => .null

/-- `record.get(name) or 0`. -/
def orZero : Option String → Json
  | some s => if s = "" then .num 0 else .str s
  | none => .num 0

def r01Signal (r : LedgerRow) (symbol episode kind : String) (reason : Option String) : Json :=
  let digest := Host.sha256 (.arr [.str episode, .str kind, optional r.utc, optional reason])
  .obj [("clientEventId", .str ("r01-" ++ String.ofList (digest.toList.take 32))), ("machineId", .str Host.node),
    ("source", .str "R01"), ("kind", .str kind), ("label", .str episode),
    ("timestampUtc", .str (r01Timestamp r.utc)), ("symbol", .str symbol), ("side", optional r.side),
    ("entry", orZero r.entry), ("stopLoss", orZero r.sl), ("takeProfit", orZero r.tp),
    ("grade", .str (r.grade.getD "")), ("stamp", .str (r.stamp.getD "")), ("rfx", .str (r.rfx.getD "")),
    ("arm", .str (r.extraFields.headD "")), ("detail", .str (r.detail.getD "")), ("reason", optional reason)]

def setEpisode (label : String) (e : Episode) (episodes : List (String × Episode)) : List (String × Episode) :=
  episodes.filter (fun p => p.1 ≠ label) ++ [(label, e)]

structure LedgerDecision where
  status : String
  reason : String

/-- What a ledger row asks of the lane: an answer at once, or signals to decide and the episodes
that hold from then on. -/
def r01Plan (lane : Lane) (r : LedgerRow) (kind label symbol : String) (episodes : List (String × Episode)) :
    List (String × Episode) × Except (Option LedgerDecision) (List (String × Json)) :=
  let current := (episodes.find? fun p => p.1 = label).map Prod.snd
  let prices := [r.entry, r.sl, r.tp]
  let grade := r.grade.getD ""
  let episode := label ++ "#" ++ r.utc.getD "None"
  let minted : Episode := ⟨episode, prices, grade, 0⟩
  let cancel (e : Episode) (reason : Option String) := ("cancelled", r01Signal r symbol e.episode "cancelled" reason)
  let intent := ("intent", r01Signal r symbol episode "intent" (some ""))
  match kind, current with
  | "intent", some e =>
    if e.prices = prices then
      (setEpisode label { e with duplicates := e.duplicates + 1 } episodes,
        .error (some ⟨"duplicate", "Same level already armed for this label (another R01 instance)"⟩))
    else (setEpisode label minted episodes, .ok [cancel e (some "re-priced by a new intent"), intent])
  | "intent", none => (setEpisode label minted episodes, .ok [intent])
  | "cancelled", some e => (episodes.filter fun p => p.1 ≠ label, .ok [cancel e r.detail])
  | "modified", some e => (setEpisode label minted episodes, .ok [cancel e (some "modified upstream"), intent])
  | "regrade", some e =>
    if lane.acceptedGrades ≠ [] ∧ grade ∉ lane.acceptedGrades ∧ lane.retractOnDowngrade then
      (episodes.filter fun p => p.1 ≠ label, .ok [cancel e (some ("retracted on downgrade to " ++ grade))])
    else
      (setEpisode label { e with grade } episodes,
        .error (some ⟨"observed", "regrade to " ++ grade ++ "; copy unchanged"⟩))
  | _, _ => (episodes, .error none)

def r01Call (m : Memory) : LaneCall :=
  ⟨.r01, m.r01Config, some m.mode, m.r01Config.isSome && m.running, some m.copyModeSince⟩

/-- What a row's signals came to, for the row's own record. -/
def r01Summary (signals : List (String × Json)) (results : List SignalResult) : Option LedgerDecision :=
  match results with
  | [result] => some ⟨result.status.text, result.reason⟩
  | results => (results.getLast?).map fun last => ⟨last.status.text, "; ".intercalate
      (List.zipWith (fun s (q : SignalResult) => s.1 ++ " " ++ q.status.text ++ ": " ++ q.reason) signals results)⟩

/-- Decide a row's signals on the lane's own destination. -/
def decideR01 (m : Memory) (lane : Lane) (signals : List (String × Json)) : Act (Option LedgerDecision) :=
  let destination := lane.destinationAccount
  let api := m.sessionFor destination
  contain (r01Summary signals <$> SignalCopy.receive (r01Call m) m.symbols (signals.map Prod.snd) api destination
    api.isSome) fun e => some ⟨"uncertain", "R01 lane processing failed (" ++ e.name ++ ")"⟩

/-- Turn one fresh ledger row into the R01 lane's signals and decide them. -/
def copyR01Row (r : LedgerRow) : Act (Option LedgerDecision) := do
  let m ← reads World.mem
  match m.r01Config.filter fun c => c.source = "R01" with
  | none => return none
  | some lane =>
    let label := r.label.getD ""
    let symbol := r.symbol.getD ""
    if label = "" ∨ symbol = "" then return none
    else do
      let planned := r01Plan lane r (r.kind.getD "") label symbol m.r01Episodes
      setMem fun m => { m with r01Episodes := planned.1 }
      match planned.2 with
      | .error answer => return answer
      | .ok signals => decideR01 m lane signals

/-- The session that an explicit send goes through; none in paper mode. -/
def sendSession (m : Memory) : Except Exc (Option Api) :=
  if m.mode = .live then do
    raiseIf (!m.enableWrites) (Exc.value "Broker writes are disabled for this dashboard session")
    raiseIf (!m.destinationVerified) (Exc.value "Connect the destination account before sending live")
    match m.api.filter fun a => a.accountId = m.selected with
    | some api => return some api
    | none => throw (Exc.value "Connect the selected broker account first")
  else return none

/-- The explicit send of one candidate. -/
def sendTrade (tradeId : String) (volume : Json) : Act ManualSend.SendResult := do
  raiseIf (tradeId = "") (Exc.value "A trade id is required")
  let m ← reads World.mem
  let api ← Prog.ofExcept (sendSession m)
  ManualSend.send .manual m.controls tradeId volume api m.selected m.route

/-- One reconciliation pass over the selected account. -/
def refreshPositions : Act Unit := do
  let m ← reads World.mem
  match m.api with
  | none => throw (Exc.value "Connect before requesting open positions")
  | some api => Reconcile.pass api m.selected

end Controller

namespace Automatic

open Controller

/-- The lane's requests for a lifecycle to a destination. -/
def copies (d : LaneDb) (machine label destination : String) : List SignalRow :=
  d.signals.filter fun r => r.machine = machine ∧ r.label = label ∧ SignalCopy.copied destination r

def recordDecision (e : CaptureEvent) (r : NativeResult) : Act Unit := do
  match (← reads World.journal).event? (e.machine, e.eventId) with
  | none => throw (Exc.type "'NoneType' object is not subscriptable")
  | some row => Store.decision row.seq r.status r.reason

def failed (r : NativeResult) (e : Exc) : NativeResult :=
  if e.isValueError then { r with status := .held, reason := e.message }
  else { r with
    status := .uncertain
    reason := "Processing interrupted (" ++ e.name ++ "); inspect the journal before retrying" }

/-- The cancel signal of the one signal copy of a lifecycle. -/
def bridgeCancel (e : CaptureEvent) (payload : Json) : Json :=
  let digest := Host.sha256 (.arr
    [.arr [.str e.machine, .str e.connectionId, .str e.accountId], .str e.eventId])
  payload.update [("kind", .str "cancelled"), ("timestampUtc", .str e.emittedAt.isoformat),
    ("clientEventId", .str ("bridge-cancel-" ++ digest))]

def cancelSignalCopy (e : CaptureEvent) (rows : List SignalRow) (r : NativeResult) : Act NativeResult := do
  match rows with
  | [row] =>
    match ← receiveSignals [bridgeCancel e row.payload] with
    | decision :: _ => return { r with
        status := decision.status, reason := decision.reason, request := decision.copyRequest
        response := decision.copyResponse }
    | [] => throw (Exc.mk .other "IndexError" "list index out of range" none)
  | _ => throw (Exc.value "More than one signal request shares this label; cancellation is ambiguous")

def cancel (e : CaptureEvent) (identity : String) (r : NativeResult) : Act NativeResult := do
  let m ← reads World.mem
  let s : Ending := ⟨"cancelled", e.machine, e.sourceLabel, e.eventId, e.emittedAt, e.symbol⟩
  match ← Unwind.apply s m.api m.selected m.destinationVerified (some identity) with
  | some o => return { r with status := o.decision, reason := o.reason, request := o.request, response := o.response }
  | none => throw (Exc.type "'NoneType' object is not subscriptable")

def lotsFor (mapping : SymbolRoute) (e : CaptureEvent) : Except Exc Decimal :=
  match mapping.fixedLots with
  | some lots => .ok lots
  | none => arith (e.quantity.mul mapping.quantityMultiplier)

def create (e : CaptureEvent) (identity : String) (r : NativeResult) : Act NativeResult := do
  let w ← reads id
  let m := w.mem
  raiseIf (e.sourceLabel ≠ "" ∧ copies (w.lanes .main) e.machine e.sourceLabel m.selected ≠ [])
    (Exc.value "This lifecycle already has a signal request; no second order")
  match m.route with
  | none => throw (Exc.value "Save the bridge source, destination and symbol mapping first")
  | some route =>
    let mapping ← Prog.ofExcept ((route.matchEvent e e.source).mapError Exc.value)
    raiseIf (m.selected ≠ route.destinationAccount) (Exc.value "Select the configured destination account")
    let at_ ← now
    raiseIf (e.snapshot ∨ e.emittedAt < m.copyModeSince ∨ !fresh at_ e.emittedAt)
      (Exc.value "Old or snapshot trade; no replay")
    raiseIf (m.mode = .live ∧ (!m.enableWrites ∨ !m.destinationVerified))
      (Exc.value "Connect the destination broker account before sending live")
    let lots ← Prog.ofExcept (lotsFor mapping e)
    raiseIf (¬ (0 < lots ∧ lots ≤ mapping.maxLots)) (Exc.value "Order volume is outside the saved limit")
    -- The saved route selects sources; a second per-source arming switch is unnecessary.
    let controls : Controls := ⟨m.mode, fun s => route.sources.contains s⟩
    let o ← ManualSend.send .bridge controls identity (.num lots) (if m.mode = .live then m.api else none) m.selected
      (some route)
    return { r with
      status := o.status, reason := o.reason, brokerOrderId := o.brokerOrderId
      brokerPositionId := o.brokerPositionId }

/-- Record what an accepted bridge action came to; a failure is its result. -/
def settle (e : CaptureEvent) (r : NativeResult) (p : Act NativeResult) : Act NativeResult := do
  let r ← tryCatch p fun exc => pure (failed r exc)
  recordDecision e r
  return r

/-- Cancel through the signal that opened the lifecycle. A failure to record the outcome is an outcome, too. -/
def settleSignal (e : CaptureEvent) (r : NativeResult) (p : Act NativeResult) : Act NativeResult := do
  let updated : Except NativeResult NativeResult ←
    tryCatch (Except.ok <$> p) fun exc => pure (.error (failed r exc))
  match updated with
  | .ok r => tryCatch (do recordDecision e r; return r) fun exc => do
      recordDecision e (failed r exc)
      return failed r exc
  | .error r => do
      recordDecision e r
      return r

/-- Act on an accepted create or cancel that was recorded for the first time. -/
def act (e : CaptureEvent) (identity : String) (r : NativeResult) : Act NativeResult := do
  let w ← reads id
  let trade := w.journal.trade? identity
  let rows := if e.sourceLabel = "" then [] else copies (w.lanes .main) e.machine e.sourceLabel w.mem.selected
  if e.action = .cancel then
    if w.mem.mode ≠ .live then
      settle e r (pure { r with status := .paper, reason := "Paper: cancellation recorded; nothing sent" })
    else if rows ≠ [] ∧ trade.any (fun t => t.brokerOrderId = "" ∧ t.brokerPositionId = "") then
      settleSignal e r (cancelSignalCopy e rows r)
    else settle e r (cancel e identity r)
  else settle e r (create e identity r)

/-- Submit a fresh bridge order once, or cancel its exact pending broker order. -/
def receive (e : CaptureEvent) : Act NativeResult := do
  let m ← reads World.mem
  let result ← Router.receive disarmed m.route e none m.selected
  match result.tradeId with
  | none => return result
  | some identity =>
    if result.duplicate ∨ e.kind ≠ .accepted ∨ (e.action ≠ .create ∧ e.action ≠ .cancel) then return result
    else act e identity result

end Automatic

namespace Controller

/-- Record and submit a new bridge event, while capture runs. -/
def receiveNative (e : CaptureEvent) (captureGeneration : Option Nat) : Act NativeResult := do
  let m ← reads World.mem
  raiseIf (!m.running ∨ captureGeneration.any fun g => g ≠ m.captureGeneration) (Exc.value "Capture is stopped")
  Automatic.receive e

end Controller

end MatchTrader
