import MatchTrader.Controller
import MatchTrader.Settings

/-! The stores of the settings in a process, the calls that change them, and a start on their files. -/

namespace MatchTrader

namespace Settings

variable [SettingsHost]

structure Files where
  copyConfigs : Option Json
  symbolMap : Option Json
  lane : Option Json

/-- The steps at which a call's writes fail. -/
structure Faults where
  copyConfigs : Option WriteStep := none
  symbolMap : Option WriteStep := none
  lane : Option WriteStep := none

/-- What a process has in memory, and what it decides by. -/
structure Configuration where
  copyConfigs : CopyConfigs
  symbolMap : SymbolMap
  lane : Option SignalSettings

structure Stores where
  copyConfigs : Saved (Option Json) CopyConfigs
  symbolMap : Saved (Option Json) SymbolMap
  lane : Saved (Option Json) (Option SignalSettings)
  armed : Bool
  copyMode : Option Mode

abbrev Outcome := Stores × Except Exc Unit

def CopyConfig.setState (c : CopyConfig) (mode : Option Mode) (enabled : Option Bool) : CopyConfig :=
  { c with mode := mode.getD c.mode, enabled := enabled.getD c.enabled }

namespace Stores

def files (s : Stores) : Files := ⟨s.copyConfigs.file, s.symbolMap.file, s.lane.file⟩

def configuration (s : Stores) : Configuration := ⟨s.copyConfigs.value, s.symbolMap.value, s.lane.value⟩

def saveConfigs (faults : Faults) (configs : CopyConfigs) (s : Stores) : Outcome :=
  let saved := s.copyConfigs.assignAndSave Settings.copyConfigs faults.copyConfigs configs
  ({ s with copyConfigs := saved.1 }, saved.2)

def upsert (faults : Faults) (config : CopyConfig) (s : Stores) : Outcome :=
  if 25 ≤ s.copyConfigs.value.rows.length ∧ (s.copyConfigs.value.get? config.id.text).isNone then
    (s, .error (.value "Configure at most 25 copy configurations"))
  else s.saveConfigs faults (s.copyConfigs.value.put config)

def delete (faults : Faults) (id : String) (s : Stores) : Outcome :=
  match s.copyConfigs.value.get? id with
  | none => (s, .error (.value "Unknown copy configuration"))
  | some _ => s.saveConfigs faults (s.copyConfigs.value.erase id)

def setState (faults : Faults) (id : String) (mode : Option Mode) (enabled : Option Bool) (s : Stores) : Outcome :=
  match s.copyConfigs.value.get? id with
  | none => (s, .error (.value "Unknown copy configuration"))
  | some config => s.saveConfigs faults (s.copyConfigs.value.put (config.setState mode enabled))

def replace (faults : Faults) (symbols : SymbolMap) (s : Stores) : Outcome :=
  let saved := s.symbolMap.assignAndSave Settings.symbolMap faults.symbolMap symbols
  ({ s with symbolMap := saved.1 }, saved.2)

def saveSettings (faults : Faults) (lane : SignalSettings) (s : Stores) : Outcome :=
  let saved := s.lane.saveAndAssign laneSettings faults.lane (some lane)
  ({ s with lane := saved.1 }, saved.2)

def checkNotLive (s : Stores) : Except Exc Unit :=
  if s.armed ∧ s.copyMode ≠ some .paper then .error (.value "Turn live signal copying off before editing settings")
  else .ok ()

/-- The checks of a lane's settings, all of which come before the first change. -/
def checkSettings (payload : Json) (s : Stores) : Except Exc SignalSettings := do
  let value ← (SignalSettings.codec.read payload).elim (.error Signal.invalid) .ok
  raiseIf (value.p01LogEnabled ∧ .panel ∈ value.additionalSources)
    (.value "Use either P01 local log or structured panel signals, not both")
  raiseIf (value.p01LogEnabled ∧ value.source.text ≠ "P01_LOG") (.value "P01 log routing requires source P01_LOG")
  raiseIf (value.p01LogEnabled ∧ ∃ r ∈ value.symbols.rows, r.2.orderType ≠ .source)
    (.value "P01 log routing must preserve the source Limit/Stop order type")
  raiseIf (value.symbols.rows.isEmpty ∧ s.symbolMap.value.rows.isEmpty) (.value "At least one symbol mapping is required")
  s.checkNotLive
  .ok value

def configure (faults : Faults) (payload : Json) (s : Stores) : Outcome :=
  match s.checkSettings payload with
  | .error e => (s, .error e)
  | .ok value =>
    if value.symbols.rows.isEmpty then s.saveSettings faults value.lane
    else
      match s.replace faults value.symbolMap with
      | (s, .error e) => (s, .error e)
      | (s, .ok ()) => s.saveSettings faults value.lane

def checkSymbols (payload : Json) (s : Stores) : Except Exc SymbolMap := do
  let symbols ← (Settings.symbols.read payload).elim (.error Signal.invalid) .ok
  raiseIf symbols.rows.isEmpty (.value "At least one symbol mapping is required")
  s.checkNotLive
  .ok symbols

def configureSymbols (faults : Faults) (payload : Json) (s : Stores) : Outcome :=
  match s.checkSymbols payload with
  | .error e => (s, .error e)
  | .ok symbols => s.replace faults symbols

def arm (armed : Bool) (copyMode : Option Mode) (s : Stores) : Stores := { s with armed, copyMode }

end Stores

/-- A lane that was saved before the symbol map had a file of its own, where the map is empty. -/
def Unsplit (lane : Option SignalSettings) (symbols : SymbolMap) : Prop :=
  ∃ v, lane = some v ∧ v.symbols.rows ≠ [] ∧ symbols.rows = []

/-- The first load of a lane that was saved before the split saves its symbols as the map. -/
def split (fault : Option WriteStep) (lane : Option SignalSettings) (store : Saved (Option Json) SymbolMap) :
    Saved (Option Json) SymbolMap × Except Exc Unit :=
  match lane with
  | none => (store, .ok ())
  | some v =>
    if v.symbols.rows ≠ [] ∧ store.value.rows = [] then store.assignAndSave symbolMap fault v.symbolMap
    else (store, .ok ())

def start (fault : Option WriteStep) (files : Files) : Except Exc Stores := do
  let configs ← copyConfigs.load files.copyConfigs
  let symbols ← symbolMap.load files.symbolMap
  let lane ← laneSettings.load files.lane
  let store := split fault lane ⟨symbols, files.symbolMap⟩
  store.2
  .ok { copyConfigs := ⟨configs, files.copyConfigs⟩, symbolMap := store.1, lane := ⟨lane, files.lane⟩
        armed := false, copyMode := none }

inductive Call where
  | upsert (config : CopyConfig)
  | delete (id : String)
  | setState (id : String) (mode : Option Mode) (enabled : Option Bool)
  | replace (symbols : SymbolMap)
  | configure (payload : Json)
  | configureSymbols (payload : Json)

def Call.run (faults : Faults) : Call → Stores → Outcome
  | upsert config => Stores.upsert faults config
  | delete id => Stores.delete faults id
  | setState id mode enabled => Stores.setState faults id mode enabled
  | replace symbols => Stores.replace faults symbols
  | configure payload => Stores.configure faults payload
  | configureSymbols payload => Stores.configureSymbols faults payload

/-- What comes next in a process: a call, with what its writes run into, or the lane's switch. -/
inductive Request where
  | call (c : Call) (faults : Faults)
  | arm (armed : Bool) (copyMode : Option Mode)

/-- What the engine reads of a configuration. -/
def CopyConfig.routed (c : CopyConfig) : MatchTrader.CopyConfig where
  id := c.id.text
  lane :=
    { machineId := c.machineId.text, source := c.source.text
      additionalSources := c.additionalSources.map AdditionalSource.text, connectionName := c.connectionName.text
      destinationAccount := c.destinationAccount.text, x17Only := c.x17Only
      acceptedGrades := c.acceptedGrades.map Grade.text, retractOnDowngrade := c.retractOnDowngrade
      sizing := some c.sizing, sizingValue := c.sizingValue.map Subtype.val
      minBox := c.minBox.1, minBoxEnabled := c.minBoxEnabled }
  mode := c.mode
  enabled := c.enabled

def routed (d : CopyConfigs) : List MatchTrader.CopyConfig := d.rows.map CopyConfig.routed

section Routing

variable {c : CopyConfig} {d : CopyConfigs}

omit [SettingsHost]

/-- A configuration that is saved is routed by as the dashboard puts it in memory. -/
theorem put_routed : routed (d.put c) = Rows.upsert MatchTrader.CopyConfig.id c.routed (fun _ => c.routed) (routed d) :=
  Rows.map_put (g := CopyConfig.routed) fun _ => rfl

theorem erase_routed (id : String) : routed (d.erase id) = (routed d).filter fun c => c.id ≠ id := by
  rw [routed, routed, List.filter_map]
  rfl

theorem setState_routed {id : String} (h : d.get? id = some c) (mode : Option Mode) (enabled : Option Bool) :
    routed (d.put (c.setState mode enabled)) =
      Rows.updateWhere (fun c => c.id = id) (fun _ => c.routed.setState mode enabled) (routed d) := by
  obtain ⟨hc, hid⟩ := Rows.lookup_mem h
  have hhas : Rows.has MatchTrader.CopyConfig.id (c.setState mode enabled).routed.id (routed d) = true :=
    Rows.has_iff.mpr ⟨c.routed, List.mem_map_of_mem hc, rfl⟩
  rw [put_routed, Rows.upsert, if_pos hhas]
  subst hid
  rfl

end Routing

end Settings

end MatchTrader
