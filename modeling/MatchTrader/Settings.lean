import MatchTrader.Codec
import MatchTrader.Saved
import MatchTrader.Spellings
import MatchTrader.World

/-! The settings that the dashboard saves: the copy configurations, the symbol map and the settings
of a lane, each in a file of its own, and the calls that change them. -/

namespace MatchTrader

/-- What the settings take from the validation library and from the platform. -/
class SettingsHost where
  /-- A finite number, in any spelling that the library accepts. -/
  readNumber : Json → Option Decimal
  readFlag : Json → Option Bool
  /-- What a file written in UTF-8 holds when it is read in the encoding of the locale. -/
  readLocale : Json → Except Exc Json
  readNumber_dump : ∀ d : Decimal, readNumber (.str d.toString) = some d
  readFlag_dump : ∀ b, readFlag (.bool b) = some b

namespace Settings

variable [SettingsHost]

inductive AdditionalSource where
  | chain
  | panel
deriving DecidableEq, Repr

inductive Grade where
  | prime
  | strong
  | fair
  | poor
  | weak
  | avoid
deriving DecidableEq, Repr

def AdditionalSource.text : AdditionalSource → String
  | chain => "chain"
  | panel => "panel"

def Grade.text : Grade → String
  | prime => "PRIME"
  | strong => "STRONG"
  | fair => "FAIR"
  | poor => "POOR"
  | weak => "WEAK"
  | avoid => "AVOID"

def sizingText : Sizing → String
  | .lots => "lots"
  | .dollar => "dollar"
  | .percent => "percent"

def modeText : Mode → String
  | .paper => "paper"
  | .live => "live"

abbrev Positive := { d : Decimal // 0 < d }
abbrev NonNegative := { d : Decimal // 0 ≤ d }

/-- A number is saved as its text. -/
def number (p : Decimal → Prop) [DecidablePred p] : Codec { d : Decimal // p d } where
  dump d := .str d.1.toString
  read v := (SettingsHost.readNumber v).bind fun d => if h : p d then some ⟨d, h⟩ else none
  read_dump d := by rw [SettingsHost.readNumber_dump, Option.bind_some, dif_pos d.2]

def positive : Codec Positive := number _
def nonNegative : Codec NonNegative := number _

def flag : Codec Bool where
  dump := .bool
  read := SettingsHost.readFlag
  read_dump := SettingsHost.readFlag_dump

def additionalSource : Codec AdditionalSource := .literal AdditionalSource.text [.chain, .panel] fun a => by cases a <;> rfl

def grade : Codec Grade :=
  .literal Grade.text [.prime, .strong, .fair, .poor, .weak, .avoid] fun a => by cases a <;> rfl

def sizing : Codec Sizing := .literal sizingText [.lots, .dollar, .percent] fun a => by cases a <;> rfl

def mode : Codec Mode := .literal modeText [.paper, .live] fun a => by cases a <;> rfl

def orderType : Codec MapOrderType :=
  .literal MapOrderType.text [.market, .limit, .stop, .source, .entry] fun a => by cases a <;> rfl

def sizingValue : Codec (Option Positive) := positive.optional nofun

def zero : NonNegative := ⟨0, Decimal.zero_nonneg⟩

def noText (hi : Nat) : Text 0 hi := ⟨"", by decide, by simp⟩

def defaultSource : Text 1 100 := ⟨"r01Auto", by decide, by decide⟩

/-- One named configuration: whose signals it copies, to which account, and its own state. -/
structure CopyConfig where
  id : Text 1 64
  name : Text 1 120
  machineId : Text 1 100
  source : Text 1 100
  connectionName : Text 0 200
  additionalSources : List AdditionalSource
  x17Only : Bool
  destinationBroker : Text 0 64
  destinationAccount : Text 1 200
  acceptedGrades : List Grade
  retractOnDowngrade : Bool
  sizing : Sizing
  sizingValue : Option Positive
  minBox : NonNegative
  minBoxEnabled : Bool
  mode : Mode
  enabled : Bool

namespace CopyConfig

def fields := Fields.field "id" (Codec.text 1 64) none
  <| .field "name" (.text 1 120) none
  <| .field "machine_id" (.text 1 100) none
  <| .field "source" (.text 1 100) (some defaultSource)
  <| .field "connection_name" (.text 0 200) (some (noText 200))
  <| .field "additional_sources" (.list additionalSource) (some [])
  <| .field "x17_only" flag (some false)
  <| .field "destination_broker" (.text 0 64) (some (noText 64))
  <| .field "destination_account" (.text 1 200) none
  <| .field "accepted_grades" (.list grade) (some [])
  <| .field "retract_on_downgrade" flag (some true)
  <| .field "sizing" Settings.sizing (some .lots)
  <| .field "sizing_value" Settings.sizingValue (some none)
  <| .field "min_box" nonNegative (some zero)
  <| .field "min_box_enabled" flag (some false)
  <| .field "mode" Settings.mode (some .paper)
  <| .field "enabled" flag (some false) .done

def codec : Codec CopyConfig :=
  (fields.codec [] (by simp [fields, Fields.names]) (by simp)).map
    (fun (a, b, c, d, e, f, g, h, i, j, k, l, m, n, o, p, q, _) => ⟨a, b, c, d, e, f, g, h, i, j, k, l, m, n, o, p, q⟩)
    (fun v => (v.id, v.name, v.machineId, v.source, v.connectionName, v.additionalSources, v.x17Only, v.destinationBroker,
      v.destinationAccount, v.acceptedGrades, v.retractOnDowngrade, v.sizing, v.sizingValue, v.minBox, v.minBoxEnabled,
      v.mode, v.enabled, ()))
    fun _ => rfl

end CopyConfig

structure SymbolMapping where
  destination : Text 1 100
  lots : Positive
  orderType : MapOrderType

namespace SymbolMapping

def fields := Fields.field "destination" (Codec.text 1 100) none
  <| .field "lots" positive none
  <| .field "order_type" Settings.orderType (some .source) .done

def codec : Codec SymbolMapping :=
  (fields.codec ["min_box"] (by simp [fields, Fields.names]) (by simp [fields, Fields.names])).map
    (fun (a, b, c, _) => ⟨a, b, c⟩) (fun v => (v.destination, v.lots, v.orderType, ())) fun _ => rfl

end SymbolMapping

abbrev SymbolMap := Keyed (Prod.fst : String × SymbolMapping → String)

/-- The row of a symbol as the settings form posts it, on one price scale with its destination. -/
structure SignalSymbol where
  destination : Text 1 100
  fixedLots : Positive
  orderType : MapOrderType

namespace SignalSymbol

def fields := Fields.field "destination" (Codec.text 1 100) none
  <| .field "fixed_lots" positive none
  <| .field "order_type" Settings.orderType none
  <| .field "same_price_scale" .yes none .done

def codec : Codec SignalSymbol :=
  (fields.codec [] (by simp [fields, Fields.names]) (by simp)).map
    (fun (a, b, c, _) => ⟨a, b, c⟩) (fun v => (v.destination, v.fixedLots, v.orderType, (), ())) fun _ => rfl

end SignalSymbol

abbrev SignalSymbols := Keyed (Prod.fst : Text 1 100 × SignalSymbol → Text 1 100)

/-- The settings of a lane, whose destination is exclusive. The symbols are accepted, but kept in the symbol map. -/
structure SignalSettings where
  machineId : Text 1 100
  source : Text 1 100
  connectionName : Text 0 200
  destinationAccount : Text 1 200
  symbols : SignalSymbols
  p01LogEnabled : Bool
  additionalSources : List AdditionalSource
  x17Only : Bool
  acceptedGrades : List Grade
  retractOnDowngrade : Bool
  riskUsd : Option Positive
  sizing : Option Sizing
  sizingValue : Option Positive
  minBox : NonNegative
  minBoxEnabled : Bool

namespace SignalSettings

def fields := Fields.field "machine_id" (Codec.text 1 100) none
  <| .field "source" (.text 1 100) (some ⟨"chain", by decide, by decide⟩)
  <| .field "connection_name" (.text 0 200) (some (noText 200))
  <| .field "destination_account" (.text 1 200) none
  <| .field "symbols" (.dict Text.text (Text.read 1 100) Text.read_text SignalSymbol.codec) (some .empty)
  <| .field "exclusive_destination" .yes none
  <| .field "p01_log_enabled" flag (some false)
  <| .field "additional_sources" (.list additionalSource) (some [])
  <| .field "x17_only" flag (some false)
  <| .field "accepted_grades" (.list grade) (some [])
  <| .field "retract_on_downgrade" flag (some true)
  <| .field "risk_usd" Settings.sizingValue (some none)
  <| .field "sizing" (Settings.sizing.optional nofun) (some none)
  <| .field "sizing_value" Settings.sizingValue (some none)
  <| .field "min_box" nonNegative (some zero)
  <| .field "min_box_enabled" flag (some false) .done

def codec : Codec SignalSettings :=
  (fields.codec ["cancel_pending"] (by simp [fields, Fields.names]) (by simp [fields, Fields.names])).map
    (fun (a, b, c, d, e, _, f, g, h, i, j, k, l, m, n, o, _) => ⟨a, b, c, d, e, f, g, h, i, j, k, l, m, n, o⟩)
    (fun v => (v.machineId, v.source, v.connectionName, v.destinationAccount, v.symbols, (), v.p01LogEnabled,
      v.additionalSources, v.x17Only, v.acceptedGrades, v.retractOnDowngrade, v.riskUsd, v.sizing, v.sizingValue,
      v.minBox, v.minBoxEnabled, ()))
    fun _ => rfl

def symbolMap (v : SignalSettings) : SymbolMap where
  rows := v.symbols.rows.map fun r => (r.1.text, ⟨r.2.destination, r.2.fixedLots, r.2.orderType⟩)
  nodup := by
    have hkeys := v.symbols.nodup.map (f := Text.text) fun _ _ => Text.ext
    rw [List.map_map] at hkeys ⊢
    exact hkeys

def lane (v : SignalSettings) : SignalSettings := { v with symbols := .empty }

end SignalSettings

abbrev CopyConfigs := Keyed fun c : CopyConfig => c.id.text

def osError : Exc := ⟨.osError, "OSError", "", none⟩

/-- A file that holds a value, or nothing when there is no file. -/
def file {α : Type} (c : Codec α) (missing : α) : Medium (Option Json) α Exc where
  dump v := some (c.dump v)
  load
    | none => .ok missing
    | some v => (c.read v).elim (.error Signal.invalid) .ok
  failed _ := osError

def copyConfigs : Medium (Option Json) CopyConfigs Exc := file (CopyConfig.codec.keyed _) .empty

def symbols : Codec SymbolMap := .dict id some (fun _ => rfl) SymbolMapping.codec

def symbolMap : Medium (Option Json) SymbolMap Exc := file symbols .empty

/-- The settings of a lane are written in UTF-8, and read in the encoding of the locale. -/
def laneSettings : Medium (Option Json) (Option SignalSettings) Exc where
  dump v := v.map SignalSettings.codec.dump
  load
    | none => .ok none
    | some v => do
      let v ← SettingsHost.readLocale v
      (SignalSettings.codec.read v).elim (.error Signal.invalid) fun v => .ok (some v)
  failed _ := osError

end Settings

end MatchTrader
