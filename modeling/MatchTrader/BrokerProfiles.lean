import Mathlib.Data.List.Dedup
import Mathlib.Data.List.Sort
import Mathlib.Logic.Function.Basic
import MatchTrader.Connections

/-! The broker profiles of the dashboard and its capture session: who owns which broker session, what a
profile shows, and the renewal timers of the sessions. The broker, the clock and the files answer as they like. -/

namespace MatchTrader

open Durable

/-- An account in the answer to a login: its id, and whether its offer says that it is a demo. -/
structure LoginAccount where
  tradingAccountId : String
  demo : Bool
deriving DecidableEq

structure Authentication where
  token : String
  tradingAccounts : List LoginAccount := []
  accounts : List LoginAccount := []
  selectedTradingAccount : Option LoginAccount := none
  selectedAccount : Option LoginAccount := none

/-- The accounts that a login found. -/
def Authentication.found (auth : Authentication) : List LoginAccount :=
  let listed := if auth.tradingAccounts ≠ [] then auth.tradingAccounts else auth.accounts
  if listed ≠ [] then listed else (auth.selectedTradingAccount <|> auth.selectedAccount).toList

/-- A model dumped to JSON: its fields in order. -/
abbrev BrokerRecord := List (String × Json)

inductive ReadPart where
  | balance
  | orders
  | positions
deriving DecidableEq

/-- The fields of a part that a profile shows. -/
def ReadPart.fields : ReadPart → List String
  | balance => ["balance", "equity", "currency", "margin", "freeMargin", "profit", "netProfit"]
  | orders => ["id", "symbol", "side", "type", "volume", "activationPrice", "stopLoss", "takeProfit"]
  | positions => ["id", "symbol", "side", "volume", "openPrice", "stopLoss", "takeProfit", "profit", "netProfit"]

def records (items : List BrokerRecord) (fields : List String) : List BrokerRecord :=
  items.map fun item => item.filter fun f => f.1 ∈ fields

structure ProfileData where
  updatedAt : Option Instant := none
  balance : Option BrokerRecord := none
  orders : Option (List BrokerRecord) := none
  positions : Option (List BrokerRecord) := none

/-- What the data has of a part, as a list of records. -/
def ProfileData.part (d : ProfileData) : ReadPart → Option (List BrokerRecord)
  | .balance => d.balance.map fun r => [r]
  | .orders => d.orders
  | .positions => d.positions

inductive ConnectionState where
  | disconnected
  | connected
  | error
  | configurationRequired
deriving DecidableEq

inductive LoginState where
  | disconnected
  | expiryUnknown
  | connected
  | expired
deriving DecidableEq

structure AccountChoice where
  id : String
  demo : Bool
deriving DecidableEq

/-- Nothing else of an offer reaches the user. -/
def LoginAccount.choice (a : LoginAccount) : AccountChoice := ⟨a.tradingAccountId, a.demo⟩

structure ProfileEntry where
  settings : ConnectionSettings
  api : Option Nat := none
  state : ConnectionState := .disconnected
  error : String := ""
  data : ProfileData := {}
  revision : Nat := 0
  accounts : List AccountChoice := []
  authentication : Option Authentication := none

/-- What the controller knows of its own session. -/
structure CaptureSession where
  settings : ConnectionSettings
  ledgerPath : Option String := none
  api : Option Nat := none
  /-- The accounts to choose from, and whether the broker named them. -/
  accounts : List (String × Bool) := []
  selected : String := ""
  connection : ConnectionState := .disconnected
  connectionMessage : String := "Connect to verify this account and discover your other accounts."
  captureMessage : String := "Stopped. Starting captures new events only."
  tokenMessage : String := ""
  running : Bool := false
  worker : Bool := false
  captureGeneration : Nat := 0
  /-- The account of the open journal. -/
  bridge : Option String := none
  orders : List BrokerRecord := []
  ordersAt : Option Instant := none
  /-- `native.armed`. -/
  armed : Bool := false
  demoVerified : Bool := false

inductive SessionEvent where
  /-- A discovery for a profile found these accounts. -/
  | found (profile : String) (ids : List String)
  /-- A part was read on a session that served the account. -/
  | read (owner : Nat) (account : String) (part : ReadPart) (rows : List BrokerRecord)

/-- The sessions that were ever made are numbered; every one is an object that owns a connection until it is closed. -/
structure ProfileWorld where
  names : List String
  labels : List (String × String) := []
  entries : String → ProfileEntry
  primary : CaptureSession
  /-- The renewers that run, by the name of their connection. -/
  renewers : List (String × Nat) := []
  closing : Bool := false
  /-- The settings that each session was made with. -/
  made : List ConnectionSettings := []
  /-- The sessions whose `close` returned, and those whose `close` raised. -/
  shut : List Nat := []
  failed : List Nat := []
  trace : List SessionEvent := []

namespace ProfileWorld

def setEntry (w : ProfileWorld) (name : String) (f : ProfileEntry → ProfileEntry) : ProfileWorld :=
  { w with entries := Function.update w.entries name (f (w.entries name)) }

def setPrimary (w : ProfileWorld) (f : CaptureSession → CaptureSession) : ProfileWorld := { w with primary := f w.primary }

def mark (w : ProfileWorld) (e : SessionEvent) : ProfileWorld := { w with trace := w.trace ++ [e] }

def add (w : ProfileWorld) (settings : ConnectionSettings) : ProfileWorld := { w with made := w.made ++ [settings] }

def shutDown (w : ProfileWorld) (owner : Nat) : ProfileWorld := { w with shut := owner :: w.shut }

def failDown (w : ProfileWorld) (owner : Nat) : ProfileWorld := { w with failed := owner :: w.failed }

/-- `stop_renewal`. -/
def cancel (w : ProfileWorld) (name : String) : ProfileWorld :=
  { w with renewers := w.renewers.filter fun r => r.1 ≠ name }

/-- `start_renewal`. -/
def renew (w : ProfileWorld) (name : String) (owner : Nat) : ProfileWorld :=
  if w.closing then w else { w with renewers := (w.cancel name).renewers ++ [(name, owner)] }

end ProfileWorld

inductive SessionQuery where
  | clock
  /-- `login_expiry`, of a token. -/
  | loginExpiry (token : String)
  | make (settings : ConnectionSettings)
  | close (owner : Nat)
  | discoverAccounts (owner : Nat)
  | login (owner : Nat)
  | useLogin (owner : Nat) (authentication : Authentication)
  /-- `api.connection.account_id`. -/
  | accountId (owner : Nat)
  | sessionExpiresAt (owner : Nat)
  | balance (owner : Nat)
  | activeOrders (owner : Nat)
  | openPositions (owner : Nat)
  | openJournal (account : String)
  | closeJournal
  /-- Open the ledger, if there is one, and the log of the indicator. -/
  | openSources (ledger : Option String)
  /-- Whether the observer still runs ten seconds later. -/
  | workerAlive

def SessionReply : SessionQuery → Type
  | .clock => Instant
  | .loginExpiry _ => Option Instant
  | .make _ | .close _ | .useLogin _ _ | .openJournal _ | .closeJournal | .openSources _ => Except Exc Unit
  | .discoverAccounts _ | .login _ => Except Exc Authentication
  | .accountId _ => String
  | .sessionExpiresAt _ => Option Instant
  | .balance _ => Except Exc BrokerRecord
  | .activeOrders _ | .openPositions _ => Except Exc (List BrokerRecord)
  | .workerAlive => Bool

abbrev SessionAct := Prog ProfileWorld SessionQuery SessionReply Exc

def primaryPrefix : String := "AQF"

/-- An `APIError` with the status code 403. -/
def Exc.isForbidden (e : Exc) : Bool := e.name = "APIError" && e.message = "HTTP 403 from Match-Trader"

section Loading

/-- `[A-Z][A-Z0-9]{0,15}`, matched in full. -/
def validPrefix (name : String) : Bool :=
  match name.toList with
  | [] => false
  | c :: rest => c.isUpper && rest.length ≤ 15 && rest.all fun d => d.isUpper || d.isDigit

/-- The fields of `Settings`, in order. -/
def settingFields : List String :=
  ["platform_url", "email", "password", "broker_id", "account_id", "trading_url", "system_uuid", "cookie_mode",
    "session_renewal", "tls_minimum_version", "timeout_seconds", "requests_per_minute", "enable_writes", "ws_url",
    "ws_subprotocol", "ws_headers_json", "ws_ping_interval", "ws_max_size"]

def urlSuffix : String := "_PLATFORM_URL"

/-- The value of a variable that is set to something. -/
def setValue (values : List (String × Option String)) (key : String) : Option String :=
  ((Rows.lookup Prod.fst key values).bind Prod.snd).filter fun v => v ≠ ""

/-- The prefixes of the other profiles. -/
def otherPrefixes (values : List (String × Option String)) : List String :=
  let keys := (values.map Prod.fst).filter fun key =>
    key.toList.drop (key.length - 13) = urlSuffix.toList && (setValue values key).isSome && key ≠ primaryPrefix ++ urlSuffix
  (keys.map fun key => String.ofList (key.toList.take (key.length - 13))).dedup.insertionSort (· ≤ ·)

def fieldsOf (values : List (String × Option String)) (name : String) : List (String × String) :=
  settingFields.filterMap fun field =>
    (setValue values (name ++ "_" ++ String.ofList (field.toList.map Char.toUpper))).map fun v => (field, v)

/-- What `Settings` and `str.casefold` make of their arguments. -/
structure ProfileHost where
  settings : List (String × String) → Except Exc ConnectionSettings
  casefold : String → String

/-- `Settings(**fields)` has no account unless the fields have one. -/
def ProfileHost.Plain (host : ProfileHost) : Prop :=
  ∀ fields st, (∀ f ∈ fields, f.1 ≠ "account_id") → host.settings fields = .ok st → st.accountId = ""

/-- One profile for each prefix; no account id is taken from the environment. -/
def loadEach (host : ProfileHost) (values : List (String × Option String)) :
    List String → List (String × String × String) → Except Exc (List (String × ConnectionSettings))
  | [], _ => return []
  | name :: names, identities => do
    raiseIf (validPrefix name = false) (Exc.value "Broker prefixes must use uppercase letters and digits")
    let settings ← host.settings ((fieldsOf values name).filter fun f => f.1 ≠ "account_id")
    let identity := (settings.platformUrl, settings.brokerId, host.casefold settings.email)
    raiseIf (identity ∈ identities) (Exc.value "Duplicate broker/login/account profile")
    let rest ← loadEach host values names (identity :: identities)
    return (name, settings) :: rest

/-- `load_profiles`, of the file and the environment merged. -/
def loadProfiles (host : ProfileHost) (values : List (String × Option String)) : Except Exc (List (String × ConnectionSettings)) := do
  let names := primaryPrefix :: otherPrefixes values
  raiseIf (5 < names.length) (Exc.value "Configure at most five broker profiles")
  loadEach host values names []

/-- The dashboard when it starts: nobody is logged in, and the capture session has no account. -/
def ProfileWorld.init (profiles : List (String × ConnectionSettings)) (labels : List (String × String)) (settings : ConnectionSettings) :
    ProfileWorld where
  names := profiles.map Prod.fst
  labels := labels
  entries name := { settings := ((Rows.lookup Prod.fst name profiles).map Prod.snd).getD { settings with accountId := "" } }
  primary := { settings := { settings with accountId := "" } }

end Loading

namespace Sessions

def world : SessionAct ProfileWorld := Prog.reads id

def commit (f : ProfileWorld → ProfileWorld) : SessionAct Unit := Prog.commit f

def setEntry (name : String) (f : ProfileEntry → ProfileEntry) : SessionAct Unit :=
  commit fun w => w.setEntry name f

def setPrimary (f : CaptureSession → CaptureSession) : SessionAct Unit := commit fun w => w.setPrimary f

def mark (e : SessionEvent) : SessionAct Unit := commit fun w => w.mark e

def now : SessionAct Instant := Prog.query (R := SessionReply) .clock

/-- A call that may raise. -/
def call {α : Type} (q : SessionAct (Except Exc α)) : SessionAct α := do
  let r ← q
  Prog.ofExcept r

/-- `api_factory(settings)`. -/
def make (settings : ConnectionSettings) : SessionAct Nat := do
  call (Prog.query (R := SessionReply) (.make settings))
  let w ← world
  commit fun w => w.add settings
  return w.made.length

/-- `api.close()`. -/
def close (owner : Nat) : SessionAct Unit := do
  let r : Except Exc Unit ← Prog.query (R := SessionReply) (.close owner)
  match r with
  | .ok _ => commit fun w => w.shutDown owner
  | .error e => do
    commit fun w => w.failDown owner
    throw e

def discoverAccounts (owner : Nat) : SessionAct Authentication :=
  call (Prog.query (R := SessionReply) (.discoverAccounts owner))

def useLogin (owner : Nat) (auth : Authentication) : SessionAct Authentication := do
  call (Prog.query (R := SessionReply) (.useLogin owner auth))
  return auth

def login (owner : Nat) : SessionAct Authentication := call (Prog.query (R := SessionReply) (.login owner))

def accountId (owner : Nat) : SessionAct String := Prog.query (R := SessionReply) (.accountId owner)

def startRenewal (name : String) (owner : Nat) : SessionAct Unit := commit fun w => w.renew name owner

def stopRenewal (name : String) : SessionAct Unit := commit fun w => w.cancel name

/-- What becomes of a call, as a value. -/
def outcome {α : Type} (p : SessionAct α) : SessionAct (Except Exc α) := tryCatch (Except.ok <$> p) fun e => pure (.error e)

/-- The settings of a session for an account: what belonged to another account is cleared. -/
def forAccount (settings : ConnectionSettings) (account : String) : ConnectionSettings :=
  { settings with accountId := account, systemUuid := "", wsUrl := "", wsHeadersJson := "\x7b\x7d", wsSubprotocol := "" }

section Capture

/-- `_open_journal`: none is opened without an account. -/
def openJournal : SessionAct Unit := do
  let w ← world
  if w.primary.selected = "" then pure ()
  else do
    call (Prog.query (R := SessionReply) (.openJournal w.primary.selected))
    setPrimary fun p => { p with bridge := some p.selected }

/-- The session of the selected account goes away. -/
def leave : SessionAct Unit := do
  let w ← world
  match w.primary.api with
  | none => pure ()
  | some owner => do
    stopRenewal "primary"
    close owner
    setPrimary fun p => { p with api := none }

def closeJournal : SessionAct Unit := do
  let w ← world
  if w.primary.bridge.isSome then call (Prog.query (R := SessionReply) .closeJournal) else pure ()

/-- `_select`. -/
def chooseAccount (account : String) : SessionAct Unit := do
  let w ← world
  raiseIf (account ∉ w.primary.accounts.map Prod.fst) (Exc.value "Select a configured or broker-discovered account")
  if account = w.primary.selected then pure ()
  else do
    raiseIf (w.primary.running = true) (Exc.value "Stop capture before changing accounts")
    leave
    closeJournal
    setPrimary fun p => { p with
      selected := account, connection := .disconnected, orders := [], ordersAt := none, armed := false }
    openJournal

def connectedMessage (armed : Bool) : String :=
  if armed then "Connected. Copying is enabled." else "Connected. Copying is disabled."

def adoptLogin (account : String) (candidate : Nat) (auth : Authentication) : SessionAct Unit :=
  setPrimary fun p => { p with
    accounts := auth.found.map fun a => (a.tradingAccountId, true)
    api := some candidate
    demoVerified := auth.found.any fun a => a.tradingAccountId = account && a.demo
    connection := .connected
    connectionMessage := connectedMessage p.armed }

/-- The renewer follows the session that there now is. -/
def followRenewal : SessionAct Unit := do
  let w ← world
  match w.primary.api with
  | some owner => if w.primary.connection = .connected then startRenewal "primary" owner else stopRenewal "primary"
  | none => stopRenewal "primary"

/-- `previous or self.api_factory(settings)`. -/
def candidateOf (previous : Option Nat) (settings : ConnectionSettings) : SessionAct Nat :=
  match previous with
  | some owner => pure owner
  | none => make settings

/-- Take over a login, where there is one, or log in. -/
def logIn (candidate : Nat) (authentication : Option Authentication) : SessionAct Authentication :=
  match authentication with
  | some auth => useLogin candidate auth
  | none => login candidate

def closeNew (previous : Option Nat) (candidate : Nat) : SessionAct Unit :=
  if previous = none then close candidate else pure ()

/-- What the outcome of a login leaves; a session that there was is kept. -/
def conclude (account : String) (previous : Option Nat) (candidate : Nat) : Except Exc Authentication → SessionAct Unit
  | .ok auth => adoptLogin account candidate auth
  | .error e => do
    closeNew previous candidate
    setPrimary fun p => { p with
      connection := if previous.isSome then .connected else .error
      connectionMessage := if e.isForbidden then "Aqua returned HTTP 403. The Python session could not authenticate."
        else "Connection failed. Check the local credentials and broker configuration." }

/-- The settings that the capture session connects to an account with. -/
def settingsFor (settings : ConnectionSettings) (account : String) : ConnectionSettings :=
  if account = settings.accountId then settings else forAccount settings account

/-- `DashboardController.connect`. -/
def connect (account : String) (authentication : Option Authentication) : SessionAct Unit := do
  chooseAccount account
  let w ← world
  setPrimary fun p => { p with
    orders := [], ordersAt := none, tokenMessage := "", armed := false, demoVerified := false }
  let candidate ← candidateOf w.primary.api (settingsFor w.primary.settings account)
  let result ← outcome (logIn candidate authentication)
  conclude account w.primary.api candidate result
  followRenewal

/-- Begin to observe. -/
def observe : SessionAct Unit := do
  let w ← world
  call (Prog.query (R := SessionReply) (.openSources w.primary.ledgerPath))
  setPrimary fun p => { p with
    captureGeneration := p.captureGeneration + 1
    running := true
    captureMessage := if p.ledgerPath.isSome then "Native event receiver enabled; also observing new R01 CSV rows."
      else "Authenticated event receiver enabled; no ledger path configured."
    worker := true }

/-- `DashboardController.start`; without an account the one that is selected stays. -/
def start (account : Option String) : SessionAct Unit := do
  let w ← world
  if w.primary.running then
    raiseIf (account.any fun a => a ≠ w.primary.selected) (Exc.value "Stop capture before changing accounts")
  else
    match account with
    | none => observe
    | some account => do
      chooseAccount account
      observe

/-- The observer ends with an error of its own. -/
def watchFails : SessionAct Unit := do
  let w ← world
  if w.primary.worker then
    setPrimary fun p => { p with
      running := false, armed := false
      captureMessage := "Observation stopped after a ledger read error. Check the source and restart." }
  else pure ()

def joinWorker : SessionAct Unit := do
  let w ← world
  if w.primary.worker then do
    let alive : Bool ← Prog.query (R := SessionReply) .workerAlive
    raiseIf (alive = true) (Exc.runtime "Observer has not stopped yet")
    setPrimary fun p => { p with worker := false }
  else pure ()

def closeHeld (api : Option Nat) : SessionAct Unit :=
  match api with
  | none => pure ()
  | some owner => close owner

/-- `DashboardController.stop`. -/
def stop : SessionAct Unit := do
  setPrimary fun p => { p with running := false, armed := false }
  joinWorker
  stopRenewal "primary"
  let w ← world
  closeHeld w.primary.api
  setPrimary fun p => { p with
    api := none, tokenMessage := "", connection := .disconnected
    connectionMessage := "Connection closed. Existing broker orders were not changed."
    captureMessage := "Stopped. New events are rejected until capture starts again." }

/-- `DashboardController.set_copying`. -/
def setCopying (enabled : Bool) : SessionAct Unit := do
  raiseIf (enabled = true) (Exc.value
    ("Automatic dispatch is disabled: POST /api/copying enabled=true (DashboardController.set_copying) "
      ++ "can no longer arm the capture router, so captured signals are never sent on arrival. Trades are "
      ++ "sent individually from the Verified trades page (POST /api/trades/send) after the source's copy "
      ++ "control is switched on. Disabling (enabled=false) still works."))
  setPrimary fun p => { p with armed := false, connectionMessage := "Connected. Copying is disabled." }

/-- What the outcome of another login leaves. -/
def adoptRefresh : Except Exc Authentication → SessionAct Unit
  | .ok auth => setPrimary fun p =>
    let demo := auth.found.any fun a => a.tradingAccountId = p.selected && a.demo
    { p with
      accounts := auth.found.map fun a => (a.tradingAccountId, true)
      demoVerified := demo, armed := demo && p.armed, connection := .connected
      connectionMessage := connectedMessage (demo && p.armed), tokenMessage := "Token refreshed successfully." }
  | .error _ => setPrimary fun p => { p with tokenMessage := "Token refresh failed. Check credentials and try again." }

def renewConnected (owner : Nat) : SessionAct Unit := do
  let w ← world
  if w.primary.connection = .connected then startRenewal "primary" owner else pure ()

/-- `DashboardController.refresh_session`: the session that there is logs in again. -/
def refreshSession : SessionAct Unit := do
  let w ← world
  match w.primary.api with
  | none => throw (Exc.value "Connect to the broker before refreshing the token")
  | some owner => do
    let result ← outcome (login owner)
    adoptRefresh result
    renewConnected owner

/-- `DashboardController.refresh_orders`. -/
def refreshOrders : SessionAct Unit := do
  let w ← world
  match w.primary.api with
  | none => throw (Exc.value "Connect to the broker before requesting active orders")
  | some owner => do
    let result : Except Exc (List BrokerRecord) ← Prog.query (R := SessionReply) (.activeOrders owner)
    match result with
    | .ok rows => do
      let t ← now
      setPrimary fun p => { p with
        orders := records rows
          ["id", "symbol", "side", "type", "volume", "activationPrice", "stopLoss", "takeProfit", "creationTime", "creationTimeIso"]
        ordersAt := some t }
    | .error _ => do
      setPrimary fun p => { p with
        orders := [], ordersAt := none
        connectionMessage := "Active-order read failed. No current broker snapshot is available." }
      throw (Exc.value "Active-order read failed. No current broker snapshot is available.")

end Capture

section Profiles

variable (name : String)

/-- `_entry`. -/
def entryOf : SessionAct ProfileEntry := do
  let w ← world
  raiseIf (name ∉ w.names) (Exc.value "Unknown broker profile")
  return w.entries name

def current : SessionAct ProfileEntry := Prog.reads fun w => w.entries name

def loginExpiry (auth : Authentication) : SessionAct (Option Instant) := Prog.query (R := SessionReply) (.loginExpiry auth.token)

def loginState (entry : ProfileEntry) : SessionAct LoginState :=
  match entry.authentication with
  | none => pure .disconnected
  | some auth => do
    let expiry ← loginExpiry auth
    match expiry with
    | none => pure .expiryUnknown
    | some expiry => do
      let t ← now
      return if t < expiry then .connected else .expired

/-- What a discovery leaves when the broker answers. -/
def adoptAccounts (candidate : Nat) : SessionAct Unit := do
  let auth ← discoverAccounts candidate
  let ids := auth.found.map LoginAccount.tradingAccountId
  raiseIf (ids = [] ∨ "" ∈ ids ∨ ¬ ids.Nodup) (Exc.value "No unique accounts returned")
  mark (.found name ids)
  setEntry name fun e => { e with accounts := auth.found.map LoginAccount.choice, authentication := some auth }
  let entry ← current name
  let state ← loginState entry
  raiseIf (state = .expired) (Exc.value "Broker returned an expired login")
  setEntry name fun e => { e with error := "" }

/-- What a discovery leaves when it fails. -/
def forget : SessionAct Unit :=
  setEntry name fun e => { e with
    authentication := none, accounts := []
    error := "Login failed; check this profile credentials and broker configuration" }

/-- A session that was made is closed again. -/
def tryAccounts : Except Exc Nat → SessionAct Unit
  | .error _ => forget name
  | .ok candidate => do
    tryCatch (adoptAccounts name candidate) fun _ => forget name
    close candidate

/-- Log in on a session of its own. -/
def lookUp : SessionAct Unit := do
  setEntry name fun e => { e with accounts := [], authentication := none }
  let entry ← current name
  let candidate ← outcome (make (forAccount entry.settings ""))
  tryAccounts name candidate
  setEntry name fun e => { e with revision := e.revision + 1 }

def askRows (owner : Nat) : ReadPart → SessionAct (List BrokerRecord)
  | .balance => do
    let r ← call (Prog.query (R := SessionReply) (.balance owner))
    return [r]
  | .orders => call (Prog.query (R := SessionReply) (.activeOrders owner))
  | .positions => call (Prog.query (R := SessionReply) (.openPositions owner))

def readRows (owner : Nat) (account : String) (part : ReadPart) : SessionAct (List BrokerRecord) := do
  let rows ← askRows owner part
  mark (.read owner account part (records rows part.fields))
  return records rows part.fields

def ProfileData.set (d : ProfileData) (part : ReadPart) (rows : List BrokerRecord) : ProfileData :=
  match part with
  | .balance => { d with balance := rows.head? }
  | .orders => { d with orders := some rows }
  | .positions => { d with positions := some rows }

/-- Read these parts in turn. -/
def readParts (owner : Nat) (account : String) : List ReadPart → ProfileData → SessionAct ProfileData
  | [], d => pure d
  | part :: parts, d => do
    let rows ← readRows owner account part
    readParts owner account parts (ProfileData.set d part rows)

/-- `_read`: the other parts stay as they were. -/
def readInto (api : Option Nat) (account : String) (parts : List ReadPart) : SessionAct Unit := do
  match api with
  | none => throw (Exc.value "Connect the configured account first")
  | some owner => do
    let served ← accountId owner
    raiseIf (served ≠ account) (Exc.value "Connect the configured account first")
    let entry ← current name
    let t ← now
    let data ← readParts owner account parts { entry.data with updatedAt := some t }
    setEntry name fun e => { e with data }

inductive SliceAction where
  | connect
  | refresh
  | balance
  | orders
  | positions
deriving DecidableEq

/-- The parts that an action reads. -/
def SliceAction.parts : SliceAction → List ReadPart
  | connect | refresh => [.balance, .orders, .positions]
  | balance => [.balance]
  | orders => [.orders]
  | positions => [.positions]

/-- Take over the login of a discovery while that lasts, or log in. -/
def enter (entry : ProfileEntry) (owner : Nat) : SessionAct Unit := do
  let state ← loginState entry
  discard (logIn owner (if state = .connected then entry.authentication else none))
  let served ← accountId owner
  raiseIf (served ≠ entry.settings.accountId) (Exc.value "Broker selected a different account")

def keepOrClose (owner : Nat) : Except Exc Unit → SessionAct Unit
  | .error e => do
    close owner
    throw e
  | .ok _ => do
    setEntry name fun e => { e with api := some owner }
    startRenewal name owner

/-- A session of its own for the account of a profile. -/
def establish (entry : ProfileEntry) : SessionAct Unit := do
  let owner ← make entry.settings
  let result ← outcome (enter entry owner)
  keepOrClose name owner result

def establishOnce (entry : ProfileEntry) (action : SliceAction) : SessionAct Unit :=
  if action = .connect ∧ entry.api = none then establish name entry else pure ()

def readSlices (entry : ProfileEntry) (action : SliceAction) : SessionAct Unit :=
  if name = primaryPrefix then do
    let w ← world
    raiseIf (w.primary.api = none ∨ w.primary.selected = "") (Exc.value "Connect an account on the Trading bridge first")
    readInto name w.primary.api w.primary.selected action.parts
  else do
    establishOnce name entry action
    let now ← current name
    readInto name now.api entry.settings.accountId action.parts

/-- The attempt of an action other than `disconnect`. -/
def attempt (entry : ProfileEntry) (action : SliceAction) : SessionAct Unit := do
  readSlices name entry action
  setEntry name fun e => { e with state := .connected, error := "" }

def closeSession (api : Option Nat) : SessionAct Unit := if name = primaryPrefix then stop else closeHeld api

def disconnect : SessionAct Unit := do
  let entry ← current name
  closeSession name entry.api
  setEntry name fun e => { e with
    api := none, state := .disconnected, data := {}, error := "", accounts := [], authentication := none }
  stopRenewal name

/-- Never retain a successful-looking snapshot after a failed refresh. -/
def retain : SessionAct Unit := do
  let w ← world
  let connected := if name = primaryPrefix then w.primary.api.isSome else (w.entries name).api.isSome
  setEntry name fun e => { e with
    data := {}, state := if connected then .connected else .error
    error := "Account read failed; the broker session is retained. Try Refresh." }

/-- Run an action, whose failure is shown and not raised. -/
def contained (p : SessionAct Unit) : SessionAct Bool := do
  tryCatch p fun _ => retain name
  setEntry name fun e => { e with revision := e.revision + 1 }
  return true

def perform (action : SliceAction) : SessionAct Bool := do
  let entry ← entryOf name
  raiseIf (name ≠ primaryPrefix ∧ entry.settings.accountId = "")
    (Exc.value "Log in and select an account for this profile first")
  contained name (attempt name entry action)

def drop : SessionAct Bool := do
  discard (entryOf name)
  contained name (disconnect name)

/-- The choice of an account for the capture session. -/
def selectPrimary (account : String) : SessionAct Unit := do
  let w ← world
  raiseIf (w.primary.running = true ∧ account ≠ w.primary.selected)
    (Exc.value "Stop capture before switching the primary account")
  let entry ← current name
  setPrimary fun p => { p with accounts := entry.accounts.map fun a => (a.id, true) }
  let state ← loginState entry
  connect account (if state = .connected then entry.authentication else none)

/-- The session of another account is closed; the one of this account takes over a login. -/
def selectSession (account : String) : SessionAct Unit := do
  let entry ← current name
  match entry.api with
  | none => pure ()
  | some owner =>
    if account = entry.settings.accountId then
      match entry.authentication with
      | none => pure ()
      | some auth => discard (useLogin owner auth)
    else do
      close owner
      setEntry name fun e => { e with api := none }

def switch (account : String) : SessionAct Unit := if name = primaryPrefix then selectPrimary name account else selectSession name account

/-- What `select` does once the account is one of the choices. -/
def take (account : String) : SessionAct Bool := do
  let entry ← current name
  raiseIf (account ∉ entry.accounts.map AccountChoice.id) (Exc.value "Log in and select an account returned by this broker")
  switch name account
  setEntry name fun e => { e with
    settings := settingsFor e.settings account
    data := {}, error := "", state := .disconnected }
  perform name (if name = primaryPrefix then .refresh else .connect)

def recursionError : Exc := ⟨.other, "RecursionError", "maximum recursion depth exceeded", none⟩

def stateUnless (force : Bool) (entry : ProfileEntry) : SessionAct LoginState :=
  if force then pure .disconnected else loginState entry

def unlessConnected (state : LoginState) (p : SessionAct Unit) : SessionAct Unit := if state = .connected then pure () else p

def whenExpired (state : LoginState) (p : SessionAct Unit) : SessionAct Unit := if state = .expired then p else pure ()

mutual

/-- `discover` and `select` go back and forth while logins expire in between, as deep as the interpreter lets them. -/
def discover (depth : Nat) (name : String) (force : Bool) : SessionAct Bool :=
  match depth with
  | 0 => throw recursionError
  | depth + 1 => do
    let entry ← entryOf name
    let state ← stateUnless force entry
    unlessConnected state (lookUp name)
    let entry ← current name
    if entry.settings.accountId ∈ entry.accounts.map AccountChoice.id ∧ (state = .connected ∨ entry.settings.accountId ≠ "") then
      select depth name entry.settings.accountId
    else return state = .connected || !entry.accounts.isEmpty

def select (depth : Nat) (name account : String) : SessionAct Bool :=
  match depth with
  | 0 => throw recursionError
  | depth + 1 => do
    let entry ← entryOf name
    let state ← loginState entry
    whenExpired state (discard (discover depth name true))
    take name account

end

inductive ProfileAction where
  | login
  | refreshLogin
  | select (account : String)
  | disconnect
  | slice (a : SliceAction)
  | unknown

/-- `BrokerProfiles.action`. -/
def action (depth : Nat) : ProfileAction → SessionAct Bool
  | .login => discover depth name false
  | .refreshLogin => discover depth name true
  | .select account => select depth name account
  | .disconnect => drop name
  | .slice a => perform name a
  | .unknown => do
    discard (entryOf name)
    throw (Exc.value "Unknown profile action")

end Profiles

/-- `BrokerProfiles.close`. -/
def closeProfile (name : String) : SessionAct Unit := do
  let entry ← current name
  closeHeld (if name = primaryPrefix then none else entry.api)
  setEntry name fun e => { e with api := none, data := {}, state := .disconnected, accounts := [], authentication := none }

/-- `DashboardController.close`, of the sessions. -/
def closeAll : SessionAct Unit := do
  commit fun w => { w with closing := true, renewers := [] }
  let w ← world
  w.names.forM closeProfile
  stop

/-- What the user sees of a profile. -/
structure ProfileRow where
  profile : String
  label : String
  broker : String
  accountId : String
  accounts : List AccountChoice
  loginStatus : LoginState
  loginExpiresAt : Option Instant
  sessionExpiresAt : Option Instant
  connection : ConnectionState
  error : String
  revision : Nat
  data : ProfileData

def askExpiry (owner : Nat) : SessionAct (Option Instant) := Prog.query (R := SessionReply) (.sessionExpiresAt owner)

def sessionExpiresAt (api : Option Nat) (connection : ConnectionState) : SessionAct (Option Instant) :=
  match api with
  | none => pure none
  | some owner => if connection = .connected then askExpiry owner else pure none

/-- The capture profile shows nothing unless the capture session is connected. -/
def clearStale (name : String) : SessionAct Unit := do
  let w ← world
  if name = primaryPrefix ∧ w.primary.connection ≠ .connected then setEntry name fun e => { e with data := {} } else pure ()

/-- The session, the state and the account that a profile shows; the capture profile mirrors the capture session. -/
def shownSession (w : ProfileWorld) (name : String) : Option Nat × ConnectionState × String :=
  if name = primaryPrefix then
    (w.primary.api, w.primary.connection,
      if w.primary.selected = "" then (w.entries name).settings.accountId else w.primary.selected)
  else ((w.entries name).api, (w.entries name).state, (w.entries name).settings.accountId)

def expiryOf (entry : ProfileEntry) : SessionAct (Option Instant) :=
  match entry.authentication with
  | none => pure none
  | some auth => loginExpiry auth

def snapshotRow (name : String) : SessionAct ProfileRow := do
  let entry ← current name
  let status ← loginState entry
  let expiry ← expiryOf entry
  clearStale name
  let w ← world
  let shown := shownSession w name
  let required : Bool := shown.2.2 = "" ∧ entry.accounts = []
  let connection := if required then .configurationRequired else shown.2.1
  let error := if required ∧ entry.error = "" then "Log in above to discover available trading accounts" else entry.error
  let session ← sessionExpiresAt shown.1 connection
  let t ← now
  -- An active account session can outlive the login of the discovery.
  let active := session.filter fun s => t < s
  let status := if active.isSome then .connected else status
  let expires ← sessionExpiresAt shown.1 connection
  let entry ← current name
  return {
    profile := name
    label := ((w.labels.find? fun l => l.1 = name ∧ l.2 ≠ "").map Prod.snd).getD name
    broker := entry.settings.platformUrl
    accountId := shown.2.2
    accounts := if status = .expired then [] else entry.accounts
    loginStatus := status
    loginExpiresAt := active <|> expiry
    sessionExpiresAt := expires
    connection, error
    revision := entry.revision
    data := entry.data }

/-- `BrokerProfiles.snapshot`. -/
def snapshot : SessionAct (List ProfileRow) := do
  let w ← world
  w.names.mapM snapshotRow

end Sessions

end MatchTrader
