import Mathlib.Algebra.Order.Ring.Rat
import MatchTrader.SlidingWindow
import MatchTrader.World

/-! The shared session with the broker: what it sends, the login and the refresh that renew it, and
the budget of renewals. Times are seconds of the monotonic clock. -/

namespace MatchTrader

open Durable

/-- `str.isalnum` of a character. -/
class AlnumHost where
  isalnum : Char → Bool

inductive CookieMode where
  | session
  | account
deriving DecidableEq

inductive Renewal where
  | refresh
  | login
deriving DecidableEq

structure RestSettings where
  email : String := ""
  password : String := ""
  brokerId : String := ""
  accountId : String := ""
  systemUuid : String := ""
  cookieMode : CookieMode := .session
  sessionRenewal : Renewal := .refresh
  enableWrites : Bool := false

structure RestConnection where
  settings : RestSettings
  closed : Bool := false
  sessionToken : Json := .str ""
  tradingToken : Json := .str ""
  accountToken : Json := .str ""
  system : String := settings.systemUuid
  expires : ℚ := 0
  identity : String := ""
  refreshTimes : List ℚ := []
  accountId : String := ""

inductive RestScope where
  | manager
  | trading
deriving DecidableEq

inductive RestAction where
  | login
  | oneTimeLogin
  | refresh
deriving DecidableEq

/-- A request as it is handed to the HTTP client. -/
structure HttpRequest where
  method : String
  path : String
  scope : RestScope
  write : Bool
  body : Option Json
  params : Option Json

structure RestCall where
  request : HttpRequest
  safeRead : Bool := false
  action : Option RestAction := none

/-- What becomes of a request on the wire: an answer's content is empty, unreadable, or a value. -/
inductive HttpOutcome where
  | transportError
  | raised (name message : String)
  | answer (status : Nat) (content : Option (Option Json))

/-- On whose account a request is sent. -/
inductive Purpose where
  /-- The caller's own request. -/
  | own
  /-- A login, explicit or not. -/
  | login (explicit : Bool)
  | refresh (explicit : Bool)
  | platform
deriving DecidableEq

/-- What a connection did. -/
inductive Wired where
  | renewal
  | sent (purpose : Purpose) (at_ : ℚ)
deriving DecidableEq

structure Wire where
  conn : RestConnection
  clock : ℚ
  trace : List Wired := []

inductive RestQuery where
  | http (r : HttpRequest)
  /-- The seconds that a session token has left by its own claim, where it has a readable one. -/
  | remaining (token : Json)
  /-- The value of the session cookie in the client's jar. -/
  | coAuth

def RestReply : RestQuery → Type
  | .http _ => HttpOutcome
  | .remaining _ => Option ℚ
  | .coAuth => Option String

abbrev RestAct := Prog Wire RestQuery RestReply Exc

namespace Exc

def named (name message : String) : Exc := ⟨.other, name, message, none⟩

def authentication (message : String) : Exc := named "AuthenticationError" message

def api (message : String) : Exc := named "APIError" message

def protocol (message : String) : Exc := named "ProtocolError" message

def configuration (message : String) : Exc := named "ConfigurationError" message

def unknownOutcome (message : String) : Exc := named "UnknownOutcomeError" message

/-- `except (APIError, AuthenticationError, ProtocolError)`. -/
def isRejection (e : Exc) : Bool :=
  e.name = "APIError" || e.name = "UnknownOutcomeError" || e.name = "AuthenticationError" || e.name = "ProtocolError"

end Exc

/-- `dict.get(name) or default`. -/
def Json.getOr (v : Json) (name : String) (default : Json) : Json :=
  match v.get? name with
  | some w => if w.truthy then w else default
  | none => default

def replaceText (old new : List Char) : Nat → List Char → List Char
  | 0, s => s
  | _ + 1, [] => []
  | n + 1, c :: rest =>
    if old.isPrefixOf (c :: rest) then new ++ replaceText old new n ((c :: rest).drop old.length)
    else c :: replaceText old new n rest

/-- `path.replace("SYSTEM_UUID", system)`. -/
def withSystem (path system : String) : String :=
  String.ofList (replaceText "SYSTEM_UUID".toList system.toList (path.length + 1) path.toList)

namespace RestConnection

def ask (r : HttpRequest) : RestAct HttpOutcome := Prog.query (R := RestReply) (.http r)

def askRemaining (token : Json) : RestAct (Option ℚ) := Prog.query (R := RestReply) (.remaining token)

def coAuth : RestAct (Option String) := Prog.query (R := RestReply) .coAuth

def conn : RestAct RestConnection := Prog.reads Wire.conn

def clock : RestAct ℚ := Prog.reads Wire.clock

def set (f : RestConnection → RestConnection) : RestAct Unit := Prog.commit fun w => { w with conn := f w.conn }

def mark (e : Wired) : RestAct Unit := Prog.commit fun w => { w with trace := w.trace ++ [e] }

def ensureOpen : RestAct Unit := do
  let c ← conn
  raiseIf (c.closed = true) (Exc.named "ConnectionClosedError" "Connection is closed")

/-- The headers of a trading request need a selected account and a token of the cookie's kind. -/
def selected (c : RestConnection) : Except Exc Unit := do
  raiseIf (¬ c.tradingToken.truthy ∨ c.system = "") (Exc.authentication "Login and select a trading account first")
  let cookie := if c.settings.cookieMode = .account then c.accountToken else c.sessionToken
  raiseIf (¬ cookie.truthy)
    (Exc.authentication "The selected cookie mode has no token; check broker instructions")
  raiseIf (cookie.text?.isNone) (Exc.named "TypeError" "can only concatenate str to str")

def isError (status : Nat) : Bool := 400 ≤ status && status ≤ 599

def isRedirect (status : Nat) : Bool := 300 ≤ status && status ≤ 399

/-- A page of closed positions may be reported as full. -/
def historyFull (r : HttpRequest) (system : String) (data : Json) : Bool :=
  !r.write && r.method = "POST" && r.scope = .trading && r.path = "mtr-api/" ++ system ++ "/closed-positions"
    && (data.get? "status").bind Json.text? = some "FULL"
    && (match data.get? "operations" with
      | some (.arr _) => true
      | _ => false)

/-- What a response says. -/
def readResponse (r : HttpRequest) (system : String) : HttpOutcome → Except Exc Json
  | .transportError =>
    .error (if r.write then
      .unknownOutcome "Mutation transport failure: outcome unknown; reconcile before retry"
    else .api "Request transport failure")
  | .raised name message => .error (.named name message)
  | .answer status content => do
    raiseIf (status = 401) (Exc.authentication "Authentication expired or rejected (401)")
    raiseIf (isError status ∨ isRedirect status)
      (Exc.api ("HTTP " ++ Nat.repr status ++ " from Match-Trader"))
    match content with
    | none =>
      return if status = 204 ∧ r.method = "POST" ∧ r.scope = .trading
          ∧ r.path = "mtr-api/" ++ system ++ "/pending-order/cancel"
        then .obj [("status", .str "OK")] else .null
    | some none =>
      .error (if r.write then .unknownOutcome "Mutation returned an unreadable response; reconcile before retry"
        else .protocol "Expected a JSON response")
    | some (some data) =>
      match (data.get? "status").bind Json.text? with
      | some status =>
        raiseIf (status ≠ "OK" ∧ ¬ historyFull r system data)
          (Exc.api "Operation did not report OK; inspect broker state before continuing")
        return data
      | none => return data

/-- Hand a request to the HTTP client, and read what comes back. -/
def send (purpose : Purpose) (r : HttpRequest) : RestAct Json := do
  ensureOpen
  let c ← conn
  let r := if r.scope = .trading then { r with path := withSystem r.path c.system } else r
  Prog.ofExcept (if r.scope = .trading then selected c else .ok ())
  let now ← clock
  mark (.sent purpose now)
  let outcome ← ask r
  Prog.ofExcept (readResponse r c.system outcome)

/-- The account a login is for. -/
def account [Host] (settings : RestSettings) (data : Json) : Except Exc Json := do
  let accounts := data.getOr "tradingAccounts" (data.getOr "accounts" (.arr []))
  let selected := data.getOr "selectedTradingAccount" (data.getOr "selectedAccount" .null)
  let accounts := if selected.truthy ∧ ¬ accounts.truthy then .arr [selected] else accounts
  match accounts with
  | .arr items =>
    if settings.accountId ≠ "" then
      raiseIf (items.any fun a => !a.isObj) (Exc.named "AttributeError" "no attribute 'get'")
      match items.filter fun a => ((a.get? "tradingAccountId").getD .null).pyStr = settings.accountId with
      | [a] => return a
      | _ => .error (.authentication "Configured account ID was not uniquely present in login")
    else
      match items with
      | [a] => return a
      | _ => .error (.authentication "Set the broker's ACCOUNT_ID: login did not return exactly one account")
  | _ => .error (.named "TypeError" "not a list of accounts")

/-- `value.get(name, {})`. -/
def field (value : Json) (name : String) : Except Exc Json := do
  raiseIf (!value.isObj) (Exc.named "AttributeError" "no attribute 'get'")
  return (value.get? name).getD (.obj [])

def systemOf (settings : RestSettings) (account : Json) : Except Exc String := do
  if settings.systemUuid ≠ "" then return settings.systemUuid
  let offer ← field account "offer"
  let system ← field offer "system"
  raiseIf (!system.isObj) (Exc.named "AttributeError" "no attribute 'get'")
  match (system.get? "uuid").getD (.str "") with
  | .str uuid => return uuid
  | v => if v.truthy then .error (.named "TypeError" "not iterable") else return ""

/-- The checks of a login's response before anything is adopted. -/
def choose [Host] [AlnumHost] (settings : RestSettings) (data : Json) : Except Exc (Json × String) := do
  raiseIf (!data.isObj ∨ ¬ (data.getOr "token" .null).truthy) (Exc.protocol "Login response has no session token")
  let a ← account settings data
  raiseIf (!a.isObj) (Exc.named "AttributeError" "no attribute 'get'")
  let system ← systemOf settings a
  raiseIf (system = "" ∨ ¬ system.toList.all fun c => AlnumHost.isalnum c || c = '-' || c = '_')
    (Exc.protocol "Login returned an invalid system identifier")
  raiseIf (¬ (a.getOr "tradingApiToken" .null).truthy) (Exc.protocol "Selected account has no trading API token")
  return (a, system)

def accountTokenOf (account : Json) : Except Exc Json := do
  let token := account.getOr "tradingAccountToken" (.obj [])
  raiseIf (!token.isObj) (Exc.named "AttributeError" "no attribute 'get'")
  return (token.get? "token").getD (.str "")

def adopt [Host] [AlnumHost] (data : Json) (identity : String) : RestAct Unit := do
  let c ← conn
  let (a, system) ← Prog.ofExcept (choose c.settings data)
  set fun c => { c with sessionToken := data.getOr "token" .null, tradingToken := a.getOr "tradingApiToken" .null }
  let token ← Prog.ofExcept (accountTokenOf a)
  set fun c => { c with accountToken := token, system }
  match a.get? "tradingAccountId" with
  | none => throw ⟨.keyError, "KeyError", "'tradingAccountId'", none⟩
  | some accountId =>
    let now ← clock
    set fun c => { c with accountId := accountId.pyStr, identity, expires := now + 900 }

def managerPost (path : String) (body : Option Json) : HttpRequest := ⟨"POST", path, .manager, false, body, none⟩

def platformRequest : HttpRequest := ⟨"GET", "/manager/platform-details", .manager, false, none, none⟩

/-- The identifier of the broker, asked of the platform where it is not configured. -/
def brokerOf (settings : RestSettings) : RestAct Json := do
  if settings.brokerId ≠ "" then return .str settings.brokerId
  let platform ← send .platform platformRequest
  let partnerId := platform.getOr "partnerId" .null
  raiseIf (¬ partnerId.truthy) (Exc.protocol "Platform details has no partnerId")
  return partnerId

/-- The body of a login with the configured credentials. -/
def credentials (settings : RestSettings) : RestAct Json := do
  raiseIf (settings.email = "" ∨ settings.password = "")
    (Exc.authentication "Set the broker's EMAIL and PASSWORD in your local .env")
  let broker ← brokerOf settings
  return .obj [("email", .str settings.email), ("password", .str settings.password), ("brokerId", broker)]

def loginPath (oneTime : Bool) : String := if oneTime then "/manager/login/co/with-token" else "/manager/mtr-login"

def login [Host] [AlnumHost] (explicit : Bool) (body : Option Json := none) (oneTime discoverOnly : Bool := false) :
    RestAct Json := do
  let c ← conn
  let body ← body.elim (credentials c.settings) pure
  let identity := ((body.get? "email").bind Json.text?).getD c.settings.email
  raiseIf (c.sessionToken.truthy ∧ (oneTime ∨ c.identity ≠ identity))
    (Exc.configuration "Close the active session before logging in as another identity")
  let data ← send (.login explicit) (managerPost (loginPath oneTime) (some body))
  if discoverOnly then return data
  set fun c => { c with sessionToken := .str "", tradingToken := .str "", accountToken := .str "" }
  adopt data identity
  return data

def renewalWindow : ℚ := 3600

def renewalLimit : Nat := 4

/-- Charge an attempt to the budget, or refuse it. -/
def reserveRenewal : RestAct Unit := do
  let now ← clock
  set fun c => { c with refreshTimes := SlidingWindow.prune renewalWindow now c.refreshTimes }
  let c ← conn
  raiseIf (renewalLimit ≤ c.refreshTimes.length)
    (Exc.authentication "Refresh limit reached (four attempts/hour); check credentials or wait")
  set fun c => { c with refreshTimes := c.refreshTimes ++ [now] }

/-- A failed renewal leaves the session expired. -/
def expiring (p : RestAct Json) : RestAct Json :=
  tryCatch p fun e => do
    set fun c => { c with expires := 0 }
    throw e

def names : List String := ["accounts", "tradingAccounts", "selectedAccount", "selectedTradingAccount"]

def refreshRequest : HttpRequest := managerPost "/manager/refresh-token" none

/-- What a refresh brings: accounts, a token, or a cookie. -/
def adoptRefresh [Host] [AlnumHost] (data : Json) : RestAct Unit := do
  let c ← conn
  if (data.getOr "token" .null).truthy then
    if names.any fun n => (data.get? n).isSome then adopt data c.identity
    else set fun c => { c with sessionToken := data.getOr "token" .null }
  else
    match ← coAuth with
    | some value => set fun c => { c with sessionToken := .str value }
    | none => pure ()

def refresh [Host] [AlnumHost] (explicit : Bool) : RestAct Json := do
  let c ← conn
  raiseIf (¬ c.sessionToken.truthy) (Exc.authentication "Login before refreshing the session")
  reserveRenewal
  expiring do
    let data ← send (.refresh explicit) refreshRequest
    adoptRefresh data
    let now ← clock
    set fun c => { c with expires := now + 900 }
    return data

/-- The active identity's own credentials back the session. -/
def ownCredentials (c : RestConnection) : Bool :=
  c.identity ≠ "" && c.identity = c.settings.email && c.settings.accountId ≠ ""

/-- Reauthenticate or refresh once. -/
def renew [Host] [AlnumHost] : RestAct Json := do
  mark .renewal
  let c ← conn
  if c.settings.sessionRenewal = .refresh then
    tryCatch (refresh false) fun e => do
      let c ← conn
      if e.isRejection && c.ownCredentials then login false else throw e
  else
    raiseIf (¬ c.sessionToken.truthy) (Exc.authentication "Login before renewing the session")
    raiseIf (c.identity ≠ c.settings.email)
      (Exc.configuration "Automatic login requires the active identity's configured credentials")
    reserveRenewal
    expiring (login false)

/-- The token's own claim decides; the timer stands in where it has none. -/
def due (c : RestConnection) (now marginSeconds : ℚ) : Option ℚ → Bool
  | some remaining => remaining ≤ marginSeconds
  | none => c.expires ≤ now

def renewalDue (marginSeconds : ℚ) : RestAct Bool := do
  let c ← conn
  if c.closed ∨ ¬ c.sessionToken.truthy then return false
  let remaining ← askRemaining c.sessionToken
  let now ← clock
  return c.due now marginSeconds remaining

def renewIfDue [Host] [AlnumHost] (marginSeconds : ℚ) : RestAct Bool := do
  if !(← renewalDue marginSeconds) then return false
  discard renew
  return true

/-- What a trading request does for its session beforehand: whether it renewed it. -/
def prepare [Host] [AlnumHost] : RestAct Bool := do
  let c ← conn
  let now ← clock
  if ¬ c.sessionToken.truthy then
    discard (login false)
    return false
  else if c.expires ≤ now then
    discard renew
    return true
  else return false

/-- Send the caller's request; a rejected safe read is sent once more after a renewal. -/
def exchange [Host] [AlnumHost] (r : RestCall) (refreshed : Bool) : RestAct Json :=
  tryCatch (send .own r.request) fun e => do
    if e.name ≠ "AuthenticationError" ∨ r.request.scope ≠ .trading ∨ !r.safeRead ∨ refreshed then throw e
    discard renew
    send .own r.request

def prepared [Host] [AlnumHost] (r : RestCall) : RestAct Bool :=
  if r.request.scope = .trading then prepare else pure false

def serve [Host] [AlnumHost] (r : RestCall) : RestAct Json :=
  match r.action with
  | some .login => login true r.request.body
  | some .oneTimeLogin => login true r.request.body true
  | some .refresh => refresh true
  | none => do
    let refreshed ← prepared r
    exchange r refreshed

def request [Host] [AlnumHost] (r : RestCall) : RestAct Json := do
  ensureOpen
  let c ← conn
  raiseIf (r.request.write ∧ ¬ c.settings.enableWrites) ⟨.writesDisabled, "WritesDisabledError",
    "Enable writes for this broker in your local .env to use mutation endpoints", none⟩
  serve r

/-- `discover_accounts`. -/
def discoverAccounts [Host] [AlnumHost] : RestAct Json := do
  ensureOpen
  let c ← conn
  raiseIf (c.settings.accountId ≠ "" ∨ c.sessionToken.truthy)
    (Exc.configuration "Account discovery requires an unselected session")
  login true none false true

/-- `adopt_login`. -/
def adoptLogin [Host] [AlnumHost] (data : Json) : RestAct Unit := do
  ensureOpen
  let c ← conn
  raiseIf (c.settings.accountId = "") (Exc.configuration "Select an account before adopting a login")
  adopt data c.settings.email

/-- The last lease is released. -/
def shutdown : RestAct Unit :=
  set fun c => { c with closed := true, sessionToken := .str "", tradingToken := .str "", accountToken := .str "" }

end RestConnection

end MatchTrader
