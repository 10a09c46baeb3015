import MatchTrader.Forwarder
import MatchTrader.ForwardBody
import MatchTrader.LoggingStore
import MatchTrader.TransparentProxy

/-! The dashboard's HTTP server: who may ask for what, and what is then done. The controller behind it, the sockets and the files answer
as they like. -/

namespace MatchTrader.Serving

open Durable
open Proxy (Command ProxyResponse lower connectionFields isOsError)

/-- What the server takes from its interpreter's library. -/
class ServerHost extends WebHost where
  /-- `json.loads`. -/
  loads : List UInt8 → Except Exc Json
  /-- `int(parse_qs(urlsplit(path).query).get(name, ['0'])[0])`. -/
  cursor : String → String → Except Exc Int
  /-- `base64.b64decode`. -/
  b64decode : Json → Except Exc (List UInt8)
  /-- `mimetypes.guess_type(name)[0]`. -/
  guessType : String → Option String
  /-- The errors of a `ValidationError`, each with its place. -/
  errors : Exc → String

/-- The text of a field. -/
def latin (value : List UInt8) : String := String.ofList (value.map fun c => Char.ofNat c.toNat)

structure HttpRequest where
  command : Command
  path : String
  headers : List Field

def HttpRequest.get? (r : HttpRequest) (name : String) : Option String := (getAll name r.headers).head?.map latin

/-- The key of the sender, and the field that it comes in. -/
structure SenderKey where
  apiKey : String
  authHeader : List UInt8

def SenderKey.authorized (k : SenderKey) (headers : List Field) : Bool :=
  match headers.filter fun f => lower f.1 = lower k.authHeader with
  | [f] => k.apiKey ≠ "" && latin f.2 = k.apiKey
  | _ => false

structure DashboardServer where
  port : Nat
  /-- The parts of the path of the built frontend. -/
  assets : List String
  bridgeToken : String
  sessionToken : String
  /-- `controller.tradingbox_forwarder`, if there is one. -/
  forwarder : Option SenderKey
  /-- Whether there are broker profiles. -/
  profiles : Bool

namespace DashboardServer

def trusted (s : DashboardServer) (r : HttpRequest) : Bool :=
  let host := (r.get? "Host").getD ""
  (host = "127.0.0.1:" ++ toString s.port || host = "localhost:" ++ toString s.port)
    && r.get? "Sec-Fetch-Site" ≠ some "cross-site"
    && (r.get? "Origin" = none || r.get? "Origin" = some ("http://" ++ host))

def authorized (s : DashboardServer) (r : HttpRequest) : Bool := (r.get? "X-Session-Token").getD "" = s.sessionToken

/-- The sender's own token. -/
def bearer (s : DashboardServer) (r : HttpRequest) : Bool :=
  s.bridgeToken ≠ "" && (r.get? "Authorization").getD "" = "Bearer " ++ s.bridgeToken

/-- The sender to TradingBox, which is no browser. -/
def admitted (s : DashboardServer) (r : HttpRequest) : Bool :=
  r.get? "Origin" = none && s.forwarder.any fun k => k.authorized r.headers

end DashboardServer

inductive View where
  | signalCopySettings
  | signalCopyFeed
  | symbols
  | r01Settings
  | r01Feed
  | forwarderStatus
  | copySettings
  | copyControls
  | copyConfigs
  | catalog
  | status
  | brokerProfiles
  | loggingFeed (before : Int)
  | relayFeed (after : Int)
  | feed
  | nativeFeed
  | p01Feed
  | sourceSignalFeed
  | tradeMappings

inductive Action where
  | configureForwarder
  | profileAction
  | connect
  | start
  | startCapture
  | stop
  | readHistory
  | closedHistory
  | refreshOrders
  | refreshPositions
  | configureCopying
  | configureCopyControls
  | sendTrade
  | setCopying
  | configureSignals
  | configureSymbols
  | configureR01
  | configureCopyConfig
  | setCopyConfigState
  | deleteCopyConfig
  | accountView
  | setSignalCopying
  | refreshSession

/-- A call on the controller, or on what it holds. -/
inductive ServerCall where
  | view (v : View)
  | selected
  | act (a : Action) (args : List Json)
  | notifyStream
  | rawAppend (direction source : String) (message : Json) (token : String)
  | receiveSignals (payload : Json)
  | acceptLog (body : List UInt8) (contentType : String)
  | acceptRelay (payload : Json)
  | receiveNative (payload : Json)
  | receive (payload : Json)
  | ticket
  | forward (headers : List Field) (body : List UInt8) (ticket : Ticket) (method : Command) (target : String)

def CallReply : ServerCall → Type
  | .selected => Option String
  | .ticket => Ticket
  | .forward _ _ _ _ _ => ProxyResponse
  | _ => Json

inductive StreamKind where
  | native
  | raw
  | dashboard

structure Answer where
  status : Nat
  /-- The upstream's own phrase. -/
  reason : Option (List UInt8) := none
  headers : List Field
  body : List UInt8

inductive ServerEvent where
  | called (c : ServerCall)
  /-- A body, or as much of it as there was, is read. -/
  | received (size : Nat)
  | opened (file : List String)
  | began (a : Answer)
  | sent (a : Answer)
  | acquired
  | streamed (k : StreamKind)
  | released
  | shutdown

inductive ServerQuery where
  /-- The rest of the client's stream, or the failure of a read. -/
  | arrive
  | call (c : ServerCall)
  | write (a : Answer)
  | resolve (relative : String)
  | isFile (file : List String)
  | readFile (file : List String)
  | acquire
  | stream (k : StreamKind)

def ServerReply : ServerQuery → Type
  | .arrive | .readFile _ => Except Exc (List UInt8)
  | .call c => Except Exc (CallReply c)
  | .write _ | .stream _ => Except Exc Unit
  | .resolve _ => Except Exc (List String)
  | .isFile _ => Except Exc Bool
  | .acquire => Bool

abbrev Act := Prog (List ServerEvent) ServerQuery ServerReply Exc

section Calls

def emit (e : ServerEvent) : Act Unit := Prog.commit (· ++ [e])

/-- A question that may raise. -/
def ask {α : Type} (p : Act (Except Exc α)) : Act α := p >>= Prog.ofExcept

/-- `except …: …`; other exceptions pass. -/
def rescue {α : Type} (p : Act α) (catches : Exc → Bool) (h : Exc → Act α) : Act α :=
  tryCatch p fun e => if catches e then h e else throw e

def arrive : Act (List UInt8) := ask (Prog.query ServerQuery.arrive)

def call (c : ServerCall) : Act (CallReply c) := do
  emit (.called c)
  ask (Prog.query (ServerQuery.call c))

def view (v : View) : Act Json := call (.view v)

def perform (a : Action) (args : List Json) : Act Json := call (.act a args)

def rawAppend (direction source : String) (message : Json) (token : String) : Act Unit := discard (call (.rawAppend direction source message token))

end Calls

section Answers

def bytes (body : Json) : List UInt8 := Utf8.ascii (String.ofList body.dumps)

def ownFields (contentType : String) (length : Nat) : List Field :=
  [("Content-Type", contentType), ("Content-Length", toString length), ("Cache-Control", "no-store"),
    ("X-Content-Type-Options", "nosniff"), ("Referrer-Policy", "no-referrer"),
    ("Content-Security-Policy", "default-src 'self'; connect-src 'self'; style-src 'self'; frame-ancestors 'none'; base-uri 'none'; form-action 'self'"),
    ("Connection", "close")].map fun f => (Utf8.ascii f.1, Utf8.ascii f.2)

def ownAnswer (status : Nat) (body : List UInt8) (contentType : String) : Answer where
  status
  headers := ownFields contentType body.length
  body

def send (a : Answer) : Act Unit := do
  emit (.began a)
  ask (Prog.query (ServerQuery.write a))
  emit (.sent a)

def reply (status : Nat) (body : Json) : Act Unit := send (ownAnswer status (bytes body) "application/json")

def refuse (status : Nat) (message : String) : Act Unit := reply status (.obj [("error", .str message)])

/-- Nothing is left to be answered. -/
def tell {α : Type} (status : Nat) (message : String) : Act (Option α) := do
  refuse status message
  return none

def connectionOnly (headers : List Field) : List (List UInt8) := connectionFields headers ++ ["host", "content-length"].map Utf8.ascii

/-- `end_to_end`. -/
def endToEnd (headers : List Field) : List Field := headers.filter fun f => !(connectionOnly headers).contains (lower f.1)

/-- Neither the server's own fields nor its date are put into an answer of the upstream. -/
def upstreamAnswer (command : Command) (response : ProxyResponse) : Answer where
  status := response.status
  reason := some (response.reason.filter fun c => c ≠ 13 && c ≠ 10)
  headers := endToEnd response.headers
    ++ (if command = .head ∨ response.status = 304 then response.headers.filter fun f => lower f.1 = Utf8.ascii "content-length"
      else if response.status ≠ 204 ∧ response.status ≠ 205 ∧ 200 ≤ response.status then
        [(Utf8.ascii "Content-Length", Utf8.ascii (toString response.body.length))]
      else [])
    ++ [(Utf8.ascii "Connection", Utf8.ascii "close")]
  body := if command ≠ .head ∧ response.status ≠ 204 ∧ response.status ≠ 205 ∧ response.status ≠ 304 ∧ 200 ≤ response.status then response.body else []

end Answers

/-- `OSError`, and `TimeoutError` with it. -/
def isTimeout (e : Exc) : Bool := e.kind = .osError && e.name = "TimeoutError"

def isTypeError (e : Exc) : Bool := e.kind = .typeError

/-- `(ValueError, TypeError, KeyError)`. -/
def isRefusal (e : Exc) : Bool := e.isValueError || isTypeError e || e.kind = .keyError

def incomplete : String := "Action could not complete. Check the selected account and connection status."

def localError : String := "Local service error. Check the ledger path and restart the dashboard."

/-- How an action that failed is told, where its route says nothing else. -/
def failure (e : Exc) : Nat × Json :=
  if isRefusal e then (400, .obj [("error", .str incomplete)])
  else if isTimeout e then (408, .obj [("error", .str "Request timed out")])
  else (500, .obj [("error", .str localError)])

section Forwarding

variable [ServerHost] (s : DashboardServer) (r : HttpRequest)

/-- What of a request is passed on, or the answer that it cannot be read. -/
def takeForwarded : Act (Option (Ticket × List UInt8)) :=
  rescue
    (do
      let _ ← Prog.ofExcept (validateTarget r.path)
      let ticket ← call .ticket
      let stream ← arrive
      let read ← Prog.ofExcept (Dashboard.readForwardBody r.headers stream)
      emit (.received read.1.length)
      return some (ticket, read.1))
    (fun e => e.isValueError || isOsError e)
    fun _ => tell 400 "Invalid or incomplete TradingBox request framing or target"

def forwardTradingbox : Act Unit := do
  if ¬ s.trusted r then refuse 403 "Local same-origin access required"
  else if ¬ s.admitted r then refuse 401 "TradingBox sender authentication required"
  else
    match ← takeForwarded r with
    | none => return
    | some (ticket, body) =>
      let response ← tryCatch (some <$> call (.forward r.headers body ticket r.command r.path)) fun _ =>
        tell 503 "Request could not be recorded; forwarding aborted"
      match response with
      | none => return
      | some response => send (upstreamAnswer r.command response)

end Forwarding

section Get

variable [ServerHost] (s : DashboardServer) (r : HttpRequest)

/-- `stream_native` and `stream_dashboard`: the slot of an event stream is given back however it ends. -/
def stream (k : StreamKind) : Act Unit := do
  let free : Bool ← Prog.query ServerQuery.acquire
  if ¬ free then refuse 503 "Too many open event streams"
  else
    emit .acquired
    tryCatch
      (rescue (do
        emit (.streamed k)
        ask (Prog.query (ServerQuery.stream k))) isOsError fun _ => pure ())
      fun e => do
        emit .released
        throw e
    emit .released

def plainViews : List (String × View) :=
  [("/api/signal-copy-settings", .signalCopySettings), ("/api/signal-copy-events", .signalCopyFeed), ("/api/symbol-map", .symbols),
    ("/api/r01-lane", .r01Settings), ("/api/r01-events", .r01Feed), ("/api/tradingbox-forwarding", .forwarderStatus),
    ("/api/copy-settings", .copySettings), ("/api/copy-controls", .copyControls), ("/api/copy-configs", .copyConfigs),
    ("/api/event-meanings", .catalog), ("/api/status", .status), ("/api/broker-profiles", .brokerProfiles), ("/api/events", .feed),
    ("/api/trade-mappings", .tradeMappings)]

/-- What a view shows where the part of the controller that it is about does not exist. -/
def absent : View → Option Json
  | .forwarderStatus =>
    if s.forwarder.isSome then none
    else some (.obj [("enabled", .bool false), ("live", .bool false), ("key_configured", .bool false), ("url", .str "")])
  | .brokerProfiles => if s.profiles then none else some (.obj [("profiles", .arr []), ("limit", .num (.ofNat 5))])
  | _ => none

/-- `result[name]`. -/
def item (v : Json) (name : String) : Except Exc Json :=
  match v with
  | .obj fields =>
    match Rows.lookup Prod.fst name fields with
    | some f => .ok f.2
    | none => .error ⟨.keyError, "KeyError", name, none⟩
  | _ => .error (Exc.type "indices must be integers or slices")

/-- Previews are redacted; the bytes stay in the archive. -/
def withoutData (result : Json) : Except Exc Json := do
  match ← item result "records" with
  | .arr records =>
    let shown := records.map fun
      | .obj fields => .obj (fields.filter fun f => f.1 ≠ "data_base64")
      | v => v
    return result.update [("records", .arr shown)]
  | _ => throw (Exc.type "the records cannot be gone through")

def elements : Json → List Json
  | .arr items => items
  | _ => []

def getApi (path : String) : Act Unit := do
  match Rows.lookup Prod.fst path plainViews with
  | some (_, v) =>
    match absent s v with
    | some shown => reply 200 shown
    | none => reply 200 (← view v)
  | none =>
    if path = "/api/raw/stream" then stream .raw
    else if path = "/api/capture/stream" then stream .native
    else if path = "/api/stream" then stream .dashboard
    else if path = "/api/logging/events" then
      rescue (do
        let before ← Prog.ofExcept (ServerHost.cursor r.path "before")
        let result ← view (.loggingFeed before)
        reply 200 (← Prog.ofExcept (withoutData result))) Exc.isValueError fun _ => refuse 400 "Invalid logging cursor"
    else if path = "/api/relay/logs" then
      rescue (do
        let after ← Prog.ofExcept (ServerHost.cursor r.path "after")
        reply 200 (← view (.relayFeed after))) Exc.isValueError fun _ => refuse 400 "Invalid relay log cursor"
    else if path = "/api/capture/events" then
      let native ← view .nativeFeed
      let p01 ← view .p01Feed
      let signals ← view .sourceSignalFeed
      reply 200 (.obj [("events", .arr (elements native ++ elements p01 ++ elements signals))])
    else refuse 404 "Unknown endpoint"

def asset (path : String) : Act Unit := do
  let relative := if path = "/" then "index.html" else String.ofList ((WebHost.unquote path).toList.dropWhile (· = '/'))
  let target ← ask (Prog.query (ServerQuery.resolve relative))
  if ¬ s.assets <+: target then refuse 404 "Asset not found; build the Vue frontend first"
  else if ¬ (← ask (Prog.query (ServerQuery.isFile target))) then refuse 404 "Asset not found; build the Vue frontend first"
  else
    emit (.opened target)
    let content ← ask (Prog.query (ServerQuery.readFile target))
    send (ownAnswer 200 content ((ServerHost.guessType (target.getLastD "")).getD "application/octet-stream"))

def doGet : Act Unit := do
  if hasPrefix r.path "/api/hcamm/" then forwardTradingbox s r
  else if ¬ s.trusted r then refuse 403 "Local same-origin access required"
  else
    let url ← Prog.ofExcept (WebHost.urlsplit r.path)
    if url.path = "/api/session" then reply 200 (.obj [("token", .str s.sessionToken)])
    else if hasPrefix url.path "/api/" then
      if ¬ s.authorized r then refuse 401 "Reload the dashboard to start a new local session"
      else getApi s r url.path
    else asset s url.path

end Get

section Post

variable [ServerHost] (s : DashboardServer) (r : HttpRequest)

def senderPaths : List String := ["/events", "/capture/events", "/capture/signals", "/relay/logs", "/logging/events"]

def maxBody : Nat := 16384

def maxSignalBody : Nat := 1024 * 1024

def bodyLimit (route : String) : Nat :=
  if route = "/logging/events" then maxLogBody else if route = "/capture/signals" then maxSignalBody else maxBody

/-- The declared length of a body, or -1. -/
def declaredLength : Int :=
  match contentLength r.headers with
  | [text] => (Numeral.int 10 Numeral.latinSpace text).toOption.getD (-1)
  | _ => -1

def decoded (body : List UInt8) : Json := .str (String.ofList (Utf8.decodeReplace body))

/-- Signals need no token, but a browser may not send any. -/
def postSignals (body : List UInt8) : Act Unit := do
  if (r.get? "Origin").isSome then refuse 401 "Local signal receiver: browser posts are refused"
  else
    rawAppend "in" "x17-signal" (decoded body) s.bridgeToken
    let outcome ← tryCatch
      (do
        let payload ← Prog.ofExcept (ServerHost.loads body)
        let result ← call (.receiveSignals payload)
        return (202, result))
      fun e => pure (failure e)
    rawAppend "out" "x17-signal" outcome.2 s.bridgeToken
    reply outcome.1 outcome.2

def postLogging (body : List UInt8) (length : Nat) : Act Unit := do
  if (r.get? "Origin").isSome ∨ ¬ s.bearer r then refuse 401 "Logging sender authentication required"
  else if body.length ≠ length then refuse 400 "Incomplete logging body"
  else
    let result ← call (.acceptLog body ((r.get? "Content-Type").getD "application/octet-stream"))
    rawAppend "in" "logging" (decoded body) s.bridgeToken
    rawAppend "out" "logging" result s.bridgeToken
    reply 202 result

/-- A new chunk is shown with the diagnostics. -/
def showRelayed (payload result : Json) : Act Unit := do
  let duplicate ← Prog.ofExcept (item result "duplicate")
  if duplicate.truthy then return
  else
    let data ← Prog.ofExcept (item payload "data_base64")
    let raw ← Prog.ofExcept (ServerHost.b64decode data)
    rawAppend "in" "tradingbox-relay" (decoded raw) s.bridgeToken
    discard (call .notifyStream)

def postRelay (body : List UInt8) : Act Unit := do
  if (r.get? "Origin").isSome ∨ ¬ s.bearer r then refuse 401 "Native relay authentication required"
  else
    let payload ← Prog.ofExcept (ServerHost.loads body)
    let result ← call (.acceptRelay payload)
    showRelayed s payload result
    reply 202 result

def postCapture (body : List UInt8) : Act Unit := do
  if ¬ s.bearer r then refuse 401 "Sender authentication required"
  else
    rawAppend "in" "http" (decoded body) s.bridgeToken
    let payload ← Prog.ofExcept (ServerHost.loads body)
    let result ← call (.receiveNative payload)
    rawAppend "out" "http" result s.bridgeToken
    reply 202 result

/-- `ingest`. -/
def ingest (body : List UInt8) : Act (Nat × Json) :=
  if ¬ (r.get? "Authorization").getD "" = "Bearer " ++ s.bridgeToken then pure (401, .obj [("error", .str "unauthorized")])
  else if maxBody < body.length then pure (413, .obj [("error", .str "body_too_large")])
  else
    rescue
      (do
        let payload ← Prog.ofExcept (ServerHost.loads body)
        let result ← call (.receive payload)
        return (202, result))
      Exc.isValueError fun _ => pure (400, .obj [("error", .str "invalid_order_event")])

def postEvents (body : List UInt8) : Act Unit := do
  if s.bridgeToken = "" then refuse 503 "Configure the bridge token before attaching a sender"
  else
    let outcome ← ingest s r body
    reply outcome.1 outcome.2

/-- How the failure of an action is told to the user. -/
inductive Surfaced where
  /-- Not at all: it is told as any failure is. -/
  | generic
  | value
  | valueOrType
  /-- Each refused field, or the reason; the streams are woken first. -/
  | checked
  /-- The reason, and for any other failure this message. -/
  | read (message : String)

/-- The result of an action, or nothing if its failure has been answered. -/
def surface (how : Surfaced) (p : Act Json) : Act (Option Json) :=
  tryCatch (some <$> p) fun e =>
    match how with
    | .generic => throw e
    | .value => if e.isValueError then tell 400 e.message else throw e
    | .valueOrType => if e.isValueError || isTypeError e then tell 400 e.message else throw e
    | .checked =>
      if e.isValueError then do
        discard (call .notifyStream)
        tell 400 (if e.name = "ValidationError" then ServerHost.errors e else e.message)
      else throw e
    | .read message => tell (if e.isValueError then 400 else 502) (if e.isValueError then e.message else message)

/-- `payload.get(name)`. -/
def field (payload : Json) (name : String) : Json := (payload.get? name).getD .null

structure Route where
  action : Action
  args : Json → List Json
  how : Surfaced := .generic

def whole (payload : Json) : List Json := [payload]

def named (names : List String) (payload : Json) : List Json := names.map (field payload)

def routes : List (String × Route) :=
  [("/api/connect", ⟨.connect, named ["account_id"], .generic⟩), ("/api/start", ⟨.start, named ["account_id"], .generic⟩),
    ("/api/capture/start", ⟨.startCapture, named [], .generic⟩), ("/api/stop", ⟨.stop, named [], .generic⟩),
    ("/api/orders/refresh", ⟨.refreshOrders, named [], .generic⟩), ("/api/positions/refresh", ⟨.refreshPositions, named [], .generic⟩),
    ("/api/copy-settings", ⟨.configureCopying, whole, .generic⟩), ("/api/copy-controls", ⟨.configureCopyControls, whole, .checked⟩),
    ("/api/trades/send", ⟨.sendTrade, whole, .checked⟩), ("/api/copying", ⟨.setCopying, named ["enabled"], .value⟩),
    ("/api/signal-copy-settings", ⟨.configureSignals, whole, .generic⟩), ("/api/symbol-map", ⟨.configureSymbols, whole, .generic⟩),
    ("/api/r01-lane", ⟨.configureR01, whole, .generic⟩), ("/api/copy-configs", ⟨.configureCopyConfig, whole, .valueOrType⟩),
    ("/api/copy-configs/state", ⟨.setCopyConfigState, whole, .valueOrType⟩),
    ("/api/copy-configs/delete", ⟨.deleteCopyConfig, whole, .valueOrType⟩),
    ("/api/signal-copying", ⟨.setSignalCopying, named ["enabled"], .generic⟩), ("/api/token/refresh", ⟨.refreshSession, named [], .generic⟩)]

/-- `tuple(parts)`. -/
def tuple : Json → Except Exc Json
  | .arr items => .ok (.arr items)
  | .str text => .ok (.arr (text.toList.map fun c => .str (String.singleton c)))
  | .obj fields => .ok (.arr (fields.map fun f => .str f.1))
  | _ => .error (Exc.type "object is not iterable")

def accountView (payload : Json) : Act (Option Json) :=
  let given := field payload "parts"
  let parts := if given.truthy then given else .arr [.str "balance", .str "orders", .str "positions"]
  surface (.read "The selected account read failed; check the broker connection.") do
    let read ← Prog.ofExcept (tuple parts)
    perform .accountView [field payload "account_id", read]

def sameAccount (account : Json) (selected : Option String) : Bool :=
  match account, selected with
  | .str a, some b => a = b
  | .null, none => true
  | _, _ => false

def closedOrders (payload : Json) : Act (Option Json) :=
  let profile := (payload.get? "profile").getD (.str "primary")
  surface (.read "Closed history could not be loaded. Check the broker connection and try again.") do
    if profile.text? = some "primary" then
      let selected ← call .selected
      raiseIf (¬ sameAccount (field payload "account_id") selected) (Exc.value "Selected account changed; reload closed trades")
      perform .readHistory [payload]
    else
      raiseIf (¬ s.profiles) (Exc.value "Broker profiles are unavailable")
      perform .closedHistory [profile, payload]

def configureForwarding (payload : Json) : Act (Option Json) := do
  raiseIf s.forwarder.isNone (Exc.value "Forwarder unavailable")
  surface .value (perform .configureForwarder [payload])

def profileAction (payload : Json) : Act (Option Json) := do
  if ¬ s.profiles then tell 400 "Broker profiles not configured"
  else
    let done ← tryCatch (some <$> perform .profileAction (named ["profile", "action", "account_id"] payload)) fun e =>
      if e.isValueError || isTypeError e then do
        discard (call .notifyStream)
        tell 400 e.message
      else throw e
    match done with
    | none => return none
    | some _ => some <$> view .brokerProfiles

/-- The result of the action that a path names; nothing if the answer has been given. -/
def runAction (payload : Json) : Act (Option Json) := do
  match Rows.lookup Prod.fst r.path routes with
  | some (_, route) => surface route.how (perform route.action (route.args payload))
  | none =>
    if r.path = "/api/tradingbox-forwarding" then configureForwarding s payload
    else if r.path = "/api/broker-profiles/action" then profileAction s payload
    else if r.path = "/api/orders/closed" then closedOrders s payload
    else if r.path = "/api/account-view" then accountView payload
    else tell 404 "Unknown endpoint"

def postApi (body : List UInt8) : Act Unit := do
  let payload ← Prog.ofExcept (ServerHost.loads body)
  raiseIf (¬ payload.isObj) (Exc.value "Invalid request")
  if r.path = "/api/shutdown" then
    discard (perform .stop [])
    reply 200 (.obj [("stopping", .bool true)])
    emit .shutdown
  else
    match ← runAction s r payload with
    | none => return
    | some result =>
      discard (call .notifyStream)
      reply 200 result

def postBody (route : String) (length : Nat) : Act Unit := do
  let stream ← arrive
  let body := stream.take length
  emit (.received body.length)
  if route = "/capture/signals" then postSignals s r body
  else if r.path = "/logging/events" then postLogging s r body length
  else if r.path = "/relay/logs" then postRelay s r body
  else if r.path = "/capture/events" then postCapture s r body
  else if r.path = "/events" then postEvents s r body
  else postApi s r body

def doPost : Act Unit := do
  if hasPrefix r.path "/api/hcamm/" then forwardTradingbox s r
  else if ¬ s.trusted r then refuse 403 "Local same-origin access required"
  else
    let url ← Prog.ofExcept (WebHost.urlsplit r.path)
    if url.path ∉ senderPaths ∧ ¬ s.authorized r then refuse 401 "Reload the dashboard to start a new local session"
    else
      let length := declaredLength r
      if ¬ (0 ≤ length ∧ length ≤ bodyLimit url.path) ∨ (r.get? "Transfer-Encoding").any (· ≠ "") then refuse 413 "Invalid request size"
      else tryCatch (postBody s r url.path length.toNat) fun e => reply (failure e).1 (failure e).2

end Post

variable [ServerHost] (s : DashboardServer) (r : HttpRequest)

def doOther : Act Unit := do
  if hasPrefix r.path "/api/hcamm/" then forwardTradingbox s r
  else refuse 404 "Unknown endpoint"

def handle : Act Unit :=
  match r.command with
  | .get => doGet s r
  | .post => doPost s r
  | .put | .patch | .delete | .options | .head => doOther s r

end MatchTrader.Serving
