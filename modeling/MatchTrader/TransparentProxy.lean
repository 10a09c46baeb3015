import MatchTrader.Base64
import MatchTrader.HttpMessages
import MatchTrader.JsonText
import MatchTrader.RelayBody

/-! The proxy between Quantower and TradingBox: it records a request, passes it on or answers it itself, and records and passes
back the answer. The sockets, the files and the clock answer as they like. -/

namespace MatchTrader

open Durable Numeral

namespace Json

mutual

/-- `json.dumps` without spaces. -/
def compact : Json → List Char
  | null => "null".toList
  | bool b => if b then "true".toList else "false".toList
  | num d => d.toString.toList
  | nonfinite => "NaN".toList
  | str s => quote s
  | arr [] => ['[', ']']
  | arr (v :: rest) => '[' :: (v.compact ++ compactItems rest)
  | obj [] => ['{', '}']
  | obj (f :: rest) => '{' :: (quote f.1 ++ ':' :: (f.2.compact ++ compactFields rest))

def compactItems : List Json → List Char
  | [] => [']']
  | v :: rest => ',' :: (v.compact ++ compactItems rest)

def compactFields : List (String × Json) → List Char
  | [] => ['}']
  | f :: rest => ',' :: (quote f.1 ++ ':' :: (f.2.compact ++ compactFields rest))

end

end Json

namespace Proxy

def lower (text : List UInt8) : List UInt8 := text.map lowerByte

def hop : List (List UInt8) :=
  ["connection", "keep-alive", "proxy-authenticate", "proxy-authorization", "te", "trailer", "transfer-encoding", "upgrade"].map Utf8.ascii

def secret : List (List UInt8) :=
  ["authorization", "proxy-authorization", "cookie", "set-cookie", "x-hcamm-key", "x-api-key", "api-key"].map Utf8.ascii

def connectionFields (headers : List Field) : List (List UInt8) :=
  hop ++ (headers.filter fun f => lower f.1 = Utf8.ascii "connection").flatMap fun f =>
    (f.2.splitOn 44).map fun part => lower (Numeral.strip Relay.textSpace part)

def loggedHeaders (headers : List Field) : List Field :=
  headers.map fun f => (f.1, if lower f.1 ∈ secret then Utf8.ascii "[redacted]" else f.2)

/-- The methods that the handler answers. -/
inductive Command where
  | get
  | post
  | put
  | patch
  | delete
  | options
  | head
deriving DecidableEq

def Command.text : Command → List UInt8
  | get => Utf8.ascii "GET"
  | post => Utf8.ascii "POST"
  | put => Utf8.ascii "PUT"
  | patch => Utf8.ascii "PATCH"
  | delete => Utf8.ascii "DELETE"
  | options => Utf8.ascii "OPTIONS"
  | head => Utf8.ascii "HEAD"

structure ProxyRequest where
  command : Command
  path : List UInt8
  headers : List Field

structure ProxyServer where
  forward : Bool
  /-- The authority of the upstream origin. -/
  netloc : List UInt8

structure ProxyResponse where
  status : Nat
  reason : List UInt8
  headers : List Field
  body : List UInt8

inductive ProxyRecord where
  | request (requestId ts : String) (method path : List UInt8) (headers : List Field) (bodyBytes : Nat) (bodyBase64 : String)
  | response (requestId ts origin : String) (method path : List UInt8) (status : Nat) (reason : List UInt8) (headers : List Field)
    (durationMs : Decimal) (bodyBytes : Nat) (bodyBase64 : String)
  /-- An exchange that failed at the intermediary, with no status. -/
  | failure (requestId ts error : String) (durationMs : Decimal)
  | delivery (requestId ts error : String)

/-- What the proxy sends back to its client: a start line, fields and a body. -/
structure ProxyAnswer where
  status : Nat
  reason : List UInt8
  headers : List Field
  body : List UInt8

def ProxyAnswer.line (a : ProxyAnswer) : List UInt8 := Utf8.ascii "HTTP/1.1 " ++ decText a.status ++ 32 :: a.reason

def ProxyAnswer.head (a : ProxyAnswer) : List UInt8 := Http.head a.line a.headers

inductive ProxyEvent where
  | recorded (r : ProxyRecord)
  /-- Bytes go to the upstream origin. -/
  | contacted (cycle : String) (sent : List UInt8)
  | received (cycle : String) (r : ProxyResponse)
  /-- A body goes to the receiver on the loopback. -/
  | delivered (cycle : String) (body : List UInt8)
  /-- `send_error`. -/
  | refused (cycle : String) (status : Nat) (message : String)
  | answered (cycle : String) (a : ProxyAnswer)

inductive ProxyQuery where
  | uuid
  | now
  | elapsed
  /-- The rest of the client's stream, or the failure of a read. -/
  | arrive
  | append (r : ProxyRecord)
  /-- The connection to the origin and its TLS context. -/
  | reach
  | exchange (sent : List UInt8)
  | loopback (body : List UInt8)
  | phrase (status : Nat)
  | write (bytes : List UInt8)
  | sendError (status : Nat) (message : String)

def ProxyReply : ProxyQuery → Type
  | .uuid | .now => String
  | .elapsed => Decimal
  | .arrive => Except Exc (List UInt8)
  | .append _ | .reach | .write _ | .sendError _ _ => Except Exc Unit
  | .exchange _ => Except Exc ProxyResponse
  | .loopback _ => Except Exc (Nat × List (String × Json))
  | .phrase _ => List UInt8

abbrev ProxyAct := Prog (List ProxyEvent) ProxyQuery ProxyReply Exc

def uuid : ProxyAct String := Prog.query ProxyQuery.uuid
def now : ProxyAct String := Prog.query ProxyQuery.now
def elapsed : ProxyAct Decimal := Prog.query ProxyQuery.elapsed
def phrase (status : Nat) : ProxyAct (List UInt8) := Prog.query (ProxyQuery.phrase status)

/-- A call that may raise. -/
def call {α : Type} (p : ProxyAct (Except Exc α)) : ProxyAct α := p >>= Prog.ofExcept

def arrive : ProxyAct (List UInt8) := call (Prog.query ProxyQuery.arrive)
def reach : ProxyAct Unit := call (Prog.query ProxyQuery.reach)
def write (bytes : List UInt8) : ProxyAct Unit := call (Prog.query (ProxyQuery.write bytes))
def sendError (status : Nat) (message : String) : ProxyAct Unit := call (Prog.query (ProxyQuery.sendError status message))
def exchange (sent : List UInt8) : ProxyAct ProxyResponse := call (Prog.query (ProxyQuery.exchange sent))
def loopback (body : List UInt8) : ProxyAct (Nat × List (String × Json)) := call (Prog.query (ProxyQuery.loopback body))
def emit (e : ProxyEvent) : ProxyAct Unit := Prog.commit (· ++ [e])

/-- `record`. -/
def record (r : ProxyRecord) : ProxyAct Unit := do
  call (Prog.query (ProxyQuery.append r))
  emit (.recorded r)

def httpExceptions : List String :=
  ["HTTPException", "NotConnected", "InvalidURL", "UnknownProtocol", "UnknownTransferEncoding", "UnimplementedFileMode", "IncompleteRead",
    "ImproperConnectionState", "CannotSendRequest", "CannotSendHeader", "ResponseNotReady", "BadStatusLine", "LineTooLong", "RemoteDisconnected"]

def isOsError (e : Exc) : Bool := e.kind = .osError

/-- `(OSError, http.client.HTTPException)`. -/
def isExchangeError (e : Exc) : Bool := isOsError e || e.name ∈ httpExceptions

/-- `except …: …`; other exceptions pass. -/
def rescue {α : Type} (p : ProxyAct α) (catches : Exc → Bool) (h : Exc → ProxyAct α) : ProxyAct α :=
  tryCatch p fun e => if catches e then h e else throw e

/-- `send_error`. -/
def refuse (cycle : String) (status : Nat) (message : String) : ProxyAct Unit := do
  emit (.refused cycle status message)
  sendError status message

section Request

def originForm (path : List UInt8) : Bool := [47].isPrefixOf path && !([47, 47].isPrefixOf path)

def trailerNames : List (List UInt8) := hop ++ ["host", "content-length", "authorization"].map Utf8.ascii

/-- The body of a request and its fields, of which the trailers come last. -/
def readRequest (r : ProxyRequest) (s : List UInt8) : Except Exc (List UInt8 × List Field) := do
  let read ← Relay.readBody r.headers s
  raiseIf (read.2.1.any fun f => lower f.1 ∈ trailerNames) (Exc.value "Invalid request trailer")
  return (read.1, r.headers ++ read.2.1)

/-- The request as it is recorded before anything is done with it. -/
def takeRequest (r : ProxyRequest) (cycle ts : String) : ProxyAct (List UInt8 × List Field) := do
  raiseIf (originForm r.path = false) (Exc.value "Origin-form target required")
  let stream ← arrive
  let taken ← Prog.ofExcept (readRequest r stream)
  record (.request cycle ts r.command.text r.path (loggedHeaders taken.2) taken.1.length (Base64.encode taken.1))
  return taken

end Request

section Forward

def excludedFields (headers : List Field) : List (List UInt8) :=
  connectionFields headers ++ ["host", "content-length", "expect"].map Utf8.ascii

/-- The fields of the request that is sent: `headers` are those of the request, `fields` those with the trailers. -/
def forwardedFields (netloc : List UInt8) (headers fields : List Field) (body : List UInt8) : List Field :=
  (Utf8.ascii "Host", netloc) :: (fields.filter fun f => lower f.1 ∉ excludedFields fields)
    ++ (if body ≠ [] ∨ contentLength headers ≠ [] ∨ (transferEncoding headers).headD [] ≠ [] then
        [(Utf8.ascii "Content-Length", decText body.length)] else [])
    ++ [(Utf8.ascii "Connection", Utf8.ascii "close")]

/-- The exchange with the origin, and the record of its answer. -/
def passOn (server : ProxyServer) (r : ProxyRequest) (cycle : String) (body : List UInt8) (fields : List Field) :
    ProxyAct (ProxyResponse × ProxyRecord) := do
  reach
  let head ← Prog.ofExcept (Http.requestHead r.command.text r.path (forwardedFields server.netloc r.headers fields body))
  emit (.contacted cycle (head ++ body))
  let response ← exchange (head ++ body)
  emit (.received cycle response)
  let ts ← now
  let ms ← elapsed
  return (response, .response cycle ts "TradingBox" r.command.text r.path response.status response.reason
    (loggedHeaders response.headers) ms response.body.length (Base64.encode response.body))

/-- `', '.join`. -/
def joined : List (List UInt8) → List UInt8
  | [] => []
  | [text] => text
  | text :: rest => text ++ 44 :: 32 :: joined rest

/-- `getheader`. -/
def getHeader (name : String) (headers : List Field) : Option (List UInt8) :=
  match getAll name headers with
  | [] => none
  | values => some (joined values)

def answerLength (command : Command) (response : ProxyResponse) : Option (List UInt8) :=
  if command = .head ∨ response.status = 304 then getHeader "Content-Length" response.headers
  else if response.status = 204 then none else some (decText response.body.length)

/-- The answer that is sent back. -/
def answerOf (command : Command) (response : ProxyResponse) : ProxyAnswer where
  status := response.status
  reason := response.reason
  headers := (response.headers.filter fun f => lower f.1 ∉ connectionFields response.headers ++ [Utf8.ascii "content-length"])
    ++ ((answerLength command response).map fun text => (Utf8.ascii "Content-Length", text)).toList
    ++ [(Utf8.ascii "Connection", Utf8.ascii "close")]
  body := if command = .head then [] else response.body

def passBack (cycle : String) (command : Command) (response : ProxyResponse) : ProxyAct Unit := do
  emit (.answered cycle (answerOf command response))
  write (answerOf command response).head
  write (answerOf command response).body

def deliveryFailed (cycle : String) : ProxyAct Unit := do
  let ts ← now
  record (.delivery cycle ts "Quantower connection closed before reply completed")

/-- An intermediary failure, which is never made out to be an answer of the origin. -/
def unavailable (cycle : String) (e : Exc) : ProxyAct Unit := do
  let ts ← now
  let ms ← elapsed
  rescue (record (.failure cycle ts e.name ms)) isOsError fun _ => pure ()
  refuse cycle 502 "Upstream exchange unavailable"

/-- What follows once the origin has answered. -/
def conclude (cycle : String) (command : Command) (response : ProxyResponse) (x : ProxyRecord) : ProxyAct Unit := do
  rescue (record x) isOsError fun _ => pure ()
  rescue (passBack cycle command response) isOsError fun _ => deliveryFailed cycle

def forwardRequest (server : ProxyServer) (r : ProxyRequest) (cycle : String) (body : List UInt8) (fields : List Field) : ProxyAct Unit := do
  let passed ← rescue (some <$> passOn server r cycle body fields) isExchangeError fun e => do
    unavailable cycle e
    return none
  match passed with
  | none => pure ()
  | some (response, x) => conclude cycle r.command response x

end Forward

section Local

/-- `urlsplit(self.path).path`, of a target that begins with one slash. -/
def pathOf (target : List UInt8) : List UInt8 := (target.takeWhile (· ≠ 35)).takeWhile (· ≠ 63)

def localReplyBase : List (String × Json) := [("origin", .str "x.0.1"), ("forwarded_to_tradingbox", .bool false)]

def updated (reply update : List (String × Json)) : List (String × Json) := update.foldl (fun o f => Rows.setItem f o) reply

/-- The status and the fields of an answer without TradingBox. -/
def localOutcome (r : ProxyRequest) (cycle : String) (body : List UInt8) : ProxyAct (Nat × List (String × Json)) :=
  if r.command = .get ∧ pathOf r.path = Utf8.ascii "/api/hcamm/commands" then
    return (200, updated localReplyBase [("commands", .arr []), ("verdicts", .arr [])])
  else if r.command = .post ∧ pathOf r.path = Utf8.ascii "/api/hcamm/events" then
    if 1024 * 1024 < body.length then
      return (413, updated localReplyBase [("error", .str "Signal batch exceeds local receiver size limit")])
    else do
      emit (.delivered cycle body)
      let answer ← loopback body
      return (answer.1, updated localReplyBase answer.2)
  else return (404, updated localReplyBase [("error", .str "No local receiver for this method/path; TradingBox forwarding is disabled")])

def localFields (encoded : List UInt8) : List Field :=
  [(Utf8.ascii "Content-Type", Utf8.ascii "application/json"), (Utf8.ascii "Content-Length", decText encoded.length)]

def localAnswer (outcome : Nat × List (String × Json)) (reason : List UInt8) : ProxyAnswer :=
  let encoded := Utf8.ascii (String.ofList (Json.obj outcome.2).compact)
  ⟨outcome.1, reason, localFields encoded ++ [(Utf8.ascii "Connection", Utf8.ascii "close")], encoded⟩

/-- The answer without TradingBox, once its content is known. -/
def sendLocal (r : ProxyRequest) (cycle : String) (outcome : Nat × List (String × Json)) : ProxyAct Unit := do
  let reason ← phrase outcome.1
  let ts ← now
  let ms ← elapsed
  rescue (record (.response cycle ts "x.0.1" r.command.text r.path outcome.1 reason (localFields (localAnswer outcome reason).body) ms
    (localAnswer outcome reason).body.length (Base64.encode (localAnswer outcome reason).body))) isOsError fun _ => pure ()
  emit (.answered cycle (localAnswer outcome reason))
  write (localAnswer outcome reason).head
  rescue (write (localAnswer outcome reason).body) isOsError fun _ => pure ()

def localReply (r : ProxyRequest) (cycle : String) (body : List UInt8) : ProxyAct Unit := do
  let outcome ← rescue (localOutcome r cycle body) (fun e => isExchangeError e || e.isValueError) fun _ =>
    pure (503, updated localReplyBase [("error", .str "Local signal receiver unavailable; no TradingBox forwarding")])
  sendLocal r cycle outcome

end Local

/-- `_handle`. -/
def handle (server : ProxyServer) (r : ProxyRequest) : ProxyAct Unit := do
  let cycle ← uuid
  let ts ← now
  let taken ← rescue (some <$> takeRequest r cycle ts) (fun e => e.isValueError || isOsError e) fun e => do
    refuse cycle (if e.isValueError then 400 else 503) "Request could not be recorded"
    return none
  match taken with
  | none => pure ()
  | some (body, fields) => if server.forward then forwardRequest server r cycle body fields else localReply r cycle body

end Proxy

end MatchTrader
