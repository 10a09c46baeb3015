import MatchTrader.RelayStore

/-! The forwarder to TradingBox: the checks of its addresses, its controls, and the sections of a
received request that hold its lock. -/

namespace MatchTrader

structure SplitUrl where
  scheme : String
  netloc : String
  path : String
  fragment : String
  hostname : Option String
  /-- Reading the port may raise. -/
  port : Except Exc (Option Nat)
  username : Option String
  password : Option String

/-- What the interpreter's library makes of an address. -/
class WebHost where
  urlsplit : String → Except Exc SplitUrl
  unquote : String → String

section Addresses

variable [WebHost]

def isControl (c : Char) : Bool := c.toNat ≤ 32 || c.toNat = 127

def given (s : Option String) : Bool := s.any fun t => t ≠ ""

/-- Any https destination that the operator names, without credentials. -/
def validateUrl (value : String) : Except Exc String := do
  let url ← WebHost.urlsplit value
  raiseIf (value.toList.any isControl)
    (Exc.value "Forwarding URL must have a valid port and no whitespace or control characters")
  let port ← url.port
  raiseIf (port = some 0)
    (Exc.value "Forwarding URL must have a valid port and no whitespace or control characters")
  raiseIf (url.scheme ≠ "https" ∨ !given url.hostname)
    (Exc.value "Forwarding destination must be an https URL, for example https://example.com/api/hcamm/events")
  raiseIf (given url.username ∨ given url.password)
    (Exc.value "Put credentials in a header, not in the forwarding URL")
  raiseIf (url.fragment ≠ "") (Exc.value "A forwarding destination cannot carry a URL fragment")
  return value

def dotted (path : List Char) : Bool := (path.splitOn '/').any fun part => part = ['.'] || part = ['.', '.']

def validateTarget (target : String) : Except Exc String := do
  let parsed ← WebHost.urlsplit target
  let decoded := WebHost.unquote parsed.path
  raiseIf (¬ hasPrefix target "/api/hcamm/" ∨ parsed.scheme ≠ "" ∨ parsed.netloc ≠ "" ∨ parsed.fragment ≠ ""
      ∨ (target.toList.any fun c => c.toNat < 33 || 126 < c.toNat) ∨ ¬ hasPrefix decoded "/api/hcamm/"
      ∨ '\\' ∈ decoded.toList ∨ dotted decoded.toList)
    (Exc.value "Expected an origin-form /api/hcamm/ request target")
  return target

end Addresses

def maxRequest : Nat := 1024 * 1024

def methods : List String := ["GET", "HEAD", "POST", "PUT", "PATCH", "DELETE", "OPTIONS"]

/-- A request of the sender, as it is passed on. -/
structure Forwarded where
  method : String
  target : String
  headers : List (String × String)
  body : List UInt8
deriving DecidableEq

/-- The controls as they stood when a request came in. -/
structure Ticket where
  generation : Nat
  enabled : Bool
  live : Bool
deriving DecidableEq

/-- The last upstream outcome; an uncertain one has no status. -/
structure Upstream where
  cycleId : String
  upstreamStatus : Option Int
  responseLogFailed : Bool := false
deriving DecidableEq

structure TradingBoxForwarder where
  apiKey : String
  authHeader : String
  url : String := ""
  enabled : Bool := false
  live : Bool := false
  generation : Nat := 0
  inFlight : Nat := 0
  sent : Nat := 0
  failed : Nat := 0
  previewed : Nat := 0
  lastResult : Option Upstream := none
deriving DecidableEq

namespace TradingBoxForwarder

variable [WebHost]

/-- An address that may be left out. -/
def optionalUrl (url : String) : Except Exc String := if url = "" then .ok "" else validateUrl url

/-- `__init__`, over the address that was saved. -/
def start [Host] (apiKey authHeader : String) (saved : Option String) : Except Exc TradingBoxForwarder := do
  raiseIf (Host.lower authHeader ∉ ["x-hcamm-key", "x-api-key", "authorization"])
    (Exc.value "Unsupported TradingBox authentication header")
  raiseIf (apiKey.toList.any fun c => c.toNat < 32 || 126 < c.toNat)
    (Exc.value "TradingBox key must be a single-line ASCII header value")
  let url ← optionalUrl (saved.getD "")
  return { apiKey, authHeader, url }

def bool? : Json → Option Bool
  | .bool b => some b
  | _ => none

/-- The address of new controls; none turns it off. -/
def urlField (value : Json) : Except Exc String :=
  match value.get? "url" with
  | some (.str url) => optionalUrl url
  | some other => if other.truthy then .error ⟨.other, "AttributeError", "no attribute 'decode'", none⟩ else .ok ""
  | none => .ok ""

/-- New controls. The address is written to its file before it takes effect; `fileFails` says
whether that goes wrong. -/
def configure (f : TradingBoxForwarder) (value : Json) (fileFails : Bool) : Except Exc TradingBoxForwarder := do
  raiseIf (¬ (Envelope.keys value).any fun names =>
      names.all ["url", "enabled", "live"].contains ∧ ["url", "enabled", "live"].all names.contains)
    (Exc.value "Provide URL, forwarding and live flags")
  match (value.get? "enabled").bind bool?, (value.get? "live").bind bool? with
  | some enabled, some live =>
    let url ← urlField value
    raiseIf (enabled ∧ url = "") (Exc.value "Configure the TradingBox URL first")
    raiseIf (live ∧ (¬ enabled ∨ f.apiKey = ""))
      (Exc.value "Live requires forwarding enabled and TB_FORWARD_API_KEY configured")
    if url ≠ f.url then
      raiseIf (f.enabled ∨ f.inFlight ≠ 0)
        (Exc.value "Turn forwarding off and wait for active requests before changing the URL")
      raiseIf fileFails ⟨.osError, "OSError", "", none⟩
    return { f with url, enabled, live, generation := f.generation + 1 }
  | _, _ => .error (.value "Forwarding flags must be booleans")

omit [WebHost] in
def ticket (f : TradingBoxForwarder) : Ticket := ⟨f.generation, f.enabled, f.live⟩

omit [WebHost] in
def close (f : TradingBoxForwarder) : TradingBoxForwarder :=
  { f with enabled := false, live := false, generation := f.generation + 1 }

/-- Where a request for a target goes. -/
def destination (url target : String) : Except Exc String := do
  let parsed ← WebHost.urlsplit url
  return "https://" ++ parsed.netloc ++ target

/-- What a request finds at the activation check. -/
inductive Check where
  | preview
  | active (url : String)
  /-- The address did not read; the request is counted all the same. -/
  | unreadable (e : Exc)

/-- The activation check. -/
def activate (f : TradingBoxForwarder) (t : Ticket) (target : String) : Check × TradingBoxForwarder :=
  if t = ⟨f.generation, true, true⟩ ∧ f.enabled ∧ f.live then
    (match destination f.url target with
      | .ok url => .active url
      | .error e => .unreadable e,
      { f with inFlight := f.inFlight + 1 })
  else (.preview, { f with previewed := f.previewed + 1 })

omit [WebHost] in
def answered (f : TradingBoxForwarder) (cycleId : String) (status : Int) : TradingBoxForwarder :=
  { f with sent := f.sent + 1, lastResult := some { cycleId, upstreamStatus := some status } }

omit [WebHost] in
def unanswered (f : TradingBoxForwarder) (cycleId : String) : TradingBoxForwarder :=
  { f with failed := f.failed + 1, lastResult := some { cycleId, upstreamStatus := none } }

omit [WebHost] in
/-- The upstream response of a request could not be recorded. -/
def unlogged (f : TradingBoxForwarder) (cycleId : String) (status : Int) : TradingBoxForwarder :=
  { f with lastResult := some { cycleId, upstreamStatus := some status, responseLogFailed := true } }

omit [WebHost] in
def complete (f : TradingBoxForwarder) : TradingBoxForwarder := { f with inFlight := f.inFlight - 1 }

end TradingBoxForwarder

section Sample

/-- Addresses of a host and a path, and bare paths. -/
@[reducible] def sampleWebHost : WebHost where
  urlsplit value :=
    if hasPrefix value "https://" then
      let rest := value.toList.drop 8
      .ok ⟨"https", String.ofList (rest.takeWhile (· ≠ '/')), String.ofList (rest.dropWhile (· ≠ '/')), "",
        some (String.ofList (rest.takeWhile (· ≠ '/'))), .ok none, none, none⟩
    else .ok ⟨"", "", value, "", none, .ok none, none, none⟩
  unquote path := path

end Sample

end MatchTrader
