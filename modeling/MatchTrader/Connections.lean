import Mathlib.Data.Multiset.AddSub
import Mathlib.Logic.Relation
import MatchTrader.RestConnection

/-! The registry of shared connections: one for each identity, counted by the leases of those who
acquired it, and shut down with the last of them. -/

namespace MatchTrader

inductive TlsVersion where
  | v12
  | v13
deriving DecidableEq

/-- The settings of a session. Two of them are equal when all of their fields are. -/
structure ConnectionSettings where
  platformUrl : String
  email : String := ""
  password : String := ""
  brokerId : String := ""
  accountId : String := ""
  tradingUrl : String := ""
  systemUuid : String := ""
  cookieMode : CookieMode := .session
  sessionRenewal : Renewal := .refresh
  tlsMinimumVersion : TlsVersion := .v13
  timeoutSeconds : ℚ := 20
  requestsPerMinute : Nat := 450
  enableWrites : Bool := false
  wsUrl : String := ""
  wsSubprotocol : String := ""
  wsHeadersJson : String := "\x7b\x7d"
  wsPingInterval : ℚ := 20
  wsMaxSize : Nat := 1048576
  requestsPerMinute_mem : 1 ≤ requestsPerMinute ∧ requestsPerMinute ≤ 500 := by decide
deriving DecidableEq

inductive ConnectionClass where
  | rest
  | webSocket
deriving DecidableEq

structure Identity where
  cls : ConnectionClass
  platformUrl : String
  brokerId : String
  email : String
  accountId : String
deriving DecidableEq

def ConnectionClass.identity (cls : ConnectionClass) (settings : ConnectionSettings) : Identity :=
  ⟨cls, settings.platformUrl, settings.brokerId, settings.email, settings.accountId⟩

structure BaseConnection where
  cls : ConnectionClass
  settings : ConnectionSettings
  closed : Bool := false
  leases : Int := 1
  registryKey : Identity := cls.identity settings
  /-- How often `_shutdown` has run. -/
  shutdowns : Nat := 0
deriving DecidableEq

/-- `BaseConnection.__init__`, as `acquire` calls it. -/
def BaseConnection.init (cls : ConnectionClass) (settings : ConnectionSettings) : BaseConnection := { cls, settings }

/-- Every connection that was ever made, in the order of their making, and `_registry`, which has some of them. -/
structure Registry where
  connections : List BaseConnection := []
  registry : List (Identity × Nat) := []

namespace Registry

/-- The constructor of a class: `outcome` is what becomes of the rest of it. -/
def construct (cls : ConnectionClass) (settings : ConnectionSettings) (outcome : Except Exc Unit) :
    Except Exc BaseConnection := do
  raiseIf (cls = .webSocket ∧ settings.wsUrl = "")
    (Exc.configuration "Set the broker-confirmed WS_URL and protocol settings first")
  outcome
  return .init cls settings

def existing? (r : Registry) (key : Identity) : Option (Nat × BaseConnection) :=
  (Rows.lookup Prod.fst key r.registry).bind fun entry => (r.connections[entry.2]?).map fun c => (entry.2, c)

/-- `cls.acquire(settings, **kwargs)`: the connection that is returned, by its place. -/
def acquire (r : Registry) (cls : ConnectionClass) (settings : ConnectionSettings) (kwargs : Bool)
    (outcome : Except Exc Unit) : Except Exc Nat × Registry :=
  match r.existing? (cls.identity settings) with
  | some (i, existing) =>
    if existing.settings ≠ settings then
      (.error (Exc.configuration "Close this account's connection before changing its settings"), r)
    else if kwargs then (.error (Exc.configuration "Cannot replace dependencies of an active singleton"), r)
    else (.ok i, { r with connections := r.connections.set i { existing with leases := existing.leases + 1 } })
  | none =>
    match construct cls settings outcome with
    | .error e => (.error e, r)
    | .ok instance_ =>
      (.ok r.connections.length,
        { connections := r.connections ++ [instance_]
          registry := Rows.setItem (cls.identity settings, r.connections.length) r.registry })

/-- `release()` of a connection, where `shutdown` is what becomes of its `_shutdown`. -/
def release (r : Registry) (i : Nat) (shutdown : Except Exc Unit) : Except Exc Unit × Registry :=
  match r.connections[i]? with
  | none => (.ok (), r)
  | some c =>
    if c.closed then (.ok (), r)
    else
      let c := { c with leases := c.leases - 1 }
      if c.leases = 0 then
        (shutdown,
          { connections := r.connections.set i { c with closed := true, shutdowns := c.shutdowns + 1 }
            registry := r.registry.filter fun entry => entry.1 ≠ c.registryKey })
      else (.ok (), { r with connections := r.connections.set i c })

end Registry

/-- The facade of one owner. -/
structure MatchTraderAPI where
  settings : ConnectionSettings
  connection : Nat
  closed : Bool := false
  stream : Option Nat := none
  /-- `close` has let go of the stream, and comes to the connection next. -/
  closing : Bool := false

/-- The leases that an owner has yet to release. -/
def MatchTraderAPI.holds (api : MatchTraderAPI) : List Nat :=
  if ¬ api.closed then api.connection :: api.stream.toList
  else if api.closing then [api.connection] else []

/-- Who shares the connections of a process: the registry, the leases that others hold directly, one for each time they acquired,
and the API's owners. -/
structure Sharing where
  registry : Registry := {}
  held : Multiset Nat := 0
  owners : List MatchTraderAPI := []

namespace Sharing

def acquire (p : Sharing) (cls : ConnectionClass) (settings : ConnectionSettings) (kwargs : Bool) (outcome : Except Exc Unit) :
    Sharing :=
  match p.registry.acquire cls settings kwargs outcome with
  | (.ok i, r) => { p with registry := r, held := i ::ₘ p.held }
  | (.error _, r) => { p with registry := r }

/-- `MatchTraderAPI(settings, transport=…)`. -/
def openApi (p : Sharing) (settings : ConnectionSettings) (transport : Bool) (outcome : Except Exc Unit) : Sharing :=
  match p.registry.acquire .rest settings transport outcome with
  | (.ok i, r) => { p with registry := r, owners := p.owners ++ [{ settings, connection := i }] }
  | (.error _, r) => { p with registry := r }

/-- `websocket()`. -/
def webSocket (p : Sharing) (k : Nat) (outcome : Except Exc Unit) : Except Exc Nat × Sharing :=
  match p.owners[k]? with
  | none => (.error (Exc.named "IndexError" ""), p)
  | some api =>
    if api.closed then (.error (Exc.named "ConnectionClosedError" "API owner is closed"), p)
    else
      match api.stream with
      | some i => (.ok i, p)
      | none =>
        match p.registry.acquire .webSocket api.settings false outcome with
        | (.ok i, r) => (.ok i, { p with registry := r, owners := p.owners.set k { api with stream := some i } })
        | (.error e, r) => (.error e, { p with registry := r })

/-- The first half of `close()`, which lets go of the stream. -/
def closeStream (p : Sharing) (k : Nat) (shutdown : Except Exc Unit) : Sharing :=
  match p.owners[k]? with
  | none => p
  | some api =>
    if api.closed then p
    else
      let owners := p.owners.set k { api with closed := true, closing := true }
      match api.stream with
      | none => { p with owners }
      | some i => { p with registry := (p.registry.release i shutdown).2, owners }

/-- The second half, which runs whatever became of the first. -/
def closeConnection (p : Sharing) (k : Nat) (shutdown : Except Exc Unit) : Sharing :=
  match p.owners[k]? with
  | none => p
  | some api =>
    if api.closed ∧ api.closing then
      { p with registry := (p.registry.release api.connection shutdown).2
               owners := p.owners.set k { api with closing := false } }
    else p

/-- What may happen next, in any order. A direct holder releases what it holds, once for each time it acquired. -/
inductive Step : Sharing → Sharing → Prop
  | acquire {p : Sharing} (cls : ConnectionClass) (settings : ConnectionSettings) (kwargs : Bool) (outcome : Except Exc Unit) :
    Step p (p.acquire cls settings kwargs outcome)
  | release {p : Sharing} {i : Nat} (h : i ∈ p.held) (shutdown : Except Exc Unit) :
    Step p { p with registry := (p.registry.release i shutdown).2, held := p.held.erase i }
  | openApi {p : Sharing} (settings : ConnectionSettings) (transport : Bool) (outcome : Except Exc Unit) :
    Step p (p.openApi settings transport outcome)
  | webSocket {p : Sharing} (k : Nat) (outcome : Except Exc Unit) : Step p (p.webSocket k outcome).2
  | closeStream {p : Sharing} (k : Nat) (shutdown : Except Exc Unit) : Step p (p.closeStream k shutdown)
  | closeConnection {p : Sharing} (k : Nat) (shutdown : Except Exc Unit) : Step p (p.closeConnection k shutdown)

def Reachable (p : Sharing) : Prop := Relation.ReflTransGen Step {} p

/-- The leases on a connection that were acquired and not released. -/
def outstanding (p : Sharing) (i : Nat) : Nat := p.held.count i + (p.owners.flatMap MatchTraderAPI.holds).count i

end Sharing

end MatchTrader
