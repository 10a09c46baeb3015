import Mathlib.Algebra.Order.Field.Rat
import MatchTrader.Connections

/-! The pacing of requests: the sessions of one origin share a limiter, which the registry of limiters
forgets once no session refers to it. Times are seconds of the monotonic clock. -/

namespace MatchTrader

structure RateLimiter where
  interval : ℚ
  nextTime : ℚ := 0

namespace RateLimiter

/-- The seconds of a minute for each request. -/
def share (perMinute : Nat) : ℚ := 60 / perMinute

/-- `RateLimiter(per_minute)`. -/
def init (perMinute : Nat) : RateLimiter := { interval := share perMinute }

def raised (l : RateLimiter) (perMinute : Nat) : RateLimiter := { l with interval := max l.interval (share perMinute) }

/-- How long `wait` sleeps, when the clock shows `now`. -/
def delay (l : RateLimiter) (now : ℚ) : ℚ := max 0 (l.nextTime - now)

/-- What `wait` leaves, when the clock shows `later` after the sleep. -/
def wait (l : RateLimiter) (later : ℚ) : RateLimiter := { l with nextTime := max later l.nextTime + l.interval }

end RateLimiter

/-- A connection's own reference to its limiter, for as long as the connection's object lives. -/
structure PacedSession where
  connection : Nat
  origin : String
  limiter : Nat

/-- A permit, with the rates of the connections that were open to its origin when it was granted. -/
structure Permit where
  origin : String
  time : ℚ
  rates : List Nat

/-- The limiters by their addresses, `_shared`, and the objects that refer to them. -/
structure Pacing where
  registry : Registry := {}
  clock : ℚ := 0
  limiters : Nat → RateLimiter := fun _ => { interval := 0 }
  made : Nat := 0
  shared : String → Option Nat := fun _ => none
  sessions : List PacedSession := []
  permits : List Permit := []

namespace Pacing

/-- `RateLimiter.for_origin(origin, per_minute)`: the limiter's address. -/
def forOrigin (s : Pacing) (origin : String) (perMinute : Nat) : Nat × Pacing :=
  match s.shared origin with
  | none =>
    (s.made, { s with limiters := Function.update s.limiters s.made (.init perMinute)
                      made := s.made + 1
                      shared := Function.update s.shared origin (some s.made) })
  | some a => (a, { s with limiters := Function.update s.limiters a ((s.limiters a).raised perMinute) })

/-- `RestConnection.acquire`, whose constructor takes its limiter once nothing can raise any more. -/
def acquire (s : Pacing) (settings : ConnectionSettings) (kwargs : Bool) (outcome : Except Exc Unit) : Pacing :=
  match s.registry.acquire .rest settings kwargs outcome with
  | (.error _, r) => { s with registry := r }
  | (.ok i, r) =>
    if i < s.registry.connections.length then { s with registry := r }
    else
      let taken := s.forOrigin settings.platformUrl settings.requestsPerMinute
      { taken.2 with registry := r, sessions := s.sessions ++ [⟨i, settings.platformUrl, taken.1⟩] }

/-- The rates of the connections that are open to an origin. -/
def rates (s : Pacing) (origin : String) : List Nat :=
  (s.registry.connections.filter fun c => !c.closed && c.settings.platformUrl = origin).map fun c => c.settings.requestsPerMinute

inductive Event where
  | acquire (settings : ConnectionSettings) (kwargs : Bool) (outcome : Except Exc Unit)
  | release (i : Nat) (shutdown : Except Exc Unit)
  /-- Nothing refers to the object of a closed connection any more. -/
  | free (x : PacedSession)
  /-- A limiter to which no object refers leaves the registry of limiters. -/
  | collect (origin : String)
  /-- A session waits: the clock shows `now` before the sleep and `later` after it. -/
  | wait (x : PacedSession) (now later : ℚ)
  | tick (later : ℚ)

/-- A whole `wait` stands where its permit is granted: the limiter's lock is held from the first
reading of the clock on, and keeps other waits and the raising of the interval out. -/
inductive Step : Pacing → Event → Pacing → Prop
  | acquire {s : Pacing} (settings : ConnectionSettings) (kwargs : Bool) (outcome : Except Exc Unit) :
    Step s (.acquire settings kwargs outcome) (s.acquire settings kwargs outcome)
  | release {s : Pacing} (i : Nat) (shutdown : Except Exc Unit) :
    Step s (.release i shutdown) { s with registry := (s.registry.release i shutdown).2 }
  | free {s : Pacing} {x : PacedSession} {c : BaseConnection} (hc : s.registry.connections[x.connection]? = some c)
      (hclosed : c.closed = true) :
    Step s (.free x) { s with sessions := s.sessions.filter fun y => y.connection ≠ x.connection }
  | collect {s : Pacing} {origin : String} (h : ∀ x ∈ s.sessions, s.shared origin ≠ some x.limiter) :
    Step s (.collect origin) { s with shared := Function.update s.shared origin none }
  | wait {s : Pacing} {x : PacedSession} {now later : ℚ} (hx : x ∈ s.sessions) (hnow : now ≤ later) (hclock : s.clock ≤ later)
      (hsleep : now + (s.limiters x.limiter).delay now ≤ later) :
    Step s (.wait x now later)
      { s with clock := later
               limiters := Function.update s.limiters x.limiter ((s.limiters x.limiter).wait later)
               permits := s.permits ++ [⟨x.origin, later, s.rates x.origin⟩] }
  | tick {s : Pacing} {later : ℚ} (h : s.clock ≤ later) : Step s (.tick later) { s with clock := later }

def permitsOf (s : Pacing) (origin : String) : List Permit := s.permits.filter fun p => p.origin = origin

/-- Each permit comes a minute's share after the one before it, by any rate that was open then. -/
def Spaced (permits : List Permit) : Prop :=
  permits.IsChain fun p q => ∀ r ∈ p.rates, RateLimiter.share r ≤ q.time - p.time

/-- An origin whose limiter is gone is not opened again before the pause after its last permit is over. -/
def Timely (s : Pacing) : Event → Prop
  | .acquire settings _ outcome => outcome = .ok () → s.shared settings.platformUrl = none →
    ∀ p, (s.permitsOf settings.platformUrl).getLast? = some p → ∀ r ∈ p.rates, p.time + RateLimiter.share r ≤ s.clock
  | _ => True

end Pacing

end MatchTrader
