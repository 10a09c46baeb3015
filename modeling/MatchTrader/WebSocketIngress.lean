import MatchTrader.Controller

/-! The WebSocket ingress. Clients' events are admitted into a bounded queue; one worker has the
controller receive them, one after the other, and each client's writer sends what it is offered. What
stands between two awaits is one action. -/

namespace MatchTrader

open Durable

inductive Frame where
  | ready (maxInflight : Nat) (captureRunning : Bool)
  | ack (result : NativeResult)
  | nack (code : String) (eventId : Option String)

/-- `message.get('event_id')`, empty where there is none. -/
def Frame.eventId : Frame → String
  | ready .. => ""
  | ack r => r.eventId
  | nack _ i => i.getD ""

/-- A connection that said hello. -/
structure CaptureClient where
  machine : String
  /-- What waits for the writer; a final answer releases its event's place. -/
  out : List (Frame × Bool) := []
  sending : Option (Frame × Bool) := none
  /-- Whether the writer runs. -/
  writing : Bool := true
  inflight : List String := []
  closed : Bool := false
  /-- Whether the connection is still handled. -/
  connected : Bool := true

structure CaptureJob where
  event : CaptureEvent
  waiters : List Nat
  generation : Nat

def CaptureJob.key (job : CaptureJob) : String × String := (job.event.machine, job.event.eventId)

inductive IngressWorker where
  | idle
  | processing (job : Nat)
  | returned (job : Nat) (result : Except Exc NativeResult)
  | ended

def IngressWorker.job? : IngressWorker → Option Nat
  | processing j | returned j _ => some j
  | idle | ended => none

inductive IngressNote where
  /-- The controller was called, and what it made of the world. -/
  | called (job : Nat) (before after : World) (result : Except Exc NativeResult)
  /-- A job ended, with the open clients that waited on it. -/
  | ended (job : Nat) (waiting : List Nat)
  /-- An open client was offered the final answer; it is closed when it has no room. -/
  | offered (job client : Nat) (answer : Frame) (room : Bool)

structure CaptureWebSocketServer where
  queueLimit : Nat
  maxInflight : Nat
  /-- The controller, its stores and the broker. -/
  world : World
  accepting : Bool := true
  stopEvent : Bool := false
  clients : List CaptureClient := []
  /-- Every job that was ever made; the queue and the pending table refer to them. -/
  made : List CaptureJob := []
  jobs : List Nat := []
  /-- Whether the end of the queue is marked. -/
  sentinel : Bool := false
  pending : List ((String × String) × Nat) := []
  worker : IngressWorker := .idle
  notes : List IngressNote := []

def CaptureClient.offer (message : Frame) (release : Bool) (client : CaptureClient) : CaptureClient :=
  if client.closed then client
  else if client.out.length < 64 then { client with out := client.out ++ [(message, release)] }
  else { client with closed := true }

/-- The writer's message is sent. -/
def CaptureClient.sent (client : CaptureClient) : CaptureClient :=
  match client.sending with
  | none => client
  | some (message, release) => { client with
      sending := none
      inflight := if message.eventId ≠ "" ∧ release then client.inflight.filter fun i => i ≠ message.eventId
        else client.inflight }

namespace CaptureWebSocketServer

variable (s : CaptureWebSocketServer)

def client? (c : Nat) : Option CaptureClient := s.clients[c]?

def isOpen (c : Nat) : Bool := (s.client? c).any fun client => !client.closed

/-- The pending job of a key. -/
def pendingJob? (key : String × String) : Option (Nat × CaptureJob) := do
  let (_, j) ← s.pending.find? fun p => p.1 = key
  let job ← s.made[j]?
  return (j, job)

def full : Bool := s.queueLimit ≤ s.jobs.length + s.sentinel.toNat

def offer (c : Nat) (message : Frame) (release : Bool) : CaptureWebSocketServer :=
  { s with clients := s.clients.modify c (CaptureClient.offer message release) }

def reject (c : Nat) (code : String) (identity : Option String) : CaptureWebSocketServer :=
  s.offer c (.nack code identity) false

/-- Why an event is not admitted. -/
def refusal (client : CaptureClient) (event : CaptureEvent) : Option String :=
  if !s.accepting ∨ !s.world.mem.running then some "capture_stopped"
  else if s.maxInflight ≤ client.inflight.length ∧ event.eventId ∉ client.inflight then some "busy"
  else
    match s.pendingJob? (event.machine, event.eventId) with
    | some (_, job) => if !job.event.same event then some "identity_conflict" else none
    | none => if s.full then some "busy" else none

/-- The event takes its place with the client. -/
def hold (c : Nat) (event : CaptureEvent) : CaptureWebSocketServer :=
  { s with clients := s.clients.modify c fun client => { client with inflight := client.inflight.insert event.eventId } }

/-- One more client waits on a job. -/
def join (j c : Nat) : CaptureWebSocketServer :=
  { s with made := s.made.modify j fun job =>
      if c ∈ job.waiters then job else { job with waiters := job.waiters.filter s.isOpen ++ [c] } }

def enqueue (c : Nat) (event : CaptureEvent) : CaptureWebSocketServer :=
  { s with
    made := s.made ++ [⟨event, [c], s.world.mem.captureGeneration⟩]
    pending := s.pending ++ [((event.machine, event.eventId), s.made.length)]
    jobs := s.jobs ++ [s.made.length] }

def receiveEvent (c : Nat) (client : CaptureClient) (event : CaptureEvent) : CaptureWebSocketServer :=
  match s.refusal client event with
  | some code => s.reject c code (some event.eventId)
  | none =>
    match s.pendingJob? (event.machine, event.eventId) with
    | some (j, _) => (s.join j c).hold c event
    | none => (s.enqueue c event).hold c event

def response (event : CaptureEvent) : Except Exc NativeResult → Frame
  | .ok r => .ack r
  | .error e =>
    if e.isValueError then
      .nack (if e.message = "Capture is stopped" then "capture_stopped" else "identity_conflict") (some event.eventId)
    else .nack "busy" (some event.eventId)

/-- Offer a final answer to one waiter. -/
def answer (j : Nat) (message : Frame) (s : CaptureWebSocketServer) (c : Nat) : CaptureWebSocketServer :=
  match s.client? c with
  | none => s
  | some client =>
    if client.closed then s
    else { s.offer c message true with notes := s.notes ++ [.offered j c message (client.out.length < 64)] }

/-- A job ends: it is pending no more. -/
def retire (j : Nat) (job : CaptureJob) : CaptureWebSocketServer :=
  { s with
    pending := s.pending.filter fun p => p.1 ≠ job.key
    worker := .idle
    notes := s.notes ++ [.ended j (job.waiters.filter s.isOpen)] }

/-- A job ends, and its waiters are answered. -/
def conclude (j : Nat) (job : CaptureJob) (message : Frame) : CaptureWebSocketServer :=
  job.waiters.foldl (answer j message) (s.retire j job)

end CaptureWebSocketServer

inductive IngressAction where
  | connect (machine : String)
  | receive (c : Nat) (event : CaptureEvent)
  /-- A message is no event of the protocol. -/
  | fault (c : Nat) (code : String) (identity : Option String)
  | write (c : Nat)
  | sent (c : Nat)
  | writeFails (c : Nat)
  | disconnect (c : Nat)
  | take
  /-- The worker's thread has the controller receive the event. -/
  | call (env : Nat → (q : Query) → Reply q)
  | finish
  | stop
  | shutdown
  | mark
  /-- The rest of the program does something. -/
  | elsewhere (w : World)

namespace CaptureWebSocketServer

variable [Host]

def connect (s : CaptureWebSocketServer) (machine : String) : Option CaptureWebSocketServer :=
  if (s.clients.filter CaptureClient.connected).length < 8 ∧ ∀ client ∈ s.clients, client.connected → client.machine ≠ machine then
    some { s with clients := s.clients ++ [{ machine, out := [(.ready s.maxInflight s.world.mem.running, false)] }] }
  else none

/-- The worker takes the next job; after the stop it answers it at once. -/
def take (s : CaptureWebSocketServer) : Option CaptureWebSocketServer :=
  match s.worker, s.jobs with
  | .idle, j :: rest =>
    match s.made[j]? with
    | none => none
    | some job =>
      if s.stopEvent then
        some ({ s with jobs := rest }.conclude j job (.nack "capture_stopped" (some job.event.eventId)))
      else some { s with jobs := rest, worker := .processing j }
  | .idle, [] => if s.sentinel then some { s with sentinel := false, worker := .ended } else none
  | _, _ => none

def call (s : CaptureWebSocketServer) (env : Nat → (q : Query) → Reply q) : Option CaptureWebSocketServer :=
  match s.worker with
  | .processing j =>
    match s.made[j]? with
    | none => none
    | some job =>
      let (after, result) := (Controller.receiveNative job.event (some job.generation)).eval env s.world
      some { s with
        world := after, worker := .returned j result, notes := s.notes ++ [.called j s.world after result] }
  | _ => none

def finish (s : CaptureWebSocketServer) : Option CaptureWebSocketServer :=
  match s.worker with
  | .returned j result =>
    match s.made[j]? with
    | none => none
    | some job => some (s.conclude j job (response job.event result))
  | _ => none

/-- The state after an action that can happen. -/
def step (s : CaptureWebSocketServer) : IngressAction → Option CaptureWebSocketServer
  | .connect machine => s.connect machine
  | .receive c event =>
    match s.client? c with
    | some client => if client.connected ∧ event.machine = client.machine then some (s.receiveEvent c client event) else none
    | none => none
  | .fault c code identity => if (s.client? c).any CaptureClient.connected then some (s.reject c code identity) else none
  | .write c =>
    match s.client? c with
    | some client =>
      match client.out with
      | message :: rest =>
        if client.writing ∧ client.sending.isNone then
          some { s with clients := s.clients.modify c fun client => { client with out := rest, sending := some message } }
        else none
      | [] => none
    | none => none
  | .sent c => some { s with clients := s.clients.modify c CaptureClient.sent }
  | .writeFails c => some { s with clients := s.clients.modify c fun client => { client with sending := none, writing := false } }
  | .disconnect c => some { s with
      clients := s.clients.modify c fun client =>
        { client with sending := none, writing := false, closed := true, connected := false } }
  | .take => s.take
  | .call env => s.call env
  | .finish => s.finish
  | .stop => some { s with stopEvent := true }
  | .shutdown => if s.stopEvent then some { s with accepting := false } else none
  | .mark => if !s.accepting ∧ !s.full then some { s with sentinel := true } else none
  | .elsewhere w => some { s with world := w }

def run (s : CaptureWebSocketServer) : List IngressAction → Option CaptureWebSocketServer
  | [] => some s
  | a :: rest => s.step a >>= fun t => t.run rest

end CaptureWebSocketServer

end MatchTrader
