import Mathlib.Data.List.Basic
import Mathlib.Data.List.Count
import Mathlib.Logic.Relation
import MatchTrader.Forwarder

/-! Any number of requests are received at a time while the controls change. A request is passed on
at most once, under the controls of its ticket, to the address in force when the ticket was taken. -/

namespace MatchTrader

/-- Where a received request stands. -/
inductive Phase where
  | called
  | recorded
  | previewed
  /-- Counted as in flight, with the address it goes to. -/
  | active (url : String)
  | sending
  | answered (status : Int) (reason : String)
  | lost
  | settled (status : Int) (reason : String) (answered : Bool)
  | leaving (status : Int) (reason : String)
  | finished (status : Int) (reason : String)
  /-- An exception left it before it was passed on. -/
  | aborted
deriving DecidableEq

namespace Phase

/-- Between activation and completion. -/
def inFlight : Phase → Bool
  | active _ | sending | answered .. | lost | settled .. | leaving .. => true
  | _ => false

def activated : Phase → Bool
  | finished .. => true
  | p => p.inFlight

def passedOn : Phase → Bool
  | active _ => false
  | p => p.activated

def completed : Phase → Bool
  | finished .. => true
  | _ => false

end Phase

structure Reception where
  ticket : Nat
  request : Forwarded
  cycleId : String
  phase : Phase
deriving DecidableEq

def Reception.enter (p : Phase) (r : Reception) : Reception := { r with phase := p }

/-- What is noted of a history. A ticket is noted with the address in force. -/
inductive Note where
  | ticketed (k : Nat) (t : Ticket) (url : String)
  | configured
  | closed
  | received (i k : Nat) (request : Forwarded)
  | recorded (i : Nat) (committed : Bool)
  | activated (i : Nat)
  | sent (i : Nat) (url : String) (request : Forwarded)
  | completed (i : Nat)
deriving DecidableEq

namespace Note

/-- The controls changed. -/
def control : Note → Bool
  | configured | closed => true
  | _ => false

def sends (i : Nat) : Note → Bool
  | sent j _ _ => j = i
  | _ => false

/-- The reception a note is about. -/
def about : Note → Option Nat
  | received i _ _ | recorded i _ | activated i | sent i _ _ | completed i => some i
  | _ => none

end Note

structure Forwarding where
  fwd : TradingBoxForwarder
  tickets : List Ticket := []
  receptions : List Reception := []
  notes : List Note := []
deriving DecidableEq

/-- One indivisible part of some caller's work: a section under the lock, a commit of a log record,
or a call upstream and its return. -/
inductive Section where
  | ticket
  | configure (value : Json) (fileFails : Bool)
  | close
  | receive (ticket : Nat) (request : Forwarded) (cycleId : String)
  | record (i : Nat) (fails : Bool)
  | activate (i : Nat)
  | send (i : Nat)
  | reply (i : Nat) (upstream : Option (Int × String))
  | settle (i : Nat)
  | recordReply (i : Nat) (fails : Bool)
  | complete (i : Nat)

namespace Forwarding

variable [WebHost]

omit [WebHost] in
def note (s : Forwarding) (n : Note) : Forwarding := { s with notes := s.notes ++ [n] }

omit [WebHost] in
def move (s : Forwarding) (i : Nat) (p : Phase) : Forwarding :=
  { s with receptions := s.receptions.modify i (Reception.enter p) }

/-- The checks of `receive` before anything is recorded. -/
def accepts (request : Forwarded) : Bool :=
  (validateTarget request.target).toOption.isSome && request.method ∈ methods
    && request.body.length ≤ maxRequest

/-- A section takes place. One that its caller has not come to does not. -/
def step (s : Forwarding) : Section → Option Forwarding
  | .ticket => some { s.note (.ticketed s.tickets.length s.fwd.ticket s.fwd.url) with
      tickets := s.tickets ++ [s.fwd.ticket] }
  | .configure value fileFails =>
    match s.fwd.configure value fileFails with
    | .ok f => some { s.note .configured with fwd := f }
    | .error _ => some s
  | .close => some { s.note .closed with fwd := s.fwd.close }
  | .receive k request cycleId =>
    if k < s.tickets.length then
      some { s.note (.received s.receptions.length k request) with
        receptions := s.receptions ++ [⟨k, request, cycleId, if accepts request then .called else .aborted⟩] }
    else none
  | .record i fails =>
    match s.receptions[i]? with
    | some ⟨_, _, _, .called⟩ => some ((s.note (.recorded i !fails)).move i (if fails then .aborted else .recorded))
    | _ => none
  | .activate i =>
    match s.receptions[i]? with
    | some ⟨k, request, _, .recorded⟩ =>
      match s.tickets[k]? with
      | some t =>
        match s.fwd.activate t request.target with
        | (.preview, f) => some { s.move i .previewed with fwd := f }
        | (.active url, f) => some { (s.note (.activated i)).move i (.active url) with fwd := f }
        | (.unreadable _, f) => some { (s.note (.activated i)).move i .aborted with fwd := f }
      | none => none
    | _ => none
  | .send i =>
    match s.receptions[i]? with
    | some ⟨_, request, _, .active url⟩ => some ((s.note (.sent i url request)).move i .sending)
    | _ => none
  | .reply i upstream =>
    match s.receptions[i]? with
    | some ⟨_, _, _, .sending⟩ => some (s.move i (upstream.elim .lost fun r => .answered r.1 r.2))
    | _ => none
  | .settle i =>
    match s.receptions[i]? with
    | some ⟨_, _, cycleId, .answered status reason⟩ =>
      some { s.move i (.settled status reason true) with fwd := s.fwd.answered cycleId status }
    | some ⟨_, _, cycleId, .lost⟩ =>
      some { s.move i (.settled 502 "Bad Gateway" false) with fwd := s.fwd.unanswered cycleId }
    | _ => none
  | .recordReply i fails =>
    match s.receptions[i]? with
    | some ⟨_, _, cycleId, .settled status reason answered⟩ =>
      some { s.move i (.leaving status reason) with
        fwd := if fails && answered then s.fwd.unlogged cycleId status else s.fwd }
    | _ => none
  | .complete i =>
    match s.receptions[i]? with
    | some ⟨_, _, _, .leaving status reason⟩ =>
      some { (s.note (.completed i)).move i (.finished status reason) with fwd := s.fwd.complete }
    | _ => none

/-- A history: sections in any order. -/
def run : Forwarding → List Section → Option Forwarding
  | s, [] => some s
  | s, x :: rest => (s.step x).bind fun t => t.run rest

end Forwarding

end MatchTrader
