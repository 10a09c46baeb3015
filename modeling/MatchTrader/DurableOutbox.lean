import Mathlib.Data.List.Sort
import MatchTrader.Store

/-! The sender's outbox: events are kept as numbered files until the receiver acknowledges them. The
pump posts the first file, and deletes it once its acknowledgement is in. -/

namespace MatchTrader

open Durable

/-- A file of the outbox. Its name is the sequence in twenty digits and a new identifier, so names
are in the order of their sequences. -/
structure OutboxFile where
  sequence : Nat
  guid : String
  event : CaptureEvent

def OutboxFile.name (f : OutboxFile) : Nat × String := (f.sequence, f.guid)

/-- What the pump is about to do. -/
inductive Pump where
  | idle
  | read (f : OutboxFile)
  /-- A request is out; requests are numbered in the order they were posted. -/
  | posted (request : Nat) (f : OutboxFile)
  | acknowledged (f : OutboxFile)

structure DurableOutbox where
  maxPending : Nat
  files : List OutboxFile := []
  sequence : Nat := 0
  pump : Pump := .idle

namespace DurableOutbox

/-- The constructor: the sequence goes on from the files that are left. -/
def start (o : DurableOutbox) : DurableOutbox :=
  { o with sequence := (o.files.map OutboxFile.sequence).foldl max 0, pump := .idle }

def full : String := "Outbox full: capture fault; copying must be stopped"

/-- Persist an event; `writeFails` says whether its file does not come about. -/
def enqueue (o : DurableOutbox) (item : CaptureEvent) (guid : String) (writeFails : Bool) :
    DurableOutbox × Except Exc Unit :=
  if o.maxPending ≤ o.files.length then (o, .error ⟨.osError, "IOException", full, none⟩)
  else
    let o := { o with sequence := o.sequence + 1 }
    if writeFails then (o, .error ⟨.osError, "IOException", "", none⟩)
    else ({ o with files := o.files ++ [⟨o.sequence, guid, item⟩] }, .ok ())

/-- `EnumerateFiles(…).Order().FirstOrDefault()`. -/
def first (o : DurableOutbox) : Option OutboxFile :=
  (o.files.insertionSort fun a b => a.sequence ≤ b.sequence).head?

def delete (o : DurableOutbox) (f : OutboxFile) : DurableOutbox :=
  { o with files := o.files.filter fun g => g.name ≠ f.name, pump := .idle }

/-- The receiver's answer to a request: another status than 202 ends the pump's round. -/
def answer (o : DurableOutbox) (request : Nat) (accepted : Bool) : DurableOutbox :=
  match o.pump with
  | .posted n f => if n = request then { o with pump := if accepted then .acknowledged f else .idle } else o
  | _ => o

end DurableOutbox

/-- A sender, the requests it ever posted, and a receiver. -/
structure Feed where
  outbox : DurableOutbox
  /-- Whether the sender's process runs. -/
  running : Bool := true
  posts : List CaptureEvent := []
  /-- The answers that are on their way: of which request, and whether its event was recorded. -/
  answers : List (Nat × Bool) := []
  receiver : World
  enqueued : List CaptureEvent := []
  deleted : List CaptureEvent := []

variable [Host]

/-- A history's moves. The network hands any request over, once or again or late or never, and so it
does with any answer; both processes may stop at any point. -/
inductive FeedMove : Feed → Feed → Prop
  | enqueued {s : Feed} {o : DurableOutbox} (item : CaptureEvent) (guid : String) (hr : s.running = true)
    (hid : item.eventId ∉ s.enqueued.map CaptureEvent.eventId) (ho : s.outbox.enqueue item guid false = (o, .ok ())) :
    FeedMove s { s with outbox := o, enqueued := s.enqueued ++ [item] }
  | refused {s : Feed} {o : DurableOutbox} {e : Exc} (item : CaptureEvent) (guid : String) (writeFails : Bool)
    (hr : s.running = true) (ho : s.outbox.enqueue item guid writeFails = (o, .error e)) : FeedMove s { s with outbox := o }
  | read {s : Feed} (f : OutboxFile) (hr : s.running = true) (hp : s.outbox.pump = .idle) (hf : s.outbox.first = some f) :
    FeedMove s { s with outbox := { s.outbox with pump := .read f } }
  | post {s : Feed} (f : OutboxFile) (hp : s.outbox.pump = .read f) :
    FeedMove s { s with outbox := { s.outbox with pump := .posted s.posts.length f }, posts := s.posts ++ [f.event] }
  | record {s : Feed} (i : Nat) (e : CaptureEvent) (he : s.posts[i]? = some e) (env : Nat → (q : Query) → Reply q) :
    FeedMove s { s with
      receiver := ((Store.record e).eval env s.receiver).1
      answers := s.answers ++ [(i, ((Store.record e).eval env s.receiver).2.toOption.isSome)] }
  | answered {s : Feed} (i : Nat) (accepted : Bool) (ha : (i, accepted) ∈ s.answers) :
    FeedMove s { s with outbox := s.outbox.answer i accepted }
  | receiverStops {s : Feed} (i : Nat) (e : CaptureEvent) (he : s.posts[i]? = some e)
    (env : Nat → (q : Query) → Reply q) (n : Nat) :
    FeedMove s { s with receiver := (Store.record e).stop n env s.receiver }
  | receiverStarts {s : Feed} (broker : String) (env : Nat → (q : Query) → Reply q) :
    FeedMove s { s with receiver := ((Store.openJournal broker).eval env s.receiver).1 }
  | startStops {s : Feed} (broker : String) (env : Nat → (q : Query) → Reply q) (n : Nat) :
    FeedMove s { s with receiver := (Store.openJournal broker).stop n env s.receiver }
  /-- The round ends in a time-out, a refusal, or a file that cannot be deleted. -/
  | abandon {s : Feed} : FeedMove s { s with outbox := { s.outbox with pump := .idle } }
  | delete {s : Feed} (f : OutboxFile) (hp : s.outbox.pump = .acknowledged f) :
    FeedMove s { s with outbox := s.outbox.delete f, deleted := s.deleted ++ [f.event] }
  | senderStops {s : Feed} : FeedMove s { s with running := false, outbox := { s.outbox with pump := .idle } }
  | senderStarts {s : Feed} (hr : s.running = false) : FeedMove s { s with running := true, outbox := s.outbox.start }

end MatchTrader
