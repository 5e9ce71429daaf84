import Mathlib.Logic.Function.Basic
import Shmipc.Session.V4Order

namespace Shmipc
namespace Session

open Transition
open Shmipc.Stream (Status)

/-!
# How a server session comes by its streams

A client opens a stream by writing to it.  The server looks the stream's id up in
its table and, where the lookup misses, creates a stream, inserts it and hands it
to `accept`.  Lookup and insert take the lock of the table one after the other.
A stream leaves the table when its user closes it and when the client's close
event comes in over the socket, whatever of its messages is still underway.

Two tasks take messages.  The read loop takes those of the socket.  The queue is
drained by the read loop itself, at a polling event, or by a task of its own if an
eventfd or an interval wakes it.  A V5 session locks its receive queue for every
message, from either source; it drains the queue before it acts on a frame, and
it collects data into batches before it delivers them.

The session stays open.  Which payload a message carries, and whether a stream has
unread data that would keep `reset` from succeeding, is not represented.
-/

inductive ProtoVersion
  /-- V2 to V4. -/
  | v4
  | v5
  deriving DecidableEq, Repr

/-- A stream object: the id it was created for, and its number among the objects
that were created. -/
structure StreamRef where
  id : Nat
  nr : Nat
  deriving DecidableEq, Repr

/-- A message that names its stream by id: an element of the queue, or a frame of
fallback data. -/
structure Incoming where
  id : Nat
  status : Status
  socket : Bool
  deriving DecidableEq

inductive SocketFrame
  | fallback (id : Nat) (status : Status)
  | streamClose (id : Nat)
  deriving DecidableEq

/-- Where a task stands with the message it has taken. -/
inductive WorkerPoint
  | idle
  /-- About to look the id up. -/
  | resolve (msg : Incoming)
  /-- The lookup missed. -/
  | create (msg : Incoming)
  /-- The new stream is in the table and has yet to be sent to `accept`. -/
  | surface (msg : Incoming) (stream : StreamRef)
  | deliver (msg : Incoming) (stream : StreamRef)
  deriving DecidableEq

/-- A task.  The batches of a V5 drain name a stream and the generation that it
had when its data was collected. -/
structure Worker where
  point : WorkerPoint
  batches : List (StreamRef × Nat)
  deriving DecidableEq

def Worker.AtRest (worker : Worker) : Prop := worker.point = .idle /\ worker.batches = []

instance (worker : Worker) : Decidable worker.AtRest := inferInstanceAs (Decidable (_ /\ _))

inductive WorkerId
  | reader
  | drainer
  deriving DecidableEq

def WorkerId.other : WorkerId -> WorkerId
  | .reader => .drainer
  | .drainer => .reader

theorem WorkerId.other_other (worker : WorkerId) : worker.other.other = worker := by
  cases worker <;> rfl

theorem WorkerId.both {P : WorkerId -> Prop} (worker : WorkerId) (own : P worker)
    (other : P worker.other) (w : WorkerId) : P w := by
  cases worker <;> cases w <;> assumption

/-- The server and what the client has sent to it.  `created`, `accepted` and
`received` list the objects that were created, surfaced and delivered data to, in
order. -/
structure Server where
  streams : Nat -> Option StreamRef
  state : StreamRef -> Status
  generation : StreamRef -> Nat
  worker : WorkerId -> Worker
  queue : List (Nat × Status)
  socket : List SocketFrame
  opened : List Nat
  created : List StreamRef
  accepted : List StreamRef
  received : List StreamRef

inductive AcceptAction
  /-- The client opens a stream. -/
  | openStream (id : Nat)
  | sendQueue (id : Nat) (status : Status)
  | sendSocket (id : Nat) (status : Status)
  | sendClose (id : Nat)
  /-- A drain pops the next element. -/
  | pop (worker : WorkerId)
  /-- The read loop takes the next frame. -/
  | readFrame
  | lookup (worker : WorkerId)
  | insert (worker : WorkerId)
  | surface (worker : WorkerId)
  | deliver (worker : WorkerId)
  | flush (worker : WorkerId)
  /-- The user of an accepted stream closes it. -/
  | close (stream : StreamRef)
  | reset (stream : StreamRef)
  deriving DecidableEq

/-- One task at a time takes messages: the read loop drains as well, or the lock
of the V5 queue keeps the tasks apart. -/
def Serial (version : ProtoVersion) (mode : WakeupMode) : Prop :=
  version = .v5 \/ mode = .socketEvent

instance (version : ProtoVersion) (mode : WakeupMode) : Decidable (Serial version mode) :=
  inferInstanceAs (Decidable (_ \/ _))

/-- Who drains the queue.  A V5 read loop also drains before it acts on a frame. -/
def Drains (version : ProtoVersion) (mode : WakeupMode) : WorkerId -> Prop
  | .reader => version = .v5 \/ mode = .socketEvent
  | .drainer => mode ≠ .socketEvent

instance (version : ProtoVersion) (mode : WakeupMode) (worker : WorkerId) :
    Decidable (Drains version mode worker) :=
  match worker with
  | .reader => inferInstanceAs (Decidable (_ \/ _))
  | .drainer => inferInstanceAs (Decidable (_ ≠ _))

namespace Server

def new : Server where
  streams := fun _ => none
  state := fun _ => .opened
  generation := fun _ => 0
  worker := fun _ => { point := .idle, batches := [] }
  queue := []
  socket := []
  opened := []
  created := []
  accepted := []
  received := []

def setWorker (s : Server) (worker : WorkerId) (next : Worker) : Server :=
  { s with worker := Function.update s.worker worker next }

@[simp]
theorem setWorker_self (s : Server) (worker : WorkerId) (next : Worker) :
    (s.setWorker worker next).worker worker = next :=
  Function.update_self _ _ _

@[simp]
theorem setWorker_other (s : Server) (worker : WorkerId) (next : Worker) :
    (s.setWorker worker next).worker worker.other = s.worker worker.other := by
  have apart : worker.other ≠ worker := by cases worker <;> decide
  exact Function.update_of_ne apart _ _

def setPoint (s : Server) (worker : WorkerId) (point : WorkerPoint) : Server :=
  s.setWorker worker { s.worker worker with point := point }

/-- The task may take a message. -/
def Free (version : ProtoVersion) (mode : WakeupMode) (s : Server) (worker : WorkerId) : Prop :=
  (s.worker worker).point = .idle /\
    (Serial version mode -> (s.worker worker.other).AtRest)

instance (version : ProtoVersion) (mode : WakeupMode) (s : Server) (worker : WorkerId) :
    Decidable (Free version mode s worker) :=
  inferInstanceAs (Decidable (_ /\ _))

def halfClose (s : Server) (stream : StreamRef) : Server :=
  if s.state stream = .opened then
    { s with state := Function.update s.state stream .halfClosed }
  else s

/-- Take the stream of an id out of the table. -/
def remove (s : Server) (id : Nat) : Server :=
  { s with streams := Function.update s.streams id none }

def handleStreamClose (s : Server) (id : Nat) : Server :=
  match s.streams id with
  | some stream => (s.remove id).halfClose stream
  | none => s

/-- `get_stream` up to the lookup. -/
def lookup (s : Server) (worker : WorkerId) (msg : Incoming) : Server :=
  match s.streams msg.id with
  | some stream => s.setPoint worker (.deliver msg stream)
  | none =>
    if msg.status = .opened then s.setPoint worker (.create msg) else s.setPoint worker .idle

/-- The rest of `get_stream` up to the insert. -/
def insert (s : Server) (worker : WorkerId) (msg : Incoming) : Server :=
  let stream : StreamRef := { id := msg.id, nr := s.created.length }
  { s with
    streams := Function.update s.streams msg.id (some stream)
    created := s.created ++ [stream] }.setPoint worker (.surface msg stream)

/-- Data reaches the stream, unless it is closed. -/
def receive (s : Server) (stream : StreamRef) : Server :=
  { s with received := s.received ++ [stream] }

/-- `handle_stream_message`. -/
def deliverV4 (s : Server) (msg : Incoming) (stream : StreamRef) : Server :=
  if msg.status = .closed then s.halfClose stream
  else if s.state stream = .closed then s
  else s.receive stream

/-- A frame of fallback data for a V5 stream. -/
def deliverV5Frame (s : Server) (msg : Incoming) (stream : StreamRef) : Server :=
  let filled := if s.state stream = .opened then s.receive stream else s
  if msg.status = .closed then filled.halfClose stream else filled

/-- An element of the V5 queue: its data joins the batches, its close closes. -/
def deliverV5 (s : Server) (worker : WorkerId) (msg : Incoming) (stream : StreamRef) : Server :=
  if msg.status = .opened then
    let held := s.worker worker
    s.setWorker worker { held with batches := held.batches ++ [(stream, s.generation stream)] }
  else s.halfClose stream

def deliver (version : ProtoVersion) (s : Server) (worker : WorkerId) (msg : Incoming)
    (stream : StreamRef) : Server :=
  match version with
  | .v4 => s.deliverV4 msg stream
  | .v5 => if msg.socket then s.deliverV5Frame msg stream else s.deliverV5 worker msg stream

/-- `flush_v5_batches`: a batch of an earlier generation is refused, and so is one
for a stream that is not open. -/
def flush (s : Server) (worker : WorkerId) : Server :=
  let held := s.worker worker
  let delivered := held.batches.filter fun batch =>
    s.generation batch.1 = batch.2 /\ s.state batch.1 = .opened
  { s with received := s.received ++ delivered.map Prod.fst }.setWorker worker
    { held with batches := [] }

/-- `Stream::close` as far as the session is concerned. -/
def close (s : Server) (stream : StreamRef) : Server :=
  if s.state stream = .closed then s
  else { s with state := Function.update s.state stream .closed }.remove stream.id

def step (version : ProtoVersion) (mode : WakeupMode) (s : Server) : AcceptAction -> Option Server
  | .openStream id => if id ∈ s.opened then none else some { s with opened := s.opened ++ [id] }
  | .sendQueue id status =>
    if id ∈ s.opened then some { s with queue := s.queue ++ [(id, status)] } else none
  | .sendSocket id status =>
    if id ∈ s.opened then some { s with socket := s.socket ++ [.fallback id status] } else none
  | .sendClose id =>
    if id ∈ s.opened then some { s with socket := s.socket ++ [.streamClose id] } else none
  | .pop worker =>
    if Drains version mode worker /\ s.Free version mode worker then
      match s.queue with
      | [] => none
      | (id, status) :: rest =>
        -- the batches are flushed in front of a close
        if version = .v5 /\ status ≠ .opened /\ (s.worker worker).batches ≠ [] then none
        else some ({ s with queue := rest }.setPoint worker
          (.resolve { id := id, status := status, socket := false }))
    else none
  | .readFrame =>
    if s.Free version mode .reader /\
        (version = .v5 -> s.queue = [] /\ (s.worker .reader).batches = []) then
      match s.socket with
      | [] => none
      | .fallback id status :: rest =>
        some ({ s with socket := rest }.setPoint .reader
          (.resolve { id := id, status := status, socket := true }))
      | .streamClose id :: rest => some ({ s with socket := rest }.handleStreamClose id)
    else none
  | .lookup worker =>
    match (s.worker worker).point with
    | .resolve msg => some (s.lookup worker msg)
    | _ => none
  | .insert worker =>
    match (s.worker worker).point with
    | .create msg => some (s.insert worker msg)
    | _ => none
  | .surface worker =>
    match (s.worker worker).point with
    | .surface msg stream =>
      some ({ s with accepted := s.accepted ++ [stream] }.setPoint worker (.deliver msg stream))
    | _ => none
  | .deliver worker =>
    match (s.worker worker).point with
    | .deliver msg stream => some ((s.deliver version worker msg stream).setPoint worker .idle)
    | _ => none
  | .flush worker =>
    if (s.worker worker).point = .idle then some (s.flush worker) else none
  | .close stream => if stream ∈ s.accepted then some (s.close stream) else none
  | .reset stream =>
    if stream ∈ s.accepted /\ s.state stream = .opened then
      some { s with generation := Function.update s.generation stream (s.generation stream + 1) }
    else none

end Server

/-- A server session and its client. -/
def acceptSystem (version : ProtoVersion) (mode : WakeupMode) : System Server AcceptAction where
  init := fun s => s = Server.new
  step := Server.step version mode

end Session
end Shmipc
