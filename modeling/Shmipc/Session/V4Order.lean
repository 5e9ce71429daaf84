import Shmipc.Session.Frames
import Shmipc.Stream.ReadMore

namespace Shmipc
namespace Session

open Transition
open Shmipc.Stream (Status)

/-!
# One direction of a V2 to V4 session

A message in shared memory travels through the queue as the offset of its first
slice.  A message that is not, and every later one of that stream, travels over
the unix socket.  The put is followed by a wakeup: the task that turns the
working flag from zero to one has to wake the peer, the others rely on it.

How the peer is woken was negotiated.  A polling event on the socket makes the
read loop itself drain the queue.  An eventfd wakes a task of its own, and with
event-queue polling a task drains the queue at intervals and nobody is woken.
In every mode one task drains.

Frames go through a channel to the write loop, which puts them on the socket.
A wakeup may be written to the socket directly.  The read loop acts on a frame
as it comes, whatever is in the queue.

A message is represented by its stream and by what it is to it.  In the queue an
input has the status of an open stream, as `flush_v4` has found it open, and a
close that of a closed one.  Of `flush_v4` and `close` only the order of their
effects is kept here: the slices of a flush are in `Stream.FlushV4`, and its polls and
the answers it gets in `Stream.Compact`.
-/

inductive WakeupMode
  | socketEvent
  | eventFd
  | queuePolling
  deriving DecidableEq

/-- An entry of the shared queue, a fallback frame or a stream close. -/
structure Message where
  seqId : Nat
  item : Item
  deriving DecidableEq

inductive V4Event
  | polling
  | frame (message : Message)
  deriving DecidableEq

/-- Where a stream's user stands.  `claiming` and `waking` are the two halves
of `wake_up_peer`. -/
inductive V4Point
  | idle
  | putting (item : Item)
  | claiming
  | waking
  | sending (item : Item)
  deriving DecidableEq

/-- A sending stream.  `sent` records what went onto a channel, in order, and `left`
that some of it went over the socket; no step reads them. -/
structure V4Sender where
  status : Status
  inFallback : Bool
  point : V4Point
  sent : List Item
  left : Bool

/-- The steps of a stream's user, and those that the peer's frames make on the stream. -/
inductive V4UserStep
  | flush (data : List UInt8) (root : Option Nat)
  | close
  | peerFallback
  | peerClose
  | put
  | putRefused
  | giveUp
  | markWorking
  | wake (direct : Bool)
  | send
  deriving DecidableEq

/-- What a step of a stream's user does to the session. -/
inductive V4Effect
  | quiet
  | put (item : Item)
  | claim
  | wake (direct : Bool)
  | send (item : Item)
  deriving DecidableEq

namespace V4Sender

/-- `flush_v4` up to its first suspension point.  A message without a root has
a slice outside shared memory. -/
def flush (s : V4Sender) (data : List UInt8) (root : Option Nat) : V4Sender :=
  if data = [] \/ s.status ≠ .opened then s
  else
    match root with
    | some offset =>
      if s.inFallback then
        if data.length > maxControlFrameSize - eventHeaderSize then s
        else { s with point := .sending (.heap data) }
      else { s with point := .putting (.shm offset) }
    | none =>
      if data.length > maxControlFrameSize - eventHeaderSize then { s with inFallback := true }
      else { s with inFallback := true, point := .sending (.heap data) }

/-- `close` up to its first suspension point. -/
def close (s : V4Sender) : V4Sender :=
  if s.status ≠ .opened then { s with status := .closed }
  else if s.inFallback then { s with status := .closed, point := .sending .close }
  else { s with status := .closed, point := .putting .close }

def step (mode : WakeupMode) (working : Bool) (s : V4Sender) :
    V4UserStep -> Option (V4Sender × V4Effect)
  | .flush data root => if s.point = .idle then some (s.flush data root, .quiet) else none
  | .close => if s.point = .idle then some (s.close, .quiet) else none
  | .peerFallback => some ({ s with inFallback := true }, .quiet)
  | .peerClose =>
    if s.status = .opened then some ({ s with status := .halfClosed }, .quiet) else none
  | .put =>
    match s.point with
    | .putting item => some ({ s with point := .claiming, sent := s.sent ++ [item] }, .put item)
    | _ => none
  | .putRefused =>
    match s.point with
    | .putting .close => some ({ s with point := .sending .close }, .quiet)
    | .putting (.shm _) => some (s, .quiet)
    | _ => none
  | .giveUp =>
    match s.point with
    | .putting (.shm _) => some ({ s with point := .idle }, .quiet)
    | _ => none
  | .markWorking =>
    if s.point = .claiming then
      if mode = .queuePolling \/ working then some ({ s with point := .idle }, .quiet)
      else some ({ s with point := .waking }, .claim)
    else none
  | .wake direct =>
    if s.point = .waking then some ({ s with point := .idle }, .wake direct) else none
  | .send =>
    match s.point with
    | .sending item =>
      some ({ s with point := .idle, sent := s.sent ++ [item], left := true }, .send item)
    | _ => none

end V4Sender

/-- A receiving stream.  `appended` lists what was added to the pending data of the
streams with its id, and their half closes; `taken` what came in for them. -/
structure V4Receiver where
  present : Bool
  status : Status
  appended : List Item
  taken : List Item

/-- `get_stream` and `handle_stream_message`, or `handle_stream_close` for a close that
came over the socket.  A server makes a stream for the first data of an unknown id. -/
def V4Receiver.receive (isClient overSocket : Bool) (r : V4Receiver) : Item -> V4Receiver
  | .close =>
    if r.present then
      if r.status = .opened then
        { r with
          present := !overSocket, status := .halfClosed, appended := r.appended ++ [.close] }
      else { r with present := !overSocket }
    else r
  | input =>
    if r.present then { r with appended := r.appended ++ [input] }
    else if isClient then r
    else { r with present := true, status := .opened, appended := r.appended ++ [input] }

/-- Where the task that drains the queue stands.  The last two points are the
store and the test of `mark_not_working`. -/
inductive V4Drain
  | asleep
  | popping
  | handling (message : Message)
  | storing
  | testing
  deriving DecidableEq

/-- The session.  `wakers` counts the tasks between a claim they won and their wakeup;
`drained` says of a stream that the drain has gone to sleep since its last put.  No
step reads them. -/
structure V4Session where
  queue : List Message
  working : Bool
  channel : List V4Event
  socket : List V4Event
  eventFd : Bool
  drain : V4Drain
  sender : Nat -> V4Sender
  receiver : Nat -> V4Receiver
  wakers : Nat
  drained : Nat -> Bool

inductive V4Action
  | user (seqId : Nat) (step : V4UserStep)
  | writeLoop
  | readEvent
  | readEventFd
  | tick
  | pop
  | handle
  | markNotWorking
  | testSize
  deriving DecidableEq

namespace V4Session

def act (mode : WakeupMode) (s : V4Session) (seqId : Nat) : V4Effect -> V4Session
  | .quiet => s
  | .put item =>
    { s with
      queue := s.queue ++ [⟨seqId, item⟩], drained := Function.update s.drained seqId false }
  | .claim => { s with working := true, wakers := s.wakers + 1 }
  | .wake direct =>
    let s := { s with wakers := s.wakers - 1 }
    if mode = .eventFd then { s with eventFd := true }
    else if direct then { s with socket := s.socket ++ [.polling] }
    else { s with channel := s.channel ++ [.polling] }
  | .send item => { s with channel := s.channel ++ [.frame ⟨seqId, item⟩] }

def deliver (isClient overSocket : Bool) (s : V4Session) (message : Message) : V4Session :=
  let r := s.receiver message.seqId
  { s with
    receiver := Function.update s.receiver message.seqId
      { r.receive isClient overSocket message.item with taken := r.taken ++ [message.item] } }

/-- The next step of a stream's user, the write loop, the read loop or the drain.
Polling events drain the queue only where that is how the peer is woken, and while
the read loop drains the queue it reads no event. -/
def step (isClient : Bool) (mode : WakeupMode) (s : V4Session) : V4Action -> Option V4Session
  | .user seqId user =>
    ((s.sender seqId).step mode s.working user).map fun moved =>
      { s with sender := Function.update s.sender seqId moved.1 }.act mode seqId moved.2
  | .writeLoop =>
    match s.channel with
    | [] => none
    | event :: rest => some { s with channel := rest, socket := s.socket ++ [event] }
  | .readEvent =>
    if mode = .socketEvent /\ s.drain ≠ .asleep then none
    else
      match s.socket with
      | [] => none
      | .polling :: rest =>
        some { s with
          socket := rest, drain := if mode = .socketEvent then .popping else s.drain }
      | .frame message :: rest => some ({ s with socket := rest }.deliver isClient true message)
  | .readEventFd =>
    if mode = .eventFd /\ s.eventFd /\ s.drain = .asleep then
      some { s with eventFd := false, drain := .popping }
    else none
  | .tick =>
    if mode = .queuePolling /\ s.drain = .asleep then some { s with drain := .popping } else none
  | .pop =>
    if s.drain = .popping then
      match s.queue with
      | [] => some { s with drain := .storing }
      | message :: rest => some { s with queue := rest, drain := .handling message }
    else none
  | .handle =>
    match s.drain with
    | .handling message => some ({ s with drain := .popping }.deliver isClient false message)
    | _ => none
  | .markNotWorking =>
    if s.drain = .storing then some { s with working := false, drain := .testing } else none
  | .testSize =>
    if s.drain = .testing then
      if s.queue = [] then some { s with drain := .asleep, drained := fun _ => true }
      else some { s with working := true, drain := .popping }
    else none

def new (isClient : Bool) : V4Session where
  queue := []
  working := false
  channel := []
  socket := []
  eventFd := false
  drain := .asleep
  sender := fun _ =>
    { status := .opened, inFallback := false, point := .idle, sent := [], left := false }
  receiver := fun _ => { present := isClient, status := .opened, appended := [], taken := [] }
  wakers := 0
  drained := fun _ => true

end V4Session

/-- All interleavings of the senders, the write loop, the read loop and the drain. -/
def v4System (isClient : Bool) (mode : WakeupMode) : System V4Session V4Action where
  init := fun s => s = V4Session.new isClient
  step := V4Session.step isClient mode

end Session
end Shmipc
