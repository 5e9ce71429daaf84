import Shmipc.Buffer.V5Write
import Shmipc.Session.Frames
import Shmipc.Stream.ReadMore

namespace Shmipc
namespace Compact

open Transition
open Shmipc.Stream (Status Side)
open BufV5 (usizeMax)
open Session (maxControlFrameSize eventHeaderSize frameFallback)
open V5 (maxDynShmTransferSize)

/-!
# A stream behind `AsyncWrite`

`StreamExt` serves the three polls of `AsyncWrite` with the calls of a stream.  A
write fills the send buffer and no more.  A flush and a close are futures.  The
adapter keeps the one that has not come back, and the next poll drives it on
before it does anything of its own.  A close gives up what the send buffer holds.

Here the send buffer is the bytes it holds, and whether some of them lie on the
heap.  That either kind of buffer keeps what is written to it is a matter of the
buffers themselves.  What the pool, the queue and the socket answer is up to
others, so the answers are part of the actions.  A poll is not atomic: between two
answers the peer may close its half, the session may be shut down, and a fallback
of the peer may be noticed.
-/

def queueFullRetryCount : Nat := 10

inductive Error
  | streamClosed
  | sessionShutdown
  | sizeTooLarge
  | queueFull
  | connectionWriteTimeout
  | other
  deriving DecidableEq

/-- The errors of the polls. -/
inductive IoError
  | stream (error : Error)
  | brokenPipe (text : String)
  | other (text : String)
  deriving DecidableEq

/-- How the next call to somebody else comes out. -/
inductive Reply
  | pending
  | ok
  /-- There is no room, in the queue or in the pool. -/
  | full
  | failed (error : Error)
  deriving DecidableEq

/-- What an await makes of it; `none` is a future that is not ready. -/
def Reply.awaited : Reply -> Option (Except Error Unit)
  | .pending => none
  | .failed error => some (.error error)
  | _ => some (.ok ())

/-- What the peer is given: an element for a message in shared memory, a frame on
the socket, or the notice that the stream is closed, which goes either way. -/
inductive Handed
  | message (bytes : List UInt8)
  | frame (bytes : List UInt8)
  | close
  deriving DecidableEq

def Handed.bytes : Handed -> List UInt8
  | .message bytes => bytes
  | .frame bytes => bytes
  | .close => []

def payload (handed : List Handed) : List UInt8 :=
  handed.flatMap Handed.bytes

/-- The write half of a stream and the flags it reads.  `handed` records what went
to the peer, in order; no step reads it. -/
structure Inner where
  status : Status
  inFallback : Bool
  sessionClosed : Bool
  sendBuf : List UInt8
  fromHeap : Bool
  handed : List Handed
  deriving DecidableEq

/-- How far a future gets when it is polled. -/
inductive Progress (Future : Type)
  | pending
  | next (future : Future)
  | done (result : Except Error Unit)

namespace Inner

/-- The send buffer after `recycle`, `clean` or `discard`. -/
def recycle (s : Inner) : Inner :=
  { s with sendBuf := [], fromHeap := false }

def hand (s : Inner) (item : Handed) : Inner :=
  { s with handed := s.handed ++ [item] }

def writeHeap (s : Inner) (data : List UInt8) : Except Error Nat × Inner :=
  (.ok data.length, { s with sendBuf := s.sendBuf ++ data, fromHeap := true })

/-- `write_bytes`.  Only a V5 buffer looks at the state of the stream. -/
def writeBytes (side : Side) (s : Inner) (data : List UInt8) (reply : Reply) :
    Option (Except Error Nat × Inner) :=
  let allocated := (.ok data.length, { s with sendBuf := s.sendBuf ++ data })
  match side with
  | .v4 =>
    match reply with
    | .ok => some allocated
    | .full => some (s.writeHeap data)
    | _ => none
  | .v5 =>
    if usizeMax - s.sendBuf.length < data.length then some (.error .sizeTooLarge, s)
    else if s.status ≠ .opened then some (.error .streamClosed, s)
    else if s.fromHeap \/ s.inFallback then some (s.writeHeap data)
    else if maxDynShmTransferSize < data.length \/
        maxDynShmTransferSize - data.length < s.sendBuf.length then some (s.writeHeap data)
    else
      match reply with
      | .ok => some allocated
      | .full => some (s.writeHeap data)
      | .failed error => some (.error error, s)
      | .pending => none

end Inner

/-! ## The future of a flush -/

/-- Where a flush stands.  The message of a V2-V4 stream stays in the send buffer
until it is handed over; that of a V5 stream is taken out first. -/
inductive FlushFuture
  | start
  /-- In the wait of `retry_queue_put`, with so many rounds to go. -/
  | queueRoom (rounds : Nat)
  /-- Before a put of `retry_queue_put_v5`, with so many rounds to come after it. -/
  | putting (outgoing : List UInt8) (rounds : Nat)
  /-- The put found no room, and the peer is woken to make some. -/
  | wakingForRoom (outgoing : List UInt8) (rounds : Nat)
  | waitingForRoom (outgoing : List UInt8) (rounds : Nat)
  | wakingPeer
  /-- In `wait_for_send` for a frame, with others to follow. -/
  | sending (frame : List UInt8) (rest : List (List UInt8))
  deriving DecidableEq

namespace FlushFuture

/-- `write_fallback` up to its await. -/
def writeFallback (s : Inner) : Progress FlushFuture × Inner :=
  if maxControlFrameSize - eventHeaderSize < s.sendBuf.length then
    (.done (.error .sizeTooLarge), s.recycle)
  else (.next (.sending s.sendBuf []), s.recycle)

/-- A put of a V2-V4 stream.  `again` is what follows if the queue is full. -/
def put (s : Inner) (again : Progress FlushFuture × Inner) :
    Reply -> Option (Progress FlushFuture × Inner)
  | .pending => none
  | .ok => some (.next .wakingPeer, s.hand (.message s.sendBuf))
  | .full => some again
  | .failed error => some (.done (.error error), s.recycle)

/-- `flush_v4` up to its first await. -/
def startV4 (s : Inner) (reply : Reply) : Option (Progress FlushFuture × Inner) :=
  if s.sendBuf = [] then some (.done (.ok ()), s)
  else if s.status ≠ .opened then some (.done (.error .streamClosed), s.recycle)
  else if s.inFallback \/ s.fromHeap then some (writeFallback { s with inFallback := true })
  else put s (.next (.queueRoom queueFullRetryCount), s) reply

/-- `flush_v5` up to its first put or its first frame.  Frames are filled across the
chunks of the buffer, so where these end does not matter. -/
def startV5 (s : Inner) : Progress FlushFuture × Inner :=
  if s.status ≠ .opened then (.done (.error .streamClosed), s.recycle)
  else if s.sendBuf = [] then (.done (.ok ()), s)
  else if s.fromHeap then
    match frameFallback [s.sendBuf] with
    | [] => (.done (.ok ()), { s.recycle with inFallback := true })
    | frame :: rest => (.next (.sending frame rest), { s.recycle with inFallback := true })
  else (.next (.putting s.sendBuf queueFullRetryCount), s.recycle)

/-- The end of a flush.  A V2-V4 stream forgets its message only here. -/
def finish (side : Side) (s : Inner) (result : Except Error Unit) :
    Progress FlushFuture × Inner :=
  match side with
  | .v4 => (.done result, s.recycle)
  | .v5 => (.done result, s)

def sendRest (side : Side) (s : Inner) : List (List UInt8) -> Progress FlushFuture × Inner
  | [] => finish side s (.ok ())
  | frame :: rest => (.next (.sending frame rest), s)

/-- What `retry_queue_put_v5` does once the peer is woken, however that went. -/
def afterWaking (s : Inner) (outgoing : List UInt8) : Nat -> Progress FlushFuture × Inner
  | 0 => (.done (.error .queueFull), s)
  | rounds + 1 =>
    if s.status ≠ .opened then (.done (.error .streamClosed), s)
    else if s.sessionClosed then (.done (.error .sessionShutdown), s)
    else (.next (.waitingForRoom outgoing rounds), s)

/-- One step of a flush, up to the next answer it needs. -/
def poll (side : Side) (s : Inner) : FlushFuture -> Reply -> Option (Progress FlushFuture × Inner)
  | .start, reply =>
    match side with
    | .v4 => startV4 s reply
    | .v5 => some (startV5 s)
  | .queueRoom 0, _ => none
  | .queueRoom (rounds + 1), reply =>
    if reply = .pending then some (.pending, s)
    else if s.sessionClosed then some (.done (.error .streamClosed), s.recycle)
    else
      let again := if rounds = 0 then (.done (.error .queueFull), s.recycle)
        else (.next (.queueRoom rounds), s)
      put s again reply
  | .putting outgoing rounds, reply =>
    match reply with
    | .pending => none
    | .ok => some (.next .wakingPeer, s.hand (.message outgoing))
    | .full => some (.next (.wakingForRoom outgoing rounds), s)
    | .failed error => some (.done (.error error), s)
  | .wakingForRoom outgoing rounds, reply =>
    match reply.awaited with
    | none => some (.pending, s)
    | some _ => some (afterWaking s outgoing rounds)
  | .waitingForRoom outgoing rounds, reply =>
    match reply.awaited with
    | none => some (.pending, s)
    | some (.error error) => some (.done (.error error), s)
    | some (.ok ()) => some (.next (.putting outgoing rounds), s)
  | .wakingPeer, reply =>
    match reply.awaited with
    | none => some (.pending, s)
    | some result => some (finish side s result)
  | .sending frame rest, reply =>
    match reply.awaited with
    | none => some (.pending, s)
    | some (.error error) => some (finish side s (.error error))
    | some (.ok ()) => some (sendRest side (s.hand (.frame frame)) rest)

end FlushFuture

/-! ## The future of a close -/

inductive CloseFuture
  | start
  | wakingPeer
  /-- In `wait_for_send` for the close event. -/
  | sendingClose
  deriving DecidableEq

namespace CloseFuture

/-- `clean`, as far as it concerns the send buffer. -/
def clean (side : Side) (s : Inner) : Inner :=
  if side = .v5 /\ s.sessionClosed then s else s.recycle

/-- `close` after the state is exchanged and the buffers are cleaned. -/
def notify (old : Status) (s : Inner) (reply : Reply) : Option (Progress CloseFuture × Inner) :=
  if old ≠ .opened \/ s.sessionClosed then some (.done (.ok ()), s)
  else if s.inFallback then some (.next .sendingClose, s)
  else
    match reply with
    | .pending => none
    | .ok => some (.next .wakingPeer, s.hand .close)
    | _ => some (.next .sendingClose, s)

def poll (side : Side) (s : Inner) : CloseFuture -> Reply -> Option (Progress CloseFuture × Inner)
  | .start, reply =>
    if s.status = .closed then some (.done (.ok ()), s)
    else notify s.status (clean side { s with status := .closed }) reply
  | .wakingPeer, reply =>
    match reply.awaited with
    | none => some (.pending, s)
    | some result => some (.done result, s)
  | .sendingClose, reply =>
    match reply.awaited with
    | none => some (.pending, s)
    | some (.error error) => some (.done (.error error), s)
    | some (.ok ()) => some (.done (.ok ()), s.hand .close)

end CloseFuture

/-! ## The adapter -/

inductive WriteState
  | idle
  | flushing (future : FlushFuture)
  | closing (future : CloseFuture)
  deriving DecidableEq

inductive Call
  | write (data : List UInt8)
  | flush
  | shutdown
  deriving DecidableEq

/-- What a call comes back with. -/
inductive Poll
  | pending
  | written (count : Nat)
  | done
  | error (error : IoError)
  deriving DecidableEq

/-- The adapter, with the call that is under way and what the last one came back with.
`accepted` records the bytes that writes have accepted, `unflushed` that some of them
came after the last call of `poll_flush`, and `shutDown` that `poll_shutdown` has
come back with success; no step reads them. -/
structure StreamExt where
  inner : Inner
  writeState : WriteState
  call : Option Call
  returned : Option (Call × Poll)
  accepted : List UInt8
  unflushed : Bool
  shutDown : Bool
  deriving DecidableEq

inductive ExtAction
  | poll (call : Call)
  /-- The call under way goes on to the next answer it needs. -/
  | proceed (reply : Reply)
  | halfClose
  | setFallback
  | shutdownSession
  deriving DecidableEq

namespace StreamExt

def new : StreamExt :=
  ⟨⟨.opened, false, false, [], false, []⟩, .idle, none, none, [], false, false⟩

def returns (s : StreamExt) (call : Call) (poll : Poll) : StreamExt :=
  { s with
    call := none
    returned := some (call, poll)
    shutDown := s.shutDown || decide (call = .shutdown /\ poll = .done) }

/-- `poll_write` in the idle state. -/
def write (side : Side) (s : StreamExt) (data : List UInt8) (reply : Reply) : Option StreamExt :=
  (s.inner.writeBytes side data reply).map fun (result, inner) =>
    match result with
    | .ok count =>
      { s with
        inner := inner
        accepted := s.accepted ++ data
        unflushed := true }.returns (.write data) (.written count)
    | .error error => { s with inner := inner }.returns (.write data) (.error (.stream error))

/-- What each poll makes of the end of a flush: `poll_flush` is done, the others go on
unless the flush has failed. -/
def flushed (s : StreamExt) (call : Call) (result : Except Error Unit) : StreamExt :=
  match result with
  | .ok () => if call = .flush then s.returns call .done else s
  | .error error =>
    if call = .flush /\ error = .streamClosed then s.returns call .done
    else s.returns call (.error (.stream error))

def driveFlush (s : StreamExt) (call : Call) (inner : Inner) : Progress FlushFuture -> StreamExt
  | .pending => { s with inner := inner }.returns call .pending
  | .next future => { s with inner := inner, writeState := .flushing future }
  | .done result => { s with inner := inner, writeState := .idle }.flushed call result

def driveClose (s : StreamExt) (inner : Inner) : Progress CloseFuture -> StreamExt
  | .pending => { s with inner := inner }.returns .shutdown .pending
  | .next future => { s with inner := inner, writeState := .closing future }
  | .done (.ok ()) => { s with inner := inner, writeState := .idle }.returns .shutdown .done
  | .done (.error error) =>
    { s with inner := inner, writeState := .idle }.returns .shutdown (.error (.stream error))

/-- A round of the loop in `poll_write`, `poll_flush` or `poll_shutdown`. -/
def proceed (side : Side) (s : StreamExt) (call : Call) (reply : Reply) : Option StreamExt :=
  match s.writeState with
  | .idle =>
    match call with
    | .write data => s.write side data reply
    | .flush => some { s with writeState := .flushing .start }
    | .shutdown => some { s with writeState := .closing .start }
  | .flushing future =>
    (future.poll side s.inner reply).map fun (progress, inner) =>
      s.driveFlush call inner progress
  | .closing future =>
    match call with
    | .write _ => some (s.returns call (.error (.brokenPipe "close in progress during write")))
    | .flush => some (s.returns call (.error (.other "close in progress during flush")))
    | .shutdown =>
      (future.poll side s.inner reply).map fun (progress, inner) => s.driveClose inner progress

/-- A call borrows the adapter, so there is one at a time. -/
def step (side : Side) (s : StreamExt) : ExtAction -> Option StreamExt
  | .poll call =>
    if s.call ≠ none then none
    else if call = .write [] then some (s.returns call (.written 0))
    else some { s with call := some call, unflushed := s.unflushed && decide (call ≠ .flush) }
  | .proceed reply => s.call.bind fun call => s.proceed side call reply
  | .halfClose =>
    if s.inner.status = .opened then
      some { s with inner := { s.inner with status := .halfClosed } }
    else some s
  | .setFallback => some { s with inner := { s.inner with inFallback := true } }
  | .shutdownSession => some { s with inner := { s.inner with sessionClosed := true } }

end StreamExt

def extSystem (side : Side) : System StreamExt ExtAction where
  init s := s = .new
  step := StreamExt.step side

end Compact
end Shmipc
