import Shmipc.Pool.Linked
import Shmipc.Session.Frames
import Shmipc.Stream.ReadMore

namespace Shmipc
namespace Stream

open Transition Pool
open Session (maxControlFrameSize eventHeaderSize)

/-!
# A flush that may be dropped

A V2-V4 stream hands its message over in two effects: the element goes onto the
queue, and the send buffer forgets the slices.  Between them the flush wakes the
peer, which may have to wait.  A message that does not fit the pool is copied and
goes through a channel to the socket; its slices are given back before the flush
waits for room in the channel.  A future can be dropped at every such wait.

The flush borrows the stream, so until it returns or is dropped nothing else is
done with the stream; the peer may still close its half, and a fallback of the
peer may still be noticed.  All other users of the pool, the peer among them,
are the holders of the slices that are out.  A put makes the slices of the
message theirs.

What `wake_up_peer` does is not represented but for when it returns: it touches
neither the queue nor the send buffer.  A flush may stop at every await, also at
one that would be passed at once.
-/

/-- An entry of the shared queue. -/
structure QueueElement where
  seqId : Nat
  offsetInShmBuf : Nat
  status : Status
  deriving DecidableEq

/-- A frame with the bytes of a message. -/
structure FallbackData where
  seqId : Nat
  status : Status
  payload : List UInt8
  deriving DecidableEq

def queueFullRetryCount : Nat := 10

/-- Where a flush waits. -/
inductive FlushPoint
  | idle
  /-- In `retry_queue_put`, with so many rounds to go. -/
  | queueRoom (element : QueueElement) (rounds : Nat)
  | wakeUpPeer
  /-- In `wait_for_send`, with the event not yet in the channel. -/
  | channelRoom (event : FallbackData)
  /-- In `wait_for_send`, for the write loop to report. -/
  | reported
  deriving DecidableEq

/-- The write side of a stream and what it shares with others.  `pool.held` are the
slices of all others.  `message` records what was written and neither handed over
nor given up with an error, and `handed` the slices that the current or last flush
has handed over; no step reads them. -/
structure FlushState where
  pool : PoolState
  queue : List QueueElement
  channel : List FallbackData
  sendBuf : LinkedBuffer
  status : Status
  inFallback : Bool
  point : FlushPoint
  message : List UInt8
  handed : Option (List Nat)

inductive FlushAction
  | write (call : LinkedBuffer.Call)
  | flush
  /-- The wait for queue room ends because the stream is closed. -/
  | closeNotified
  /-- The wait for queue room ends because its time is over. -/
  | retry (sessionClosed : Bool)
  | woken
  | accepted
  | timedOut
  | reported
  /-- The future of the flush is dropped. -/
  | cancel
  | close (shutdown : Bool)
  /-- The last handle of the stream is dropped. -/
  | release
  | halfClose
  | setFallback (inFallback : Bool)
  | popped
  | putOther (element : QueueElement)
  | others (action : PoolAction)
  deriving DecidableEq

namespace FlushState

section Calls

variable (bm : BufferManager) (capacity id : Nat)

/-- `recycle`, at the end of a flush that fails or when the stream goes away. -/
def giveUp (s : FlushState) : FlushState :=
  let (buf, shm) := s.sendBuf.recycle bm s.pool.shm
  { s with pool := { s.pool with shm := shm }, sendBuf := buf, point := .idle, message := [] }

/-- `clean`, at the end of a flush that got past its await. -/
def returned (s : FlushState) : FlushState :=
  { s with sendBuf := s.sendBuf.clean, point := .idle, message := [] }

/-- `none` is `Error::QueueFull`. -/
def put (element : QueueElement) (s : FlushState) : Option FlushState :=
  if s.queue.length < capacity then
    some { s with
      pool := { s.pool with held := s.sendBuf.sliceList.toList ++ s.pool.held }
      queue := s.queue ++ [element]
      point := .wakeUpPeer
      message := []
      handed := some (s.sendBuf.sliceList.toList.map BufferSlice.offsetInShm) }
  else none

def writeFallback (s : FlushState) : FlushState :=
  if maxControlFrameSize - eventHeaderSize < s.sendBuf.len then s.giveUp bm
  else
    let data := s.sendBuf.fallbackBytes s.pool.shm.mem
    let (buf, shm) := s.sendBuf.recycle bm s.pool.shm
    { s with
      pool := { s.pool with shm := shm }
      sendBuf := buf
      point := .channelRoom ⟨id, .opened, data⟩ }

/-- `flush_v4` once the message is complete, up to the first await. -/
def handOver (s : FlushState) : FlushState :=
  if s.inFallback then s.writeFallback bm id
  else
    let element : QueueElement := ⟨id, s.sendBuf.rootBufOffset, .opened⟩
    match s.put capacity element with
    | some s => s
    | none => { s with point := .queueRoom element queueFullRetryCount }

def flush (s : FlushState) : FlushState :=
  if s.sendBuf.len = 0 then s
  else if s.status ≠ .opened then s.giveUp bm
  else
    let (buf, shm) := s.sendBuf.done bm s.pool.shm
    handOver bm capacity id { s with
      pool := { s.pool with shm := shm }
      sendBuf := buf
      inFallback := s.inFallback || !buf.isFromShm
      handed := none }

/-- A round of `retry_queue_put` after its wait. -/
def retry (element : QueueElement) (rounds : Nat) (sessionClosed : Bool) (s : FlushState) :
    FlushState :=
  if sessionClosed then s.giveUp bm
  else
    match s.put capacity element with
    | some s => s
    | none =>
      if rounds = 0 then s.giveUp bm else { s with point := .queueRoom element rounds }

/-- `close` up to its wakeup, and without the event that it sends over the socket if
the queue is not to be used. -/
def close (shutdown : Bool) (s : FlushState) : FlushState :=
  if s.status = .closed then s
  else
    let closed := { s.giveUp bm with status := .closed }
    if s.status ≠ .opened \/ shutdown \/ s.inFallback \/ capacity <= s.queue.length then closed
    else { closed with queue := s.queue ++ [⟨id, 0, .closed⟩] }

end Calls

/-- The stream belongs to the process on one side of the pool.  A call that does not
fit a `u32` is not considered. -/
def step (views : Pool.Side -> BufferManager) (side : Pool.Side) (capacity id : Nat)
    (s : FlushState) : FlushAction -> Option FlushState
  | .write call =>
    if s.point = .idle /\ call.bytes.length < 2 ^ 32 then
      (s.sendBuf.call (views side) call s.pool.shm).map fun (buf, shm) =>
        { s with
          pool := { s.pool with shm := shm }
          sendBuf := buf
          message := s.message ++ call.bytes }
    else none
  | .flush => if s.point = .idle then some (s.flush (views side) capacity id) else none
  | .closeNotified =>
    match s.point with
    | .queueRoom _ _ => some (s.giveUp (views side))
    | _ => none
  | .retry sessionClosed =>
    match s.point with
    | .queueRoom element (rounds + 1) =>
      some (s.retry (views side) capacity element rounds sessionClosed)
    | _ => none
  | .woken => if s.point = .wakeUpPeer then some s.returned else none
  | .accepted =>
    match s.point with
    | .channelRoom event =>
      some { s with
        channel := s.channel ++ [event]
        point := .reported
        message := []
        handed := some [] }
    | _ => none
  | .timedOut =>
    match s.point with
    | .channelRoom _ => some s.returned
    | _ => none
  | .reported => if s.point = .reported then some s.returned else none
  | .cancel => if s.point = .idle then none else some { s with point := .idle }
  | .close shutdown =>
    if s.point = .idle then some (s.close (views side) capacity id shutdown) else none
  | .release => if s.point = .idle then some (s.giveUp (views side)) else none
  | .halfClose => if s.status = .opened then some { s with status := .halfClosed } else some s
  | .setFallback inFallback => some { s with inFallback := inFallback }
  | .popped => some { s with queue := s.queue.tail }
  | .putOther element =>
    if s.queue.length < capacity then some { s with queue := s.queue ++ [element] } else none
  | .others action => (s.pool.step views action).map fun pool => { s with pool := pool }

end FlushState

/-- A new stream, in a pool of which others may already hold slices. -/
def flushSystem (views : Pool.Side -> BufferManager) (side : Pool.Side) (capacity id : Nat)
    (pool : PoolState) : System FlushState FlushAction where
  init s := s = ⟨pool, [], [], .new, .opened, false, .idle, [], none⟩
  step := FlushState.step views side capacity id

end Stream
end Shmipc
