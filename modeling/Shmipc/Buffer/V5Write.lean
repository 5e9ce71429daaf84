import Shmipc.V5.DynShm
import Shmipc.V5.Ownership

namespace Shmipc
namespace BufV5

open ByteMemory Transition V5

/-!
# The V5 write buffer

A message is collected in blocks of the local segment.  Bytes are reserved in the
last block while it has room and otherwise in a new one, which is linked behind
it.  Once an allocation is refused, the stream is in fallback or the message gets
too long, the rest of the message goes to the heap, and the message can no longer
be handed over through the segment.

The manager is shared with the other streams of the session and with the cleanup
thread, so the functions take it and return it.  It comes with the record of the
buffers that are out.
-/

def usizeMax : Nat := 2 ^ 64 - 1

def defaultSingleBufferSize : Nat := 4096

inductive Error
  | sizeTooLarge
  | streamClosed
  | sessionShutdown
  | brokenBuffer
  | notEnoughData
  deriving DecidableEq

/-- What a stream's state tells its write buffer. -/
structure StreamShared where
  isOpen : Bool
  inFallback : Bool

/-- A block this side allocated and still owns: where its header lies, and the
offset that was read from the header. -/
structure ShmBlock where
  hdr : Nat
  offset : Int
  deriving DecidableEq

/-- A vector of bytes with the capacity it was created with. -/
structure HeapChunk where
  bytes : List UInt8
  capacity : Nat
  deriving DecidableEq

structure V5WriteBuffer where
  pending : List ShmBlock
  fallback : List HeapChunk
  len : Nat
  deriving DecidableEq

/-- The room that a reservation hands back. -/
inductive Room
  | none
  | segment (address size : Nat)
  | heap (start size : Nat)
  deriving DecidableEq

/-- The blocks of one message on their way to the peer. -/
structure V5Outgoing where
  allocs : List ShmBlock
  nonempty : allocs ≠ []

def V5Outgoing.root (outgoing : V5Outgoing) : Int :=
  (outgoing.allocs.head outgoing.nonempty).offset

namespace V5WriteBuffer

def new : V5WriteBuffer :=
  ⟨[], [], 0⟩

/-- Reserve bytes on the heap, in the last vector if it has the capacity. -/
def reserveFallback (w : V5WriteBuffer) (size : Nat) : Room × V5WriteBuffer :=
  let fresh : HeapChunk := ⟨[], max size defaultSingleBufferSize⟩
  let (before, last) :=
    match w.fallback.getLast? with
    | some last =>
      if size <= last.capacity - last.bytes.length then (w.fallback.dropLast, last)
      else (w.fallback, fresh)
    | none => (w.fallback, fresh)
  (.heap last.bytes.length size,
    { w with
      fallback := before ++ [{ last with bytes := last.bytes ++ List.replicate size 0 }]
      len := w.len + size })

/-- Extend the block that was allocated last, if there is one and it has room. -/
def reserveLast (w : V5WriteBuffer) (s : SegmentState) (size : Nat) : Option (Nat × SegmentState) :=
  match w.pending.getLast? with
  | none => none
  | some last => s.reserve last.hdr size

/-- Put a freshly allocated block behind the others. -/
def appendBlock (w : V5WriteBuffer) (s : SegmentState) (hdr size : Nat) :
    Room × V5WriteBuffer × SegmentState :=
  let header := DynShmBufferHeader.read s.manager.mem hdr
  let s := w.pending.getLast?.elim s fun prev => s.setNext prev.hdr header.offset
  (.segment (hdr + dynshmBufferHeaderSize) header.len,
    { w with pending := w.pending ++ [⟨hdr, header.offset⟩], len := w.len + size }, s)

/-- Reserve room in the segment: in the last block, or in a new one.  An
allocation that is refused sends the message to the heap. -/
def reserveShm (w : V5WriteBuffer) (s : SegmentState) (now : Int) (size : Nat) :
    Except Error Room × V5WriteBuffer × SegmentState :=
  match w.reserveLast s size with
  | some (room, s) => (.ok (.segment room size), { w with len := w.len + size }, s)
  | none =>
    match s.alloc now size with
    | (.error .closed, s) => (.error .sessionShutdown, w, s)
    | (.error _, s) =>
      let (room, w) := w.reserveFallback size
      (.ok room, w, s)
    | (.ok block, s) =>
      let (room, w, s) := w.appendBlock s block.offset size
      (.ok room, w, s)

/-- Reserve `size` bytes to write into. -/
def reserve (w : V5WriteBuffer) (shared : StreamShared) (s : SegmentState) (now : Int)
    (size : Nat) : Except Error Room × V5WriteBuffer × SegmentState :=
  if size = 0 then (.ok .none, w, s)
  else if usizeMax - w.len < size then (.error .sizeTooLarge, w, s)
  else if shared.isOpen = false then (.error .streamClosed, w, s)
  else if w.fallback ≠ [] \/ shared.inFallback = true then
    let (room, w) := w.reserveFallback size
    (.ok room, w, s)
  else if maxDynShmTransferSize < size \/ maxDynShmTransferSize - size < w.len then
    let (room, w) := w.reserveFallback size
    (.ok room, w, s)
  else w.reserveShm s now size

/-- Copy a payload into reserved room.  The copy fails unless the lengths agree. -/
def fill (w : V5WriteBuffer) (s : SegmentState) (data : List UInt8) :
    Room -> Option (V5WriteBuffer × SegmentState)
  | .none => if data.length = 0 then some (w, s) else none
  | .segment address size => if data.length = size then some (w, s.store address data) else none
  | .heap start size =>
    if data.length = size then
      match w.fallback.getLast? with
      | none => none
      | some last =>
        some ({ w with
          fallback := w.fallback.dropLast ++
            [{ last with bytes := last.bytes.take start ++ data }] }, s)
    else none

/-- Write a payload; `none` is a copy that fails. -/
def writeBytes (w : V5WriteBuffer) (shared : StreamShared) (s : SegmentState) (now : Int)
    (data : List UInt8) : Option (Except Error Nat × V5WriteBuffer × SegmentState) :=
  if data = [] then some (.ok 0, w, s)
  else
    match w.reserve shared s now data.length with
    | (.error err, w, s) => some (.error err, w, s)
    | (.ok room, w, s) =>
      (w.fill s data room).map fun (w, s) => (.ok data.length, w, s)

/-- Take the blocks of the message out, for the hand-over to the peer. -/
def takeShm (w : V5WriteBuffer) : Except Error (Option V5Outgoing) × V5WriteBuffer :=
  if w.fallback ≠ [] then (.error .brokenBuffer, w)
  else if nonempty : w.pending ≠ [] then
    (.ok (some ⟨w.pending, nonempty⟩), { w with pending := [], len := 0 })
  else (.ok none, w)

end V5WriteBuffer

/-! ## Runs of a message -/

/-- A segment in use, the write buffer of one stream, and the bytes that were
written to it. -/
structure MessageState where
  segment : SegmentState
  writer : V5WriteBuffer
  written : List UInt8

/-- The stream writes, or anybody else uses the segment. -/
inductive MessageAction
  | write (shared : StreamShared) (now : Int) (data : List UInt8)
  | other (action : SegmentAction)

namespace MessageState

/-- Somebody else's operation does not concern the blocks of the write buffer. -/
def Foreign (s : MessageState) (action : SegmentAction) : Prop :=
  ∀ block ∈ s.writer.pending, action.target ≠ some block.hdr

instance (s : MessageState) (action : SegmentAction) : Decidable (s.Foreign action) :=
  inferInstanceAs (Decidable (∀ block ∈ s.writer.pending, action.target ≠ some block.hdr))

def step (s : MessageState) : MessageAction -> Option MessageState
  | .write shared now data =>
    if 0 < now /\ data ≠ [] then
      match s.writer.writeBytes shared s.segment now data with
      | none => none
      | some (.error _, writer, segment) => some ⟨segment, writer, s.written⟩
      | some (.ok _, writer, segment) => some ⟨segment, writer, s.written ++ data⟩
    else none
  | .other action =>
    if s.Foreign action then
      (s.segment.step action).map fun segment => { s with segment := segment }
    else none

end MessageState

/-- One message over the default segment, from an empty write buffer on. -/
def messageSystem (kind : AllocatorKind) (pinned : Option Nat) :
    System MessageState MessageAction where
  init := fun s =>
    LocalManager.new kind pinned = .ok s.segment.manager /\ s.segment.live = [] /\
      s.writer = .new /\ s.written = []
  step := MessageState.step

end BufV5
end Shmipc
