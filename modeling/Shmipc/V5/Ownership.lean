import Mathlib.Algebra.Order.Group.Nat
import Mathlib.Logic.Function.Basic
import Mathlib.Data.List.Basic
import Shmipc.Base.Transition

namespace Shmipc
namespace V5

open Transition

/-!
# Who holds a block

A block of the segment is allocated by the writing side, travels to the peer as
part of a chain, and comes back as an offset on the release queue.  On the way
it is held by the write buffer, by a message being handed over, by a ring
element, by the event loop's batches, by the inbox, by a readable chunk, by the
pin that zero-copy reads share, or by the release path.

Elements, batches and inbox entries carry only the root of a chain; the other
blocks are found through the `next` links in the block headers, so the links
are part of the state.  A header names its own offset exactly while its block
is allocated, which is what the reading side checks.

Operations without a suspension point are single steps.  Loops of the reader
that copy or skip bytes are one step an iteration.  The allocator appears
through its contract: it hands out a positive offset that is not allocated, and
never has more blocks out than fit the segment.
-/

/-- The longest chain a reader follows. -/
def maxChainNodes : Nat := 2 ^ 32 / 2 ^ 14

/-- The largest message the segment carries. -/
def maxDynShmTransferSize : Nat := 2 ^ 30

/-- The sizes the endpoints were set up with.  Blocks have a minimum size, so a
segment never holds more of them than a reader is willing to follow. -/
structure Capacities where
  blocks : Nat
  ring : Nat
  releases : Nat
  blocks_le : blocks <= maxChainNodes

/-- The blocks of one message on their way to the peer, with the capacity of
the vector they sit in. -/
structure V5Outgoing where
  allocs : List Nat
  capacity : Nat

/-- A readable block.  `pinned` is set once a zero-copy read has borrowed it. -/
structure ReadChunk where
  offset : Nat
  len : Nat
  pos : Nat
  pinned : Bool

def ReadChunk.remaining (chunk : ReadChunk) : Nat :=
  chunk.len - chunk.pos

/-- Offsets collected for a stream, under the generation they were read at. -/
structure V5NotifyBatch where
  generation : Nat
  offsets : List Nat

/-- Everything a block can be held by, on both sides.

A pin is named by the offset it keeps; its strong count is the number of leases
plus the pinned chunk that created it.  `misfreed` records a call of the owner's
free on a block that is not allocated, and `broken` a chain that a reader could
not follow. -/
structure Endpoints where
  live : List Nat
  next : Nat -> Nat
  blockLen : Nat -> Nat
  writerOpen : Bool
  inFallback : Bool
  pending : List Nat
  pendingCapacity : Nat
  fallback : Nat
  len : Nat
  outgoing : List V5Outgoing
  outChunks : List Nat
  ring : List Nat
  popped : Option Nat
  batches : List V5NotifyBatch
  generation : Nat
  readerOpen : Bool
  inbox : List Nat
  ready : List ReadChunk
  pins : List Nat
  leases : List Nat
  pendingRelease : List Nat
  releaseQueue : List Nat
  misfreed : Bool
  broken : Bool

/-- One step of either side.  Where the outcome rests on something outside the
state, the action carries it: whether the last block has room, what the
allocator answered, whether a popped element's stream was found. -/
inductive OwnershipAction where
  | reserve (size : Nat) (fits : Bool) (alloc : Option Nat)
  | flush
  | put (index : Nat)
  | abandon (index : Nat)
  | dropOutChunk
  | discard
  | closeWriter
  | pop
  | batch (found : Bool)
  | flushBatch
  | reset
  | closeReader
  | drain
  | advance (amount : Nat)
  | lease
  | readLease (amount : Nat)
  | cloneLease (offset : Nat)
  | dropLease (offset : Nat)
  | dropChunk
  | dropInput
  | pushRelease
  | drainRelease

namespace Endpoints

def new : Endpoints where
  live := []
  next := fun _ => 0
  blockLen := fun _ => 0
  writerOpen := true
  inFallback := false
  pending := []
  pendingCapacity := 8
  fallback := 0
  len := 0
  outgoing := []
  outChunks := []
  ring := []
  popped := none
  batches := []
  generation := 0
  readerOpen := true
  inbox := []
  ready := []
  pins := []
  leases := []
  pendingRelease := []
  releaseQueue := []
  misfreed := false
  broken := false

/-! ## The writing side -/

/-- The owner's free.  A block that is not allocated is reported and left. -/
def freeAt (s : Endpoints) (offset : Nat) : Endpoints :=
  if offset ∈ s.live then { s with live := s.live.erase offset } else { s with misfreed := true }

/-- Free every block of a list, in order. -/
def freeAll (s : Endpoints) (offsets : List Nat) : Endpoints :=
  offsets.foldl freeAt s

/-- Capacity of a vector after one more push. -/
def grownCapacity (len capacity : Nat) : Nat :=
  if len < capacity then capacity else max (2 * capacity) 4

def reserveFallback (s : Endpoints) (size : Nat) : Endpoints :=
  { s with fallback := s.fallback + size, len := s.len + size }

/-- Append a freshly allocated block and link it behind the previous one. -/
def appendBlock (s : Endpoints) (offset size : Nat) : Endpoints :=
  let fresh := Function.update s.next offset 0
  { s with
    live := offset :: s.live
    next := match s.pending.getLast? with
      | none => fresh
      | some prev => Function.update fresh prev offset
    blockLen := Function.update s.blockLen offset size
    pending := s.pending ++ [offset]
    pendingCapacity := grownCapacity s.pending.length s.pendingCapacity
    len := s.len + size }

/-- The allocator may answer with this offset. -/
def Allocatable (caps : Capacities) (s : Endpoints) (offset : Nat) : Prop :=
  0 < offset /\ offset ∉ s.live /\ s.live.length < caps.blocks

instance (caps : Capacities) (s : Endpoints) (offset : Nat) :
    Decidable (Allocatable caps s offset) :=
  inferInstanceAs (Decidable (_ /\ _ /\ _))

/-- Reserve and fill `size` bytes. -/
def reserve (caps : Capacities) (s : Endpoints) (size : Nat) (fits : Bool)
    (alloc : Option Nat) : Option Endpoints :=
  if size = 0 \/ size > 2 ^ 64 - 1 - s.len \/ s.writerOpen = false then some s
  else if s.fallback ≠ 0 \/ s.inFallback = true then some (s.reserveFallback size)
  else if size > maxDynShmTransferSize \/ s.len > maxDynShmTransferSize - size then
    some (s.reserveFallback size)
  else
    match s.pending.getLast?, fits with
    | some last, true =>
      some { s with
        blockLen := Function.update s.blockLen last (s.blockLen last + size)
        len := s.len + size }
    | _, _ =>
      match alloc with
      | none => some (s.reserveFallback size)
      | some offset =>
        if Allocatable caps s offset then some (s.appendBlock offset size) else none

/-- Free everything without sending. -/
def discard (s : Endpoints) : Endpoints :=
  ({ s with pending := [], fallback := 0, len := 0 }).freeAll s.pending

/-- Take the message's blocks out for the hand-over; refused once part of the
message sits on the heap, and without effect when there are none. -/
def takeShm (s : Endpoints) : Option Endpoints :=
  if s.fallback ≠ 0 then none
  else if s.pending = [] then some s
  else some { s with
    outgoing := s.outgoing ++ [⟨s.pending, s.pendingCapacity⟩]
    pending := []
    pendingCapacity := 0
    len := 0 }

/-- Take everything as chunks for the unix socket. -/
def takeFallback (s : Endpoints) : Endpoints :=
  { s with outChunks := s.outChunks ++ s.pending, pending := [], fallback := 0, len := 0 }

/-- The part of `flush_v5` up to its first suspension point. -/
def flush (s : Endpoints) : Endpoints :=
  if s.writerOpen = false then s.discard
  else if s.len = 0 then s
  else if s.fallback ≠ 0 then ({ s with inFallback := true }).takeFallback
  else
    match s.takeShm with
    | none => s.discard
    | some t => t

/-- Take back the vector a hand-over used if it is the roomier one.  Assigning
it drops whatever the write buffer collected in the meantime. -/
def recycle (s : Endpoints) (outgoing : V5Outgoing) : Endpoints :=
  if outgoing.capacity > s.pendingCapacity then
    { s with pending := [], pendingCapacity := outgoing.capacity }
  else s

/-- The queue takes the message's element; nothing suspends between that and
the recycling of its vector. -/
def put (caps : Capacities) (s : Endpoints) (index : Nat) : Option Endpoints :=
  match s.outgoing[index]? with
  | none => none
  | some outgoing =>
    if s.ring.length < caps.ring then
      some (({ s with
        outgoing := s.outgoing.eraseIdx index
        ring := s.ring ++ outgoing.allocs.head?.toList }).recycle outgoing)
    else none

/-- A hand-over that did not happen: refused, failed, or cancelled while it
waited for room. -/
def abandon (s : Endpoints) (index : Nat) : Option Endpoints :=
  match s.outgoing[index]? with
  | none => none
  | some outgoing =>
    some (({ s with outgoing := s.outgoing.eraseIdx index }).freeAll outgoing.allocs)

/-- A block sent over the socket is freed once its bytes are framed. -/
def dropOutChunk (s : Endpoints) : Option Endpoints :=
  match s.outChunks with
  | [] => none
  | offset :: rest => some (({ s with outChunks := rest }).freeAt offset)

/-! ## The reading side -/

/-- Follow a chain from its root.  The result is the blocks visited and whether
the walk reached the end; it stops early at the node limit, at a repeated
offset, and at a block that is not allocated or names itself as next.  That a message
beyond the size limit stops the walk as well is left out: blocks have no lengths here. -/
def walkChain (live : List Nat) (next : Nat -> Nat) :
    Nat -> List Nat -> Nat -> List Nat × Bool
  | _, _, 0 => ([], true)
  | 0, _, _ + 1 => ([], false)
  | fuel + 1, visited, offset + 1 =>
    if offset + 1 ∈ visited \/ offset + 1 ∉ live \/ next (offset + 1) = offset + 1 then ([], false)
    else
      let rest := walkChain live next fuel ((offset + 1) :: visited) (next (offset + 1))
      ((offset + 1) :: rest.1, rest.2)

/-- The blocks a root stands for. -/
def chain (s : Endpoints) (root : Nat) : List Nat × Bool :=
  walkChain s.live s.next maxChainNodes [] root

/-- Tell the owner that a block is finished with. -/
def free (s : Endpoints) (offset : Nat) : Endpoints :=
  if offset ∈ s.live then { s with pendingRelease := s.pendingRelease ++ [offset] } else s

/-- Release a whole chain, or nothing if it cannot be followed. -/
def freeChain (s : Endpoints) (root : Nat) : Endpoints :=
  match s.chain root with
  | (blocks, true) => { s with pendingRelease := s.pendingRelease ++ blocks }
  | (_, false) => s

/-- Add an offset to the open batch of its generation, or open one. -/
def joinBatch (generation root : Nat) : List V5NotifyBatch -> List V5NotifyBatch
  | [] => [⟨generation, [root]⟩]
  | batch :: rest =>
    if batch.generation = generation then ⟨batch.generation, batch.offsets ++ [root]⟩ :: rest
    else batch :: joinBatch generation root rest

/-- The event loop has a popped element in hand and looks its stream up.  The
chain of a stream that is gone is released. -/
def batchData (s : Endpoints) (found : Bool) : Option Endpoints :=
  match s.popped with
  | none => none
  | some root =>
    let taken := { s with popped := none }
    if found then some { taken with batches := joinBatch s.generation root s.batches }
    else some (taken.freeChain root)

/-- Hand the first batch to its stream, or release its chains if the stream has
been reused or closed since. -/
def flushBatch (s : Endpoints) : Option Endpoints :=
  match s.batches with
  | [] => none
  | first :: rest =>
    let taken := { s with batches := rest }
    if first.offsets = [] then some taken
    else if first.generation = s.generation /\ s.readerOpen = true then
      some { taken with inbox := s.inbox ++ first.offsets }
    else some (first.offsets.foldl freeChain taken)

/-- Retire the generation, unless something is still waiting or unread. -/
def reset (s : Endpoints) : Endpoints :=
  if s.readerOpen = true /\ s.ready = [] /\ s.inbox = [] then
    { s with generation := s.generation + 1 }
  else s

def freshChunk (s : Endpoints) (offset : Nat) : ReadChunk :=
  { offset := offset, len := s.blockLen offset, pos := 0, pinned := false }

/-- Convert delivered chains into readable chunks.  A chain that cannot be
followed ends the conversion, and what comes after it is released. -/
def drainInputs (s : Endpoints) : List Nat -> Endpoints
  | [] => s
  | root :: rest =>
    match s.chain root with
    | (blocks, true) =>
      drainInputs { s with inbox := rest, ready := s.ready ++ blocks.map s.freshChunk } rest
    | (blocks, false) =>
      rest.foldl freeChain
        { s with inbox := [], ready := s.ready ++ blocks.map s.freshChunk, broken := true }

/-- The strong count of the pin that keeps an offset. -/
def shares (s : Endpoints) (offset : Nat) : Nat :=
  s.leases.count offset + s.ready.countP (fun chunk => chunk.pinned && chunk.offset == offset)

/-- The last share of a pin gives the block back. -/
def settlePin (s : Endpoints) (offset : Nat) : Endpoints :=
  if s.shares offset = 0 then ({ s with pins := s.pins.erase offset }).free offset else s

/-- Drop the front chunk: an unpinned one gives its block back, a pinned one
gives up its share of the pin. -/
def dropChunk (s : Endpoints) : Option Endpoints :=
  match s.ready with
  | [] => none
  | chunk :: rest =>
    let taken := { s with ready := rest }
    if chunk.pinned then some (taken.settlePin chunk.offset)
    else some (taken.free chunk.offset)

/-- One iteration of a copying or skipping read. -/
def advance (s : Endpoints) (amount : Nat) : Option Endpoints :=
  match s.ready with
  | [] => none
  | chunk :: rest =>
    let moved := { chunk with pos := chunk.pos + min chunk.remaining amount }
    let s := { s with ready := moved :: rest }
    if moved.remaining = 0 then s.dropChunk else some s

/-- A zero-copy borrow of the front chunk, creating its pin the first time. -/
def lease (s : Endpoints) : Option Endpoints :=
  match s.ready with
  | [] => none
  | chunk :: rest =>
    if chunk.pinned then some { s with leases := chunk.offset :: s.leases }
    else some { s with
      ready := { chunk with pinned := true } :: rest
      pins := chunk.offset :: s.pins
      leases := chunk.offset :: s.leases }

def dropLease (s : Endpoints) (offset : Nat) : Option Endpoints :=
  if offset ∈ s.leases then
    some (({ s with leases := s.leases.erase offset }).settlePin offset)
  else none

/-- An inbox that goes away releases what nobody read. -/
def dropInput (s : Endpoints) : Option Endpoints :=
  match s.inbox with
  | [] => none
  | root :: rest => some (({ s with inbox := rest }).freeChain root)

/-! ## The release path -/

def pushRelease (caps : Capacities) (s : Endpoints) : Option Endpoints :=
  match s.pendingRelease with
  | [] => none
  | offset :: rest =>
    if s.releaseQueue.length < caps.releases then
      some { s with pendingRelease := rest, releaseQueue := s.releaseQueue ++ [offset] }
    else none

def drainRelease (s : Endpoints) : Option Endpoints :=
  match s.releaseQueue with
  | [] => none
  | offset :: rest => some (({ s with releaseQueue := rest }).freeAt offset)

def step (caps : Capacities) (s : Endpoints) : OwnershipAction -> Option Endpoints
  | .reserve size fits alloc => s.reserve caps size fits alloc
  | .flush => some s.flush
  | .put index => s.put caps index
  | .abandon index => s.abandon index
  | .dropOutChunk => s.dropOutChunk
  | .discard => some s.discard
  | .closeWriter => some { s.discard with writerOpen := false }
  | .pop =>
    match s.popped, s.ring with
    | none, root :: rest => some { s with popped := some root, ring := rest }
    | _, _ => none
  | .batch found => s.batchData found
  | .flushBatch => s.flushBatch
  | .reset => some s.reset
  | .closeReader => some { s with readerOpen := false }
  | .drain => some (s.drainInputs s.inbox)
  | .advance amount => s.advance amount
  | .lease => s.lease
  | .readLease amount => s.lease.bind (fun t => t.advance amount)
  | .cloneLease offset =>
    if offset ∈ s.leases then some { s with leases := offset :: s.leases } else none
  | .dropLease offset => s.dropLease offset
  | .dropChunk => s.dropChunk
  | .dropInput => s.dropInput
  | .pushRelease => s.pushRelease caps
  | .drainRelease => s.drainRelease

end Endpoints

/-- All interleavings of the two endpoints of one stream. -/
def ownershipSystem (caps : Capacities) : System Endpoints OwnershipAction where
  init := fun s => s = Endpoints.new
  step := Endpoints.step caps

end V5
end Shmipc
