import Shmipc.V5.DynShm
import Shmipc.V5.Mpsc
import Shmipc.V5.Ownership

namespace Shmipc
namespace V5

open ByteMemory

/-!
# The reading side of a segment

The peer maps the same bytes and is handed offsets into them.  It trusts none of
what it reads: an offset is followed only if a whole header lies behind it, the
header names that very offset, and its length, room and link stay inside the
mapping.  Offsets it has finished with go into the release queue, and wait on
this side while the queue is full.
-/

/-- The releases that the queue holds when it is full. -/
def releaseQueueCap : Nat :=
  match Mpsc.fromRawParts 8 8 0 rqSize with
  | .ok ring => ring.cap
  | .error _ => 0

/-- A run of bytes in the mapping. -/
structure Slice where
  ptr : Nat
  len : Nat
  deriving DecidableEq

structure RemoteManager where
  size : Nat
  pendingRelease : List Int
  closed : Bool

namespace RemoteManager

/-- Map a segment that was received with its advertised size, where zero stands
for the default. -/
def map (fileSize : Nat) (advertised : UInt32) : Option RemoteManager :=
  let expected := if advertised = 0 then dynshmTotalSize else advertised.toNat
  if fileSize ≠ expected \/ fileSize < rqSize + dynshmBufferHeaderSize then none
  else some ⟨fileSize, [], false⟩

/-- The payload at an offset and the offset of the next block of its message. -/
def readInner (r : RemoteManager) (mem : Memory) (globalOffset : Int) : Option (Slice × Int) :=
  if globalOffset < rqSize \/ (r.size : Int) - dynshmBufferHeaderSize < globalOffset then none
  else
    let header := DynShmBufferHeader.read mem globalOffset.toNat
    if header.offset ≠ globalOffset \/ header.cap < header.len then none
    else if r.size - globalOffset.toNat - dynshmBufferHeaderSize < header.cap then none
    else if header.next ≠ 0 /\ (header.next < rqSize \/
        (r.size : Int) - dynshmBufferHeaderSize < header.next \/ header.next = globalOffset) then none
    else some (⟨globalOffset.toNat + dynshmBufferHeaderSize, header.len⟩, header.next)

def read (r : RemoteManager) (mem : Memory) (globalOffset : Int) : Option (Slice × Int) :=
  if r.closed then none else r.readInner mem globalOffset

/-- Push what fits of the held back offsets into the release queue. -/
def flushReleases (r : RemoteManager) (rq : List Int) :
    Except ManagerError Unit × RemoteManager × List Int :=
  let pushed := releaseQueueCap - rq.length
  let rest := r.pendingRelease.drop pushed
  (if rest = [] then .ok () else .error .releaseQueueFull,
    { r with pendingRelease := rest }, rq ++ r.pendingRelease.take pushed)

/-- The loop of `free_chain`, with the offsets it reads.  The first argument is how many
more blocks may be visited. -/
def chainTraced (r : RemoteManager) (mem : Memory) :
    Nat -> List Int -> Int -> Except ManagerError (List Int) × List Int
  | 0, offsets, offset => (if 0 < offset then .error .outOfBounds else .ok offsets, [])
  | nodes + 1, offsets, offset =>
    if 0 < offset then
      if offset ∈ offsets then (.error .invalidOffset, [])
      else
        match r.readInner mem offset with
        | none => (.error .invalidOffset, [offset])
        | some (_, next) =>
          let rest := r.chainTraced mem nodes (offsets ++ [offset]) next
          (rest.1, offset :: rest.2)
    else (.ok offsets, [])

/-- The offsets of a chain. -/
def chainOffsets (r : RemoteManager) (mem : Memory) (nodes : Nat) (offsets : List Int)
    (offset : Int) : Except ManagerError (List Int) :=
  (r.chainTraced mem nodes offsets offset).1

/-- Schedule every block of a chain for release. -/
def freeChain (r : RemoteManager) (mem : Memory) (rq : List Int) (root : Int) :
    Except ManagerError Unit × RemoteManager × List Int :=
  if r.closed then (.error .closed, r, rq)
  else
    match r.chainOffsets mem maxChainNodes [] root with
    | .error err => (.error err, r, rq)
    | .ok offsets =>
      { r with pendingRelease := r.pendingRelease ++ offsets }.flushReleases rq

end RemoteManager

end V5
end Shmipc
