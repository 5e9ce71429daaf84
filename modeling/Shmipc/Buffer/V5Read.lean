import Shmipc.Buffer.V5Write
import Shmipc.V5.Remote

namespace Shmipc
namespace BufV5

open ByteMemory V5

/-!
# The V5 read buffer

The event loop delivers the roots of chains and, for messages that came over the
socket, their bytes.  Draining the inbox turns them into readable chunks: a chain
is followed block by block, and each block becomes a chunk that points into the
peer's segment.  The walk is bounded by the number of blocks, by the bytes of one
message and by a set of the blocks seen, since the links are the peer's.

The list that the inbox is swapped with is only there to save an allocation and
is left out.
-/

/-- Something that was delivered and not looked at yet. -/
inductive PendingInput
  | shm (root : Int)
  | heap (bytes : List UInt8)
  deriving DecidableEq, Repr

/-- Where the bytes of a chunk are; `pinned` is set once a read has borrowed the
block. -/
inductive ChunkSrc
  | shm (offset : Int) (slice : Slice) (pinned : Bool)
  | heap (bytes : List UInt8)
  deriving DecidableEq

structure ReadChunk where
  src : ChunkSrc
  pos : Nat
  deriving DecidableEq

/-- The bytes of a chunk, those that were consumed included. -/
def ReadChunk.bytes (chunk : ReadChunk) (mem : Memory) : List UInt8 :=
  match chunk.src with
  | .shm _ slice _ => readBytes mem slice.ptr slice.len
  | .heap bytes => bytes

structure V5ReadBuffer where
  inbox : List PendingInput
  ready : List ReadChunk
  len : Nat

namespace V5ReadBuffer

/-- What a reader gets to see, in order. -/
def readable (b : V5ReadBuffer) (mem : Memory) : List UInt8 :=
  b.ready.flatMap fun chunk => (chunk.bytes mem).drop chunk.pos

/-- Put a chunk behind the others. -/
def pushBack (b : V5ReadBuffer) (src : ChunkSrc) (len : Nat) : V5ReadBuffer :=
  { b with ready := b.ready ++ [⟨src, 0⟩], len := b.len + len }

/-- The loop of `walk_chain`, with the offsets it reads.  The first argument is how many
more blocks may be visited, so the loop is at its first block while it still equals the
limit. -/
def walkFrom (mgr : RemoteManager) (mem : Memory) (root : Int) :
    Nat -> Option (List Int) -> Nat -> Int -> V5ReadBuffer ->
      (Except Error Nat × V5ReadBuffer) × List Int
  | 0, _, chainTotal, offset, b =>
    (if 0 < offset then (.error .brokenBuffer, b) else (.ok chainTotal, b), [])
  | nodes + 1, visited, chainTotal, offset, b =>
    if 0 < offset then
      let later := nodes + 1 < maxChainNodes
      let seen := visited.getD [root]
      if later /\ offset ∈ seen then ((.error .brokenBuffer, b), [])
      else
        let visited := if later then some (offset :: seen) else visited
        match mgr.read mem offset with
        | none => ((.error .brokenBuffer, b), [offset])
        | some (slice, next) =>
          if maxDynShmTransferSize < chainTotal + slice.len then
            ((.error .sizeTooLarge, b), [offset])
          else
            let rest := walkFrom mgr mem root nodes visited (chainTotal + slice.len) next
              (b.pushBack (.shm offset slice false) slice.len)
            (rest.1, offset :: rest.2)
    else ((.ok chainTotal, b), [])

/-- The walk of a message, with the offsets it reads. -/
def walkChainTraced (b : V5ReadBuffer) (mgr : RemoteManager) (mem : Memory) (root : Int) :
    (Except Error Nat × V5ReadBuffer) × List Int :=
  walkFrom mgr mem root maxChainNodes none 0 root b

/-- Follow the chain of one message. -/
def walkChain (b : V5ReadBuffer) (mgr : RemoteManager) (mem : Memory) (root : Int) :
    Except Error Nat × V5ReadBuffer :=
  (b.walkChainTraced mgr mem root).1

/-- Give the chains back that a failed drain does not look at any more. -/
def freeRest (mem : Memory) : List PendingInput -> RemoteManager -> List Int ->
    RemoteManager × List Int
  | [], mgr, rq => (mgr, rq)
  | .heap _ :: rest, mgr, rq => freeRest mem rest mgr rq
  | .shm root :: rest, mgr, rq =>
    let (_, mgr, rq) := mgr.freeChain mem rq root
    freeRest mem rest mgr rq

/-- Convert inputs in order until one of them fails. -/
def drainInputs (mem : Memory) : List PendingInput -> Nat -> V5ReadBuffer -> RemoteManager ->
    List Int -> Except Error Nat × V5ReadBuffer × RemoteManager × List Int
  | [], total, b, mgr, rq => (.ok total, b, mgr, rq)
  | .heap bytes :: rest, total, b, mgr, rq =>
    drainInputs mem rest (total + bytes.length) (b.pushBack (.heap bytes) bytes.length) mgr rq
  | .shm root :: rest, total, b, mgr, rq =>
    match b.walkChain mgr mem root with
    | (.ok added, b) => drainInputs mem rest (total + added) b mgr rq
    | (.error err, b) =>
      let (mgr, rq) := freeRest mem rest mgr rq
      (.error err, b, mgr, rq)

/-- Convert everything that was delivered; returns how many bytes that added. -/
def drainPending (b : V5ReadBuffer) (mgr : RemoteManager) (mem : Memory) (rq : List Int) :
    Except Error Nat × V5ReadBuffer × RemoteManager × List Int :=
  drainInputs mem b.inbox 0 { b with inbox := [] } mgr rq

end V5ReadBuffer

end BufV5
end Shmipc
