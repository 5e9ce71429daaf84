import Mathlib.Data.List.DropRight
import Shmipc.V5.Region

namespace Shmipc
namespace V5

open ByteMemory Tiling Transition

/-!
# The manager of a segment

The segment holds the release queue, then the shared regions one after the
other, then the dedicated regions, which are carved downwards from the end.  A
payload that fits a block of a shared region is served from there; anything
larger gets a dedicated region, a freed one of about the right size if there is
one.  The peer names the buffers it has finished with in the release queue, and
the owner frees them before it allocates.

The release queue occupies the first bytes of the mapping and hands its offsets
over in order, so it is a list here.  The handle, the cleanup thread and the
debug output are left out; an operation of that thread is an action like any
other.
-/

def rqSize : Nat := 128 * 4096

def dynshmTotalSize : Nat := 4 <<< 30

def minBlockSize : Nat := 16 <<< 10

def maxBlockSize : Nat := 256 <<< 10

def sharedRegionSize : Nat := 16 <<< 20

/-- How long a region may sit idle, in nanoseconds. -/
def maxAge : Int := 30 * 1000000000

/-- The time of a dedicated region whose pages have been handed back. -/
def dedicatedRegionPunched : Int := -1

def defaultPinnedRegionNum : Nat := 4

inductive ManagerError
  | noSpace
  | notAllocated
  | invalidOffset
  | outOfBounds
  | releaseQueueFull
  | closed
  deriving DecidableEq

inductive NewManagerError
  | segmentTooSmall (total : Nat)
  | sharedCapBelowPinned (sharedCap pinnedShared : Nat)
  | blockSizesNotPowersOfTwo
  | minBlockExceedsMax (minBlock maxBlock : Nat)
  | sizeDoesNotFitOffT (total : Nat)
  | region (err : RegionError)
  deriving DecidableEq

structure Dedicated where
  regions : List DedicatedRegion
  offset : Nat

structure LocalManager where
  mem : Memory
  size : Nat
  rq : List Int
  sharedRegions : List SharedRegion
  minSharedCount : Nat
  maxSharedPayload : Nat
  maxSharedOffset : Nat
  allocIdx : Nat
  dedicated : Dedicated
  closed : Bool

/-- Round a payload and its header up to whole blocks.  Zero for a size that the
wire format cannot describe. -/
def calcDedicatedRegionSize (dataSize : Nat) : Nat :=
  if 2 ^ 31 - 1 < dataSize then 0
  else (dataSize + dynshmBufferHeaderSize + maxBlockSize - 1) / maxBlockSize * maxBlockSize

namespace LocalManager

/-! ## Construction -/

/-- Lay shared regions out one after the other; also returns where they end. -/
def buildRegions (kind : AllocatorKind) (minBlock maxBlock : UInt64) :
    Nat -> Nat -> Except RegionError (List SharedRegion × Nat)
  | 0, maxSharedOffset => .ok ([], maxSharedOffset)
  | count + 1, maxSharedOffset =>
    match SharedRegion.new kind (UInt64.ofNat sharedRegionSize) maxSharedOffset minBlock
        maxBlock with
    | .error err => .error err
    | .ok region =>
      (buildRegions kind minBlock maxBlock count (maxSharedOffset + sharedRegionSize)).map
        fun (rest, last) => (region :: rest, last)

/-- Build a segment of `total` bytes over fresh, zeroed memory. -/
def newWithSize (kind : AllocatorKind) (total pinnedShared sharedCap : Nat)
    (minBlock maxBlock : UInt64) : Except NewManagerError LocalManager :=
  if total < rqSize + sharedRegionSize then .error (.segmentTooSmall total)
  else if sharedCap < pinnedShared then .error (.sharedCapBelowPinned sharedCap pinnedShared)
  else if isPowerOfTwo minBlock.toNat = false \/ isPowerOfTwo maxBlock.toNat = false then
    .error .blockSizesNotPowersOfTwo
  else if maxBlock < minBlock then .error (.minBlockExceedsMax minBlock.toNat maxBlock.toNat)
  else if 2 ^ 63 <= total then .error (.sizeDoesNotFitOffT total)
  else
    match buildRegions kind minBlock maxBlock (sharedCap / sharedRegionSize) rqSize with
    | .error err => .error (.region err)
    | .ok (sharedRegions, maxSharedOffset) =>
      .ok {
        mem := fun _ => 0
        size := total
        rq := []
        sharedRegions := sharedRegions
        minSharedCount := pinnedShared / sharedRegionSize
        maxSharedPayload := (sharedRegions.head?.map SharedRegion.maxPayload).getD 0
        maxSharedOffset := maxSharedOffset
        allocIdx := 0
        dedicated := ⟨[], total⟩
        closed := false }

/-- The number of pinned regions, from the setting if it is a number. -/
def pinnedRegionNum (raw : Option Nat) (maxRegionNum : Nat) : Nat :=
  min (raw.getD defaultPinnedRegionNum) maxRegionNum

/-- The default segment, a quarter of it shared. -/
def new (kind : AllocatorKind) (pinned : Option Nat) : Except NewManagerError LocalManager :=
  let sharedCap := dynshmTotalSize / 4
  newWithSize kind dynshmTotalSize
    (sharedRegionSize * pinnedRegionNum pinned (sharedCap / sharedRegionSize)) sharedCap
    (UInt64.ofNat minBlockSize) (UInt64.ofNat maxBlockSize)

/-! ## Release -/

/-- The index of the shared region an offset falls in. -/
def sharedByOffset (m : LocalManager) (offset : Int) : Option Nat :=
  if offset < rqSize \/ (m.maxSharedOffset : Int) <= offset then none
  else
    let index := (offset.toNat - rqSize) / sharedRegionSize
    if index < m.sharedRegions.length then some index else none

/-- Free the first of the dedicated regions that starts at an offset. -/
def freeDedicated (now : Int) (offset : Int) :
    List DedicatedRegion -> Memory -> List DedicatedRegion × Memory
  | [], mem => ([], mem)
  | region :: rest, mem =>
    if (region.offset : Int) = offset then
      match region.markFreed mem now with
      | .error _ => (region :: rest, mem)
      | .ok (region, mem) => (region :: rest, mem)
    else
      let (rest, mem) := freeDedicated now offset rest mem
      (region :: rest, mem)

/-- Hand one offset back to the region that owns it; an offset that names no
live buffer is dropped. -/
def freeAtInner (m : LocalManager) (now : Int) (offset : Int) : LocalManager :=
  match m.sharedByOffset offset with
  | some index =>
    match m.sharedRegions[index]? with
    | none => m
    | some region =>
      let (_, region, mem) := region.freeAt m.mem offset
      { m with sharedRegions := m.sharedRegions.set index region, mem := mem }
  | none =>
    let (regions, mem) := freeDedicated now offset m.dedicated.regions m.mem
    { m with dedicated := { m.dedicated with regions := regions }, mem := mem }

/-- Free everything the release queue holds. -/
def drainRqInner (m : LocalManager) (now : Int) : LocalManager :=
  m.rq.foldl (fun m offset => m.freeAtInner now offset) { m with rq := [] }

def drainRq (m : LocalManager) (now : Int) : LocalManager :=
  if m.closed then m else m.drainRqInner now

def freeAt (m : LocalManager) (now : Int) (offset : Int) : LocalManager :=
  if m.closed then m else m.freeAtInner now offset

def rqPending (m : LocalManager) : Nat :=
  m.rq.length

/-! ## Allocation -/

/-- Reuse the first freed region that holds the request with at most a block of
slack. -/
def reuseDedicated (now : Int) (size regionSize : Nat) (mem : Memory) :
    List DedicatedRegion -> Option (Block × List DedicatedRegion × Memory)
  | [] => none
  | region :: rest =>
    let later := (reuseDedicated now size regionSize mem rest).map
      fun (block, rest, mem) => (block, region :: rest, mem)
    if region.isFreed mem /\ regionSize <= region.size /\
        region.size <= regionSize + maxBlockSize then
      match region.alloc mem now size with
      | some (block, region, mem) => some (block, region :: rest, mem)
      | none => later
    else later

/-- Serve a payload from a region of its own. -/
def allocDedicated (m : LocalManager) (now : Int) (size : Nat) :
    Except ManagerError Block × LocalManager :=
  let regionSize := calcDedicatedRegionSize size
  if regionSize = 0 then (.error .noSpace, m)
  else
    match reuseDedicated now size regionSize m.mem m.dedicated.regions with
    | some (block, regions, mem) =>
      (.ok block, { m with dedicated := { m.dedicated with regions := regions }, mem := mem })
    | none =>
      if m.dedicated.offset < regionSize then (.error .noSpace, m)
      else
        let newOffset := m.dedicated.offset - regionSize
        if newOffset < m.maxSharedOffset then (.error .noSpace, m)
        else
          let (region, mem) := DedicatedRegion.new m.mem regionSize newOffset
          match region.alloc mem now size with
          | none => (.error .noSpace, { m with mem := mem })
          | some (block, region, mem) =>
            (.ok block, { m with
              dedicated := ⟨m.dedicated.regions ++ [region], newOffset⟩, mem := mem })

/-- Ask the shared regions in the given order. -/
def allocShared (now : Int) (size : Nat) : List Nat -> LocalManager -> Option Block × LocalManager
  | [], m => (none, m)
  | index :: rest, m =>
    match m.sharedRegions[index]? with
    | none => allocShared now size rest m
    | some region =>
      match region.alloc m.mem now size with
      | (some block, region, mem) =>
        (some block,
          { m with sharedRegions := m.sharedRegions.set index region, mem := mem })
      | (none, region, mem) =>
        allocShared now size rest
          { m with sharedRegions := m.sharedRegions.set index region, mem := mem }

/-- The pinned regions from the round-robin cursor on, then the others. -/
def allocOrder (m : LocalManager) : List Nat × LocalManager :=
  let others := List.range' m.minSharedCount (m.sharedRegions.length - m.minSharedCount)
  if 0 < m.minSharedCount then
    let start := (m.allocIdx + 1) % 2 ^ 32
    ((List.range m.minSharedCount).map (fun i => (start + i) % m.minSharedCount) ++ others,
      { m with allocIdx := start })
  else (others, m)

/-- Allocate a buffer with room for `size` bytes. -/
def alloc (m : LocalManager) (now : Int) (size : Nat) :
    Except ManagerError Block × LocalManager :=
  if m.closed then (.error .closed, m)
  else if size = 0 then (.error .noSpace, m)
  else
    let m := if 0 < m.rqPending then m.drainRqInner now else m
    if m.maxSharedPayload < size then m.allocDedicated now size
    else
      let (order, m) := m.allocOrder
      match allocShared now size order m with
      | (some block, m) => (.ok block, m)
      | (none, m) => (.error .noSpace, m)

/-! ## Pruning -/

/-- Punch the idle regions among those that are not pinned; also returns the
ranges that were punched. -/
def pruneShared (now : Int) (regions : List SharedRegion) : List SharedRegion × List Span :=
  (regions.map fun region => (region.punchIfIdle now maxAge).2,
    (regions.filter fun region => (region.punchIfIdle now maxAge).1).map fun region =>
      ⟨region.offset, region.size⟩)

/-- A freed dedicated region that has been idle for long enough. -/
def idleDedicated (now : Int) (mem : Memory) (region : DedicatedRegion) : Bool :=
  0 < region.updated /\ region.isFreed mem /\ maxAge <= now - region.updated

/-- An idle region is punched and marked, the others are left alone. -/
def markIdle (now : Int) (mem : Memory) (region : DedicatedRegion) : DedicatedRegion :=
  if idleDedicated now mem region then { region with updated := dedicatedRegionPunched }
  else region

/-- Drop the punched regions at the end. -/
def trimPunched (regions : List DedicatedRegion) : List DedicatedRegion :=
  regions.rdropWhile fun region => region.updated == dedicatedRegionPunched

/-- Hand back the pages of idle regions and give up the punched dedicated
regions at the end; also returns the ranges that were punched. -/
def pruneIdleRegions (m : LocalManager) (now : Int) : LocalManager × List Span :=
  if m.closed then (m, [])
  else
    let (unpinned, punched) := pruneShared now (m.sharedRegions.drop m.minSharedCount)
    let idle := m.dedicated.regions.filter (idleDedicated now m.mem)
    let kept := trimPunched (m.dedicated.regions.map (markIdle now m.mem))
    let offset :=
      match kept.getLast? with
      | some region => region.offset
      | none => m.size
    ({ m with
      sharedRegions := m.sharedRegions.take m.minSharedCount ++ unpinned
      dedicated := ⟨kept, offset⟩ },
    punched ++ idle.map fun region => ⟨region.offset, region.size⟩)

end LocalManager

/-! ## Runs of a segment -/

/-- The buffer at the offset holds `size` bytes more. -/
def Block.grow (offset size : Nat) (block : Block) : Block :=
  if block.offset = offset then { block with len := block.len + size } else block

/-- A manager in use and the buffers that were handed out and not freed. -/
structure SegmentState where
  manager : LocalManager
  live : List Block

/-- What the owner, the peer and the cleanup thread do with a segment: allocate,
release a live buffer directly or through the queue, drain and prune, and fill
and link buffers that are held. -/
inductive SegmentAction
  | alloc (now : Int) (size : Nat)
  | freeAt (now : Int) (offset : Nat)
  | release (offset : Nat)
  | drain (now : Int)
  | prune (now : Int)
  | reserve (offset size : Nat)
  | setNext (offset next : Nat)
  | store (offset index : Nat) (bytes : List UInt8)
  deriving DecidableEq

/-- The buffer that an operation frees, releases or writes to. -/
def SegmentAction.target : SegmentAction -> Option Nat
  | .freeAt _ offset => some offset
  | .release offset => some offset
  | .reserve offset _ => some offset
  | .setNext offset _ => some offset
  | .store offset _ _ => some offset
  | .alloc _ _ => none
  | .drain _ => none
  | .prune _ => none

namespace SegmentState

/-- The buffer is live and its release is not on its way. -/
def Held (s : SegmentState) (offset : Nat) : Prop :=
  offset ∈ s.live.map Block.offset /\ (offset : Int) ∉ s.manager.rq

instance (s : SegmentState) (offset : Nat) : Decidable (s.Held offset) :=
  inferInstanceAs (Decidable (_ /\ _))

/-- The buffers that stay live when the queue is drained. -/
def unreleased (s : SegmentState) : List Block :=
  s.live.filter fun block => (block.offset : Int) ∉ s.manager.rq

/-- Allocate a buffer.  What the queue named is freed on the way, unless the
request was refused at once. -/
def alloc (s : SegmentState) (now : Int) (size : Nat) : Except ManagerError Block × SegmentState :=
  match s.manager.alloc now size with
  | (.error .closed, manager) => (.error .closed, ⟨manager, s.live⟩)
  | (.error err, manager) => (.error err, ⟨manager, if size = 0 then s.live else s.unreleased⟩)
  | (.ok block, manager) => (.ok block, ⟨manager, block :: s.unreleased⟩)

/-- Extend a buffer; also returns where the new room starts. -/
def reserve (s : SegmentState) (offset size : Nat) : Option (Nat × SegmentState) :=
  (DynShmBufferHeader.reserve s.manager.mem offset size).map fun (room, mem) =>
    (room, ⟨{ s.manager with mem := mem }, s.live.map (Block.grow offset size)⟩)

/-- Link a buffer to the next one of its message. -/
def setNext (s : SegmentState) (offset : Nat) (next : Int) : SegmentState :=
  { s with manager := { s.manager with
    mem := DynShmBufferHeader.setNext s.manager.mem offset next } }

/-- Copy bytes to an address. -/
def store (s : SegmentState) (address : Nat) (bytes : List UInt8) : SegmentState :=
  { s with manager := { s.manager with mem := writeBytes s.manager.mem address bytes } }

/-- One operation.  The clock is past the epoch, since zero marks a region that
is not in use. -/
def step (s : SegmentState) : SegmentAction -> Option SegmentState
  | .alloc now size => if 0 < now then some (s.alloc now size).2 else none
  | .freeAt now offset =>
    if 0 < now /\ s.Held offset then
      some ⟨s.manager.freeAt now offset,
        s.live.filter fun block => block.offset ≠ offset⟩
    else none
  | .release offset =>
    if s.Held offset then
      some { s with manager := { s.manager with rq := s.manager.rq ++ [(offset : Int)] } }
    else none
  | .drain now => if 0 < now then some ⟨s.manager.drainRq now, s.unreleased⟩ else none
  | .prune now =>
    if 0 < now then some { s with manager := (s.manager.pruneIdleRegions now).1 } else none
  | .reserve offset size =>
    if s.Held offset then some ((s.reserve offset size).elim s Prod.snd) else none
  | .setNext offset next =>
    if s.Held offset /\ s.Held next then some (s.setNext offset next) else none
  | .store offset index bytes =>
    if s.Held offset /\
        index + bytes.length <= (DynShmBufferHeader.read s.manager.mem offset).cap then
      some (s.store (offset + dynshmBufferHeaderSize + index) bytes)
    else none

end SegmentState

/-- All runs of a segment built by `new_with_size`. -/
def segmentSystem (kind : AllocatorKind) (total pinnedShared sharedCap : Nat)
    (minBlock maxBlock : UInt64) : System SegmentState SegmentAction where
  init := fun s =>
    LocalManager.newWithSize kind total pinnedShared sharedCap minBlock maxBlock =
      .ok s.manager /\ s.live = []
  step := SegmentState.step

end V5
end Shmipc
