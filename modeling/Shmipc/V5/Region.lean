import Shmipc.V5.BuddySafety
import Shmipc.V5.BufferHeader
import Shmipc.V5.Fixed

namespace Shmipc
namespace V5

open ByteMemory Tiling

/-!
# Regions

A shared region serves many buffers at once through the allocator that was
chosen when the process started.  A dedicated region is one buffer; the offset
in its header doubles as the busy flag.  Both are ranges of one mapping, so the
functions take the memory and the region, and the offsets they hand out are
offsets into the mapping.

Time is read once an operation.  A time of zero is how a region says that it
has not been used since it was built or punched.
-/

/-! ## The allocator of a region -/

inductive RegionAllocator
  | buddy (allocator : BuddyAllocator)
  | fixed (allocator : FixedAllocator)

/-- The choice made by `SHMIPC_MEM_ALLOCATOR`. -/
inductive AllocatorKind
  | buddy
  | fixed
  deriving DecidableEq

namespace RegionAllocator

def alloc (arena : Arena) (mem : Memory) (size : Nat) :
    RegionAllocator -> Option Allocation × RegionAllocator × Memory
  | .buddy b =>
    let (allocation, b, mem) := b.alloc arena mem size
    (allocation, .buddy b, mem)
  | .fixed f =>
    let (allocation, f, mem) := f.alloc arena mem size
    (allocation, .fixed f, mem)

def maxAllocation : RegionAllocator -> Nat
  | .buddy b => b.maxAllocation
  | .fixed f => f.maxAllocation

def freeAt (arena : Arena) (mem : Memory) (offset : Nat) :
    RegionAllocator -> Except RegionError (RegionAllocator × Memory)
  | .buddy b => (b.freeAt arena mem offset).map fun (b, mem) => (.buddy b, mem)
  | .fixed f => (f.freeAt arena mem offset).map fun (f, mem) => (.fixed f, mem)

def isValidOffset (offset : Nat) : RegionAllocator -> Bool
  | .buddy b => b.isValidOffset offset
  | .fixed f => f.isValidOffset offset

def reset (arena : Arena) : RegionAllocator -> Except RegionError RegionAllocator
  | .buddy b => (b.reset arena).map .buddy
  | .fixed f => (f.reset arena).map .fixed

end RegionAllocator

/-! ## Shared regions -/

/-- A buffer as it was handed out: the offset of its header, and the length and
room that the header is stamped with before they are cut to four bytes. -/
structure Block where
  offset : Nat
  len : Nat
  cap : Nat
  deriving DecidableEq

structure SharedRegion where
  offset : Nat
  size : Nat
  allocator : RegionAllocator
  allocs : Nat
  activatedAt : Int
  stale : Bool

namespace SharedRegion

def arena (r : SharedRegion) : Arena :=
  ⟨r.offset, r.size⟩

/-- The classes of the fixed allocator over a region: half of it smallest
blocks, a fifth of it largest blocks, and blocks in between. -/
def fixedClasses (minBlock maxBlock : UInt64) : List SizePercentPair :=
  let mid := maxBlock / 4
  let mid := if mid <= minBlock then (minBlock + maxBlock) / 2 else mid
  [⟨minBlock.toNat % 2 ^ 32, 50⟩, ⟨mid.toNat % 2 ^ 32, 30⟩, ⟨maxBlock.toNat % 2 ^ 32, 20⟩]

def new (kind : AllocatorKind) (size : UInt64) (offset : Nat) (minBlock maxBlock : UInt64) :
    Except RegionError SharedRegion :=
  let allocator : Except RegionError RegionAllocator :=
    match kind with
    | .fixed =>
      (FixedAllocator.newFromConfig size.toNat (fixedClasses minBlock maxBlock)).map .fixed
    | .buddy => (BuddyAllocator.newWithBlockSize size minBlock maxBlock).map .buddy
  allocator.map fun allocator => {
    offset := offset
    size := size.toNat
    allocator := allocator
    allocs := 0
    activatedAt := 0
    stale := false }

/-- The largest payload the region can hand out. -/
def maxPayload (r : SharedRegion) : Nat :=
  r.allocator.maxAllocation - dynshmBufferHeaderSize

/-- Bring a region that nothing was allocated from into use. -/
def activate (r : SharedRegion) (now : Int) : Option SharedRegion :=
  if r.activatedAt = 0 then
    if r.stale then
      match r.allocator.reset r.arena with
      | .error _ => none
      | .ok allocator =>
        some { r with allocator := allocator, stale := false, allocs := 0, activatedAt := now }
    else some { r with allocs := 0, activatedAt := now }
  else some r

/-- Allocate a buffer with room for `size` bytes and stamp its header. -/
def alloc (r : SharedRegion) (mem : Memory) (now : Int) (size : Nat) :
    Option Block × SharedRegion × Memory :=
  match r.activate now with
  | none => (none, r, mem)
  | some r =>
    match r.allocator.alloc r.arena mem (dynshmBufferHeaderSize + size) with
    | (none, allocator, mem) => (none, { r with allocator := allocator }, mem)
    | (some allocation, allocator, mem) =>
      let block : Block :=
        ⟨r.offset + allocation.dataOffset, size, allocation.cap - dynshmBufferHeaderSize⟩
      (some block, { r with allocator := allocator, allocs := r.allocs + 1 },
        DynShmBufferHeader.write mem block.offset ⟨block.offset, 0, block.len, block.cap⟩)

/-- Release the buffer at an offset of the mapping.  The offset in the header
is cleared before the allocator has its say. -/
def freeAt (r : SharedRegion) (mem : Memory) (globalOffset : Int) :
    Except RegionError Unit × SharedRegion × Memory :=
  if globalOffset - r.offset < 0 then (.error .invalidOffset, r, mem)
  else
    let localOffset := (globalOffset - r.offset).toNat
    if r.allocator.isValidOffset localOffset = false then (.error .invalidOffset, r, mem)
    else if (DynShmBufferHeader.read mem (r.offset + localOffset)).offset = 0 then
      (.error .notAllocated, r, mem)
    else
      let mem := DynShmBufferHeader.setOffset mem (r.offset + localOffset) 0
      match r.allocator.freeAt r.arena mem localOffset with
      | .error err => (.error err, r, mem)
      | .ok (allocator, mem) =>
        (.ok (), { r with allocator := allocator, allocs := r.allocs - 1 }, mem)

/-- Retire a region that has been empty for long enough.  The pages that
`punch` drops are shared, so their bytes survive. -/
def punchIfIdle (r : SharedRegion) (now maxAge : Int) : Bool × SharedRegion :=
  if r.allocs ≠ 0 \/ r.activatedAt = 0 \/ now - r.activatedAt < maxAge then (false, r)
  else (true, { r with activatedAt := 0, stale := true })

end SharedRegion

/-! ## Dedicated regions -/

structure DedicatedRegion where
  offset : Nat
  size : Nat
  updated : Int
  deriving DecidableEq

namespace DedicatedRegion

/-- Build a region over a range whose bytes may be left from an earlier use. -/
def new (mem : Memory) (size offset : Nat) : DedicatedRegion × Memory :=
  (⟨offset, size, 0⟩, DynShmBufferHeader.write mem offset ⟨0, 0, 0, 0⟩)

def isFreed (r : DedicatedRegion) (mem : Memory) : Bool :=
  (DynShmBufferHeader.read mem r.offset).offset = 0

/-- Hand the whole region out. -/
def alloc (r : DedicatedRegion) (mem : Memory) (now : Int) (size : Nat) :
    Option (Block × DedicatedRegion × Memory) :=
  if r.isFreed mem = false \/ r.size < size + dynshmBufferHeaderSize then none
  else
    let block : Block := ⟨r.offset, size, r.size - dynshmBufferHeaderSize⟩
    some (block, { r with updated := now },
      DynShmBufferHeader.write mem block.offset ⟨block.offset, 0, block.len, block.cap⟩)

def markFreed (r : DedicatedRegion) (mem : Memory) (now : Int) :
    Except RegionError (DedicatedRegion × Memory) :=
  if (DynShmBufferHeader.read mem r.offset).offset = 0 then .error .notAllocated
  else .ok ({ r with updated := now }, DynShmBufferHeader.setOffset mem r.offset 0)

end DedicatedRegion

end V5
end Shmipc
