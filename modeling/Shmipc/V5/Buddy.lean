import Mathlib.Data.List.Sort
import Shmipc.Base.Transition
import Shmipc.V5.Allocator

namespace Shmipc
namespace V5

open ByteMemory Transition

/-!
# The buddy allocator

The arena is carved into blocks of `min_block << order` bytes.  Free blocks are
kept in one stack an order; a freed block goes straight back onto its own
stack, and buddies are merged only when an allocation finds nothing large
enough.  A block's header records its order, which is how a block is freed by
the offset of its data alone.
-/

def isPowerOfTwo (n : Nat) : Bool :=
  n == 2 ^ n.log2

/-- The block sizes an allocator was built with, together with what building
one checks. -/
structure BuddyGeometry where
  arenaSize : Nat
  minBlock : Nat
  maxBlock : Nat
  minShift : Nat
  maxOrder : Nat
  minBlock_eq : minBlock = 2 ^ minShift
  maxBlock_eq : maxBlock = 2 ^ (minShift + maxOrder)
  header_lt : allocatorHeaderSize < minBlock
  maxBlock_le : maxBlock <= arenaSize
  maxBlock_dvd : maxBlock ∣ arenaSize
  arena_lt : arenaSize < 2 ^ 64

structure BuddyAllocator extends BuddyGeometry where
  free : Nat -> List Nat
  needsCoalesce : Bool

namespace BuddyGeometry

/-- Bytes of a block of the given order, its header included. -/
def blockSize (geometry : BuddyGeometry) (order : Nat) : Nat :=
  geometry.minBlock <<< order

/-- Order of the smallest block that holds `bytes`, header included. -/
def orderFor (geometry : BuddyGeometry) (bytes : Nat) : Nat :=
  if bytes <= geometry.minBlock then 0
  else (bytes - 1).log2 + 1 - geometry.minShift

/-- The order implied by a capacity, if a block of this arena can have it. -/
def orderForCapacity (geometry : BuddyGeometry) (cap : Nat) : Option Nat :=
  let blockSize := cap + allocatorHeaderSize
  if isPowerOfTwo blockSize = false \/ blockSize < geometry.minBlock \/
      blockSize > geometry.maxBlock then none
  else some (blockSize.log2 - geometry.minShift)

/-- The stacks of an arena nothing is allocated from: it is all largest blocks. -/
def initialFree (geometry : BuddyGeometry) : Nat -> List Nat :=
  Function.update (fun _ => []) geometry.maxOrder
    ((List.range (geometry.arenaSize / geometry.maxBlock)).map (· * geometry.maxBlock))

end BuddyGeometry

namespace BuddyAllocator

/-- Build an allocator over an arena of whole maximum blocks. -/
def newWithBlockSize (arenaSize minBlock maxBlock : UInt64) : Except RegionError BuddyAllocator :=
  let arenaSize := arenaSize.toNat
  let minBlock := minBlock.toNat
  let maxBlock := maxBlock.toNat
  if powers : isPowerOfTwo minBlock = false \/ isPowerOfTwo maxBlock = false then
    .error .blockSizeNotPowerOfTwo
  else if order : minBlock > maxBlock then .error .invalidBlockSizeOrder
  else if header : minBlock <= allocatorHeaderSize then .error .blockTooSmallForHeader
  else if arena : arenaSize < maxBlock \/ arenaSize % maxBlock ≠ 0 then .error .invalidArenaSize
  else
    let geometry : BuddyGeometry := {
      arenaSize := arenaSize
      minBlock := minBlock
      maxBlock := maxBlock
      minShift := minBlock.log2
      maxOrder := maxBlock.log2 - minBlock.log2
      minBlock_eq := by
        simp only [not_or, Bool.not_eq_false, isPowerOfTwo, beq_iff_eq] at powers
        exact powers.1
      maxBlock_eq := by
        simp only [not_or, Bool.not_eq_false, isPowerOfTwo, beq_iff_eq] at powers
        have grows : minBlock.log2 <= maxBlock.log2 := by
          by_contra shrinks
          have smaller := Nat.pow_lt_pow_right (Nat.one_lt_two) (Nat.lt_of_not_le shrinks)
          omega
        rw [Nat.add_sub_cancel' grows]
        exact powers.2
      header_lt := Nat.lt_of_not_le header
      maxBlock_le := Nat.le_of_not_lt (not_or.mp arena).1
      maxBlock_dvd := Nat.dvd_of_mod_eq_zero (not_not.mp (not_or.mp arena).2)
      arena_lt := UInt64.toNat_lt _ }
    .ok { geometry with free := geometry.initialFree, needsCoalesce := false }

/-- Push a free block onto the stack of its order. -/
def push (b : BuddyAllocator) (order offset : Nat) : BuddyAllocator :=
  { b with free := Function.update b.free order (b.free order ++ [offset]) }

/-- The in-place compaction of a sorted stack.  Pairs of buddies move their
left half to the next order; the others slide down to `kept`.  The loop runs
at most once an entry, which is the fuel. -/
def compact (blockSize : Nat) : Nat -> List Nat -> List Nat -> Nat -> Nat -> List Nat × List Nat
  | 0, list, nextList, kept, _ => (list.take kept, nextList)
  | fuel + 1, list, nextList, kept, i =>
    match list[i]?, list[i + 1]? with
    | none, _ => (list.take kept, nextList)
    | some left, some right =>
      if left ^^^ blockSize = right then
        compact blockSize fuel list (nextList ++ [left]) kept (i + 2)
      else compact blockSize fuel (list.set kept left) nextList (kept + 1) (i + 1)
    | some left, none => compact blockSize fuel (list.set kept left) nextList (kept + 1) (i + 1)

/-- Merge the free buddies of one order. -/
def coalesceOrder (b : BuddyAllocator) (order : Nat) : BuddyAllocator :=
  let list := b.free order
  if list.length < 2 then b
  else
    let sorted := list.insertionSort (· <= ·)
    let merged := compact (b.blockSize order) sorted.length sorted (b.free (order + 1)) 0 0
    { b with
      free := Function.update (Function.update b.free order merged.1) (order + 1) merged.2 }

/-- Merge free buddies upwards, so that blocks of order `target` appear. -/
def coalesceUntil (b : BuddyAllocator) (target : Nat) : BuddyAllocator :=
  (List.range target).foldl coalesceOrder b

/-- The lowest order from `order` on with a free block. -/
def findOrder (b : BuddyAllocator) (order : Nat) : Option Nat :=
  (List.range' order (b.maxOrder + 1 - order)).find? (fun o => !(b.free o).isEmpty)

/-- Search the stacks, coalescing once if they have nothing to offer. -/
def searchOrder (b : BuddyAllocator) (order : Nat) : Option Nat × BuddyAllocator :=
  match b.findOrder order with
  | some found => (some found, b)
  | none =>
    if b.needsCoalesce then
      let merged := b.coalesceUntil order
      match merged.findOrder order with
      | some found => (some found, merged)
      | none => (none, { merged with needsCoalesce := false })
    else (none, b)

/-- Cut a block of order `found` down to `order`, freeing the upper halves. -/
def splitDown (offset order : Nat) : Nat -> BuddyAllocator -> BuddyAllocator
  | 0, b => b
  | found + 1, b =>
    if order < found + 1 then
      splitDown offset order found (b.push found (offset + b.blockSize found))
    else b

/-- Carve `size` bytes out of the arena and stamp the block's header. -/
def alloc (b : BuddyAllocator) (arena : Arena) (mem : Memory) (size : Nat) :
    Option Allocation × BuddyAllocator × Memory :=
  if arena.len ≠ b.arenaSize \/ size = 0 \/ size > b.maxBlock - allocatorHeaderSize then
    (none, b, mem)
  else
    let order := b.orderFor (size + allocatorHeaderSize)
    match b.searchOrder order with
    | (none, b) => (none, b, mem)
    | (some found, b) =>
      match (b.free found).getLast? with
      | none => (none, b, mem)
      | some offset =>
        let popped := { b with
          free := Function.update b.free found (b.free found).dropLast }
        let b := splitDown offset order found popped
        (some {
          blockOffset := offset
          dataOffset := offset + allocatorHeaderSize
          len := size
          cap := b.blockSize order - allocatorHeaderSize },
        b, arena.writeHeader mem offset order)

/-- Largest request the arena can ever serve. -/
def maxAllocation (b : BuddyAllocator) : Nat :=
  b.maxBlock - allocatorHeaderSize

/-- The order a live block's header claims, if this arena could have produced it. -/
def liveOrder (b : BuddyAllocator) (arena : Arena) (mem : Memory) (blockOffset : Nat) :
    Except RegionError Nat :=
  match arena.readHeader mem blockOffset with
  | none => .error .invalidOffset
  | some (marker, order) =>
    if marker ≠ magic then .error .notAllocated
    else if order > b.maxOrder then .error .corruptMetadata
    else if blockOffset &&& (b.blockSize order - 1) ≠ 0 then .error .corruptMetadata
    else .ok order

/-- Retire a validated block. -/
def release (b : BuddyAllocator) (arena : Arena) (mem : Memory) (blockOffset order : Nat) :
    BuddyAllocator × Memory :=
  ({ b.push order blockOffset with needsCoalesce := b.needsCoalesce || order < b.maxOrder },
    arena.clearMagic mem blockOffset)

/-- Return a block described by the allocation that was handed out. -/
def freeAllocation (b : BuddyAllocator) (arena : Arena) (mem : Memory) (allocation : Allocation) :
    Except RegionError (BuddyAllocator × Memory) :=
  if arena.len ≠ b.arenaSize then .error .invalidArenaSize
  else if allocation.blockOffset ≥ b.arenaSize \/
      allocation.dataOffset ≠ allocation.blockOffset + allocatorHeaderSize \/
      allocation.dataOffset ≥ b.arenaSize then .error .invalidOffset
  else if allocation.len > allocation.cap then .error .corruptMetadata
  else
    match b.orderForCapacity allocation.cap with
    | none => .error .corruptMetadata
    | some claimed =>
      match b.liveOrder arena mem allocation.blockOffset with
      | .error err => .error err
      | .ok order =>
        if claimed ≠ order then .error .corruptMetadata
        else .ok (b.release arena mem allocation.blockOffset order)

/-- Whether an offset could name the data of a block of this arena. -/
def isValidOffset (b : BuddyAllocator) (dataOffset : Nat) : Bool :=
  dataOffset ≥ allocatorHeaderSize && dataOffset - allocatorHeaderSize < b.arenaSize &&
    (dataOffset - allocatorHeaderSize) &&& (b.minBlock - 1) == 0

/-- Return a block named by the offset of its data. -/
def freeAt (b : BuddyAllocator) (arena : Arena) (mem : Memory) (dataOffset : Nat) :
    Except RegionError (BuddyAllocator × Memory) :=
  if arena.len ≠ b.arenaSize then .error .invalidArenaSize
  else if b.isValidOffset dataOffset = false then .error .invalidOffset
  else
    match b.liveOrder arena mem (dataOffset - allocatorHeaderSize) with
    | .error err => .error err
    | .ok order => .ok (b.release arena mem (dataOffset - allocatorHeaderSize) order)

/-- Hand the whole arena back; only the stacks are rebuilt. -/
def reset (b : BuddyAllocator) (arena : Arena) : Except RegionError BuddyAllocator :=
  if arena.len ≠ b.arenaSize then .error .invalidArenaSize
  else .ok { b with free := b.initialFree, needsCoalesce := false }

end BuddyAllocator

/-- An arena in use: its allocator, the memory it lies in, and what is handed out. -/
structure BuddyState where
  allocator : BuddyAllocator
  mem : Memory
  outstanding : List Allocation

/-- What the users of an arena do: call the allocator, and write into the data
of a block they hold. -/
inductive BuddyAction
  | alloc (size : Nat)
  | free (allocation : Allocation)
  | freeAt (allocation : Allocation)
  | reset
  | write (allocation : Allocation) (index : Nat) (value : UInt8)
  deriving DecidableEq

namespace BuddyState

/-- Take over what a free returned; a refused free changes nothing. -/
def freed (s : BuddyState) (allocation : Allocation) :
    Except RegionError (BuddyAllocator × Memory) -> BuddyState
  | .error _ => s
  | .ok (allocator, mem) =>
    { allocator := allocator, mem := mem, outstanding := s.outstanding.erase allocation }

/-- One call or one write of a user.  Frees name outstanding allocations, the
arena is reset only when nothing is outstanding, and a write stays inside
`[data_offset, data_offset + cap)` of a block that is held. -/
def step (arena : Arena) (s : BuddyState) : BuddyAction -> Option BuddyState
  | .alloc size =>
    match s.allocator.alloc arena s.mem size with
    | (none, allocator, mem) => some { s with allocator := allocator, mem := mem }
    | (some a, allocator, mem) =>
      some { allocator := allocator, mem := mem, outstanding := a :: s.outstanding }
  | .free a =>
    if a ∈ s.outstanding then some (s.freed a (s.allocator.freeAllocation arena s.mem a))
    else none
  | .freeAt a =>
    if a ∈ s.outstanding then some (s.freed a (s.allocator.freeAt arena s.mem a.dataOffset))
    else none
  | .reset =>
    if s.outstanding = [] then
      match s.allocator.reset arena with
      | .error _ => some s
      | .ok allocator => some { s with allocator := allocator }
    else none
  | .write a index value =>
    if a ∈ s.outstanding /\ index < a.cap then
      some { s with mem := Function.update s.mem (arena.base + a.dataOffset + index) value }
    else none

end BuddyState

/-- The users of an arena of `arenaSize` bytes mapped at `base`.  The memory
holds anything when the allocator is built. -/
def buddySystem (base : Nat) (arenaSize minBlock maxBlock : UInt64) :
    System BuddyState BuddyAction where
  init s := BuddyAllocator.newWithBlockSize arenaSize minBlock maxBlock = .ok s.allocator /\
    s.outstanding = []
  step := BuddyState.step ⟨base, arenaSize.toNat⟩

end V5
end Shmipc
