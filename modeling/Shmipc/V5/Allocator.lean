import Shmipc.Base.ByteMemory

namespace Shmipc
namespace V5

open ByteMemory Tiling

/-!
# Block headers and allocations

A region's allocator is handed the arena it carves as a slice of the mapping.
The model passes the whole memory along with the place of that slice, so that
the bytes of neighbouring regions stay visible.  Every block of either
allocator starts with eight bytes: a magic number that marks it live, and four
bytes of metadata.
-/

/-- Marks an allocator's block header as live. -/
def magic : Nat := 0x0BADF00D

def magicSize : Nat := 4

/-- Magic number and metadata at the front of every block. -/
def allocatorHeaderSize : Nat := 8

/-- Why a region or the allocator behind it refused a request. -/
inductive RegionError where
  | invalidArenaSize
  | blockSizeNotPowerOfTwo
  | invalidBlockSizeOrder
  | blockTooSmallForHeader
  | invalidSizeClassConfiguration
  | invalidOffset
  | notAllocated
  | corruptMetadata
  deriving DecidableEq

/-- One block handed out by an allocator, in offsets into the arena. -/
structure Allocation where
  blockOffset : Nat
  dataOffset : Nat
  len : Nat
  cap : Nat
  deriving DecidableEq

/-- The outstanding block with this data offset is no longer outstanding. -/
def forget (outstanding : List Allocation) (dataOffset : Nat) : List Allocation :=
  match outstanding.find? (fun a => a.dataOffset == dataOffset) with
  | some a => outstanding.erase a
  | none => outstanding

theorem exists_forget_eq_erase {outstanding : List Allocation} {a : Allocation}
    (held : a ∈ outstanding) : Exists fun first => first ∈ outstanding /\
      first.dataOffset = a.dataOffset /\
      forget outstanding a.dataOffset = outstanding.erase first := by
  have there : (outstanding.find? fun other => other.dataOffset == a.dataOffset).isSome :=
    List.find?_isSome.mpr ⟨a, held, beq_self_eq_true _⟩
  rcases Option.isSome_iff_exists.mp there with ⟨first, found⟩
  have offset : first.dataOffset = a.dataOffset := by simpa using List.find?_some found
  exact ⟨first, List.mem_of_find?_eq_some found, offset, by rw [forget, found]⟩

/-- The whole block of an allocation, header included. -/
def Allocation.span (allocation : Allocation) : Span :=
  ⟨allocation.blockOffset, allocation.cap + allocatorHeaderSize⟩

/-- The slice of the mapping an allocator works on. -/
structure Arena where
  base : Nat
  len : Nat
  deriving DecidableEq

namespace Arena

/-- The magic number and metadata at an offset, if they lie inside the arena. -/
def readHeader (arena : Arena) (mem : Memory) (offset : Nat) : Option (Nat × Nat) :=
  if offset + allocatorHeaderSize <= arena.len then
    some (readWord mem (arena.base + offset) magicSize,
      readWord mem (arena.base + offset + magicSize) (allocatorHeaderSize - magicSize))
  else none

/-- Stamp a header, keeping the low four bytes of the metadata. -/
def writeHeader (arena : Arena) (mem : Memory) (offset value : Nat) : Memory :=
  writeWord (writeWord mem (arena.base + offset) magicSize magic)
    (arena.base + offset + magicSize) (allocatorHeaderSize - magicSize) value

/-- Zero the magic number. -/
def clearMagic (arena : Arena) (mem : Memory) (offset : Nat) : Memory :=
  writeWord mem (arena.base + offset) magicSize 0

variable {arena : Arena} {mem mem' : Memory} {offset value : Nat}

theorem writeHeader_agreeOutside (arena : Arena) (mem : Memory) (offset value : Nat) :
    AgreeOutside mem (arena.writeHeader mem offset value) (arena.base + offset)
      allocatorHeaderSize := by
  have first : AgreeOutside mem (writeWord mem (arena.base + offset) magicSize magic)
      (arena.base + offset) allocatorHeaderSize :=
    (writeWord_agreeOutside mem _ _ _).mono (Nat.le_refl _) (Nat.add_le_add_left (by decide) _)
  exact first.trans ((writeWord_agreeOutside _ _ _ _).mono (Nat.le_add_right _ _)
    (Nat.le_of_eq (Nat.add_assoc _ _ _)))

theorem clearMagic_agreeOutside (arena : Arena) (mem : Memory) (offset : Nat) :
    AgreeOutside mem (arena.clearMagic mem offset) (arena.base + offset) allocatorHeaderSize :=
  (writeWord_agreeOutside mem _ _ _).mono (Nat.le_refl _)
    (Nat.add_le_add_left (by decide) _)

theorem readHeader_writeHeader (mem : Memory) (value : Nat)
    (inside : offset + allocatorHeaderSize <= arena.len) :
    arena.readHeader (arena.writeHeader mem offset value) offset =
      some (magic, value % 2 ^ 32) := by
  have metadata : readWord (arena.writeHeader mem offset value)
      (arena.base + offset + magicSize) (allocatorHeaderSize - magicSize) = value % 2 ^ 32 :=
    readWord_writeWord _ _ _ _
  have marker : readWord (arena.writeHeader mem offset value) (arena.base + offset) magicSize =
      magic := by
    rw [writeHeader, readWord_writeWord_of_apart _ (Or.inl (Nat.le_refl _))]
    exact readWord_writeWord_of_lt _ _ (by decide)
  rw [readHeader, if_pos inside, marker, metadata]

theorem readHeader_congr
    (agree : AgreeOn mem mem' (arena.base + offset) allocatorHeaderSize) :
    arena.readHeader mem' offset = arena.readHeader mem offset := by
  have marker : AgreeOn mem mem' (arena.base + offset) magicSize :=
    agree.mono (Nat.le_refl _) (Nat.add_le_add_left (by decide) _)
  have metadata : AgreeOn mem mem' (arena.base + offset + magicSize)
      (allocatorHeaderSize - magicSize) :=
    agree.mono (Nat.le_add_right _ _) (Nat.le_of_eq (Nat.add_assoc _ _ _))
  rw [readHeader, readHeader, readWord_congr marker, readWord_congr metadata]

end Arena

end V5
end Shmipc
