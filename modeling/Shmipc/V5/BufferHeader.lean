import Shmipc.Base.ByteMemory

namespace Shmipc
namespace V5

open ByteMemory

/-!
# Buffer headers

Every buffer that the manager hands out starts with a header in the segment:
its own offset, the offset of the next buffer of the same message, the bytes it
holds and the room it has.  The offset is zero while the buffer is free.  The
header is read and written field by field, so it is kept in memory and not
beside it.
-/

def dynshmBufferHeaderSize : Nat := 24

structure DynShmBufferHeader where
  offset : Int
  next : Int
  len : Nat
  cap : Nat
  deriving DecidableEq

namespace DynShmBufferHeader

/-- The header whose first byte is at the address. -/
def read (mem : Memory) (address : Nat) : DynShmBufferHeader where
  offset := readSigned mem address 8
  next := readSigned mem (address + 8) 8
  len := readWord mem (address + 16) 4
  cap := readWord mem (address + 20) 4

def setOffset (mem : Memory) (address : Nat) (offset : Int) : Memory :=
  writeSigned mem address 8 offset

def setNext (mem : Memory) (address : Nat) (next : Int) : Memory :=
  writeSigned mem (address + 8) 8 next

/-- Store the low four bytes of a length. -/
def setLen (mem : Memory) (address len : Nat) : Memory :=
  writeWord mem (address + 16) 4 len

/-- Store the low four bytes of a capacity. -/
def setCap (mem : Memory) (address cap : Nat) : Memory :=
  writeWord mem (address + 20) 4 cap

/-- Stamp a whole header. -/
def write (mem : Memory) (address : Nat) (header : DynShmBufferHeader) : Memory :=
  let mem := setOffset mem address header.offset
  let mem := setLen mem address header.len
  let mem := setCap mem address header.cap
  setNext mem address header.next

/-- The bytes written into a buffer so far. -/
def data (mem : Memory) (address : Nat) : List UInt8 :=
  readBytes mem (address + dynshmBufferHeaderSize) (read mem address).len

/-- Extend a buffer by `size` bytes and return where the new room starts. -/
def reserve (mem : Memory) (address size : Nat) : Option (Nat × Memory) :=
  let header := read mem address
  if header.cap < header.len + size then none
  else
    some (address + dynshmBufferHeaderSize + header.len,
      setLen mem address (header.len + size))

variable {mem mem' : Memory} {address : Nat}

theorem read_congr (agree : AgreeOn mem mem' address dynshmBufferHeaderSize) :
    read mem' address = read mem address := by
  have part : forall first size, first + size <= dynshmBufferHeaderSize ->
      AgreeOn mem mem' (address + first) size := fun first size fits =>
    agree.mono (Nat.le_add_right ..) (by omega)
  have offset := part 0 8 (by decide)
  have next := part 8 8 (by decide)
  have len := part 16 4 (by decide)
  have cap := part 20 4 (by decide)
  rw [Nat.add_zero] at offset
  rw [read, read, readSigned_congr offset, readSigned_congr next, readWord_congr len,
    readWord_congr cap]

/-! Every write to a header field stays inside the header. -/

theorem setOffset_agreeOutside (mem : Memory) (address : Nat) (offset : Int) :
    AgreeOutside mem (setOffset mem address offset) address 8 :=
  writeSigned_agreeOutside mem address 8 offset

theorem setNext_agreeOutside (mem : Memory) (address : Nat) (next : Int) :
    AgreeOutside mem (setNext mem address next) (address + 8) 8 :=
  writeSigned_agreeOutside mem (address + 8) 8 next

theorem setLen_agreeOutside (mem : Memory) (address len : Nat) :
    AgreeOutside mem (setLen mem address len) (address + 16) 4 :=
  writeWord_agreeOutside mem (address + 16) 4 len

theorem setCap_agreeOutside (mem : Memory) (address cap : Nat) :
    AgreeOutside mem (setCap mem address cap) (address + 20) 4 :=
  writeWord_agreeOutside mem (address + 20) 4 cap

theorem write_agreeOutside (mem : Memory) (address : Nat) (header : DynShmBufferHeader) :
    AgreeOutside mem (write mem address header) address dynshmBufferHeaderSize := by
  intro x outside
  simp only [dynshmBufferHeaderSize] at outside
  unfold write
  rw [setNext_agreeOutside _ _ _ x (by omega), setCap_agreeOutside _ _ _ x (by omega),
    setLen_agreeOutside _ _ _ x (by omega), setOffset_agreeOutside _ _ _ x (by omega)]

/-! Each of them changes its own field and leaves the others. -/

variable {offset next len cap : Nat}

theorem read_setOffset (mem : Memory) (address : Nat) (fits : offset < 2 ^ 63) :
    read (setOffset mem address offset) address = { read mem address with offset := offset } := by
  have written := setOffset_agreeOutside mem address offset
  have stored : readSigned (setOffset mem address offset) address 8 = offset :=
    readSigned_writeSigned mem address (by omega)
  rw [read, stored, readSigned_congr (written.agreeOn (Or.inr (by omega))),
    readWord_congr (written.agreeOn (Or.inr (by omega))),
    readWord_congr (written.agreeOn (Or.inr (by omega)))]
  simp only [read]

theorem read_setNext (mem : Memory) (address : Nat) (fits : next < 2 ^ 63) :
    read (setNext mem address next) address = { read mem address with next := next } := by
  have written := setNext_agreeOutside mem address next
  have stored : readSigned (setNext mem address next) (address + 8) 8 = next :=
    readSigned_writeSigned mem (address + 8) (by omega)
  rw [read, stored, readSigned_congr (written.agreeOn (Or.inl (by omega))),
    readWord_congr (written.agreeOn (Or.inr (by omega))),
    readWord_congr (written.agreeOn (Or.inr (by omega)))]
  simp only [read]

theorem read_setLen (mem : Memory) (address : Nat) (fits : len < 2 ^ 32) :
    read (setLen mem address len) address = { read mem address with len := len } := by
  have written := setLen_agreeOutside mem address len
  have stored : readWord (setLen mem address len) (address + 16) 4 = len :=
    readWord_writeWord_of_lt mem (address + 16) (by omega)
  rw [read, stored, readSigned_congr (written.agreeOn (Or.inl (by omega))),
    readSigned_congr (written.agreeOn (Or.inl (by omega))),
    readWord_congr (written.agreeOn (Or.inr (by omega)))]
  simp only [read]

theorem read_setCap (mem : Memory) (address : Nat) (fits : cap < 2 ^ 32) :
    read (setCap mem address cap) address = { read mem address with cap := cap } := by
  have written := setCap_agreeOutside mem address cap
  have stored : readWord (setCap mem address cap) (address + 20) 4 = cap :=
    readWord_writeWord_of_lt mem (address + 20) (by omega)
  rw [read, stored, readSigned_congr (written.agreeOn (Or.inl (by omega))),
    readSigned_congr (written.agreeOn (Or.inl (by omega))),
    readWord_congr (written.agreeOn (Or.inl (by omega)))]
  simp only [read]

theorem read_write (mem : Memory) (address : Nat) (offsetFits : offset < 2 ^ 63)
    (nextFits : next < 2 ^ 63) (lenFits : len < 2 ^ 32) (capFits : cap < 2 ^ 32) :
    read (write mem address ⟨offset, next, len, cap⟩) address = ⟨offset, next, len, cap⟩ := by
  rw [write, read_setNext _ _ nextFits, read_setCap _ _ capFits, read_setLen _ _ lenFits,
    read_setOffset _ _ offsetFits]

end DynShmBufferHeader

end V5
end Shmipc
