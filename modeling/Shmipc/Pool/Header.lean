import Shmipc.Base.ByteMemory
import Shmipc.Buffer.FreeList

namespace Shmipc
namespace Pool

open ByteMemory
open Buffer (bufferHeaderSize)

/-!
# Buffer headers in shared memory

A buffer of a V2-V4 pool starts with twenty bytes of header: its capacity, the
number of bytes it holds and where they start, the offset of the next buffer
and a flag byte.  The same link field serves two lists.  In a free list it is
relative to the buffer region of the list; in a message it is an offset in the
whole segment.  The header is read and written field by field by both
processes, so it is kept in memory and not beside it.
-/

def bufferCapOffset : Nat := 0

def bufferSizeOffset : Nat := bufferCapOffset + 4

def bufferDataStartOffset : Nat := bufferSizeOffset + 4

def nextBufferOffset : Nat := bufferDataStartOffset + 4

def bufferFlagOffset : Nat := nextBufferOffset + 4

def hasNextBufferFlag : UInt8 := 1

def sliceInUsedFlag : UInt8 := 2

structure BufferHeader where
  cap : Nat
  size : Nat
  start : Nat
  next : Nat
  flag : UInt8
  deriving DecidableEq

namespace BufferHeader

/-- The header whose first byte is at the address. -/
def read (mem : Memory) (address : Nat) : BufferHeader where
  cap := readWord mem (address + bufferCapOffset) 4
  size := readWord mem (address + bufferSizeOffset) 4
  start := readWord mem (address + bufferDataStartOffset) 4
  next := readWord mem (address + nextBufferOffset) 4
  flag := mem (address + bufferFlagOffset)

def hasNext (header : BufferHeader) : Bool :=
  0 < header.flag &&& hasNextBufferFlag

/-- The link of a header, if it has one. -/
def link (header : BufferHeader) : Option Nat :=
  if header.hasNext then some header.next else none

def setCap (mem : Memory) (address cap : Nat) : Memory :=
  writeWord mem (address + bufferCapOffset) 4 cap

def setSize (mem : Memory) (address size : Nat) : Memory :=
  writeWord mem (address + bufferSizeOffset) 4 size

def setStart (mem : Memory) (address start : Nat) : Memory :=
  writeWord mem (address + bufferDataStartOffset) 4 start

def setNext (mem : Memory) (address next : Nat) : Memory :=
  writeWord mem (address + nextBufferOffset) 4 next

def setFlag (mem : Memory) (address : Nat) (flag : UInt8) : Memory :=
  Function.update mem (address + bufferFlagOffset) flag

def clearFlag (mem : Memory) (address : Nat) : Memory :=
  setFlag mem address 0

def setInUsed (mem : Memory) (address : Nat) : Memory :=
  setFlag mem address (mem (address + bufferFlagOffset) ||| sliceInUsedFlag)

def linkNext (mem : Memory) (address next : Nat) : Memory :=
  let mem := setNext mem address next
  setFlag mem address (mem (address + bufferFlagOffset) ||| hasNextBufferFlag)

def unlinkNext (mem : Memory) (address : Nat) : Memory :=
  let mem := setNext mem address 0
  setFlag mem address (mem (address + bufferFlagOffset) &&& ~~~ hasNextBufferFlag)

/-! ## What a header depends on and what its setters change -/

variable {mem mem' : Memory} {address : Nat}

theorem read_congr (agree : AgreeOn mem mem' address bufferHeaderSize) :
    read mem' address = read mem address := by
  have part : forall first, first + 4 <= bufferHeaderSize ->
      readWord mem' (address + first) 4 = readWord mem (address + first) 4 :=
    fun first fits => readWord_congr (agree.mono (Nat.le_add_right ..) (by omega))
  have flag : mem' (address + bufferFlagOffset) = mem (address + bufferFlagOffset) :=
    agree _ (Nat.le_add_right ..) (Nat.add_lt_add_left (by decide) address)
  rw [read, read, part bufferCapOffset (by decide), part bufferSizeOffset (by decide),
    part bufferDataStartOffset (by decide), part nextBufferOffset (by decide), flag]

theorem read_cap_congr (agree : AgreeOn mem mem' address 4) :
    (read mem' address).cap = (read mem address).cap :=
  readWord_congr agree

variable {field next : Nat} {header : BufferHeader}

theorem setWord_agreeOutside (mem : Memory) (address value : Nat)
    (inside : field + 4 <= bufferHeaderSize) :
    AgreeOutside mem (writeWord mem (address + field) 4 value) address bufferHeaderSize :=
  (writeWord_agreeOutside mem (address + field) 4 value).mono (Nat.le_add_right ..) (by omega)

theorem setFlag_agreeOutside (mem : Memory) (address : Nat) (flag : UInt8) :
    AgreeOutside mem (setFlag mem address flag) (address + bufferFlagOffset) 1 :=
  fun x outside => Function.update_of_ne (by omega) _ _

theorem word_setWord {other value : Nat} (mem : Memory) (address : Nat)
    (apart : other + 4 <= field \/ field + 4 <= other) :
    readWord (writeWord mem (address + field) 4 value) (address + other) 4 =
      readWord mem (address + other) 4 :=
  readWord_writeWord_of_apart mem (by omega)

theorem flag_setWord {value : Nat} (mem : Memory) (address : Nat)
    (below : field + 4 <= bufferFlagOffset) :
    writeWord mem (address + field) 4 value (address + bufferFlagOffset) =
      mem (address + bufferFlagOffset) :=
  writeWord_agreeOutside mem (address + field) 4 value _ (by omega)

theorem read_setCap {cap : Nat} (mem : Memory) (address : Nat) (fits : cap < 2 ^ 32) :
    read (setCap mem address cap) address = { read mem address with cap := cap } := by
  have stored : readWord (setCap mem address cap) (address + bufferCapOffset) 4 = cap :=
    readWord_writeWord_of_lt mem _ fits
  rw [read, stored, setCap]
  simp (disch := decide) only [word_setWord mem address, flag_setWord mem address, read]

theorem read_setSize {size : Nat} (mem : Memory) (address : Nat) (fits : size < 2 ^ 32) :
    read (setSize mem address size) address = { read mem address with size := size } := by
  have stored : readWord (setSize mem address size) (address + bufferSizeOffset) 4 = size :=
    readWord_writeWord_of_lt mem _ fits
  rw [read, stored, setSize]
  simp (disch := decide) only [word_setWord mem address, flag_setWord mem address, read]

theorem read_setStart {start : Nat} (mem : Memory) (address : Nat) (fits : start < 2 ^ 32) :
    read (setStart mem address start) address = { read mem address with start := start } := by
  have stored :
      readWord (setStart mem address start) (address + bufferDataStartOffset) 4 = start :=
    readWord_writeWord_of_lt mem _ fits
  rw [read, stored, setStart]
  simp (disch := decide) only [word_setWord mem address, flag_setWord mem address, read]

theorem read_setNext (mem : Memory) (address : Nat) (fits : next < 2 ^ 32) :
    read (setNext mem address next) address = { read mem address with next := next } := by
  have stored : readWord (setNext mem address next) (address + nextBufferOffset) 4 = next :=
    readWord_writeWord_of_lt mem _ fits
  rw [read, stored, setNext]
  simp (disch := decide) only [word_setWord mem address, flag_setWord mem address, read]

theorem read_setFlag (mem : Memory) (address : Nat) (flag : UInt8) :
    read (setFlag mem address flag) address = { read mem address with flag := flag } := by
  have word : forall field, field + 4 <= bufferFlagOffset ->
      readWord (setFlag mem address flag) (address + field) 4 = readWord mem (address + field) 4 :=
    fun field below =>
      readWord_congr ((setFlag_agreeOutside mem address flag).agreeOn (Or.inl (by omega)))
  have stored : setFlag mem address flag (address + bufferFlagOffset) = flag :=
    Function.update_self _ _ _
  rw [read, stored, word bufferCapOffset (by decide), word bufferSizeOffset (by decide),
    word bufferDataStartOffset (by decide), word nextBufferOffset (by decide)]
  rfl

theorem read_clearFlag (mem : Memory) (address : Nat) :
    read (clearFlag mem address) address = { read mem address with flag := 0 } :=
  read_setFlag mem address 0

theorem read_setInUsed (mem : Memory) (address : Nat) :
    read (setInUsed mem address) address =
      { read mem address with flag := (read mem address).flag ||| sliceInUsedFlag } :=
  read_setFlag mem address _

theorem read_linkNext (mem : Memory) (address : Nat) (fits : next < 2 ^ 32) :
    read (linkNext mem address next) address =
      { read mem address with
        next := next, flag := (read mem address).flag ||| hasNextBufferFlag } := by
  have flag : setNext mem address next (address + bufferFlagOffset) = (read mem address).flag :=
    flag_setWord mem address (by decide)
  rw [linkNext, read_setFlag, read_setNext mem address fits, flag]

theorem read_unlinkNext (mem : Memory) (address : Nat) :
    read (unlinkNext mem address) address =
      { read mem address with
        next := 0, flag := (read mem address).flag &&& ~~~ hasNextBufferFlag } := by
  have flag : setNext mem address 0 (address + bufferFlagOffset) = (read mem address).flag :=
    flag_setWord mem address (by decide)
  rw [unlinkNext, read_setFlag, read_setNext mem address (by decide), flag]

/-! Every setter stays inside the header. -/

theorem setFlag_inside (mem : Memory) (address : Nat) (flag : UInt8) :
    AgreeOutside mem (setFlag mem address flag) address bufferHeaderSize :=
  (setFlag_agreeOutside mem address flag).mono (Nat.le_add_right ..)
    (by rw [Nat.add_assoc]; exact Nat.add_le_add_left (by decide) address)

theorem linkNext_inside (mem : Memory) (address next : Nat) :
    AgreeOutside mem (linkNext mem address next) address bufferHeaderSize :=
  (setWord_agreeOutside mem address next (by decide)).trans (setFlag_inside _ address _)

theorem unlinkNext_inside (mem : Memory) (address : Nat) :
    AgreeOutside mem (unlinkNext mem address) address bufferHeaderSize :=
  (setWord_agreeOutside mem address 0 (by decide)).trans (setFlag_inside _ address _)

/-! ## The link as the flags give it -/

theorem hasNext_of_or {flag : UInt8} (set : header.flag = flag ||| hasNextBufferFlag) :
    header.hasNext = true := by
  have bit : (flag ||| hasNextBufferFlag) &&& hasNextBufferFlag = 1 := by
    apply UInt8.toBitVec_inj.mp
    simp only [hasNextBufferFlag, UInt8.toBitVec_and, UInt8.toBitVec_or, UInt8.toBitVec_one]
    ext i
    simp only [BitVec.getElem_and, BitVec.getElem_or, BitVec.getElem_one]
    cases decide (i = 0) <;> simp
  rw [hasNext, set, bit]
  rfl

theorem hasNext_of_and_not {flag : UInt8} (unset : header.flag = flag &&& ~~~ hasNextBufferFlag) :
    header.hasNext = false := by
  rw [hasNext, unset, UInt8.and_assoc]
  simp [hasNextBufferFlag]

theorem link_eq_none_iff :
    header.link = none <-> header.hasNext = false := by
  rw [link]
  cases header.hasNext <;> simp

theorem link_eq_some_iff :
    header.link = some next <-> header.hasNext = true /\ header.next = next := by
  rw [link, Option.ite_none_right_eq_some, Option.some.injEq]

theorem link_of_clear (clear : header.flag = 0) : header.link = none := by
  rw [link, hasNext, clear]
  rfl

theorem link_linkNext (mem : Memory) (address : Nat) (fits : next < 2 ^ 32) :
    (read (linkNext mem address next) address).link = some next := by
  have header := read_linkNext mem address fits
  rw [link, if_pos (hasNext_of_or (congrArg flag header)), header]

theorem link_unlinkNext (mem : Memory) (address : Nat) :
    (read (unlinkNext mem address) address).link = none := by
  have unset := hasNext_of_and_not (congrArg flag (read_unlinkNext mem address))
  rw [link, unset]
  rfl

end BufferHeader

end Pool
end Shmipc
