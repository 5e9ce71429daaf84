import Shmipc.Pool.Header

namespace Shmipc
namespace Pool

open ByteMemory
open Buffer (bufferHeaderSize bufferListHeaderSize CreateError)

/-!
# Slices and the lists of free buffers

`BufferSlice` is one process's handle of a buffer.  `BufferList` is one
process's view of the free buffers of one capacity: it holds the addresses of
the fields of the list header and of the buffer region, and nothing of the
list's state, all of which is in the shared bytes.  The process that lays the
list out computes these addresses in `create`, the other one in `mapping`.

Calls are atomic here: one call runs after another, so a compare-exchange meets
the value that was just loaded.  The interleavings inside `push` and `pop` are
the subject of `Buffer.FreeList`.

The arithmetic on offsets wraps at 32 bits, as it does without overflow checks.
-/

/-- Subtraction of 32-bit words. -/
def wrappingSub (a b : Nat) : Nat := (a + (2 ^ 32 - b % 2 ^ 32)) % 2 ^ 32

theorem wrappingSub_of_le {a b : Nat} (le : b <= a) (fits : a < 2 ^ 32) :
    wrappingSub a b = a - b := by
  have small : b % 2 ^ 32 = b := Nat.mod_eq_of_lt (by omega)
  have shift : a + (2 ^ 32 - b) = a - b + 2 ^ 32 := by omega
  rw [wrappingSub, small, shift, Nat.add_mod_right, Nat.mod_eq_of_lt (by omega)]

/-- A handle of a buffer.  `data` is the address of its bytes if it is from
shared memory; the bytes of any other buffer are in `heap`. -/
structure BufferSlice where
  bufferHeader : Option Nat
  data : Nat
  cap : Nat
  start : Nat
  offsetInShm : Nat
  readIndex : Nat
  writeIndex : Nat
  isFromShm : Bool
  heap : List UInt8
  deriving DecidableEq

namespace BufferSlice

/-- A handle of `len` bytes at `data`; the header of a buffer in shared memory
says what it holds. -/
def new (mem : Memory) (header : Option Nat) (data len offsetInShm : Nat) (isFromShm : Bool)
    (heap : List UInt8) : BufferSlice :=
  match isFromShm, header with
  | true, some address =>
    let h := BufferHeader.read mem address
    { bufferHeader := some address, data := data, cap := h.cap, start := h.start,
      offsetInShm := offsetInShm, readIndex := h.start,
      writeIndex := (h.start + h.size) % 2 ^ 32, isFromShm := true, heap := heap }
  | _, _ =>
    { bufferHeader := none, data := data, cap := len % 2 ^ 32, start := 0,
      offsetInShm := offsetInShm, readIndex := 0, writeIndex := 0, isFromShm := isFromShm,
      heap := heap }

def size (s : BufferSlice) : Nat := s.writeIndex - s.readIndex

def remain (s : BufferSlice) : Nat := s.cap - s.writeIndex

def resetIndicesAndLink (s : BufferSlice) (mem : Memory) : BufferSlice × Memory :=
  let reset : BufferSlice := { s with start := 0, writeIndex := 0, readIndex := 0 }
  match s.bufferHeader with
  | none => (reset, mem)
  | some address =>
    let mem := BufferHeader.setSize mem address 0
    let mem := BufferHeader.setStart mem address 0
    (reset, BufferHeader.unlinkNext mem address)

def resetForRecycle (s : BufferSlice) (mem : Memory) : BufferSlice × Memory :=
  let (s, mem) := s.resetIndicesAndLink mem
  match s.bufferHeader with
  | none => (s, mem)
  | some address => (s, BufferHeader.clearFlag mem address)

end BufferSlice

/-- The addresses of the fields of a list header, and where its buffers are. -/
structure BufferList where
  size : Nat
  cap : Nat
  head : Nat
  tail : Nat
  capPerBuffer : Nat
  counter : Nat
  bufferRegion : Nat
  bufferRegionLen : Nat
  bufferRegionOffsetInShm : Nat
  offsetInShm : Nat
  deriving DecidableEq

/-- A buffer that left a list or came back to one. -/
inductive PoolEvent
  | took (list : BufferList) (offset : Nat)
  | returned (list : BufferList) (offset : Nat)
  deriving DecidableEq

/-- The shared bytes.  The log records what the lists handed out and took back;
no operation reads it. -/
structure Shm where
  mem : Memory
  log : List PoolEvent

def countBufferListMemSize (bufferNum capPerBuffer : Nat) : Nat :=
  (bufferListHeaderSize + bufferNum * (capPerBuffer + bufferHeaderSize)) % 2 ^ 32

namespace BufferList

/-- The body of the loop of `create`: an empty header, linked to the next buffer
unless it is the last. -/
def initBuffer (address capPerBuffer next : Nat) (linked : Bool) (mem : Memory) : Memory :=
  let mem := BufferHeader.setCap mem address capPerBuffer
  let mem := BufferHeader.setSize mem address 0
  let mem := BufferHeader.setStart mem address 0
  if linked then
    let mem := BufferHeader.setNext mem address next
    let mem := writeWord mem (address + bufferFlagOffset) 4 0
    BufferHeader.setFlag mem address (mem (address + bufferFlagOffset) ||| hasNextBufferFlag)
  else mem

/-- The loop of `create` with the number of rounds still to run. -/
def initBuffers (region capPerBuffer : Nat) : Nat -> Nat -> Memory -> Memory
  | 0, _, mem => mem
  | rounds + 1, current, mem =>
    let next := (current + capPerBuffer + bufferHeaderSize) % 2 ^ 32
    initBuffers region capPerBuffer rounds next
      (initBuffer (region + current) capPerBuffer next (0 < rounds) mem)

/-- Lay a list out in a segment of `memLen` bytes. -/
def create (bufferNum capPerBuffer memLen offsetInMem : Nat) (mem : Memory) :
    Except CreateError (BufferList × Memory) :=
  let atLeastSize := countBufferListMemSize bufferNum capPerBuffer
  let bufferRegionStart := (offsetInMem + bufferListHeaderSize) % 2 ^ 32
  let bufferRegionEnd := (offsetInMem + atLeastSize) % 2 ^ 32
  if bufferNum = 0 \/ capPerBuffer = 0 then .error (.zeroArgument bufferNum capPerBuffer)
  else if memLen < bufferRegionEnd \/ memLen < offsetInMem \/ memLen < atLeastSize then
    .error (.memTooSmall bufferRegionEnd memLen offsetInMem atLeastSize)
  else if bufferRegionEnd <= bufferRegionStart then
    .error (.sliceOutOfRange bufferRegionStart bufferRegionEnd)
  else
    let b : BufferList :=
      { size := offsetInMem, cap := offsetInMem + 4, head := offsetInMem + 8,
        tail := offsetInMem + 12, capPerBuffer := offsetInMem + 16,
        counter := offsetInMem + 20, bufferRegion := offsetInMem + bufferListHeaderSize,
        bufferRegionLen := wrappingSub atLeastSize bufferListHeaderSize,
        bufferRegionOffsetInShm := bufferRegionStart, offsetInShm := offsetInMem }
    let mem := writeSigned mem b.size 4 bufferNum
    let mem := writeWord mem b.cap 4 bufferNum
    let mem := writeWord mem b.head 4 0
    let mem := writeWord mem b.tail 4 ((bufferNum - 1) * (capPerBuffer + bufferHeaderSize))
    let mem := writeWord mem b.capPerBuffer 4 capPerBuffer
    let mem := writeSigned mem b.counter 4 0
    let mem := initBuffers b.bufferRegion capPerBuffer bufferNum 0 mem
    let tail := b.bufferRegion + readWord mem b.tail 4
    .ok (b, writeWord mem (tail + bufferFlagOffset) 4 0)

inductive MappingError
  | headerOutOfRange (atLeast : Nat)
  | memTooSmall (size : Int) (cap head tail capPerBuffer needSize memLen : Nat)
  deriving DecidableEq

/-- The view of a list that another process laid out. -/
def mapping (memLen offsetInShm : Nat) (mem : Memory) : Except MappingError BufferList :=
  let headerEnd := (offsetInShm + bufferListHeaderSize) % 2 ^ 32
  if memLen < headerEnd then .error (.headerOutOfRange headerEnd)
  else
    let cap := readWord mem (offsetInShm + 4) 4
    let capPerBuffer := readWord mem (offsetInShm + 16) 4
    let needSize := countBufferListMemSize cap capPerBuffer
    if memLen < (offsetInShm + needSize) % 2 ^ 32 \/
        (offsetInShm + needSize) % 2 ^ 32 < headerEnd then
      .error (.memTooSmall (readSigned mem offsetInShm 4) cap (readWord mem (offsetInShm + 8) 4)
        (readWord mem (offsetInShm + 12) 4) capPerBuffer needSize memLen)
    else
      .ok
        { size := offsetInShm, cap := offsetInShm + 4, head := offsetInShm + 8,
          tail := offsetInShm + 12, capPerBuffer := offsetInShm + 16,
          counter := offsetInShm + 24, bufferRegion := offsetInShm + bufferListHeaderSize,
          bufferRegionLen := wrappingSub needSize bufferListHeaderSize,
          bufferRegionOffsetInShm := headerEnd, offsetInShm := offsetInShm }

/-- Append a buffer behind the last free one. -/
def push (l : BufferList) (buffer : BufferSlice) (shm : Shm) : Shm :=
  let (buffer, mem) := buffer.resetForRecycle shm.mem
  let oldTail := readWord mem l.tail 4
  let newTail := wrappingSub buffer.offsetInShm l.bufferRegionOffsetInShm
  -- nothing runs between the load of the tail and the compare-exchange
  let mem := writeWord mem l.tail 4 newTail
  let mem := BufferHeader.linkNext mem (l.bufferRegion + oldTail) newTail
  let mem := fetchAdd mem l.size 4 1
  let mem := fetchAdd mem l.counter 4 (-1)
  { mem := mem, log := shm.log ++ [.returned l buffer.offsetInShm] }

/-- The rounds of `pop`.  `none` is `Error::NoMoreBuffer`, the only error of
`pop`. -/
def popLoop (l : BufferList) : Nat -> Nat -> Shm -> Option BufferSlice × Shm
  | 0, _, shm => (none, { shm with mem := fetchAdd shm.mem l.size 4 1 })
  | tries + 1, oldHead, shm =>
    let bh := l.bufferRegion + oldHead
    let header := BufferHeader.read shm.mem bh
    if header.hasNext then
      if readWord shm.mem l.head 4 = oldHead then
        let mem := writeWord shm.mem l.head 4 header.next
        let mem := BufferHeader.clearFlag mem bh
        let mem := BufferHeader.setInUsed mem bh
        let mem := fetchAdd mem l.counter 4 1
        let offset := (oldHead + l.bufferRegionOffsetInShm) % 2 ^ 32
        (some (BufferSlice.new mem (some bh) (bh + bufferHeaderSize)
            (readWord mem l.capPerBuffer 4) offset true []),
          { mem := mem, log := shm.log ++ [.took l offset] })
      else popLoop l tries (readWord shm.mem l.head 4) shm
    -- the last slice is not handed out
    else if readSigned shm.mem l.size 4 <= 1 then
      (none, { shm with mem := fetchAdd shm.mem l.size 4 1 })
    else popLoop l tries (readWord shm.mem l.head 4) shm

/-- Take the first free buffer, unless it is the last one. -/
def pop (l : BufferList) (shm : Shm) : Option BufferSlice × Shm :=
  let oldHead := readWord shm.mem l.head 4
  let remain := readSigned shm.mem l.size 4
  let shm := { shm with mem := fetchAdd shm.mem l.size 4 (-1) }
  if remain <= 1 \/ l.bufferRegionLen <
      (oldHead + bufferHeaderSize + readWord shm.mem l.capPerBuffer 4) % 2 ^ 32 then
    (none, { shm with mem := fetchAdd shm.mem l.size 4 1 })
  else popLoop l 200 oldHead shm

end BufferList

end Pool
end Shmipc
