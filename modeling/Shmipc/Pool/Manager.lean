import Shmipc.Pool.List

namespace Shmipc
namespace Pool

open ByteMemory
open Buffer (bufferHeaderSize bufferListHeaderSize CreateError)

/-!
# The buffer manager

A V2-V4 pool is a row of buffer lists behind an eight-byte header: the number of
lists and the length of the used part.  The client lays the row out from its
configuration, the server finds the lists again from the bytes.  A request is
served by the first list whose buffers are large enough and that has one to
spare; a buffer goes back to the first list with its capacity.
-/

structure SizePercentPair where
  size : Nat
  percent : Nat
  deriving DecidableEq

def bufferManagerHeaderSize : Nat := 8

def bmCapOffset : Nat := 4

structure BufferManager where
  lists : List BufferList
  memLen : Nat
  minSliceSize : Nat
  maxSliceSize : Nat
  deriving DecidableEq

/-- The ways in which a pool cannot be laid out.  The last two are panics: a
remainder by a wrapped buffer size of zero, and the first of no pairs. -/
inductive ManagerError
  | memTooSmall (atLeast memLen : Nat)
  | percentTooLarge
  | list (err : CreateError)
  | divideByZero
  | noPairs
  deriving DecidableEq

inductive ManagerMappingError
  | memTooSmall (atLeast memLen bufferRegionStartOffset : Nat)
  | couldNotMap (listNum atLeast memLen : Nat)
  | list (err : BufferList.MappingError)
  deriving DecidableEq

inductive ReadError
  | unexpectedOffset (offset memLen : Nat)
  | unexpectedEnd (bufEndOffset offset memLen : Nat)
  deriving DecidableEq

namespace BufferManager

/-- The loop of `create` over the remaining pairs. -/
def createLists (bufferRegionCap memLen : Nat) :
    List SizePercentPair -> Nat -> Nat -> Memory ->
      Except ManagerError (List BufferList × Nat × Memory)
  | [], _, hadUsedOffset, mem => .ok ([], hadUsedOffset, mem)
  | pair :: rest, sumPercent, hadUsedOffset, mem =>
    let sumPercent := (sumPercent + pair.percent) % 2 ^ 32
    if 100 < sumPercent then .error .percentTooLarge
    else
      let stride := (pair.size + bufferHeaderSize) % 2 ^ 32
      if stride = 0 then .error .divideByZero
      else
        let bufferNum := (bufferRegionCap * pair.percent / 100) % 2 ^ 32 / stride
        let needSize := countBufferListMemSize bufferNum pair.size
        match BufferList.create bufferNum pair.size memLen hadUsedOffset mem with
        | .error err => .error (.list err)
        | .ok (freeList, mem) =>
          match createLists bufferRegionCap memLen rest sumPercent
              ((hadUsedOffset + needSize) % 2 ^ 32) mem with
          | .error err => .error err
          | .ok (lists, hadUsedOffset, mem) => .ok (freeList :: lists, hadUsedOffset, mem)

/-- Lay a pool out in a segment of `memLen` bytes, from `offset` on. -/
def create (pairs : List SizePercentPair) (memLen offset : Nat) (mem : Memory) :
    Except ManagerError (BufferManager × Memory) :=
  if memLen <= offset then .error (.memTooSmall ((offset + 1) % 2 ^ 32) memLen)
  else
    let bufferRegionCap := wrappingSub
      (wrappingSub (wrappingSub memLen offset) (bufferListHeaderSize * pairs.length))
      bufferManagerHeaderSize
    let mem := writeWord mem offset 2 pairs.length
    match createLists bufferRegionCap memLen pairs 0
        ((bufferManagerHeaderSize + offset) % 2 ^ 32) mem with
    | .error err => .error err
    | .ok (lists, hadUsedOffset, mem) =>
      let mem := writeWord mem (offset + bmCapOffset) 4
        (wrappingSub hadUsedOffset bufferManagerHeaderSize)
      match pairs.head?, pairs.getLast? with
      | some first, some last =>
        let bm : BufferManager :=
          { lists := lists, memLen := memLen, minSliceSize := first.size,
            maxSliceSize := last.size }
        .ok (bm, mem)
      | _, _ => .error .noPairs

/-- The loop of `mapping` over the lists that remain. -/
def mapLists (memLen bufferRegionStartOffset : Nat) (mem : Memory) :
    Nat -> Nat -> Except ManagerMappingError (List BufferList)
  | 0, _ => .ok []
  | remaining + 1, hadUsedOffset =>
    match BufferList.mapping memLen ((bufferRegionStartOffset + hadUsedOffset) % 2 ^ 32) mem with
    | .error err => .error (.list err)
    | .ok l =>
      let size := countBufferListMemSize (readWord mem l.cap 4)
        (readWord mem l.capPerBuffer 4)
      match mapLists memLen bufferRegionStartOffset mem remaining
          ((hadUsedOffset + size) % 2 ^ 32) with
      | .error err => .error err
      | .ok lists => .ok (l :: lists)

/-- The view of a pool that another process laid out. -/
def mapping (memLen bufferRegionStartOffset : Nat) (mem : Memory) :
    Except ManagerMappingError BufferManager :=
  if memLen <= (bufferRegionStartOffset + bmCapOffset) % 2 ^ 32 \/
      memLen <= bufferRegionStartOffset then
    .error (.memTooSmall ((bufferRegionStartOffset + bmCapOffset + 1) % 2 ^ 32) memLen
      bufferRegionStartOffset)
  else
    let listNum := readWord mem bufferRegionStartOffset 2
    let length := readWord mem (bufferRegionStartOffset + bmCapOffset) 4
    if memLen < (bufferManagerHeaderSize + length) % 2 ^ 32 \/ listNum = 0 then
      .error (.couldNotMap listNum ((bufferManagerHeaderSize + length) % 2 ^ 32) memLen)
    else
      match mapLists memLen bufferRegionStartOffset mem listNum bufferManagerHeaderSize with
      | .error err => .error err
      | .ok lists =>
        let capOf : Option BufferList -> Nat := fun l =>
          (l.map fun l => readWord mem l.capPerBuffer 4).getD 0
        .ok { lists := lists, memLen := memLen, minSliceSize := capOf lists.head?,
              maxSliceSize := capOf lists.getLast? }

/-- The first of the lists that is large enough and has a buffer to spare. -/
def popFirst (size : Nat) : List BufferList -> Shm -> Option BufferSlice × Shm
  | [], shm => (none, shm)
  | l :: rest, shm =>
    if size <= readWord shm.mem l.capPerBuffer 4 then
      match l.pop shm with
      | (some buf, shm) => (some buf, shm)
      | (none, shm) => popFirst size rest shm
    else popFirst size rest shm

/-- A single buffer of at least `size` bytes.  `none` is `Error::NoMoreBuffer`. -/
def allocShmBuffer (bm : BufferManager) (size : Nat) (shm : Shm) : Option BufferSlice × Shm :=
  if size <= bm.maxSliceSize then popFirst size bm.lists shm else (none, shm)

/-- Take buffers from one list while some of the request remains. -/
def popWhile (l : BufferList) : Nat -> Int -> Shm -> List BufferSlice × Int × Shm
  | 0, remain, shm => ([], remain, shm)
  | rounds + 1, remain, shm =>
    if 0 < remain then
      match l.pop shm with
      | (some buf, shm) =>
        let (slices, remain, shm) := popWhile l rounds (remain - buf.cap) shm
        (buf :: slices, remain, shm)
      | (none, shm) => ([], remain, shm)
    else ([], remain, shm)

/-- The loop of `alloc_shm_buffers` over the lists, largest first. -/
def popLists : List BufferList -> Int -> Shm -> List BufferSlice × Int × Shm
  | [], remain, shm => ([], remain, shm)
  | l :: rest, remain, shm =>
    if 0 < remain then
      -- a buffer holds at least a byte, so the request bounds the rounds
      let (slices, remain, shm) := popWhile l remain.toNat remain shm
      let (more, remain, shm) := popLists rest remain shm
      (slices ++ more, remain, shm)
    else ([], remain, shm)

/-- Buffers of `size` bytes together, or as many as there are, and how many bytes
they hold. -/
def allocShmBuffers (bm : BufferManager) (size : Nat) (shm : Shm) :
    List BufferSlice × Int × Shm :=
  let (slices, remain, shm) := popLists bm.lists.reverse size shm
  (slices, size - remain, shm)

/-- The list that a buffer of this capacity goes back to. -/
def listFor (bm : BufferManager) (cap : Nat) (mem : Memory) : Option BufferList :=
  bm.lists.find? fun l => cap == readWord mem l.capPerBuffer 4

def recycleBuffer (bm : BufferManager) (slice : BufferSlice) (shm : Shm) : Shm :=
  if slice.isFromShm then
    match slice.bufferHeader with
    | none => shm
    | some _ =>
      match bm.listFor slice.cap shm.mem with
      | some l => l.push slice shm
      | none => shm
  else shm

def readBufferSlice (bm : BufferManager) (offset : Nat) (mem : Memory) :
    Except ReadError BufferSlice :=
  if bm.memLen <= (offset + bufferHeaderSize) % 2 ^ 32 then
    .error (.unexpectedOffset offset bm.memLen)
  else
    let bufCap := (BufferHeader.read mem offset).cap
    let bufEndOffset := (offset + bufferHeaderSize + bufCap) % 2 ^ 32
    if bm.memLen < bufEndOffset then .error (.unexpectedEnd bufEndOffset offset bm.memLen)
    else
      .ok (BufferSlice.new mem (some offset) (offset + bufferHeaderSize)
        (wrappingSub bufEndOffset (offset + bufferHeaderSize)) offset true [])

/-- Recycle a slice and the slices its header links to.  The rounds bound the
number of slices; `none` is a run that has not ended by then, or the panic of a
slice without a header. -/
def recycleBuffers (bm : BufferManager) : Nat -> BufferSlice -> Shm -> Option Shm
  | 0, _, _ => none
  | rounds + 1, slice, shm =>
    if slice.isFromShm then
      match slice.bufferHeader with
      | none => none
      | some address =>
        let header := BufferHeader.read shm.mem address
        if header.hasNext then
          let shm := bm.recycleBuffer slice shm
          match bm.readBufferSlice header.next shm.mem with
          | .ok next => recycleBuffers bm rounds next shm
          | .error _ => some shm
        else some (bm.recycleBuffer slice shm)
    else some shm

def checkBufferReturned (bm : BufferManager) (mem : Memory) : Bool :=
  bm.lists.all fun l =>
    readSigned mem l.size 4 == readSigned mem l.cap 4 && readSigned mem l.counter 4 == 0

end BufferManager

end Pool
end Shmipc
