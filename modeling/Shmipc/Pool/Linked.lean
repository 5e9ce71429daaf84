import Shmipc.Pool.System

namespace Shmipc
namespace Pool

open ByteMemory
open Buffer (bufferHeaderSize)

/-!
# Messages in linked slices

A V2-V4 message is written into a list of slices and handed over as the offset of
the first.  The list has a cursor: the slices before it are finished, those after
it were allocated ahead.  `reserve` may leave the rest of a slice unused and may
jump over slices that were allocated ahead, so the finished slices need not be
full, and some may be empty.  `done` gives back what lies behind the cursor and
stores sizes and links in the headers, where the receiver finds them.

Without room in the pool a slice of ordinary memory takes its place, and the
message no longer travels through the pool.
-/

def defaultSingleBufferSize : Nat := 4096

namespace BufferSlice

/-- The bytes that can be read from a slice. -/
def contents (s : BufferSlice) (mem : Memory) : List UInt8 :=
  if s.isFromShm then readBytes mem (s.data + s.readIndex) s.size
  else (s.heap.drop s.readIndex).take s.size

/-- Store bytes from an index on. -/
def store (s : BufferSlice) (index : Nat) (bytes : List UInt8) (mem : Memory) :
    BufferSlice × Memory :=
  if s.isFromShm then (s, writeBytes mem (s.data + index) bytes)
  else ({ s with heap := s.heap.take index ++ bytes ++ s.heap.drop (index + bytes.length) }, mem)

/-- `none` is `Error::NoMoreBuffer`.  The bytes that are handed out for writing end
at the new write index. -/
def reserve (s : BufferSlice) (size : Nat) : Option BufferSlice :=
  if size <= s.remain then some { s with writeIndex := s.writeIndex + size } else none

/-- Copy as much as there is room for. -/
def append (s : BufferSlice) (data : List UInt8) (mem : Memory) : Nat × BufferSlice × Memory :=
  let copySize := min data.length s.remain
  let (stored, mem) := s.store s.writeIndex (data.take copySize) mem
  (copySize, { stored with writeIndex := s.writeIndex + copySize }, mem)

/-- Store what the handle knows, and the offset of the next slice, in the header. -/
def update (s : BufferSlice) (next : Option Nat) (mem : Memory) : Memory :=
  match s.bufferHeader with
  | none => mem
  | some address => updateHeader mem address s.size s.start next

end BufferSlice

/-- A slice of ordinary memory. -/
def heapSlice (len : Nat) : BufferSlice :=
  BufferSlice.new (fun _ => 0) none 0 len 0 false (List.replicate len 0)

/-- The slices in order, around the one that is written to. -/
structure SliceList where
  before : List BufferSlice
  write : Option BufferSlice
  after : List BufferSlice
  deriving DecidableEq

namespace SliceList

def new : SliceList := ⟨[], none, []⟩

def toList (l : SliceList) : List BufferSlice := l.before ++ l.write.toList ++ l.after

def pushBack (l : SliceList) (s : BufferSlice) : SliceList := { l with after := l.after ++ [s] }

/-- `write_slice = front_slice`. -/
def writeFront (l : SliceList) : SliceList := ⟨[], l.toList.head?, l.toList.tail⟩

/-- `write_slice = back_slice`. -/
def writeBack (l : SliceList) : SliceList := ⟨l.toList.dropLast, l.toList.getLast?, []⟩

/-- `write_slice = write.next_slice`. -/
def writeNext (l : SliceList) : SliceList :=
  ⟨l.before ++ l.write.toList, l.after.head?, l.after.tail⟩

end SliceList

/-- The zero-copy readers of a received slice are not part of this model. -/
structure LinkedBuffer where
  sliceList : SliceList
  isFromShm : Bool
  len : Nat
  deriving DecidableEq

namespace LinkedBuffer

def new : LinkedBuffer := ⟨.new, true, 0⟩

def pushBack (buf : LinkedBuffer) (s : BufferSlice) : LinkedBuffer :=
  { buf with sliceList := buf.sliceList.pushBack s }

/-- The fallback of `alloc` and `reserve`. -/
def pushHeap (buf : LinkedBuffer) (size : Nat) : LinkedBuffer :=
  { buf.pushBack (heapSlice (max size defaultSingleBufferSize)) with isFromShm := false }

def alloc (bm : BufferManager) (size : Nat) (buf : LinkedBuffer) (shm : Shm) :
    LinkedBuffer × Shm :=
  match bm.allocShmBuffer size shm with
  | (some slice, shm) => (buf.pushBack slice, shm)
  | (none, shm) =>
    let (slices, allocSize, shm) := bm.allocShmBuffers size shm
    let buf := slices.foldl pushBack buf
    let remain : Int := size - allocSize
    if 0 < remain then (buf.pushHeap remain.toNat, shm) else (buf, shm)

/-- The first step of a writer: without a slice to write to, allocate. -/
def ensureWrite (bm : BufferManager) (size : Nat) (buf : LinkedBuffer) (shm : Shm) :
    LinkedBuffer × Shm :=
  if buf.sliceList.write.isNone then
    let (buf, shm) := buf.alloc bm (size % 2 ^ 32) shm
    ({ buf with sliceList := buf.sliceList.writeFront }, shm)
  else (buf, shm)

/-- The end of `reserve`: a new slice at the back, large enough by itself. -/
def reserveNew (bm : BufferManager) (size : Nat) (buf : LinkedBuffer) (shm : Shm) :
    Option (LinkedBuffer × Shm) :=
  let (buf, shm) :=
    match bm.allocShmBuffer (size % 2 ^ 32) shm with
    | (some slice, shm) => (buf.pushBack slice, shm)
    | (none, shm) => (buf.pushHeap size, shm)
  let list := buf.sliceList.writeBack
  (list.write.bind fun w => w.reserve size).map fun w =>
    ({ buf with sliceList := { list with write := some w }, len := buf.len + size }, shm)

/-- Room for `size` bytes in one slice, the last one written to.  `none` is the panic
of a list without a slice, or the error of a new slice that is too small. -/
def reserve (bm : BufferManager) (size : Nat) (buf : LinkedBuffer) (shm : Shm) :
    Option (LinkedBuffer × Shm) :=
  let (buf, shm) := buf.ensureWrite bm size shm
  buf.sliceList.write.bind fun w =>
    match w.reserve size with
    | some w =>
      let list := { buf.sliceList with write := some w }
      some ({ buf with sliceList := list, len := buf.len + size }, shm)
    | none =>
      match buf.sliceList.after.head?.bind fun e => e.reserve size with
      | some e =>
        let list := { buf.sliceList.writeNext with write := some e }
        some ({ buf with sliceList := list, len := buf.len + size }, shm)
      | none => buf.reserveNew bm size shm

/-- Write all of the bytes that were reserved last. -/
def fillReserved (bytes : List UInt8) (buf : LinkedBuffer) (shm : Shm) : LinkedBuffer × Shm :=
  match buf.sliceList.write with
  | none => (buf, shm)
  | some w =>
    let (w, mem) := w.store (w.writeIndex - bytes.length) bytes shm.mem
    ({ buf with sliceList := { buf.sliceList with write := some w } }, { shm with mem := mem })

/-- The loop of `write_bytes` on the bytes that remain.  `none` is a loop that has
not ended after so many rounds, or a panic for want of a slice. -/
def writeLoop (bm : BufferManager) :
    Nat -> List UInt8 -> LinkedBuffer -> Shm -> Option (LinkedBuffer × Shm)
  | 0, _, _, _ => none
  | rounds + 1, bytes, buf, shm =>
    buf.sliceList.write.bind fun w =>
      let (n, w, mem) := w.append bytes shm.mem
      let buf := { buf with sliceList := { buf.sliceList with write := some w } }
      let shm := { shm with mem := mem }
      if n < bytes.length then
        let (buf, shm) :=
          if buf.sliceList.after.isEmpty then buf.alloc bm ((bytes.length - n) % 2 ^ 32) shm
          else (buf, shm)
        writeLoop bm rounds (bytes.drop n)
          { buf with sliceList := buf.sliceList.writeNext } shm
      else some (buf, shm)

def writeBytes (bm : BufferManager) (bytes : List UInt8) (buf : LinkedBuffer) (shm : Shm) :
    Option (LinkedBuffer × Shm) :=
  if bytes.isEmpty then some (buf, shm)
  else
    let (buf, shm) := buf.ensureWrite bm bytes.length shm
    -- a slice that is allocated ahead takes at least a byte, so the bytes bound the rounds
    (buf.writeLoop bm (bytes.length + 1) bytes shm).map fun (buf, shm) =>
      ({ buf with len := buf.len + bytes.length }, shm)

/-- The loop of `done` over the slices that were written. -/
def updateSlices : List BufferSlice -> Memory -> Memory
  | [], mem => mem
  | s :: rest, mem => updateSlices rest (s.update (rest.head?.map BufferSlice.offsetInShm) mem)

/-- The source compares slices to find the cursor; two slices of a list never have
the same data pointer, so that is the cursor itself. -/
def done (bm : BufferManager) (buf : LinkedBuffer) (shm : Shm) : LinkedBuffer × Shm :=
  if buf.isFromShm then
    let (list, unused) : SliceList × List BufferSlice :=
      if buf.sliceList.write.isSome then
        ({ buf.sliceList with after := [] }, buf.sliceList.after)
      else (buf.sliceList, [])
    let shm := { shm with mem := updateSlices list.toList shm.mem }
    let shm := unused.foldl (fun shm s => bm.recycleBuffer s shm) shm
    ({ buf with sliceList := list }, shm)
  else (buf, shm)

/-- Every slice goes back to the pool or, if it is not from there, is freed. -/
def recycle (bm : BufferManager) (buf : LinkedBuffer) (shm : Shm) : LinkedBuffer × Shm :=
  ({ buf with sliceList := .new, isFromShm := true, len := 0 },
    buf.sliceList.toList.foldl (fun shm s => bm.recycleBuffer s shm) shm)

/-- Every slice is forgotten, and freed if it is not from the pool. -/
def clean (buf : LinkedBuffer) : LinkedBuffer :=
  { buf with sliceList := .new, isFromShm := true, len := 0 }

/-- The bytes that `write_fallback` copies, up to the slice at the cursor.  It counts
them from the write index and reads them from the first byte of a slice. -/
def fallbackBytes (buf : LinkedBuffer) (mem : Memory) : List UInt8 :=
  let slices :=
    if buf.sliceList.write.isSome then { buf.sliceList with after := [] }.toList
    else buf.sliceList.toList
  slices.flatMap fun s =>
    if s.isFromShm then readBytes mem s.data s.size else s.heap.take s.size

def rootBufOffset (buf : LinkedBuffer) : Nat :=
  (buf.sliceList.toList.head?.map BufferSlice.offsetInShm).getD 0

def appendBufferSlice (buf : LinkedBuffer) (slice : BufferSlice) : LinkedBuffer where
  sliceList := (buf.sliceList.pushBack slice).writeBack
  isFromShm := buf.isFromShm && slice.isFromShm
  len := buf.len + slice.size

/-- The loop of `move_pending_data` over one message.  `none` is a loop that has not
ended after so many rounds. -/
def moveChain (bm : BufferManager) :
    Nat -> Nat -> LinkedBuffer -> Shm -> Option (LinkedBuffer × Shm)
  | 0, _, _, _ => none
  | rounds + 1, offset, buf, shm =>
    match bm.readBufferSlice offset shm.mem with
    | .error _ => some (buf, shm)
    | .ok slice =>
      let header := BufferHeader.read shm.mem offset
      if slice.size = 0 then
        let shm := bm.recycleBuffer slice shm
        if header.hasNext then moveChain bm rounds header.next buf shm
        else
          match buf.sliceList.toList.getLast?.bind BufferSlice.bufferHeader with
          | some address =>
            let mem := BufferHeader.setInUsed (BufferHeader.clearFlag shm.mem address) address
            some (buf, { shm with mem := mem })
          | none => some (buf, shm)
      else if header.hasNext then
        moveChain bm rounds header.next (buf.appendBufferSlice slice) shm
      else some (buf.appendBufferSlice slice, shm)

/-- The bytes that can be read from all slices in order. -/
def contents (buf : LinkedBuffer) (mem : Memory) : List UInt8 :=
  buf.sliceList.toList.flatMap fun s => s.contents mem

/-- A call of the sender: room that is reserved and then written in full, or bytes
that are copied. -/
inductive Call
  | reserve (bytes : List UInt8)
  | writeBytes (bytes : List UInt8)
  deriving DecidableEq

def Call.bytes : Call -> List UInt8
  | .reserve bytes => bytes
  | .writeBytes bytes => bytes

def call (bm : BufferManager) (c : Call) (buf : LinkedBuffer) (shm : Shm) :
    Option (LinkedBuffer × Shm) :=
  match c with
  | .reserve bytes =>
    (buf.reserve bm bytes.length shm).map fun (buf, shm) => buf.fillReserved bytes shm
  | .writeBytes bytes => buf.writeBytes bm bytes shm

def callAll (bm : BufferManager) : List Call -> LinkedBuffer -> Shm -> Option (LinkedBuffer × Shm)
  | [], buf, shm => some (buf, shm)
  | c :: rest, buf, shm => (buf.call bm c shm).bind fun (buf, shm) => callAll bm rest buf shm

/-- What the receiver makes of a message.  `flush` hands over nothing if nothing was
written. -/
def deliver (bm : BufferManager) (rounds : Nat) (sent recv : LinkedBuffer) (shm : Shm) :
    Option (LinkedBuffer × Shm) :=
  if sent.len = 0 then some (recv, shm) else recv.moveChain bm rounds sent.rootBufOffset shm

end LinkedBuffer

end Pool
end Shmipc
