import Mathlib.Logic.Function.Basic
import Shmipc.Base.Transition

namespace Shmipc
namespace Buffer

open Transition

/-!
# The free list of a buffer size

`BufferList` keeps the free buffers of one size in shared memory as a linked
list.  `pop` takes the head and `push` appends behind the tail; both may run in
any number of threads of both processes.  The head, the tail, the number of
free buffers and the counter are atomics.  The link and the flag byte of a
buffer header are plain memory, so every access to one of them is a step of its
own, and the `|=` and `&=` on the flag byte are a load followed by a store.

A buffer is named by its offset in the buffer region.  Of a buffer header only
the link and the flag byte take part in the list; the capacity, size and start
fields are written and read by the code that fills a buffer.
-/

def bufferHeaderSize : Nat := 20

def bufferListHeaderSize : Nat := 36

/-- The two bits of the flag byte: `HAS_NEXT_BUFFER_FLAG` and
`SLICE_IN_USED_FLAG`. -/
structure BufferFlag where
  hasNext : Bool
  inUsed : Bool
  deriving DecidableEq

/-- The part of a buffer header that the free list uses. -/
structure BufferHeader where
  nextBufferOffset : Nat
  flag : BufferFlag

/-- The value of a zeroed flag byte. -/
def BufferFlag.clear : BufferFlag := ⟨false, false⟩

structure BufferList where
  size : Int
  cap : Nat
  head : Nat
  tail : Nat
  capPerBuffer : Nat
  counter : Int
  bufferRegionLen : Nat
  header : Nat -> BufferHeader

inductive CreateError
  | zeroArgument (bufferNum capPerBuffer : Nat)
  | memTooSmall (atLeast memLen offsetInMem atLeastSize : Nat)
  | sliceOutOfRange (bufferRegionStart bufferRegionEnd : Nat)
  deriving DecidableEq

def countBufferListMemSize (bufferNum capPerBuffer : Nat) : Nat :=
  bufferListHeaderSize + bufferNum * (capPerBuffer + bufferHeaderSize)

namespace BufferList

def setNext (l : BufferList) (node next : Nat) : BufferList :=
  { l with
    header := Function.update l.header node { l.header node with nextBufferOffset := next } }

def setFlag (l : BufferList) (node : Nat) (flag : BufferFlag) : BufferList :=
  { l with header := Function.update l.header node { l.header node with flag := flag } }

/-- The loop of `create` with the number of rounds still to run: every buffer
but the last is linked to the one behind it. -/
def linkBuffers (stride : Nat) : Nat -> Nat -> BufferList -> BufferList
  | 0, _, l => l
  | rounds + 1, current, l =>
    let next := current + stride
    let l :=
      if 0 < rounds then (l.setNext current next).setFlag current ⟨true, false⟩ else l
    linkBuffers stride rounds next l

/-- `create` over a mapping whose buffer headers hold `memory`. -/
def create (bufferNum capPerBuffer memLen offsetInMem : Nat) (memory : Nat -> BufferHeader) :
    Except CreateError BufferList :=
  let atLeastSize := countBufferListMemSize bufferNum capPerBuffer
  let bufferRegionStart := offsetInMem + bufferListHeaderSize
  let bufferRegionEnd := offsetInMem + atLeastSize
  if bufferNum = 0 \/ capPerBuffer = 0 then .error (.zeroArgument bufferNum capPerBuffer)
  else if memLen < offsetInMem + atLeastSize \/ memLen < offsetInMem \/ memLen < atLeastSize then
    .error (.memTooSmall (offsetInMem + atLeastSize) memLen offsetInMem atLeastSize)
  else if bufferRegionEnd <= bufferRegionStart then
    .error (.sliceOutOfRange bufferRegionStart bufferRegionEnd)
  else
    let stride := capPerBuffer + bufferHeaderSize
    let b : BufferList :=
      { size := bufferNum, cap := bufferNum, head := 0, tail := (bufferNum - 1) * stride,
        capPerBuffer := capPerBuffer, counter := 0,
        bufferRegionLen := atLeastSize - bufferListHeaderSize, header := memory }
    let b := linkBuffers stride bufferNum 0 b
    .ok (b.setFlag b.tail .clear)

end BufferList

/-- The next access of a thread.  The first group is `pop`, the second the reset
of a buffer at the start of `push`, the third the loop of `push`.  `tries` is the
number of rounds that `pop` has left. -/
inductive ListThread
  | idle
  | popped (node : Nat)
  | noMoreBuffer
  | loadHead
  | subSize (oldHead : Nat)
  | hasNext (oldHead tries : Nat)
  | nextBufferOffset (oldHead tries : Nat)
  | exchangeHead (oldHead next tries : Nat)
  | clearFlag (node : Nat)
  | loadUsed (node : Nat)
  | setInUsed (node : Nat) (flag : BufferFlag)
  | addCounter (node : Nat)
  | testSize (tries : Nat)
  | reloadHead (tries : Nat)
  | giveBack
  | unlinkNext (node : Nat)
  | loadUnlink (node : Nat)
  | unlinkFlag (node : Nat) (flag : BufferFlag)
  | resetFlag (node : Nat)
  | loadTail (node : Nat)
  | exchangeTail (node oldTail : Nat)
  | linkNext (node oldTail : Nat)
  | loadLink (node oldTail : Nat)
  | linkFlag (node oldTail : Nat) (flag : BufferFlag)
  | addSize
  | subCounter
  deriving DecidableEq

/-- No call of the thread is in progress. -/
def ListThread.atRest : ListThread -> Bool
  | .idle => true
  | .popped _ => true
  | .noMoreBuffer => true
  | _ => false

/-- A thread either starts a call or makes its next access. -/
inductive ListAction
  | pop (thread : Nat)
  | push (thread node : Nat)
  | access (thread : Nat)

/-- The list, the threads, and the buffers each thread holds: those it took off
the head and has not put behind the tail. -/
structure ListState where
  list : BufferList
  thread : Nat -> ListThread
  held : Nat -> List Nat

namespace ListState

def new (list : BufferList) : ListState where
  list := list
  thread := fun _ => .idle
  held := fun _ => []

def setThread (s : ListState) (p : Nat) (pc : ListThread) : ListState :=
  { s with thread := Function.update s.thread p pc }

def setList (s : ListState) (list : BufferList) : ListState :=
  { s with list := list }

def setHeld (s : ListState) (p : Nat) (held : List Nat) : ListState :=
  { s with held := Function.update s.held p held }

/-- The loop of `pop`: another round from the given head, or the end of it. -/
def retry (oldHead : Nat) : Nat -> ListThread
  | 0 => .giveBack
  | tries + 1 => .hasNext oldHead tries

def popAccess (s : ListState) (p : Nat) : ListThread -> Option ListState
  | .loadHead => some (s.setThread p (.subSize s.list.head))
  | .subSize oldHead =>
    let remain := s.list.size
    let s := s.setList { s.list with size := s.list.size - 1 }
    if remain <= 1 \/
        s.list.bufferRegionLen < oldHead + bufferHeaderSize + s.list.capPerBuffer then
      some (s.setThread p .giveBack)
    else some (s.setThread p (retry oldHead 200))
  | .hasNext oldHead tries =>
    if (s.list.header oldHead).flag.hasNext then
      some (s.setThread p (.nextBufferOffset oldHead tries))
    else some (s.setThread p (.testSize tries))
  | .nextBufferOffset oldHead tries =>
    let next := (s.list.header oldHead).nextBufferOffset
    some (s.setThread p (.exchangeHead oldHead next tries))
  | .exchangeHead oldHead next tries =>
    if s.list.head = oldHead then
      let s := s.setList { s.list with head := next }
      some ((s.setHeld p (s.held p ++ [oldHead])).setThread p (.clearFlag oldHead))
    else some (s.setThread p (.reloadHead tries))
  | .clearFlag node =>
    some ((s.setList (s.list.setFlag node .clear)).setThread p (.loadUsed node))
  | .loadUsed node => some (s.setThread p (.setInUsed node (s.list.header node).flag))
  | .setInUsed node flag =>
    let list := s.list.setFlag node { flag with inUsed := true }
    some ((s.setList list).setThread p (.addCounter node))
  | .addCounter node =>
    let list := { s.list with counter := s.list.counter + 1 }
    some ((s.setList list).setThread p (.popped node))
  | .testSize tries =>
    if s.list.size <= 1 then some (s.setThread p .giveBack)
    else some (s.setThread p (.reloadHead tries))
  | .reloadHead tries => some (s.setThread p (retry s.list.head tries))
  | .giveBack =>
    let list := { s.list with size := s.list.size + 1 }
    some ((s.setList list).setThread p .noMoreBuffer)
  | _ => none

def pushAccess (s : ListState) (p : Nat) : ListThread -> Option ListState
  | .unlinkNext node =>
    some ((s.setList (s.list.setNext node 0)).setThread p (.loadUnlink node))
  | .loadUnlink node => some (s.setThread p (.unlinkFlag node (s.list.header node).flag))
  | .unlinkFlag node flag =>
    let list := s.list.setFlag node { flag with hasNext := false }
    some ((s.setList list).setThread p (.resetFlag node))
  | .resetFlag node =>
    some ((s.setList (s.list.setFlag node .clear)).setThread p (.loadTail node))
  | .loadTail node => some (s.setThread p (.exchangeTail node s.list.tail))
  | .exchangeTail node oldTail =>
    if s.list.tail = oldTail then
      let s := s.setList { s.list with tail := node }
      some ((s.setHeld p ((s.held p).erase node)).setThread p (.linkNext node oldTail))
    else some (s.setThread p (.loadTail node))
  | .linkNext node oldTail =>
    some ((s.setList (s.list.setNext oldTail node)).setThread p (.loadLink node oldTail))
  | .loadLink node oldTail =>
    some (s.setThread p (.linkFlag node oldTail (s.list.header oldTail).flag))
  | .linkFlag _ oldTail flag =>
    let list := s.list.setFlag oldTail { flag with hasNext := true }
    some ((s.setList list).setThread p .addSize)
  | .addSize =>
    let list := { s.list with size := s.list.size + 1 }
    some ((s.setList list).setThread p .subCounter)
  | .subCounter =>
    let list := { s.list with counter := s.list.counter - 1 }
    some ((s.setList list).setThread p .idle)
  | _ => none

/-- A thread pushes only what it holds. -/
def step (s : ListState) : ListAction -> Option ListState
  | .pop p => if (s.thread p).atRest then some (s.setThread p .loadHead) else none
  | .push p node =>
    if (s.thread p).atRest /\ node ∈ s.held p then some (s.setThread p (.unlinkNext node))
    else none
  | .access p => (s.popAccess p (s.thread p)).or (s.pushAccess p (s.thread p))

end ListState

/-- All interleavings of threads that pop and push on a list made by `create`. -/
def listSystem (bufferNum capPerBuffer : Nat) : System ListState ListAction where
  init := fun s => Exists fun memLen => Exists fun offsetInMem => Exists fun memory =>
    Exists fun list => BufferList.create bufferNum capPerBuffer memLen offsetInMem memory = .ok list /\
      s = ListState.new list
  step := ListState.step

end Buffer
end Shmipc
