import Mathlib.Algebra.Order.Group.Nat
import Shmipc.Base.Transition

namespace Shmipc
namespace Queue

open Transition

/-!
# The queue of a V2 to V4 session

The queue is a ring of slots in shared memory with a head, a tail and a working
flag.  The producers are tasks of one process.  They put under a lock: load the
tail and the head, write the three fields of the slot, and store the tail.  A task
whose put has succeeded then claims the consumer, a compare-exchange of the working
flag from zero to one, and sends a wakeup if it won.

The consumer of the other process takes no lock.  Woken up, it pops until the queue
is empty and then runs `mark_not_working`: it stores zero to the flag, loads the
tail and the head once more, and either goes to sleep or stores one and goes on.

Every load and every store of the head, the tail, a field and the flag is one step.
The lock is released together with the last access of a put.  Head and tail are
signed 64-bit counters that wrap.  A wakeup that comes in may stand for several that
were sent, as it does with an eventfd.
-/

structure QueueElement where
  seqId : UInt32
  offsetInShmBuf : UInt32
  status : UInt32
  deriving DecidableEq, Repr

/-- Where a producer stands, named after what it is about to do. -/
inductive PutPoint
  | idle
  /-- The last put returned `QueueFull`. -/
  | refused
  | lock (element : QueueElement)
  | loadTail (element : QueueElement)
  | loadHead (element : QueueElement) (tail : Int)
  | writeSeqId (element : QueueElement) (tail : Int)
  | writeOffset (element : QueueElement) (tail : Int)
  | writeStatus (element : QueueElement) (tail : Int)
  | storeTail (element : QueueElement) (tail : Int)
  | markWorking
  | sendWakeup
  deriving DecidableEq, Repr

/-- Where the consumer stands, named after what it is about to do. -/
inductive PopPoint
  | asleep
  | loadHead
  | loadTail (head : Int)
  | readSeqId (head : Int)
  | readOffset (head : Int) (seqId : UInt32)
  | readStatus (head : Int) (seqId offset : UInt32)
  | storeHead (head : Int) (element : QueueElement)
  | storeZero
  /-- The loads of `size`. -/
  | sizeTail
  | sizeHead (tail : Int)
  | storeOne
  deriving DecidableEq, Repr

/-- The queue and its users.  `inFlight` counts the wakeups that were sent and have
not come in.  `put` and `popped` list the elements of the puts that succeeded and
those that were popped. -/
structure QueueState where
  head : Int
  tail : Int
  working : Bool
  slots : Nat -> QueueElement
  lock : Option Nat
  producer : Nat -> PutPoint
  consumer : PopPoint
  inFlight : Nat
  put : List QueueElement
  popped : List QueueElement

inductive QueueAction
  /-- A producer calls `put`. -/
  | call (producer : Nat) (element : QueueElement)
  | produce (producer : Nat)
  /-- The consumer is woken up, and some wakeups stay in flight. -/
  | wake (left : Nat)
  | consume
  deriving DecidableEq, Repr

namespace QueueState

def new (slots : Nat -> QueueElement) : QueueState where
  head := 0
  tail := 0
  working := false
  slots := slots
  lock := none
  producer := fun _ => .idle
  consumer := .asleep
  inFlight := 0
  put := []
  popped := []

def setProducer (s : QueueState) (p : Nat) (point : PutPoint) : QueueState :=
  { s with producer := Function.update s.producer p point }

@[simp]
theorem setProducer_self (s : QueueState) (p : Nat) (point : PutPoint) :
    (s.setProducer p point).producer p = point :=
  Function.update_self _ _ _

theorem setProducer_of_ne (s : QueueState) {p q : Nat} (point : PutPoint) (other : q ≠ p) :
    (s.setProducer p point).producer q = s.producer q :=
  Function.update_of_ne other _ _

/-- Store to one field of a slot. -/
def setSlot (s : QueueState) (index : Nat) (store : QueueElement -> QueueElement) : QueueState :=
  { s with slots := Function.update s.slots index (store (s.slots index)) }

/-- The slot of a position: its remainder by the capacity. -/
def slotIndex (cap : Nat) (position : Int) : Nat := (position.tmod cap).toNat

theorem slotIndex_natCast (cap position : Nat) : slotIndex cap position = position % cap := by
  rw [slotIndex, <- Int.ofNat_tmod, Int.toNat_natCast]

/-- `Queue::put`, `Queue::mark_working` and the wakeup, one access at a time. -/
def produce (cap : Nat) (s : QueueState) (p : Nat) : Option QueueState :=
  match s.producer p with
  | .idle => none
  | .refused => none
  | .lock element =>
    if s.lock = none then some ({ s with lock := some p }.setProducer p (.loadTail element))
    else none
  | .loadTail element => some (s.setProducer p (.loadHead element s.tail))
  | .loadHead element tail =>
    -- the queue is full, and put returns
    if cap <= (tail - s.head).bmod (2 ^ 64) then
      some ({ s with lock := none }.setProducer p .refused)
    else some (s.setProducer p (.writeSeqId element tail))
  | .writeSeqId element tail =>
    some ((s.setSlot (slotIndex cap tail) fun slot =>
      { slot with seqId := element.seqId }).setProducer p (.writeOffset element tail))
  | .writeOffset element tail =>
    some ((s.setSlot (slotIndex cap tail) fun slot =>
      { slot with offsetInShmBuf := element.offsetInShmBuf }).setProducer p
      (.writeStatus element tail))
  | .writeStatus element tail =>
    some ((s.setSlot (slotIndex cap tail) fun slot =>
      { slot with status := element.status }).setProducer p (.storeTail element tail))
  | .storeTail element tail =>
    some ({ s with
      tail := (tail + 1).bmod (2 ^ 64)
      lock := none
      put := s.put ++ [element] }.setProducer p .markWorking)
  | .markWorking =>
    if s.working then some (s.setProducer p .idle)
    else some ({ s with working := true }.setProducer p .sendWakeup)
  | .sendWakeup => some ({ s with inFlight := s.inFlight + 1 }.setProducer p .idle)

/-- `Queue::pop` in a loop and `Queue::mark_not_working`, one access at a time. -/
def consume (cap : Nat) (s : QueueState) : Option QueueState :=
  match s.consumer with
  | .asleep => none
  | .loadHead => some { s with consumer := .loadTail s.head }
  | .loadTail head =>
    if s.tail <= head then some { s with consumer := .storeZero }
    else some { s with consumer := .readSeqId head }
  | .readSeqId head =>
    some { s with consumer := .readOffset head (s.slots (slotIndex cap head)).seqId }
  | .readOffset head seqId =>
    some { s with
      consumer := .readStatus head seqId (s.slots (slotIndex cap head)).offsetInShmBuf }
  | .readStatus head seqId offset =>
    some { s with
      consumer := .storeHead head
        { seqId := seqId
          offsetInShmBuf := offset
          status := (s.slots (slotIndex cap head)).status } }
  | .storeHead head element =>
    some { s with
      head := (head + 1).bmod (2 ^ 64)
      popped := s.popped ++ [element]
      consumer := .loadHead }
  | .storeZero => some { s with working := false, consumer := .sizeTail }
  | .sizeTail => some { s with consumer := .sizeHead s.tail }
  | .sizeHead tail =>
    if tail = s.head then some { s with consumer := .asleep }
    else some { s with consumer := .storeOne }
  | .storeOne => some { s with working := true, consumer := .loadHead }

def step (cap : Nat) (s : QueueState) : QueueAction -> Option QueueState
  | .call p element =>
    if s.producer p = .idle \/ s.producer p = .refused then
      some (s.setProducer p (.lock element))
    else none
  | .produce p => s.produce cap p
  | .wake left =>
    if s.consumer = .asleep /\ left < s.inFlight then
      some { s with consumer := .loadHead, inFlight := left }
    else none
  | .consume => s.consume cap

end QueueState

/-- Any number of producers and one consumer, over a queue whose slots hold
anything at first. -/
def queueSystem (cap : Nat) : System QueueState QueueAction where
  init := fun s => Exists fun slots => s = QueueState.new slots
  step := QueueState.step cap

end Queue
end Shmipc
