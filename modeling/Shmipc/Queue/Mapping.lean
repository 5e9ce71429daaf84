import Shmipc.Base.ByteMemory

namespace Shmipc
namespace Queue

open ByteMemory

/-!
# The queues in their mapping

The two queues of a session share one mapping, one half each.  A queue starts with
a header of 24 bytes, which holds its capacity, the working flag and the positions
of its two ends, and its slots of twelve bytes follow.  The process that maps the
queues takes the capacity from the header and keeps it; the positions are loaded
from the header by every call.

This is a model of where single calls go in the bytes, with the positions as the
64-bit integers they are.  What the calls do there, step by step, and how they
interleave is the subject of `Queue.Ring`.  The system call that maps the bytes is
taken to succeed.
-/

def queueHeaderLength : Nat := 24

def queueElementLen : Nat := 12

inductive QueueLayout
  | legacy
  | aligned
  deriving DecidableEq, Repr

namespace QueueLayout

/-- The layout of a protocol version.  Some targets use the aligned one always. -/
def forProtocolVersion (alignedTarget : Bool) (version : Nat) : QueueLayout :=
  if 4 <= version \/ alignedTarget then .aligned else .legacy

def workingFlagOffset : QueueLayout -> Nat
  | .legacy => 20
  | .aligned => 4

def headOffset : QueueLayout -> Nat
  | .legacy => 4
  | .aligned => 8

def tailOffset : QueueLayout -> Nat
  | .legacy => 12
  | .aligned => 16

end QueueLayout

/-- `Queue`, one process's view of a queue: where its fields are in the mapping, and the
capacity it found there. -/
structure MappedQueue where
  head : Nat
  tail : Nat
  workingFlag : Nat
  queueBytesOnMemory : Nat
  cap : Nat
  deriving DecidableEq, Repr

/-- What keeps a call from its slot.  The last one is a panic: the remainder by a
capacity of zero. -/
inductive QueueError
  | queueFull
  | queueEmpty
  | remainderByZero
  deriving DecidableEq, Repr

namespace MappedQueue

def mappingFromBytes (mem : Memory) (data : Nat) (layout : QueueLayout) : MappedQueue where
  head := data + layout.headOffset
  tail := data + layout.tailOffset
  workingFlag := data + layout.workingFlagOffset
  queueBytesOnMemory := data + queueHeaderLength
  cap := readWord mem data 4

def loadHead (q : MappedQueue) (mem : Memory) : Int := readSigned mem q.head 8

def loadTail (q : MappedQueue) (mem : Memory) : Int := readSigned mem q.tail 8

/-- The address of a slot.  A negative position has a negative remainder. -/
def slotAt (q : MappedQueue) (position : Int) : Int :=
  q.queueBytesOnMemory + position.tmod q.cap * queueElementLen

/-- The slot that `put` writes to. -/
def putSlot (q : MappedQueue) (mem : Memory) : Except QueueError Int :=
  let tail := q.loadTail mem
  if (q.cap : Int) <= (tail - q.loadHead mem).bmod (2 ^ 64) then .error .queueFull
  else if q.cap = 0 then .error .remainderByZero
  else .ok (q.slotAt tail)

/-- The slot that `pop` reads. -/
def popSlot (q : MappedQueue) (mem : Memory) : Except QueueError Int :=
  let head := q.loadHead mem
  if q.loadTail mem <= head then .error .queueEmpty
  else if q.cap = 0 then .error .remainderByZero
  else .ok (q.slotAt head)

end MappedQueue

structure QueueManager where
  sendQueue : MappedQueue
  recvQueue : MappedQueue
  memLen : Nat
  deriving DecidableEq, Repr

inductive QueueMappingError
  | invalidSize (size : Int)
  | notMultipleOf16
  deriving DecidableEq, Repr

/-- The server's view of the queues in a file of `stSize` bytes.  The half that one
side receives from is the one that the other side sends to. -/
def QueueManager.mappingWithMemfd (alignedTarget : Bool) (stSize : Int) (protoVersion : Nat)
    (mem : Memory) : Except QueueMappingError QueueManager :=
  let layout := QueueLayout.forProtocolVersion alignedTarget protoVersion
  if stSize < 0 then .error (.invalidSize stSize)
  else
    let mappingSize := stSize.toNat
    if layout = .aligned /\ mappingSize % 16 ≠ 0 then .error .notMultipleOf16
    else
      .ok
        { sendQueue := MappedQueue.mappingFromBytes mem (mappingSize / 2) layout
          recvQueue := MappedQueue.mappingFromBytes mem 0 layout
          memLen := mappingSize }

/-! ## The slots of the calls -/

namespace MappedQueue

/-- The slots of the next `put` and of the next `pop` lie behind the header of the
queue and inside the half that starts at `data`. -/
structure SlotsInside (q : MappedQueue) (data half : Nat) (mem : Memory) : Prop where
  put : forall slot, q.putSlot mem = .ok slot ->
    (data + queueHeaderLength : Int) <= slot /\ slot + queueElementLen <= data + half
  pop : forall slot, q.popSlot mem = .ok slot ->
    (data + queueHeaderLength : Int) <= slot /\ slot + queueElementLen <= data + half

/-- The half has room for as many slots as the queue says it has.  `mapping_with_memfd`
does not check it. -/
def Roomy (q : MappedQueue) (half : Nat) : Prop :=
  q.cap = 0 \/ queueHeaderLength + queueElementLen * q.cap <= half

/-- The positions in the header that a call goes by have no negative remainder. -/
structure Forward (q : MappedQueue) (mem : Memory) : Prop where
  put : forall slot, q.putSlot mem = .ok slot -> 0 <= (q.loadTail mem).tmod q.cap
  pop : forall slot, q.popSlot mem = .ok slot -> 0 <= (q.loadHead mem).tmod q.cap

/-- What mapping a queue at `data` settles. -/
structure MappedAt (q : MappedQueue) (data : Nat) : Prop where
  start : q.queueBytesOnMemory = data + queueHeaderLength
  apart : q.tail = q.head + 8
  word : q.cap < 2 ^ 32

theorem mappedAt_mappingFromBytes (mem : Memory) (data : Nat) (layout : QueueLayout) :
    (mappingFromBytes mem data layout).MappedAt data where
  start := rfl
  apart := by cases layout <;> rfl
  word := readWord_lt mem data 4

variable {q : MappedQueue} {data half : Nat} {mem : Memory} {slot : Int}

theorem putSlot_eq_ok (chosen : q.putSlot mem = .ok slot) :
    q.cap ≠ 0 /\ slot = q.slotAt (q.loadTail mem) := by
  simp only [putSlot] at chosen
  split_ifs at chosen with _ unused
  exact ⟨unused, (Except.ok.inj chosen).symm⟩

theorem popSlot_eq_ok (chosen : q.popSlot mem = .ok slot) :
    q.cap ≠ 0 /\ slot = q.slotAt (q.loadHead mem) := by
  simp only [popSlot] at chosen
  split_ifs at chosen with _ unused
  exact ⟨unused, (Except.ok.inj chosen).symm⟩

/-- With room for all slots, only a negative remainder leads outside. -/
theorem MappedAt.slotAt_inside_iff (at_ : q.MappedAt data) (roomy : q.Roomy half)
    (used : q.cap ≠ 0) (position : Int) :
    ((data + queueHeaderLength : Int) <= q.slotAt position /\
      q.slotAt position + queueElementLen <= data + half) <-> 0 <= position.tmod q.cap := by
  have positive := Nat.pos_of_ne_zero used
  have upper : position.tmod q.cap < q.cap := Int.tmod_lt_of_pos _ (by omega)
  have room := roomy.resolve_left used
  rw [slotAt, at_.start]
  unfold queueElementLen at room ⊢
  omega

theorem MappedAt.slotsInside_iff_forward (at_ : q.MappedAt data) (roomy : q.Roomy half) :
    q.SlotsInside data half mem <-> q.Forward mem := by
  constructor
  · rintro ⟨put, pop⟩
    constructor
    · intro slot chosen
      rcases putSlot_eq_ok chosen with ⟨used, same⟩
      exact (at_.slotAt_inside_iff roomy used _).mp (same ▸ put slot chosen)
    · intro slot chosen
      rcases popSlot_eq_ok chosen with ⟨used, same⟩
      exact (at_.slotAt_inside_iff roomy used _).mp (same ▸ pop slot chosen)
  · rintro ⟨put, pop⟩
    constructor
    · intro slot chosen
      rcases putSlot_eq_ok chosen with ⟨used, same⟩
      rw [same]
      exact (at_.slotAt_inside_iff roomy used _).mpr (put slot chosen)
    · intro slot chosen
      rcases popSlot_eq_ok chosen with ⟨used, same⟩
      rw [same]
      exact (at_.slotAt_inside_iff roomy used _).mpr (pop slot chosen)

/-- An empty queue whose next slot is the last one. -/
theorem MappedAt.putSlot_last (at_ : q.MappedAt data) {last : Nat} (cap : q.cap = last + 1) :
    Exists fun now => q.loadHead now = last /\ q.loadTail now = last /\
      q.putSlot now = .ok (data + queueHeaderLength + last * queueElementLen : Int) := by
  have word := at_.word
  have fits : 2 * last < 256 ^ 8 := by omega
  have kept := (writeSigned_agreeOutside (writeSigned (fun _ => 0) q.head 8 last)
    q.tail 8 last).agreeOn (b := q.head) (k := 8) (.inl (by rw [at_.apart]))
  have head := (readSigned_congr kept).trans (readSigned_writeSigned (fun _ => 0) q.head fits)
  have tail := readSigned_writeSigned (writeSigned (fun _ => 0) q.head 8 last) q.tail fits
  have remainder : ((last : Nat) : Int).tmod q.cap = last :=
    Int.tmod_eq_of_lt (Int.natCast_nonneg _) (by omega)
  refine ⟨_, head, tail, ?_⟩
  rw [putSlot, loadHead, loadTail, head, tail, Int.sub_self, Int.zero_bmod, if_neg (by omega),
    if_neg (by omega), slotAt, remainder, at_.start]
  rfl

theorem MappedAt.roomy_iff (at_ : q.MappedAt data) :
    (forall now, 0 <= q.loadHead now -> 0 <= q.loadTail now -> q.SlotsInside data half now) <->
      q.Roomy half := by
  constructor
  · intro inside
    cases cap : q.cap with
    | zero => exact .inl cap
    | succ last =>
      rcases at_.putSlot_last cap with ⟨now, head, tail, chosen⟩
      have bounded := ((inside now (by omega) (by omega)).put _ chosen).2
      right
      rw [cap]
      unfold queueElementLen at bounded ⊢
      omega
  · intro roomy now head tail
    refine (at_.slotsInside_iff_forward roomy).mpr ⟨fun _ _ => ?_, fun _ _ => ?_⟩
    · exact Int.tmod_nonneg _ tail
    · exact Int.tmod_nonneg _ head

end MappedQueue

theorem QueueManager.queues_of_mapping {alignedTarget : Bool} {stSize : Int} {protoVersion : Nat}
    {mem : Memory} {qm : QueueManager}
    (mapped : mappingWithMemfd alignedTarget stSize protoVersion mem = .ok qm) :
    qm.recvQueue.MappedAt 0 /\ qm.sendQueue.MappedAt (qm.memLen / 2) := by
  unfold mappingWithMemfd at mapped
  dsimp only at mapped
  split_ifs at mapped
  cases mapped
  exact ⟨MappedQueue.mappedAt_mappingFromBytes .., MappedQueue.mappedAt_mappingFromBytes ..⟩

end Queue
end Shmipc
