import Mathlib.Logic.Function.Basic
import Mathlib.Algebra.Order.Group.Nat
import Shmipc.Base.Transition

namespace Shmipc
namespace V5

open Transition

/-!
# The bounded multi-producer, single-consumer ring

The ring lives in a mapping both peers hold.  Its header carries two logical
positions, and each slot carries a turn counter in front of its payload.  The
counter of a slot is twice the lap number while the slot is free for that lap
and one more than that once the payload is published.

Every atomic load, store and compare-exchange of `try_push` and `try_pop`, and
every payload access, is one step of the machine below.  Producers may use
different mappings of the same bytes; what a mapping keeps for itself is only
its copy of `head`.  Positions and turn counters are 64-bit words, so the
arithmetic on them is written with its reduction modulo `2 ^ 64`.

Slots are addressed by their index.  A slot's bytes lie at a distance from the
header that is the index shifted by the slot size, so distinct indices name
distinct bytes.
-/

/-- The strongest alignment a payload may require. -/
def maxPayloadAlign : Nat := 8

/-- Bytes the turn counter occupies at the front of every slot. -/
def slotHeaderSize : Nat := 8

/-- Bytes the ring header occupies ahead of the slot array. -/
def mpscHeaderSize : Nat := 128

/-- Granularity every mapping is sized and validated against. -/
def pageSize : Nat := 4096

/-- Why a region of memory cannot back a ring. -/
inductive LayoutError where
  | unaligned (len : Nat)
  | misaligned (base : Nat)
  | tooSmall (len : Nat)
  | payloadOverAligned (align : Nat)
  deriving DecidableEq

/-- Bytes one slot occupies, rounded up to a power of two. -/
def slotSize (sizeOf : Nat) : Nat :=
  (slotHeaderSize + sizeOf).nextPowerOfTwo

/-- The addressing geometry of a ring.  The mask is tied to the shift, so a
ring whose capacity is not a power of two cannot be formed. -/
structure Mpsc where
  capShift : Nat
  slotShift : Nat
  mask : Nat
  mask_eq : mask = 2 ^ capShift - 1

namespace Mpsc

/-- Validate a region and derive the geometry from its length alone. -/
def fromRawParts (alignOf sizeOf base len : Nat) : Except LayoutError Mpsc :=
  if alignOf > maxPayloadAlign then .error (.payloadOverAligned alignOf)
  else if len % pageSize ≠ 0 then .error (.unaligned len)
  else if len < mpscHeaderSize then .error (.tooSmall len)
  else if base % maxPayloadAlign ≠ 0 then .error (.misaligned base)
  else
    let slotShift := (slotSize sizeOf).log2
    let rawCap := (len - mpscHeaderSize) >>> slotShift
    if rawCap = 0 then .error (.tooSmall len)
    else
      let capShift := rawCap.log2
      .ok { capShift := capShift, slotShift := slotShift, mask := 2 ^ capShift - 1, mask_eq := rfl }

/-- Payloads the ring holds when full. -/
def cap (ring : Mpsc) : Nat :=
  ring.mask + 1

/-- The slot a logical position falls on. -/
def slotIndex (ring : Mpsc) (position : Nat) : Nat :=
  position &&& ring.mask

theorem cap_eq (ring : Mpsc) : ring.cap = 2 ^ ring.capShift := by
  have positive : 0 < 2 ^ ring.capShift := Nat.two_pow_pos _
  rw [cap, ring.mask_eq]
  omega

theorem slotIndex_eq_mod (ring : Mpsc) (position : Nat) :
    ring.slotIndex position = position % ring.cap := by
  rw [slotIndex, ring.mask_eq, Nat.and_two_pow_sub_one_eq_mod, cap_eq]

/-- The lap a logical position belongs to. -/
def turn (ring : Mpsc) (position : Nat) : Nat :=
  position >>> ring.capShift

/-- The counter that lets the producer of a position write its slot. -/
def freeTurn (ring : Mpsc) (position : Nat) : Nat :=
  (ring.turn position <<< 1) % 2 ^ 64

/-- The counter that lets the consumer read the position's payload. -/
def publishedTurn (ring : Mpsc) (position : Nat) : Nat :=
  ring.freeTurn position ||| 1

/-- The counter the consumer leaves behind for the next lap's producer. -/
def releasedTurn (ring : Mpsc) (position : Nat) : Nat :=
  ((ring.turn position + 1) <<< 1) % 2 ^ 64

end Mpsc

/-- Subtraction of 64-bit words. -/
def wrappingSub (a b : Nat) : Nat :=
  (a + 2 ^ 64 - b) % 2 ^ 64

/-- The outcome of a non-blocking pop. -/
inductive PopResult (T : Type) where
  | empty
  | headNotReady
  | ready (value : T)
  deriving DecidableEq

/-- What both peers see of the ring. -/
structure MpscShared (T : Type) where
  head : Nat
  tail : Nat
  turn : Nat -> Nat
  payload : Nat -> T

/-- Where a producer stands in `try_push`.  Each constructor names the access
it performs next, with the locals the remaining code still reads. -/
inductive Producer (T : Type) where
  | idle
  | loadTail (mapping : Nat) (value : T)
  | loadCache (mapping : Nat) (value : T) (tail : Nat)
  | loadHead (mapping : Nat) (value : T) (tail : Nat)
  | storeCache (mapping : Nat) (value : T) (tail head : Nat)
  | compareExchange (mapping : Nat) (value : T) (tail : Nat)
  | waitTurn (value : T) (position : Nat)
  | write (value : T) (position : Nat)
  | publish (value : T) (position : Nat)
  | returned (ok : Bool)

/-- Where the consumer stands in `try_pop`. -/
inductive Consumer (T : Type) where
  | idle
  | loadHead
  | loadTurn (head : Nat)
  | loadTail (head : Nat)
  | read (head : Nat)
  | storeTurn (head : Nat) (value : T)
  | storeHead (head : Nat) (value : T)
  | returned (result : PopResult T)

/-- The whole machine.  `claims` and `delivered` only record what happened:
the position and value of each successful claim, and each value handed out as
ready.  No step reads them. -/
structure MpscState (T : Type) where
  shared : MpscShared T
  headCache : Nat -> Nat
  producer : Nat -> Producer T
  consumer : Consumer T
  claims : List (Nat × T)
  delivered : List T

/-- One atomic step.  A weak compare-exchange may fail although the values
agree, which is the `spurious` choice. -/
inductive MpscAction (T : Type) where
  | push (producer mapping : Nat) (value : T)
  | produce (producer : Nat) (spurious : Bool)
  | pop
  | consume

namespace MpscState

variable {T : Type}

/-- The state `Mpsc::new` leaves behind: zeroed memory, and a zero copy of
`head` in every mapping made of it. -/
def new (zero : T) : MpscState T where
  shared := { head := 0, tail := 0, turn := fun _ => 0, payload := fun _ => zero }
  headCache := fun _ => 0
  producer := fun _ => .idle
  consumer := .idle
  claims := []
  delivered := []

def setProducer (s : MpscState T) (p : Nat) (pc : Producer T) : MpscState T :=
  { s with producer := Function.update s.producer p pc }

def setConsumer (s : MpscState T) (pc : Consumer T) : MpscState T :=
  { s with consumer := pc }

def setTurn (s : MpscState T) (slot value : Nat) : MpscState T :=
  { s with shared := { s.shared with turn := Function.update s.shared.turn slot value } }

def setPayload (s : MpscState T) (slot : Nat) (value : T) : MpscState T :=
  { s with shared := { s.shared with payload := Function.update s.shared.payload slot value } }

def setCache (s : MpscState T) (mapping head : Nat) : MpscState T :=
  { s with headCache := Function.update s.headCache mapping head }

/-- A successful compare-exchange of `tail`. -/
def claim (s : MpscState T) (tail : Nat) (value : T) : MpscState T :=
  { s with
    shared := { s.shared with tail := (tail + 1) % 2 ^ 64 }
    claims := s.claims ++ [(tail, value)] }

/-- The store of `head` that ends a successful pop. -/
def advance (s : MpscState T) (head : Nat) (value : T) : MpscState T :=
  { s with
    shared := { s.shared with head := (head + 1) % 2 ^ 64 }
    delivered := s.delivered ++ [value] }

/-- The next access of a producer inside `try_push`. -/
def produce (ring : Mpsc) (s : MpscState T) (p : Nat) (spurious : Bool) :
    Option (MpscState T) :=
  match s.producer p with
  | .idle => none
  | .loadTail mapping value =>
    some (s.setProducer p (.loadCache mapping value s.shared.tail))
  | .loadCache mapping value tail =>
    if wrappingSub tail (s.headCache mapping) > ring.mask then
      some (s.setProducer p (.loadHead mapping value tail))
    else some (s.setProducer p (.compareExchange mapping value tail))
  | .loadHead mapping value tail =>
    some (s.setProducer p (.storeCache mapping value tail s.shared.head))
  | .storeCache mapping value tail head =>
    if wrappingSub tail head > ring.mask then
      some ((s.setCache mapping head).setProducer p (.returned false))
    else some ((s.setCache mapping head).setProducer p (.compareExchange mapping value tail))
  | .compareExchange mapping value tail =>
    if s.shared.tail = tail /\ spurious = false then
      some ((s.claim tail value).setProducer p (.waitTurn value tail))
    else some (s.setProducer p (.loadCache mapping value s.shared.tail))
  | .waitTurn value position =>
    if s.shared.turn (ring.slotIndex position) ≠ ring.freeTurn position then some s
    else some (s.setProducer p (.write value position))
  | .write value position =>
    some ((s.setPayload (ring.slotIndex position) value).setProducer p (.publish value position))
  | .publish _ position =>
    some ((s.setTurn (ring.slotIndex position) (ring.publishedTurn position)).setProducer p
      (.returned true))
  | .returned _ => none

/-- The next access of the consumer inside `try_pop`. -/
def consume (ring : Mpsc) (s : MpscState T) : Option (MpscState T) :=
  match s.consumer with
  | .idle => none
  | .loadHead => some (s.setConsumer (.loadTurn s.shared.head))
  | .loadTurn head =>
    if s.shared.turn (ring.slotIndex head) ≠ ring.publishedTurn head then
      some (s.setConsumer (.loadTail head))
    else some (s.setConsumer (.read head))
  | .loadTail head =>
    if head = s.shared.tail then some (s.setConsumer (.returned .empty))
    else some (s.setConsumer (.returned .headNotReady))
  | .read head =>
    some (s.setConsumer (.storeTurn head (s.shared.payload (ring.slotIndex head))))
  | .storeTurn head value =>
    some ((s.setTurn (ring.slotIndex head) (ring.releasedTurn head)).setConsumer
      (.storeHead head value))
  | .storeHead head value =>
    some ((s.advance head value).setConsumer (.returned (.ready value)))
  | .returned _ => none

/-- Whether the head slot holds a published element right now. -/
def headReady (ring : Mpsc) (s : MpscState T) : Bool :=
  decide (s.shared.turn (ring.slotIndex s.shared.head) = ring.publishedTurn s.shared.head)

/-- A party between calls may start one; otherwise it performs its next access. -/
def step (ring : Mpsc) (s : MpscState T) : MpscAction T -> Option (MpscState T)
  | .push p mapping value =>
    match s.producer p with
    | .idle | .returned _ => some (s.setProducer p (.loadTail mapping value))
    | _ => none
  | .produce p spurious => s.produce ring p spurious
  | .pop =>
    match s.consumer with
    | .idle | .returned _ => some (s.setConsumer .loadHead)
    | _ => none
  | .consume => s.consume ring

end MpscState

/-- All interleavings of producers and the consumer over a fresh ring. -/
def Mpsc.system {T : Type} (ring : Mpsc) (zero : T) :
    System (MpscState T) (MpscAction T) where
  init := fun s => s = MpscState.new zero
  step := MpscState.step ring

end V5
end Shmipc
