import Mathlib.Logic.Function.Basic
import Shmipc.Base.Transition

namespace Shmipc
namespace Pool
namespace Lease

open Transition

/-!
# Zero-copy readers of a linked buffer

Reading from a received slice without copying hands out a `Buf`, which points into
the slice and carries a lease.  The leases of a slice are handles of one pin state.
The buffer keeps a handle of its own for every slice that was ever leased, in a
registry keyed by the address of the slice's data.  When the buffer is done with a
slice it takes that handle out of the registry.  If it is the only one left, the
slice is reclaimed at once.  Otherwise the slice is stored in the pin state, the
handle is dropped, and whoever drops the last handle reclaims the slice.

Calls on the buffer exclude each other, but a `Buf` is dropped by any thread at any
time.  So the retirement of a slice is three steps: the load of the number of
handles, the store of the slice and the drop of the handle.  The rest of a call runs
in one step up to the next retirement.  The number of handles of a state is the
number of places that hold one: that is what a strong count is.

A slice has a number that tells it from all others, which no code reads; the code
knows it by its address.  Two slices of a buffer have the same address only if
neither has room for a byte, as is the case with the empty payloads of fallback
frames.  Of the bytes of a slice the model has those that can still be read.
-/

structure Slice where
  id : Nat
  data : Nat
  cap : Nat
  isFromShm : Bool
  unread : List UInt8
  deriving DecidableEq, Repr

def Slice.size (slice : Slice) : Nat := slice.unread.length

/-- An entry of the registry: the buffer's own handle of a pin state. -/
structure PinSlot where
  key : Nat
  state : Nat
  deriving DecidableEq, Repr

/-- A `Buf` that points into a slice, with its handle of the slice's pin state. -/
structure Buf where
  bytes : List UInt8
  state : Nat
  slice : Nat
  deriving DecidableEq, Repr

/-- Where a retirement stands that has found a pin state for its slice.  It holds a
handle of that state until it ends. -/
inductive Hand
  | empty
  | counting (slice : Slice) (state : Nat)
  | storing (slice : Slice) (state : Nat)
  | dropping (state : Nat)
  deriving DecidableEq, Repr

def Hand.state? : Hand -> Option Nat
  | .empty => none
  | .counting _ state => some state
  | .storing _ state => some state
  | .dropping state => some state

def Hand.slice? : Hand -> Option Slice
  | .counting slice _ => some slice
  | .storing slice _ => some slice
  | _ => none

/-- The slices of a buffer and everything that holds on to them.  `retired`,
`reclaimed` and `reset` record the numbers of the slices that were given to `retire`,
that were given back or freed, and that were reset to be written to. -/
structure Pins where
  sliceList : List Slice
  slots : List PinSlot
  retiredSlice : Nat -> Option Slice
  bufs : List Buf
  hand : Hand
  nextState : Nat
  nextSlice : Nat
  retired : List Nat
  reclaimed : List Nat
  reset : List Nat

namespace Pins

/-- `Arc::strong_count` of a pin state. -/
def strongCount (p : Pins) (state : Nat) : Nat :=
  p.slots.countP (fun slot => slot.state == state) + p.bufs.countP (fun buf => buf.state == state) +
    if p.hand.state? = some state then 1 else 0

/-- `reclaim_slice`: back to its free list, or freed. -/
def reclaim (p : Pins) (slice : Slice) : Pins :=
  { p with reclaimed := p.reclaimed ++ [slice.id] }

/-- What follows the drop of a handle: the last one drops the state, and with it the
slice that is stored there. -/
def dropState (p : Pins) (state : Nat) : Pins :=
  if p.strongCount state = 0 then
    match p.retiredSlice state with
    | none => p
    | some slice =>
      { p with retiredSlice := Function.update p.retiredSlice state none }.reclaim slice
  else p

def findSlot (p : Pins) (slice : Slice) : Option PinSlot :=
  p.slots.find? fun slot => slot.key == slice.data

/-- Take the entry of a slice out.  No two entries have the same key, so there is one
at most, and the order of the entries, which the source changes, is of no
importance. -/
def removeSlot (p : Pins) (slice : Slice) : Pins :=
  { p with slots := p.slots.filter fun slot => slot.key != slice.data }

/-- `PinRegistry::acquire`, without the lease: the pin state of a slice. -/
def acquire (p : Pins) (slice : Slice) : Pins × Nat :=
  match p.findSlot slice with
  | some slot => (p, slot.state)
  | none =>
    ({ p with slots := p.slots ++ [⟨slice.data, p.nextState⟩], nextState := p.nextState + 1 },
      p.nextState)

def isPinned (p : Pins) (slice : Slice) : Bool :=
  match p.findSlot slice with
  | some slot => p.strongCount slot.state != 1
  | none => false

/-- The first step of `PinRegistry::retire`, which is all of it for a slice that was
never leased. -/
def retire (p : Pins) (slice : Slice) : Pins :=
  let p := { p with retired := p.retired ++ [slice.id] }
  match p.findSlot slice with
  | none => p.reclaim slice
  | some slot => { p.removeSlot slice with hand := .counting slice slot.state }

/-- The next step of `SlicePinState::retire`. -/
def retireStep (p : Pins) : Pins :=
  match p.hand with
  | .empty => p
  | .counting slice state =>
    if p.strongCount state = 1 then
      ({ p with hand := .empty }.reclaim slice).dropState state
    else { p with hand := .storing slice state }
  | .storing slice state =>
    { p with
      retiredSlice := Function.update p.retiredSlice state (some slice)
      hand := .dropping state }
  | .dropping state => { p with hand := .empty }.dropState state

def abandon (p : Pins) (slice : Slice) : Pins :=
  match p.findSlot slice with
  | none => p
  | some slot => (p.removeSlot slice).dropState slot.state

/-- A thread drops one of the `Buf` values. -/
def dropBuf (p : Pins) (i : Nat) : Option Pins :=
  p.bufs[i]?.map fun buf => { p with bufs := p.bufs.eraseIdx i }.dropState buf.state

/-- The first slice with `n` bytes less to read. -/
def consume (p : Pins) (n : Nat) : Pins :=
  { p with sliceList := match p.sliceList with
      | [] => []
      | slice :: rest => { slice with unread := slice.unread.drop n } :: rest }

/-- Hand out `n` bytes of the first slice, which stay in it. -/
def lend (p : Pins) (slice : Slice) (n : Nat) : Pins × Buf :=
  let (p, state) := p.acquire slice
  let buf : Buf := { bytes := slice.unread.take n, state := state, slice := slice.id }
  ({ p with bufs := p.bufs ++ [buf] }, buf)

/-- `reset_for_reuse` of the first slice. -/
def resetFront (p : Pins) : Pins :=
  match p.sliceList with
  | [] => p
  | slice :: rest =>
    { p with sliceList := { slice with unread := [] } :: rest, reset := p.reset ++ [slice.id] }

def append (p : Pins) (data cap : Nat) (isFromShm : Bool) (unread : List UInt8) : Pins :=
  { p with
    sliceList := p.sliceList ++ [⟨p.nextSlice, data, cap, isFromShm, unread⟩]
    nextSlice := p.nextSlice + 1 }

end Pins

/-! ## The calls -/

inductive Call
  | appendBufferSlice (data cap : Nat) (isFromShm : Bool) (unread : List UInt8)
  | readChunk
  | readExactBytes (size : Nat)
  | peek (size : Nat)
  | discard (size : Nat)
  /-- The destination has room for so many bytes. -/
  | readAvailableInto (room maxSlices : Nat)
  | releasePreviousRead
  | releasePreviousReadAndReserve
  | recycle
  | clean
  deriving DecidableEq, Repr

/-- What a call returns: a `Buf` into a slice, bytes that were copied, a number of
bytes, nothing, or `Error::NotEnoughData`. -/
inductive Returned
  | shm (buf : Buf)
  | exm (bytes : List UInt8)
  | count (n : Nat)
  | unit
  | notEnoughData
  deriving DecidableEq, Repr

/-- What is left of a call, from the head of one of its loops on or from behind a
retirement. -/
inductive Rest
  | readChunk
  | readExact (size : Nat)
  | readExactSlow (size : Nat) (result : List UInt8)
  | discard (size n : Nat)
  | skipEmpty (room maxSlices : Nat)
  | copyLoop (room maxSlices slicesRead : Nat) (copied : List UInt8)
  | clearWrite
  | recycle
  | clean
  | ret (value : Returned)
  deriving DecidableEq, Repr

/-- The buffer.  `writeSlice` is the number of the slice that is written to, and
`running` what is left of the call that is running. -/
structure Reader where
  pins : Pins
  writeSlice : Option Nat
  isFromShm : Bool
  len : Nat
  running : Option Rest
  returned : Option Returned

namespace Reader

def new : Reader where
  pins :=
    { sliceList := [], slots := [], retiredSlice := fun _ => none, bufs := [], hand := .empty,
      nextState := 0, nextSlice := 0, retired := [], reclaimed := [], reset := [] }
  writeSlice := none
  isFromShm := true
  len := 0
  running := none
  returned := none

def done (s : Reader) (value : Returned) : Reader :=
  { s with running := none, returned := some value }

def continueWith (s : Reader) (rest : Rest) : Reader :=
  { s with running := some rest }

/-- `pop_front` without the slice it returns. -/
def popFront (s : Reader) : Reader :=
  match s.pins.sliceList with
  | [] => s
  | slice :: rest =>
    { s with
      pins := { s.pins with sliceList := rest }
      writeSlice := if s.writeSlice = some slice.id then none else s.writeSlice }

def retire (s : Reader) (slice : Slice) (rest : Rest) : Reader :=
  { s with pins := s.pins.retire slice, running := some rest }

/-- `read_next_slice`, and then the rest of the call. -/
def readNextSlice (s : Reader) (rest : Rest) : Reader :=
  match s.pins.sliceList with
  | [] => s.continueWith rest
  | slice :: _ => s.popFront.retire slice rest

def consume (s : Reader) (n : Nat) : Reader :=
  { s with pins := s.pins.consume n }

/-- Lend the first `n` bytes and read past them. -/
def lendAndRead (s : Reader) (slice : Slice) (n : Nat) : Reader :=
  let (pins, buf) := s.pins.lend slice n
  { s with pins := pins.consume n, len := s.len - n }.done (.shm buf)

/-- The end of `recycle` and `clean`. -/
def clear (s : Reader) : Reader :=
  { s with writeSlice := none, isFromShm := true, len := 0 }.done .unit

/-- Run a call on, up to its next retirement or to its end.  A loop that finds no slice
where it needs one spins. -/
def resume (s : Reader) : Rest -> Reader
  | .readChunk =>
    match s.pins.sliceList with
    | [] => s.done .notEnoughData
    | slice :: _ =>
      if slice.size = 0 then s.readNextSlice .readChunk
      else if s.len < slice.size then s.done .notEnoughData
      else s.lendAndRead slice slice.size
  | .readExact size =>
    match s.pins.sliceList with
    | [] => { s with len := s.len - size }.continueWith (.readExactSlow size [])
    | slice :: _ =>
      if size <= slice.size then s.lendAndRead slice size
      else { s with len := s.len - size }.continueWith (.readExactSlow size [])
  | .readExactSlow size result =>
    if size = 0 then s.done (.exm result)
    else
      match s.pins.sliceList with
      | [] => s
      | slice :: _ =>
        let readData := slice.unread.take size
        let rest := Rest.readExactSlow (size - readData.length) (result ++ readData)
        if readData.length ≠ size then (s.consume size).readNextSlice rest
        else (s.consume size).continueWith rest
  | .discard size n =>
    match s.pins.sliceList with
    | [] => s
    | slice :: _ =>
      let skip := min slice.size size
      if size - skip = 0 then
        { s.consume skip with len := s.len - (n + skip) }.done (.count (n + skip))
      else (s.consume skip).readNextSlice (.discard (size - skip) (n + skip))
  | .skipEmpty room maxSlices =>
    if 0 < s.len /\ s.pins.sliceList.head?.any (fun slice => slice.size == 0) then
      s.readNextSlice (.skipEmpty room maxSlices)
    else s.continueWith (.copyLoop room maxSlices 0 [])
  | .copyLoop room maxSlices slicesRead copied =>
    if 0 < s.len /\ 0 < room /\ slicesRead < maxSlices then
      match s.pins.sliceList with
      | [] => s.done .notEnoughData
      | slice :: _ =>
        if slice.size = 0 then s.done .notEnoughData
        else
          let readSize := min slice.size room
          let read : Reader := { s.consume readSize with len := s.len - readSize }
          let copied := copied ++ slice.unread.take readSize
          if readSize = slice.size then
            let rest := Rest.copyLoop (room - readSize) maxSlices (slicesRead + 1) copied
            if 0 < read.len then read.readNextSlice rest else read.continueWith rest
          else read.done (.count copied.length)
    else s.done (.count copied.length)
  | .clearWrite => { s with writeSlice := none }.done .unit
  | .recycle =>
    match s.pins.sliceList with
    | [] => s.clear
    | slice :: _ => s.popFront.retire slice .recycle
  | .clean =>
    match s.pins.sliceList with
    | [] => s.clear
    | slice :: _ =>
      if s.pins.isPinned slice then s.popFront.retire slice .clean
      else
        let pins := s.popFront.pins.abandon slice
        -- a slice from shared memory is forgotten: it belongs to the peer by now
        let pins := if slice.isFromShm then pins else pins.reclaim slice
        { s.popFront with pins := pins }.continueWith .clean
  | .ret value => s.done value

/-- Two slices of a buffer have the same address only if neither has room. -/
def Separate (s : Reader) (data cap : Nat) : Prop :=
  ∀ slice ∈ s.pins.sliceList, slice.data = data -> slice.cap = 0 /\ cap = 0

instance (s : Reader) (data cap : Nat) : Decidable (s.Separate data cap) :=
  inferInstanceAs (Decidable (∀ slice ∈ s.pins.sliceList, _))

/-- The copy loop of `peek`, over the slices from the first one on. -/
def peekLoop : Nat -> List Slice -> List UInt8 -> List UInt8
  | _, [], result => result
  | size, slice :: rest, result =>
    if size = 0 then result
    else
      let readBytes := slice.unread.take size
      peekLoop (size - readBytes.length) rest (result ++ readBytes)

def peekBytes (s : Reader) (size : Nat) : List UInt8 :=
  peekLoop size s.pins.sliceList []

/-- Start a call.  The assertion on `max_slices` is the panic of `none`. -/
def call (s : Reader) : Call -> Option Reader
  | .appendBufferSlice data cap isFromShm unread =>
    if unread.length <= cap /\ s.Separate data cap then
      some ({ s with
        pins := s.pins.append data cap isFromShm unread
        writeSlice := some s.pins.nextSlice
        isFromShm := s.isFromShm && isFromShm
        len := s.len + unread.length }.done .unit)
    else none
  | .readChunk => some (s.continueWith .readChunk)
  | .readExactBytes size =>
    if size = 0 then some (s.done (.exm []))
    else if s.len < size then some (s.done .notEnoughData)
    else if s.pins.sliceList.head?.any (fun slice => slice.size == 0) then
      some (s.readNextSlice (.readExact size))
    else some (s.continueWith (.readExact size))
  | .peek size =>
    if size = 0 then some (s.done (.exm []))
    else if s.len < size then some (s.done .notEnoughData)
    else
      match s.pins.sliceList with
      | [] => some (s.done (.exm []))
      | slice :: _ =>
        if (slice.unread.take size).length = size then
          let (pins, buf) := s.pins.lend slice size
          some ({ s with pins := pins }.done (.shm buf))
        else
          -- the lease is dropped again, and the entry stays in the registry
          some ({ s with pins := (s.pins.acquire slice).1 }.done (.exm (s.peekBytes size)))
  | .discard size =>
    if s.len < size then some (s.done .notEnoughData) else some (s.continueWith (.discard size 0))
  | .readAvailableInto room maxSlices =>
    if room = 0 then some (s.done (.count 0))
    else if maxSlices = 0 then none
    else if s.len = 0 then some (s.done .notEnoughData)
    else some (s.continueWith (.skipEmpty room maxSlices))
  | .releasePreviousRead =>
    match s.pins.sliceList with
    | [] => some (s.done .unit)
    | slice :: _ =>
      if slice.size = 0 /\ s.writeSlice = some slice.id then
        some (s.popFront.retire slice .clearWrite)
      else some (s.done .unit)
  | .releasePreviousReadAndReserve =>
    match s.pins.sliceList with
    | [slice] =>
      if s.len ≠ 0 then some (s.done .unit)
      else if s.pins.isPinned slice then
        some ({ s.popFront with writeSlice := none }.retire slice (.ret .unit))
      else if slice.isFromShm then
        some ({ s with pins := s.pins.resetFront }.done .unit)
      else some (s.popFront.retire slice (.ret .unit))
    | _ => some (s.done .unit)
  | .recycle => some (s.continueWith .recycle)
  | .clean => some (s.continueWith .clean)

end Reader

inductive Action
  /-- The owner of the buffer starts a call. -/
  | call (c : Call)
  /-- The next step of the running call. -/
  | advance
  /-- Some thread drops a `Buf`. -/
  | dropBuf (i : Nat)
  deriving DecidableEq, Repr

namespace Reader

/-- The next step of the running call: of its retirement, if there is one. -/
def advance (s : Reader) : Option Reader :=
  match s.running with
  | none => none
  | some rest =>
    if s.pins.hand = .empty then some (s.resume rest)
    else some { s with pins := s.pins.retireStep }

def step (s : Reader) : Action -> Option Reader
  | .call c => if s.running = none then s.call c else none
  | .advance => s.advance
  | .dropBuf i => (s.pins.dropBuf i).map fun pins => { s with pins := pins }

end Reader

/-- All sequences of calls on a buffer, with drops by any thread between the steps. -/
def leaseSystem : System Reader Action where
  init := fun s => s = Reader.new
  step := Reader.step

end Lease
end Pool
end Shmipc
