import Shmipc.Base.Transition

namespace Shmipc
namespace Stream

open Transition

/-!
# Waiting for bytes and the end of a stream

A reader in `read_more` converts what the event loop delivered, loads the
stream state, and compares the readable length with what it was asked for.
These are separate accesses.  The event loop adds deliveries and later half
closes the stream when the peer is done; a local handle may close it.

The model keeps both read sides.  On versions two to four a delivery is pushed
unconditionally and the state is inspected afterwards; on version five a
delivery is refused unless the stream is open.  A chain that fails validation
ends a version five conversion with an error and is skipped on the older ones,
so a delivery carries the bytes its walk yields and the fault it ends in.

What wakes a waiting reader is not represented: the wait may end at any step,
which includes every schedule the two notifications allow.
-/

/-- The values of the shared stream state. -/
inductive Status where
  | opened
  | halfClosed
  | closed
  deriving DecidableEq

/-- Which read buffer the negotiated protocol gave the stream. -/
inductive Side where
  | v4
  | v5
  deriving DecidableEq

/-- How the walk of a delivered chain can fail. -/
inductive ChainFault where
  | brokenBuffer
  | sizeTooLarge
  deriving DecidableEq

/-- Errors the read path reports. -/
inductive ReadError where
  | endOfStream
  | streamClosed
  | notEnoughData
  | chain (fault : ChainFault)
  deriving DecidableEq

/-- What a call of `read_more` comes back with. -/
inductive ReadResult where
  | ok
  | error (err : ReadError)
  deriving DecidableEq

/-- One entry of the inbox or of the pending list. -/
inductive Delivery where
  | fallback (bytes : List UInt8)
  | chain (bytes : List UInt8) (fault : Option ChainFault)
  deriving DecidableEq

namespace Delivery

def bytes : Delivery -> List UInt8
  | .fallback bytes => bytes
  | .chain bytes _ => bytes

def isFallback : Delivery -> Bool
  | .fallback _ => true
  | .chain _ _ => false

end Delivery

/-- Who runs `read_more`: a caller with its own minimum, or `poll_read` of the
asynchronous adapter, which waits for a single byte. -/
inductive ReadCall where
  | readMore (minSize : Nat)
  | pollRead
  deriving DecidableEq

def ReadCall.minSize : ReadCall -> Nat
  | .readMore minSize => minSize
  | .pollRead => 1

/-- Where the reader stands.  Each constructor names the access made next;
`armed` separates the two passes of the loop body, the second of which runs
with both notifications registered. -/
inductive Reader where
  | idle
  | waitReadable
  | waitReadableLen
  | takeDelivered (call : ReadCall) (armed : Bool)
  | loadState (call : ReadCall) (armed : Bool)
  | compareLen (call : ReadCall) (armed : Bool) (state : Status)
  | waiting (call : ReadCall)
  | returned (call : ReadCall) (result : ReadResult)
  | availableState
  | availableLen (state : Status)
  deriving DecidableEq

/-- The read side of one stream.  `eof` is the sticky end-of-file state of the
adapter, and `unsettled` counts pushes on the older side whose state check is
still to come.  The last three count bytes: those that were delivered while the
stream was open, those that came later, and those the reader has consumed. -/
structure ReadSide where
  status : Status
  inbox : List Delivery
  readable : List UInt8
  inFallback : Bool
  inFlowBytes : Nat
  reader : Reader
  eof : Bool
  unsettled : Nat
  delivered : Nat
  late : Nat
  consumed : Nat

inductive ReadAction where
  | readMore (minSize : Nat)
  | pollRead
  | read (amount : Nat)
  | consume (amount : Nat)
  | deliver (item : Delivery)
  | settle
  | halfClose
  | close
  | clean
  deriving DecidableEq

namespace ReadSide

def new : ReadSide where
  status := .opened
  inbox := []
  readable := []
  inFallback := false
  inFlowBytes := 0
  reader := .idle
  eof := false
  unsettled := 0
  delivered := 0
  late := 0
  consumed := 0

def setReader (s : ReadSide) (reader : Reader) : ReadSide :=
  { s with reader := reader }

/-- The bytes a conversion of the pending list makes readable on the older
side: a chain is followed up to its first bad slice. -/
def movePendingData (items : List Delivery) : List UInt8 :=
  items.flatMap Delivery.bytes

/-- The bytes a version five conversion makes readable, and the fault that
ends it.  What follows a bad chain is released unread. -/
def drainPending : List Delivery -> List UInt8 × Option ChainFault
  | [] => ([], none)
  | .fallback bytes :: rest => (bytes ++ (drainPending rest).1, (drainPending rest).2)
  | .chain bytes none :: rest => (bytes ++ (drainPending rest).1, (drainPending rest).2)
  | .chain bytes (some fault) :: _ => (bytes, some fault)

/-- Convert everything delivered so far into readable bytes. -/
def takeDelivered (side : Side) (s : ReadSide) : ReadSide × Option ChainFault :=
  match side with
  | .v4 =>
    ({ s with
      inbox := []
      readable := s.readable ++ movePendingData s.inbox
      inFallback := s.inFallback || s.inbox.any Delivery.isFallback
      inFlowBytes := s.inFlowBytes + (movePendingData s.inbox).length }, none)
  | .v5 =>
    match drainPending s.inbox with
    | (bytes, none) =>
      ({ s with
        inbox := []
        readable := s.readable ++ bytes
        inFlowBytes := s.inFlowBytes + bytes.length }, none)
    | (bytes, some fault) =>
      ({ s with inbox := [], readable := s.readable ++ bytes }, some fault)

/-- The decision of `check_read_ready`, from the loaded state and the length
read after it. -/
def checkReadReady (state : Status) (recvLen minSize : Nat) : Except ReadError Bool :=
  if state = .closed then .error .streamClosed
  else if minSize <= recvLen then .ok true
  else if state = .halfClosed then .error .endOfStream
  else .ok false

/-- The caller takes some of the readable bytes out. -/
def consume (s : ReadSide) (amount : Nat) : ReadSide :=
  { s with
    reader := .idle
    readable := s.readable.drop amount
    consumed := s.consumed + (s.readable.take amount).length }

/-- The next access of the reader.  `amount` is how much a poll that finds
bytes takes out. -/
def read (side : Side) (s : ReadSide) (amount : Nat) : Option ReadSide :=
  match s.reader with
  | .idle => none
  | .waitReadable =>
    if s.status = .closed then
      some (s.setReader (.returned .pollRead (.error .streamClosed)))
    else some (s.setReader .waitReadableLen)
  | .waitReadableLen =>
    if s.readable.length = 0 then some (s.setReader (.takeDelivered .pollRead false))
    else some (s.setReader (.returned .pollRead .ok))
  | .takeDelivered call armed =>
    match s.takeDelivered side with
    | (t, none) => some (t.setReader (.loadState call armed))
    | (t, some fault) => some (t.setReader (.returned call (.error (.chain fault))))
  | .loadState call armed => some (s.setReader (.compareLen call armed s.status))
  | .compareLen call armed state =>
    match checkReadReady state s.readable.length call.minSize with
    | .error err => some (s.setReader (.returned call (.error err)))
    | .ok true => some (s.setReader (.returned call .ok))
    | .ok false =>
      if armed then some (s.setReader (.waiting call))
      else some (s.setReader (.takeDelivered call true))
  | .waiting call => some (s.setReader (.takeDelivered call false))
  | .returned (.readMore _) _ => none
  | .returned .pollRead .ok => some (s.setReader .availableState)
  | .returned .pollRead (.error err) =>
    some { s with reader := .idle, eof := s.eof || decide (err = .endOfStream) }
  | .availableState => some (s.setReader (.availableLen s.status))
  | .availableLen state =>
    match checkReadReady state s.readable.length 1 with
    | .error err => some { s with reader := .idle, eof := s.eof || decide (err = .endOfStream) }
    | .ok true => some (s.consume amount)
    | .ok false => some (s.setReader .waitReadable)

/-- No call of the reader is in progress. -/
def between (s : ReadSide) : Bool :=
  match s.reader with
  | .idle => true
  | .returned (.readMore _) _ => true
  | _ => false

/-- Append a delivery and count its bytes. -/
def pushDelivery (s : ReadSide) (item : Delivery) : ReadSide :=
  let pushed := { s with inbox := s.inbox ++ [item] }
  if s.status = .opened then { pushed with delivered := s.delivered + item.bytes.length }
  else { pushed with late := s.late + item.bytes.length }

/-- What the event loop does with one delivery. -/
def deliver (side : Side) (s : ReadSide) (item : Delivery) : ReadSide :=
  match side with
  | .v4 => { s.pushDelivery item with unsettled := s.unsettled + 1 }
  | .v5 =>
    let marked := { s with inFallback := s.inFallback || item.isFallback }
    if item = .fallback [] then marked
    else if s.status = .opened then marked.pushDelivery item
    else marked

/-- Release the local buffers of a closed stream. -/
def cleanLocalBuffers (s : ReadSide) : ReadSide :=
  { s with inbox := [], readable := [] }

def step (side : Side) (s : ReadSide) : ReadAction -> Option ReadSide
  | .readMore minSize =>
    if s.between then some (s.setReader (.takeDelivered (.readMore minSize) false)) else none
  | .pollRead =>
    if s.between then
      if s.eof then some s else some (s.setReader .waitReadable)
    else none
  | .read amount => s.read side amount
  | .consume amount =>
    if s.between /\ amount <= s.readable.length then some (s.consume amount) else none
  | .deliver item => some (s.deliver side item)
  | .settle =>
    if s.unsettled = 0 then none
    else if s.status = .closed then
      some { s.cleanLocalBuffers with unsettled := s.unsettled - 1 }
    else some { s with unsettled := s.unsettled - 1 }
  | .halfClose => if s.status = .opened then some { s with status := .halfClosed } else some s
  | .close => some { s with status := .closed }
  | .clean => if s.status = .closed then some s.cleanLocalBuffers else none

/-- The bytes that the read side holds. -/
def unread (s : ReadSide) : Nat :=
  s.readable.length + (movePendingData s.inbox).length

/-- The bytes delivered while the stream was open that the reader has not consumed,
whether the read side still holds them or not.  Consumption takes bytes in delivery
order, so the late ones are the last to go. -/
def early (s : ReadSide) : Nat :=
  s.delivered - s.consumed

end ReadSide

end Stream
end Shmipc
