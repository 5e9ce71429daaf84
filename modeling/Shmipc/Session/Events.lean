import Shmipc.Base.ByteStream
import Shmipc.Session.V4Order

namespace Shmipc
namespace Session

open ByteStream
open Shmipc.Stream (Status)

/-!
# The events on the socket

Every event starts with eight bytes: its length, the magic number, the protocol
version and the type.  A polling event is that header alone, a stream close
carries the stream's id, and fallback data carries id, status and payload.  The
read loop takes events off its buffer one by one (`handleEvent`) and stops to
read more where an event is not there yet.

`parse` is what the socket says as a whole: the events of the stream of bytes,
in order, and how it ends.  It knows nothing of a buffer or of reads.
-/

def headerSize : Nat := 8

def magicNumber : Nat := 0x7758

def maxSupportProtoVersion : Nat := 5

inductive EventType where
  | shareMemoryByFilePath
  | polling
  | streamClose
  | fallbackData
  | exchangeProtoVersion
  | shareMemoryByMemfd
  | ackShareMemory
  | ackReadyRecvFd
  | hotRestart
  | hotRestartAck
  | negotiation
  | unset (code : Nat)
deriving DecidableEq, Repr

def EventType.ofCode : Nat -> EventType
  | 0 => .shareMemoryByFilePath
  | 1 => .polling
  | 2 => .streamClose
  | 3 => .fallbackData
  | 4 => .exchangeProtoVersion
  | 5 => .shareMemoryByMemfd
  | 6 => .ackShareMemory
  | 7 => .ackReadyRecvFd
  | 8 => .hotRestart
  | 9 => .hotRestartAck
  | 10 => .negotiation
  | code => .unset code

def EventType.inner : EventType -> Nat
  | .shareMemoryByFilePath => 0
  | .polling => 1
  | .streamClose => 2
  | .fallbackData => 3
  | .exchangeProtoVersion => 4
  | .shareMemoryByMemfd => 5
  | .ackShareMemory => 6
  | .ackReadyRecvFd => 7
  | .hotRestart => 8
  | .hotRestartAck => 9
  | .negotiation => 10
  | .unset code => code

/-- The number a stream's status travels as. -/
def statusCode : Status -> Nat
  | .opened => 0
  | .closed => 1
  | .halfClosed => 2

structure Header where
  length : Nat
  magic : Nat
  version : Nat
  msgType : EventType
deriving DecidableEq, Repr

def Header.decode (buf : List UInt8) : Header :=
  { length := fromBeBytes (buf.take 4)
    magic := fromBeBytes ((buf.drop 4).take 2)
    version := fromBeBytes ((buf.drop 6).take 1)
    msgType := .ofCode (fromBeBytes ((buf.drop 7).take 1)) }

def Header.encode (length version : Nat) (msgType : EventType) : List UInt8 :=
  toBeBytes 4 length ++ (toBeBytes 2 magicNumber ++
    (toBeBytes 1 version ++ toBeBytes 1 msgType.inner))

/-- Why the read loop gives up. -/
inductive EventError where
  | invalidVersion
  | invalidMsgType
  | sizeTooLarge
  | notEnoughData
  /-- "invalid eof": the socket ended inside an event's header. -/
  | invalidEof
  /-- The socket ended inside a payload. -/
  | unexpectedEof
  /-- "bytes do not fit the read buffer". -/
  | doesNotFit (len cap : Nat)
deriving DecidableEq, Repr

def checkEventValid (hdr : Header) : Option EventError :=
  if hdr.magic ≠ magicNumber \/ maxSupportProtoVersion < hdr.version then some .invalidVersion
  else match hdr.msgType with
    | .unset _ => some .invalidMsgType
    | _ => none

/-- What the read loop hands on. -/
inductive Dispatched where
  | polling
  | streamClose (id : Nat)
  | fallbackData (seqId status : Nat) (payload : List UInt8)
deriving DecidableEq, Repr

/-- What one pass of the loop over the buffer comes to. -/
inductive EventStep where
  /-- Too little is buffered: nothing is consumed. -/
  | refill (required : Nat)
  | fail (err : EventError)
  /-- The event was handled and its bytes are consumed. -/
  | dispatch (event : Dispatched) (consumed : Nat)
  /-- The header of fallback data, whose payload the read loop has to read. -/
  | fallbackPayload (seqId status len : Nat)
deriving DecidableEq, Repr

def minPayloadSize : EventType -> Nat
  | .streamClose => 4
  | .fallbackData => 8
  | _ => 0

def handleStreamClose (buf : List UInt8) : EventStep :=
  if buf.length < 4 then .refill (headerSize + 4)
  else .dispatch (.streamClose (fromBeBytes (buf.take 4))) (headerSize + 4)

def handleFallbackHead (hdr : Header) (head : List UInt8) : EventStep :=
  if head.length < 8 then .refill (headerSize + 8)
  else
    -- only the lowest byte of the status is the stream's state
    .fallbackPayload (fromBeBytes (head.take 4)) (fromBeBytes ((head.drop 4).take 4) % 256)
      (hdr.length - headerSize - 8)

/-- The handler of an event whose header has passed the checks.  A polling event
makes the loop drain the receive queue, unless another task does; either way it
counts as received. -/
def handleType (hdr : Header) (body : List UInt8) : EventStep :=
  match hdr.msgType with
  | .polling => .dispatch .polling headerSize
  | .streamClose => handleStreamClose body
  | .fallbackData => handleFallbackHead hdr body
  | _ => .fail .invalidMsgType

/-- What one pass does with an event whose header has been read. -/
def handleBody (hdr : Header) (body : List UInt8) : EventStep :=
  match checkEventValid hdr with
  | some err => .fail err
  | none =>
    if maxControlFrameSize < hdr.length then .fail .sizeTooLarge
    else if hdr.length < headerSize + minPayloadSize hdr.msgType then .fail .notEnoughData
    else handleType hdr body

/-- One pass of the loop of `handle_events`, over what is left of the buffer. -/
def handleEvent (buf : List UInt8) : EventStep :=
  if buf.length < headerSize then .refill headerSize
  else handleBody (Header.decode buf) (buf.drop headerSize)

/-! ## What one pass depends on -/

variable {buf : List UInt8} {ended : Bool} {msgVersion : Nat}

theorem Header.decode_append (rest : List UInt8) (long : headerSize <= buf.length) :
    Header.decode (buf ++ rest) = Header.decode buf := by
  have long : 8 <= buf.length := long
  have same (start count : Nat) (inside : start + count <= 8) :
      ((buf ++ rest).drop start).take count = (buf.drop start).take count := by
    rw [List.drop_append_of_le_length (by omega), List.take_append_of_le_length]
    rw [List.length_drop]
    omega
  have first : (buf ++ rest).take 4 = buf.take 4 := same 0 4 (by omega)
  simp only [Header.decode, first, same 4 2 (by omega), same 6 1 (by omega), same 7 1 (by omega)]

theorem handleBody_cases (hdr : Header) :
    (Exists fun err => forall body, handleBody hdr body = .fail err) \/
      (forall body, handleBody hdr body = .dispatch .polling headerSize) \/
      (forall body, handleBody hdr body = handleStreamClose body) \/
      (forall body, handleBody hdr body = handleFallbackHead hdr body) := by
  cases valid : checkEventValid hdr with
  | some err => exact .inl ⟨err, fun body => by simp only [handleBody, valid]⟩
  | none =>
    by_cases large : maxControlFrameSize < hdr.length
    · exact .inl ⟨.sizeTooLarge, fun body => by simp only [handleBody, valid, if_pos large]⟩
    by_cases missing : hdr.length < headerSize + minPayloadSize hdr.msgType
    · exact .inl ⟨.notEnoughData, fun body => by
        simp only [handleBody, valid, if_neg large, if_pos missing]⟩
    have checked (body : List UInt8) : handleBody hdr body = handleType hdr body := by
      simp only [handleBody, valid, if_neg large, if_neg missing]
    cases type : hdr.msgType with
    | polling => exact .inr (.inl fun body => by rw [checked, handleType, type])
    | streamClose => exact .inr (.inr (.inl fun body => by rw [checked, handleType, type]))
    | fallbackData => exact .inr (.inr (.inr fun body => by rw [checked, handleType, type]))
    | _ => exact .inl ⟨.invalidMsgType, fun body => by rw [checked, handleType, type]⟩

/-- A pass that needs more bytes does not have those it asks for; a pass that
consumes bytes has them. -/
theorem handleEvent_bounds (buf : List UInt8) :
    match handleEvent buf with
    | .refill required => buf.length < required /\ headerSize <= required /\ required <= 16
    | .fail _ => True
    | .dispatch _ consumed => headerSize <= consumed /\ consumed <= buf.length
    | .fallbackPayload _ _ _ => 16 <= buf.length := by
  have size : headerSize = 8 := rfl
  unfold handleEvent
  by_cases short : buf.length < headerSize
  · simp only [if_pos short]
    omega
  simp only [if_neg short]
  have dropped : (buf.drop headerSize).length = buf.length - headerSize := List.length_drop
  rcases handleBody_cases (Header.decode buf) with ⟨err, same⟩ | same | same | same
  · rw [same]
    trivial
  · rw [same]
    exact ⟨Nat.le_refl _, by omega⟩
  · rw [same, handleStreamClose]
    by_cases wait : (buf.drop headerSize).length < 4
    · simp only [if_pos wait]
      omega
    · simp only [if_neg wait]
      omega
  · rw [same, handleFallbackHead]
    by_cases wait : (buf.drop headerSize).length < 8
    · simp only [if_pos wait]
      omega
    · simp only [if_neg wait]
      omega

private theorem handleEvent_of_long {buf : List UInt8} (long : headerSize <= buf.length) :
    handleEvent buf = handleBody (Header.decode buf) (buf.drop headerSize) :=
  if_neg (Nat.not_lt.mpr long)

private theorem handleEvent_of_longer {buf : List UInt8} (rest : List UInt8)
    (long : headerSize <= buf.length) :
    handleEvent (buf ++ rest) =
      handleBody (Header.decode buf) (buf.drop headerSize ++ rest) := by
  have longer : headerSize <= (buf ++ rest).length := by
    rw [List.length_append]
    omega
  rw [handleEvent_of_long longer, Header.decode_append rest long,
    List.drop_append_of_le_length long]

theorem handleEvent_append (rest : List UInt8)
    (there : forall required, handleEvent buf ≠ .refill required) :
    handleEvent (buf ++ rest) = handleEvent buf := by
  by_cases long : headerSize <= buf.length
  · rw [handleEvent_of_longer rest long]
    rw [handleEvent_of_long long] at there ⊢
    rcases handleBody_cases (Header.decode buf) with ⟨err, same⟩ | same | same | same
    · rw [same, same]
    · rw [same, same]
    · rw [same, handleStreamClose] at there
      have enough : 4 <= (buf.drop headerSize).length := by
        by_contra few
        exact there _ (if_pos (by omega))
      have more : 4 <= (buf.drop headerSize ++ rest).length := by
        rw [List.length_append]
        omega
      rw [same, same, handleStreamClose, handleStreamClose, if_neg (by omega), if_neg (by omega),
        List.take_append_of_le_length enough]
    · rw [same, handleFallbackHead] at there
      have enough : 8 <= (buf.drop headerSize).length := by
        by_contra few
        exact there _ (if_pos (by omega))
      have more : 8 <= (buf.drop headerSize ++ rest).length := by
        rw [List.length_append]
        omega
      have status : 4 <= ((buf.drop headerSize).drop 4).length := by
        rw [List.length_drop]
        omega
      rw [same, same, handleFallbackHead, handleFallbackHead, if_neg (by omega),
        if_neg (by omega), List.take_append_of_le_length (by omega),
        List.drop_append_of_le_length (by omega), List.take_append_of_le_length status]
  · exact absurd (if_pos (by omega)) (there headerSize)

/-- An event that asked for more bytes than ever come is still not there when
all of them have come. -/
theorem handleEvent_refill_append {rest : List UInt8} {required : Nat}
    (wait : handleEvent buf = .refill required) (short : (buf ++ rest).length < required) :
    Exists fun missing => handleEvent (buf ++ rest) = .refill missing := by
  by_cases long : headerSize <= buf.length
  · rw [handleEvent_of_long long] at wait
    rw [handleEvent_of_longer rest long]
    have size : headerSize = 8 := rfl
    have dropped : (buf.drop headerSize ++ rest).length = (buf ++ rest).length - headerSize := by
      rw [<- List.drop_append_of_le_length long, List.length_drop]
    rcases handleBody_cases (Header.decode buf) with ⟨err, same⟩ | same | same | same
    · rw [same] at wait
      cases wait
    · rw [same] at wait
      cases wait
    · rw [same, handleStreamClose] at wait
      split at wait
      · cases wait
        exact ⟨_, by rw [same, handleStreamClose, if_pos (by omega)]⟩
      · cases wait
    · rw [same, handleFallbackHead] at wait
      split at wait
      · cases wait
        exact ⟨_, by rw [same, handleFallbackHead, if_pos (by omega)]⟩
      · cases wait
  · have asked : handleEvent buf = .refill headerSize := if_pos (by omega)
    rw [asked] at wait
    cases wait
    exact ⟨headerSize, if_pos short⟩

/-! ## The stream of bytes as a whole -/

/-- How the read loop comes to rest. -/
inductive Stop where
  /-- The socket is open and the next event has not come in. -/
  | waiting
  | failed (err : EventError)
deriving DecidableEq, Repr

/-- The bytes are used up inside an event. -/
def Stop.atEnd (ended : Bool) (err : EventError) : Stop :=
  if ended then .failed err else .waiting

/-- The events of a stream of bytes, in order, and how it ends.  The socket is
closed behind the stream if `ended`, and stays open otherwise. -/
def parse (ended : Bool) (stream : List UInt8) : List Dispatched × Stop :=
  match step : handleEvent stream with
  | .refill _ => ([], .atEnd ended .invalidEof)
  | .fail err => ([], .failed err)
  | .dispatch event consumed =>
    let rest := parse ended (stream.drop consumed)
    (event :: rest.1, rest.2)
  | .fallbackPayload seqId status len =>
    if (stream.drop 16).length < len then ([], .atEnd ended .unexpectedEof)
    else
      let rest := parse ended (stream.drop (16 + len))
      (.fallbackData seqId status ((stream.drop 16).take len) :: rest.1, rest.2)
termination_by stream.length
decreasing_by
  all_goals
    have size : headerSize = 8 := rfl
    have bounds := handleEvent_bounds stream
    rw [step] at bounds
    dsimp only at bounds
    rw [List.length_drop]
    omega

section Parse

variable {ended : Bool} {stream : List UInt8}

theorem parse_refill {required : Nat} (step : handleEvent stream = .refill required) :
    parse ended stream = ([], .atEnd ended .invalidEof) := by
  rw [parse]
  split <;> simp_all

theorem parse_fail {err : EventError} (step : handleEvent stream = .fail err) :
    parse ended stream = ([], .failed err) := by
  rw [parse]
  split <;> simp_all

theorem parse_dispatch {event : Dispatched} {consumed : Nat}
    (step : handleEvent stream = .dispatch event consumed) :
    parse ended stream =
      (event :: (parse ended (stream.drop consumed)).1, (parse ended (stream.drop consumed)).2) := by
  rw [parse]
  split <;> simp_all

theorem parse_cut {seqId status len : Nat}
    (step : handleEvent stream = .fallbackPayload seqId status len)
    (short : (stream.drop 16).length < len) :
    parse ended stream = ([], .atEnd ended .unexpectedEof) := by
  rw [parse]
  split <;> simp_all

theorem parse_payload {seqId status len : Nat}
    (step : handleEvent stream = .fallbackPayload seqId status len)
    (whole : len <= (stream.drop 16).length) :
    parse ended stream =
      (.fallbackData seqId status ((stream.drop 16).take len) ::
        (parse ended ((stream.drop 16).drop len)).1,
        (parse ended ((stream.drop 16).drop len)).2) := by
  rw [parse]
  split <;> simp_all

/-- A beginning of a stream has a beginning of its events, and ends because its bytes
are used up unless the stream itself fails. -/
theorem parse_append (ended ended' : Bool) (stream rest : List UInt8) :
    (parse ended stream).1 <+: (parse ended' (stream ++ rest)).1 /\
      ((Exists fun err => (parse ended stream).2 = .atEnd ended err) \/
        Exists fun err => (parse ended' (stream ++ rest)).2 = .failed err) := by
  fun_induction parse ended stream with
  | case1 stream required step | case4 stream seqId status len step short =>
    exact ⟨List.nil_prefix, .inl ⟨_, rfl⟩⟩
  | case2 stream err step =>
    have same := handleEvent_append rest fun required => by rw [step]; nofun
    exact ⟨List.nil_prefix, .inr ⟨err, by rw [parse_fail (same.trans step)]⟩⟩
  | case3 stream event consumed step later ih =>
    have same := (handleEvent_append rest fun required => by rw [step]; nofun).trans step
    have bounds := handleEvent_bounds stream
    rw [step] at bounds
    rw [parse_dispatch same, List.drop_append_of_le_length bounds.2]
    exact ⟨List.prefix_cons_inj _ |>.mpr ih.1, ih.2⟩
  | case5 stream seqId status len step enough later ih =>
    have same := (handleEvent_append rest fun required => by rw [step]; nofun).trans step
    have bounds := handleEvent_bounds stream
    rw [step] at bounds
    have behind : (stream ++ rest).drop 16 = stream.drop 16 ++ rest :=
      List.drop_append_of_le_length bounds
    have whole := Nat.not_lt.mp enough
    rw [parse_payload same (by rw [behind, List.length_append]; omega), behind,
      List.take_append_of_le_length whole, List.drop_append_of_le_length whole, List.drop_drop]
    exact ⟨List.prefix_cons_inj _ |>.mpr ih.1, ih.2⟩

end Parse

/-! ## What the encoders write -/

/-- A frame that an encoder of the crate has written: polling, stream close, and the
fallback data of version five.  `CrateFrame` adds the fallback data of the older
versions. -/
inductive WireFrame where
  | polling
  | streamClose (id : Nat)
  | fallbackData (seqId : Nat) (status : Status) (payload : List UInt8)
deriving DecidableEq

def FallbackDataEvent.encode (length version seqId status : Nat) : List UInt8 :=
  Header.encode length version .fallbackData ++ (toBeBytes 4 seqId ++ toBeBytes 4 status)

def WireFrame.encode (msgVersion : Nat) : WireFrame -> List UInt8
  | .polling => Header.encode headerSize msgVersion .polling
  | .streamClose id => Header.encode 12 msgVersion .streamClose ++ toBeBytes 4 id
  | .fallbackData seqId status payload =>
    FallbackDataEvent.encode (payload.length + 16) msgVersion seqId (statusCode status) ++ payload

/-- The ids are 32-bit words, and a payload over the limit of a frame is refused
by the sender. -/
def WireFrame.Sendable : WireFrame -> Prop
  | .polling => True
  | .streamClose id => id < 2 ^ 32
  | .fallbackData seqId _ payload =>
    seqId < 2 ^ 32 /\ payload.length <= maxControlFrameSize - 16

def WireFrame.event : WireFrame -> Dispatched
  | .polling => .polling
  | .streamClose id => .streamClose id
  | .fallbackData seqId status payload => .fallbackData seqId (statusCode status) payload

theorem EventType.ofCode_inner {type : EventType} (known : forall code, type ≠ .unset code) :
    EventType.ofCode type.inner = type := by
  cases type with
  | unset code => exact absurd rfl (known code)
  | _ => rfl

theorem Header.length_encode (length version : Nat) (msgType : EventType) :
    (Header.encode length version msgType).length = headerSize := by
  simp only [Header.encode, List.length_append, length_toBeBytes]
  rfl

theorem Header.decode_encode {length version : Nat} {msgType : EventType} (rest : List UInt8)
    (fits : length < 2 ^ 32) (supported : version <= maxSupportProtoVersion)
    (known : forall code, msgType ≠ .unset code) :
    Header.decode (Header.encode length version msgType ++ rest) =
      { length := length, magic := magicNumber, version := version, msgType := msgType } := by
  have supported : version <= 5 := supported
  have code : msgType.inner < 256 ^ 1 := by
    cases msgType with
    | unset code => exact absurd rfl (known code)
    | _ => decide
  -- the fields one after the other, each in front of what is left
  let typed := toBeBytes 1 msgType.inner ++ rest
  let versioned := toBeBytes 1 version ++ typed
  let magical := toBeBytes 2 magicNumber ++ versioned
  have written : Header.encode length version msgType ++ rest = toBeBytes 4 length ++ magical := by
    simp only [Header.encode, List.append_assoc, magical, versioned, typed]
  have afterLength : (toBeBytes 4 length ++ magical).drop 4 = magical := drop_toBeBytes 4 _ _
  have afterMagic : (toBeBytes 4 length ++ magical).drop 6 = versioned := by
    rw [show 6 = 4 + 2 from rfl, <- List.drop_drop, afterLength]
    exact drop_toBeBytes 2 _ _
  have afterVersion : (toBeBytes 4 length ++ magical).drop 7 = typed := by
    rw [show 7 = 6 + 1 from rfl, <- List.drop_drop, afterMagic]
    exact drop_toBeBytes 1 _ _
  rw [written, Header.decode, afterLength, afterMagic, afterVersion, take_toBeBytes, take_toBeBytes,
    take_toBeBytes, take_toBeBytes, fromBeBytes_toBeBytes (by omega),
    fromBeBytes_toBeBytes (by decide), fromBeBytes_toBeBytes (by omega),
    fromBeBytes_toBeBytes code, EventType.ofCode_inner known]

private theorem handleEvent_encode {length version : Nat} {msgType : EventType}
    (rest : List UInt8) (limit : length <= maxControlFrameSize)
    (long : headerSize + minPayloadSize msgType <= length)
    (supported : version <= maxSupportProtoVersion) (known : forall code, msgType ≠ .unset code) :
    handleEvent (Header.encode length version msgType ++ rest) =
      handleType
        { length := length, magic := magicNumber, version := version, msgType := msgType } rest := by
  have fits : length < 2 ^ 32 := Nat.lt_of_le_of_lt limit (by decide)
  have behind : (Header.encode length version msgType ++ rest).drop headerSize = rest :=
    List.drop_left' (Header.length_encode length version msgType)
  have valid : checkEventValid
      { length := length, magic := magicNumber, version := version, msgType := msgType } = none := by
    rw [checkEventValid, if_neg (by simp only [ne_eq, not_true_eq_false, false_or]; omega)]
    cases msgType with
    | unset code => exact absurd rfl (known code)
    | _ => rfl
  have enough : headerSize <= (Header.encode length version msgType ++ rest).length := by
    rw [List.length_append, Header.length_encode]
    omega
  rw [handleEvent_of_long enough, Header.decode_encode rest fits supported known, behind, handleBody,
    valid]
  dsimp only
  rw [if_neg (by omega), if_neg (by omega)]

private theorem statusCode_lt (status : Status) : statusCode status < 256 := by
  cases status <;> decide

theorem parse_encode {frame : WireFrame} (rest : List UInt8)
    (supported : msgVersion <= maxSupportProtoVersion) (sendable : frame.Sendable) :
    parse ended (frame.encode msgVersion ++ rest) =
      (frame.event :: (parse ended rest).1, (parse ended rest).2) := by
  have size : headerSize = 8 := rfl
  cases frame with
  | polling =>
    have step := handleEvent_encode rest (show headerSize <= maxControlFrameSize by decide)
      (show headerSize + minPayloadSize .polling <= headerSize by decide) supported nofun
    rw [WireFrame.encode, parse_dispatch step, List.drop_left' (Header.length_encode _ _ _)]
    rfl
  | streamClose id =>
    have fits : id < 256 ^ 4 := sendable
    have step := handleEvent_encode (toBeBytes 4 id ++ rest)
      (show 12 <= maxControlFrameSize by decide)
      (show headerSize + minPayloadSize .streamClose <= 12 by decide) supported nofun
    have closes : handleStreamClose (toBeBytes 4 id ++ rest) =
        .dispatch (.streamClose id) (headerSize + 4) := by
      rw [handleStreamClose, if_neg (by simp), take_toBeBytes, fromBeBytes_toBeBytes fits]
    rw [WireFrame.encode, List.append_assoc, parse_dispatch (step.trans closes),
      <- List.drop_drop, List.drop_left' (Header.length_encode _ _ _), drop_toBeBytes]
    rfl
  | fallbackData seqId status payload =>
    have fits : seqId < 256 ^ 4 := sendable.1
    have small : payload.length <= maxControlFrameSize - 16 := sendable.2
    have limit : payload.length + 16 <= maxControlFrameSize := by
      have positive : 16 <= maxControlFrameSize := by decide
      omega
    have code := statusCode_lt status
    let behind := toBeBytes 4 seqId ++ (toBeBytes 4 (statusCode status) ++ (payload ++ rest))
    have step := handleEvent_encode behind limit
      (show headerSize + minPayloadSize .fallbackData <= payload.length + 16 by
        have : minPayloadSize .fallbackData = 8 := rfl
        omega) supported nofun
    have heads : handleFallbackHead
        { length := payload.length + 16, magic := magicNumber, version := msgVersion,
          msgType := .fallbackData } behind =
        .fallbackPayload seqId (statusCode status) payload.length := by
      have enough : ¬ behind.length < 8 := by
        simp only [behind, List.length_append, length_toBeBytes]
        omega
      rw [handleFallbackHead, if_neg enough, take_toBeBytes, drop_toBeBytes, take_toBeBytes,
        fromBeBytes_toBeBytes fits, fromBeBytes_toBeBytes (by omega), Nat.mod_eq_of_lt code]
      congr 1
    have written : WireFrame.encode msgVersion (.fallbackData seqId status payload) ++ rest =
        Header.encode (payload.length + 16) msgVersion .fallbackData ++ behind := by
      simp only [WireFrame.encode, FallbackDataEvent.encode, List.append_assoc, behind]
    have after : (Header.encode (payload.length + 16) msgVersion .fallbackData ++ behind).drop 16 =
        payload ++ rest := by
      rw [show 16 = headerSize + (4 + 4) from rfl, <- List.drop_drop,
        List.drop_left' (Header.length_encode _ _ _), <- List.drop_drop, drop_toBeBytes,
        drop_toBeBytes]
    have whole : payload.length <=
        ((Header.encode (payload.length + 16) msgVersion .fallbackData ++ behind).drop 16).length :=
      by
        rw [after, List.length_append]
        omega
    rw [written, parse_payload (step.trans heads) whole, after, List.take_left' rfl,
      List.drop_left' rfl]
    rfl

theorem parse_frames {frames : List WireFrame} (supported : msgVersion <= maxSupportProtoVersion)
    (sendable : ∀ frame ∈ frames, frame.Sendable) :
    parse ended (frames.map (·.encode msgVersion)).flatten =
      (frames.map (·.event), .atEnd ended .invalidEof) := by
  induction frames with
  | nil => exact parse_refill rfl
  | cons frame frames ih =>
    have rest := ih fun other member => sendable other (List.mem_cons_of_mem _ member)
    rw [List.map_cons, List.flatten_cons, parse_encode _ supported (sendable _ List.mem_cons_self),
      rest, List.map_cons]

end Session
end Shmipc
