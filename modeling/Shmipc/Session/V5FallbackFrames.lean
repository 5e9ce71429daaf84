import Shmipc.Buffer.V5Fallback
import Shmipc.Session.ReadLoop

namespace Shmipc
namespace Session

open BufV5 ByteStream V5
open Shmipc.Stream (Status)

/-!
# A fallback message over the socket

The chunks of a message are recut into frames that the peer's reader accepts, a
header is encoded in front of each, and the frames are queued for the socket one
after the other.  Only the last frame carries the status of the flush.  The
limit that the sender cuts by is the limit that the reader enforces, so the
events the peer parses are the frames that were sent.
-/

/-- The frames of a flush as they go to the socket, each with its event header. -/
def writeFallbackV5 (msgVersion id : Nat) (streamStatus : Status) (frames : List (List UInt8)) :
    List (List UInt8) :=
  let last := frames.length - 1
  frames.mapIdx fun index payload =>
    let status := if index = last then streamStatus else .opened
    let len := (eventHeaderSize + payload.length) % 2 ^ 32
    FallbackDataEvent.encode len msgVersion id (statusCode status) ++ payload

/-- What a flush of these payloads sends: every frame but the last is one of an
open stream. -/
def fallbackFrames (id : Nat) (status : Status) (payloads : List (List UInt8))
    (last : List UInt8) : List WireFrame :=
  payloads.map (.fallbackData id .opened) ++ [.fallbackData id status last]

theorem length_fallbackEncode (length version seqId status : Nat) :
    (FallbackDataEvent.encode length version seqId status).length = eventHeaderSize := by
  simp only [FallbackDataEvent.encode, List.length_append, Header.length_encode,
    length_toBeBytes]
  rfl

theorem fallbackEncode_eq {payload : List UInt8} (msgVersion id : Nat) (status : Status)
    (small : payload.length <= maxControlFrameSize - eventHeaderSize) :
    FallbackDataEvent.encode ((eventHeaderSize + payload.length) % 2 ^ 32) msgVersion id
        (statusCode status) ++ payload =
      (WireFrame.fallbackData id status payload).encode msgVersion := by
  have limit : maxControlFrameSize = 268435456 := rfl
  have header : eventHeaderSize = 16 := rfl
  rw [Nat.mod_eq_of_lt (by omega), Nat.add_comm]
  rfl

theorem writeFallbackV5_eq (msgVersion id : Nat) (status : Status) {payloads : List (List UInt8)}
    {last : List UInt8} (small : ∀ payload ∈ payloads ++ [last],
      payload.length <= maxControlFrameSize - eventHeaderSize) :
    writeFallbackV5 msgVersion id status (payloads ++ [last]) =
      (fallbackFrames id status payloads last).map (·.encode msgVersion) := by
  unfold writeFallbackV5
  rw [List.mapIdx_append, fallbackFrames, List.map_append, List.map_map, List.length_append]
  congr 1
  · refine List.ext_getElem (by simp) fun index before after => ?_
    rw [List.length_mapIdx] at before
    rw [List.getElem_mapIdx, List.getElem_map, if_neg (by simp; omega)]
    exact fallbackEncode_eq msgVersion id .opened
      (small _ (List.mem_append_left _ (List.getElem_mem before)))
  · simp only [List.mapIdx_cons, List.mapIdx_nil, List.map_singleton, List.length_singleton,
      Nat.zero_add, Nat.add_sub_cancel, if_true]
    rw [fallbackEncode_eq msgVersion id status (small _ (by simp))]

/-- A frame of a payload within the limit is no longer than the limit, has a byte
of payload and declares its length. -/
theorem fallbackFrame_declares {payload : List UInt8} {msgVersion : Nat} (id : Nat)
    (status : Status) (supported : msgVersion <= maxSupportProtoVersion) (some : payload ≠ [])
    (small : payload.length <= maxControlFrameSize - eventHeaderSize) :
    let frame := (WireFrame.fallbackData id status payload).encode msgVersion
    frame.length <= maxControlFrameSize /\ eventHeaderSize < frame.length /\
      (Header.decode frame).length = frame.length := by
  have limit : maxControlFrameSize = 268435456 := rfl
  have header : eventHeaderSize = 16 := rfl
  have positive : 0 < payload.length := List.length_pos_iff.mpr some
  have length : ((WireFrame.fallbackData id status payload).encode msgVersion).length =
      payload.length + 16 := by
    rw [WireFrame.encode, List.length_append, length_fallbackEncode]
    omega
  dsimp only
  rw [length]
  refine ⟨by omega, by omega, ?_⟩
  rw [WireFrame.encode, FallbackDataEvent.encode, List.append_assoc,
    @Header.decode_encode (payload.length + 16) msgVersion .fallbackData _ (by omega) supported
      (by simp)]

/-- What holds of the frames that a flush with this status sends for a message. -/
structure FramesMessage (sent : List (List UInt8)) (msgVersion id : Nat) (status : Status)
    (payloads : List (List UInt8)) (last : List UInt8) : Prop where
  encoded : sent = (fallbackFrames id status payloads last).map (·.encode msgVersion)
  bounded : ∀ payload ∈ payloads ++ [last],
    payload ≠ [] /\ payload.length <= maxControlFrameSize - eventHeaderSize

theorem framesMessage (msgVersion id : Nat) (status : Status) {chunks : List (List UInt8)}
    (some : chunks.flatten ≠ []) :
    Exists fun payloads => Exists fun last =>
      FramesMessage (writeFallbackV5 msgVersion id status (frameFallback chunks)) msgVersion id
        status payloads last /\ (payloads ++ [last]).flatten = chunks.flatten := by
  rcases frameFallback_spec chunks with ⟨flat, bounded⟩
  generalize frameFallback chunks = frames at flat bounded ⊢
  rcases List.eq_nil_or_concat' frames with rfl | ⟨payloads, last, rfl⟩
  · exact absurd flat.symm some
  · refine ⟨payloads, last, ⟨?_, bounded⟩, flat⟩
    exact writeFallbackV5_eq msgVersion id status fun payload member => (bounded payload member).2

namespace FramesMessage

variable {sent : List (List UInt8)} {msgVersion id : Nat} {status : Status}
  {payloads : List (List UInt8)} {last : List UInt8}

theorem payload_of_mem (message : FramesMessage sent msgVersion id status payloads last) :
    ∀ frame ∈ fallbackFrames id status payloads last, Exists fun status => Exists fun payload =>
      frame = .fallbackData id status payload /\ payload ≠ [] /\
        payload.length <= maxControlFrameSize - eventHeaderSize := by
  intro frame member
  rcases List.mem_append.mp member with early | final
  · rcases List.mem_map.mp early with ⟨payload, inside, rfl⟩
    exact ⟨.opened, payload, rfl, message.bounded payload (List.mem_append_left _ inside)⟩
  · exact ⟨status, last, List.mem_singleton.mp final, message.bounded last (by simp)⟩

theorem declares (message : FramesMessage sent msgVersion id status payloads last)
    (supported : msgVersion <= maxSupportProtoVersion) :
    ∀ frame ∈ sent, frame.length <= maxControlFrameSize /\ eventHeaderSize < frame.length /\
      (Header.decode frame).length = frame.length := by
  intro bytes member
  rw [message.encoded] at member
  rcases List.mem_map.mp member with ⟨frame, inside, rfl⟩
  rcases message.payload_of_mem frame inside with ⟨status, payload, rfl, some, small⟩
  exact fallbackFrame_declares id status supported some small

theorem readsTo (message : FramesMessage sent msgVersion id status payloads last) {cap : Nat}
    {pieces : List (List UInt8)} (ended : Bool) (supported : msgVersion <= maxSupportProtoVersion)
    (word : id < 2 ^ 32) (capacity : 16 <= cap) (delivered : pieces.flatten = sent.flatten) :
    ReadsTo cap ended pieces
      (payloads.map (.fallbackData id (statusCode .opened)) ++
        [.fallbackData id (statusCode status) last], .atEnd ended .invalidEof) := by
  have sendable : ∀ frame ∈ fallbackFrames id status payloads last, frame.Sendable := by
    intro frame member
    rcases message.payload_of_mem frame member with ⟨status, payload, rfl, _, small⟩
    exact ⟨word, small⟩
  have read := readsTo_parse capacity ended pieces
  rw [delivered, message.encoded, parse_frames supported sendable, fallbackFrames, List.map_append,
    List.map_map] at read
  exact read

end FramesMessage

/-- A message of which some part went to the heap.  Every write call on its
buffer returns, and the frames a flush builds from it keep to the limit of the
socket, have payload and declare their length.  All but the last are frames of an
open stream, and the last has the status of the flush.  A read loop over the
frames, in whatever pieces they come, hands over these payloads for the stream and
nothing else, and they are the bytes written, in order. -/
theorem fallback_message_round_trip {kind : AllocatorKind} {pinned : Option Nat}
    {s : MessageState} {id msgVersion : Nat} (status : Status)
    (reachable : (writeCallSystem kind pinned).Reachable s) (onHeap : s.writer.fallback ≠ [])
    (word : id < 2 ^ 32) (supported : msgVersion <= maxSupportProtoVersion) :
    (forall shared now data, 0 < now ->
      (s.callStep (.reserve shared now data)).isSome = true /\
      (s.callStep (.writeBytes shared now data)).isSome = true) /\
    let sent := writeFallbackV5 msgVersion id status
      (frameFallback (s.writer.takeFallback.1.map (OutChunk.bytes s.segment.manager.mem)))
    (∀ frame ∈ sent, frame.length <= maxControlFrameSize /\ eventHeaderSize < frame.length /\
      (Header.decode frame).length = frame.length) /\
    Exists fun payloads => Exists fun last =>
      sent = (fallbackFrames id status payloads last).map (·.encode msgVersion) /\
      (payloads ++ [last]).flatten = s.written /\
      forall (cap : Nat) (ended : Bool) (pieces : List (List UInt8)), 16 <= cap ->
        pieces.flatten = sent.flatten ->
        ReadsTo cap ended pieces
          (payloads.map (.fallbackData id (statusCode .opened)) ++
            [.fallbackData id (statusCode status) last], .atEnd ended .invalidEof) := by
  have collected := MessageState.collected_of_reachable reachable
  constructor
  · intro shared now data positive
    rcases collected.reserve shared positive with ⟨t, result, _⟩
    rw [MessageState.callStep_writeBytes, result]
    exact ⟨rfl, rfl⟩
  · rcases framesMessage msgVersion id status
      (collected.takeFallback.trans_ne (collected.nonempty onHeap)) with
      ⟨payloads, last, message, flat⟩
    refine ⟨message.declares supported, payloads, last, message.encoded,
      flat.trans collected.takeFallback, ?_⟩
    intro cap ended pieces capacity delivered
    exact message.readsTo ended supported word capacity delivered

/-- A message starts in a block of the segment; the stream falls back before the
second write, and the peer reads the five bytes from one frame. -/
theorem fallback_message_round_trip_mixed :
    Exists fun s => (writeCallSystem .buddy none).Reachable s /\
      s.writer.pending.length = 1 /\ s.writer.fallback.length = 1 /\
      s.written = [1, 2, 3, 4, 5] /\
      Exists fun payloads => Exists fun last => (payloads ++ [last]).flatten = [1, 2, 3, 4, 5] /\
        ReadsTo 4096 true (writeFallbackV5 5 7 .opened
            (frameFallback (s.writer.takeFallback.1.map (OutChunk.bytes s.segment.manager.mem))))
          (payloads.map (.fallbackData 7 0) ++ [.fallbackData 7 0 last], .failed .invalidEof) := by
  let start : MessageState :=
    ⟨⟨(LocalManager.new .buddy none).toOption.get (by decide +kernel), []⟩, .new, []⟩
  have found : Exists fun s => (writeCallSystem .buddy none).Reachable s /\
      s.writer.pending.length = 1 /\ s.writer.fallback.length = 1 /\
      s.written = [1, 2, 3, 4, 5] :=
    Transition.System.exists_reachable_of_run start
      [.reserve ⟨true, false⟩ 1 [1, 2, 3], .writeBytes ⟨true, true⟩ 2 [4, 5]]
      ⟨rfl, rfl, rfl, rfl⟩ (by decide +kernel)
  rcases found with ⟨s, reachable, pending, fallback, written⟩
  have onHeap : s.writer.fallback ≠ [] := by
    intro none
    rw [none] at fallback
    cases fallback
  rcases (@fallback_message_round_trip _ _ s 7 5 .opened reachable onHeap (by decide)
    (by decide)).2 with ⟨_, payloads, last, _, flat, read⟩
  refine ⟨s, reachable, pending, fallback, written, payloads, last, flat.trans written, ?_⟩
  exact read 4096 true _ (by decide) rfl

end Session
end Shmipc
