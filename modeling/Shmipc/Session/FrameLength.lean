import Shmipc.Session.ReadLoop

namespace Shmipc
namespace Session

open ByteStream

/-!
# How far a frame moves the read loop

A header declares the length of its frame, and `handle_events` compares it with
the least the type needs and the most a frame may have.  The handlers then say
for themselves how much they have consumed.  `takeFrame` is the frame at the
front of the bytes and what the loop consumes for it, and `Reached` the places at
which the loop looks for a header.
-/

/-- A header that `handle_events` accepts. -/
structure Header.Accepted (hdr : Header) : Prop where
  magic : hdr.magic = magicNumber
  version : hdr.version <= maxSupportProtoVersion
  least : headerSize + minPayloadSize hdr.msgType <= hdr.length
  most : hdr.length <= maxControlFrameSize
  type : hdr.msgType = .polling \/ hdr.msgType = .streamClose \/ hdr.msgType = .fallbackData

/-- The event of the frame at the front and the number of bytes the loop consumes
for it, header and payload.  There is none while the loop waits for more bytes,
and none when it fails. -/
def takeFrame (stream : List UInt8) : Option (Dispatched × Nat) :=
  match handleEvent stream with
  | .refill _ => none
  | .fail _ => none
  | .dispatch event consumed => some (event, consumed)
  | .fallbackPayload seqId status len =>
    if (stream.drop 16).length < len then none
    else some (.fallbackData seqId status ((stream.drop 16).take len), 16 + len)

/-- The loop has handed on `events` and looks for the next header at `pos`. -/
inductive Reached (stream : List UInt8) : List Dispatched -> Nat -> Prop where
  | start : Reached stream [] 0
  | next {events : List Dispatched} {pos consumed : Nat} {event : Dispatched}
      (before : Reached stream events pos)
      (taken : takeFrame (stream.drop pos) = some (event, consumed)) :
      Reached stream (events ++ [event]) (pos + consumed)

/-- The header declares just what its handler consumes. -/
def Header.Exact (hdr : Header) : Prop :=
  hdr.msgType = .fallbackData \/ hdr.length = headerSize + minPayloadSize hdr.msgType

instance (hdr : Header) : Decidable hdr.Exact :=
  inferInstanceAs (Decidable (_ \/ _))

/-! ## The loop goes on where the frame was taken -/

variable {stream : List UInt8} {events : List Dispatched} {pos : Nat}

theorem parse_takeFrame {event : Dispatched} {consumed : Nat} (ended : Bool)
    (taken : takeFrame stream = some (event, consumed)) :
    parse ended stream = after [event] (parse ended (stream.drop consumed)) := by
  unfold takeFrame at taken
  cases step : handleEvent stream with
  | refill required | fail err => simp only [step, reduceCtorEq] at taken
  | dispatch handled count =>
    simp only [step, Option.some.injEq, Prod.mk.injEq] at taken
    rcases taken with ⟨rfl, rfl⟩
    exact parse_dispatch step
  | fallbackPayload seqId status len =>
    simp only [step] at taken
    split at taken
    case isTrue => cases taken
    case isFalse whole =>
      simp only [Option.some.injEq, Prod.mk.injEq] at taken
      rcases taken with ⟨rfl, rfl⟩
      rw [parse_payload step (Nat.not_lt.mp whole), List.drop_drop]
      rfl

theorem Reached.parse (reached : Reached stream events pos) (ended : Bool) :
    parse ended stream = after events (Session.parse ended (stream.drop pos)) := by
  induction reached with
  | start => rw [List.drop_zero, after_nil]
  | next before taken ih =>
    rw [ih, parse_takeFrame ended taken, after_after, List.drop_drop]

/-- The read loop looks for a header at each place that is reached, whatever the
pieces in which the bytes come. -/
theorem Reached.readsTo {cap : Nat} {pieces : List (List UInt8)}
    (reached : Reached pieces.flatten events pos) (capacity : 16 <= cap) (ended : Bool) :
    ReadsTo cap ended pieces (after events (Session.parse ended (pieces.flatten.drop pos))) := by
  rw [<- reached.parse ended]
  exact readsTo_parse capacity ended pieces

theorem Reached.trans {front rest : List UInt8} {event : Dispatched}
    (taken : takeFrame (front ++ rest) = some (event, front.length))
    (reached : Reached rest events pos) :
    Reached (front ++ rest) (event :: events) (front.length + pos) := by
  induction reached with
  | start =>
    have first := Reached.next .start (by rw [List.drop_zero]; exact taken)
    rw [Nat.zero_add] at first
    exact first
  | next before step ih =>
    rw [<- Nat.add_assoc]
    refine Reached.next ih ?_
    rw [<- List.drop_drop, List.drop_left]
    exact step

/-! ## What each handler consumes -/

theorem Header.Accepted.handleEvent (accepted : (Header.decode stream).Accepted)
    (long : headerSize <= stream.length) :
    handleEvent stream = handleType (Header.decode stream) (stream.drop headerSize) := by
  have known : checkEventValid (Header.decode stream) = none := by
    rw [checkEventValid, if_neg]
    · rcases accepted.type with type | type | type <;> rw [type]
    · rintro (other | newer)
      · exact other accepted.magic
      · exact Nat.not_lt.mpr accepted.version newer
  rw [Session.handleEvent, if_neg (Nat.not_lt.mpr long), handleBody, known]
  dsimp only
  rw [if_neg (Nat.not_lt.mpr accepted.most), if_neg (Nat.not_lt.mpr accepted.least)]

/-- A whole frame with an accepted header is taken.  Only fallback data is taken
for the length the header declares; the other two for the least length of their
type. -/
theorem Header.Accepted.takeFrame (accepted : (Header.decode stream).Accepted)
    (whole : (Header.decode stream).length <= stream.length) :
    Exists fun event => takeFrame stream = some (event,
      if (Header.decode stream).msgType = .fallbackData then (Header.decode stream).length
      else headerSize + minPayloadSize (Header.decode stream).msgType) := by
  have size : headerSize = 8 := rfl
  have least := accepted.least
  have handled := accepted.handleEvent (by omega)
  have body : (stream.drop headerSize).length = stream.length - headerSize := List.length_drop
  rcases accepted.type with type | type | type
  · rw [handleType, type] at handled
    exact ⟨.polling, by rw [Session.takeFrame, handled, type]; rfl⟩
  · rw [type] at least
    have four : minPayloadSize .streamClose = 4 := rfl
    rw [handleType, type] at handled
    dsimp only at handled
    rw [handleStreamClose, if_neg (by omega)] at handled
    exact ⟨_, by rw [Session.takeFrame, handled, type]; rfl⟩
  · rw [type] at least
    have eight : minPayloadSize .fallbackData = 8 := rfl
    rw [handleType, type] at handled
    dsimp only at handled
    rw [handleFallbackHead, if_neg (by omega)] at handled
    have payload : (stream.drop 16).length = stream.length - 16 := List.length_drop
    have declared : 16 + ((Header.decode stream).length - headerSize - 8) =
        (Header.decode stream).length := by omega
    exact ⟨_, by
      rw [Session.takeFrame, handled, if_pos type]
      dsimp only
      rw [if_neg (by omega), declared]⟩

/-- A frame whose bytes have not all come is not taken, if its header is exact. -/
theorem Header.Accepted.takeFrame_cut (accepted : (Header.decode stream).Accepted)
    (exact : (Header.decode stream).Exact) (long : headerSize <= stream.length)
    (cut : stream.length < (Header.decode stream).length) :
    Session.takeFrame stream = none := by
  have size : headerSize = 8 := rfl
  have handled := accepted.handleEvent long
  have body : (stream.drop headerSize).length = stream.length - headerSize := List.length_drop
  rcases accepted.type with type | type | type
  · rw [Header.Exact, type] at exact
    have none : minPayloadSize .polling = 0 := rfl
    rcases exact with other | length
    · cases other
    · omega
  · rw [Header.Exact, type] at exact
    have four : minPayloadSize .streamClose = 4 := rfl
    rcases exact with other | length
    · cases other
    · rw [handleType, type] at handled
      dsimp only at handled
      rw [handleStreamClose, if_pos (by omega)] at handled
      rw [Session.takeFrame, handled]
  · rw [handleType, type] at handled
    dsimp only at handled
    rw [handleFallbackHead] at handled
    split at handled
    case isTrue => rw [Session.takeFrame, handled]
    case isFalse enough =>
      have payload : (stream.drop 16).length = stream.length - 16 := List.length_drop
      rw [Session.takeFrame, handled]
      dsimp only
      rw [if_pos (by omega)]

/-- Frames one after the other, each as long as its exact header declares. -/
def ExactFrames (frames : List (List UInt8)) : Prop :=
  ∀ frame ∈ frames, (Header.decode frame).Accepted /\ (Header.decode frame).Exact /\
    frame.length = (Header.decode frame).length

theorem reached_exactFrames {frames : List (List UInt8)} (rest : List UInt8)
    (exactFrames : ExactFrames frames) :
    Exists fun events => events.length = frames.length /\
      Reached (frames.flatten ++ rest) events frames.flatten.length := by
  induction frames with
  | nil => exact ⟨[], rfl, .start⟩
  | cons frame frames ih =>
    rcases ih fun other member => exactFrames other (List.mem_cons_of_mem _ member) with
      ⟨events, count, reached⟩
    rcases exactFrames frame List.mem_cons_self with ⟨accepted, exact, length⟩
    have size : headerSize = 8 := rfl
    have long : headerSize <= frame.length := by
      have least := accepted.least
      omega
    have same : Header.decode (frame ++ (frames.flatten ++ rest)) = Header.decode frame :=
      Header.decode_append _ long
    rw [<- same] at accepted
    rcases accepted.takeFrame (by rw [same, List.length_append]; omega) with ⟨event, taken⟩
    have declared : (if (Header.decode frame).msgType = .fallbackData
        then (Header.decode frame).length
        else headerSize + minPayloadSize (Header.decode frame).msgType) = frame.length := by
      rw [length]
      split
      case isTrue => rfl
      case isFalse other => exact (exact.resolve_left other).symm
    rw [same, declared] at taken
    refine ⟨event :: events, congrArg Nat.succ count, ?_⟩
    rw [List.flatten_cons, List.append_assoc, List.length_append]
    exact Reached.trans taken reached

/-! ## The declared length -/

/-- At every place of every stream of bytes at which the loop looks for a header
and finds an accepted one, with its frame whole: the loop moves on by the
declared length exactly if the frame is fallback data or declares the least
length of its type.  While the frame of such a header is not whole, nothing is
taken.  Where all frames are of that kind, the loop is found at the end of each
of them in turn, whatever comes behind and in whatever pieces. -/
theorem frame_consumes_declared_iff (stream : List UInt8) :
    (forall events pos, Reached stream events pos ->
      forall hdr, hdr = Header.decode (stream.drop pos) -> hdr.Accepted ->
        headerSize <= (stream.drop pos).length ->
        (hdr.length <= (stream.drop pos).length ->
          ((Exists fun event => takeFrame (stream.drop pos) = some (event, hdr.length)) <->
            hdr.Exact)) /\
        ((stream.drop pos).length < hdr.length -> hdr.Exact ->
          takeFrame (stream.drop pos) = none)) /\
    (forall frames rest, ExactFrames frames -> stream = frames.flatten ++ rest ->
      Exists fun events => events.length = frames.length /\
        Reached stream events frames.flatten.length /\
        forall cap ended pieces, 16 <= cap -> pieces.flatten = stream ->
          ReadsTo cap ended pieces (after events (parse ended rest))) := by
  constructor
  · rintro events pos reached hdr rfl accepted long
    constructor
    · intro whole
      rcases accepted.takeFrame whole with ⟨event, taken⟩
      constructor
      · rintro ⟨event', declared⟩
        rw [taken] at declared
        simp only [Option.some.injEq, Prod.mk.injEq] at declared
        by_cases fallback : (Header.decode (stream.drop pos)).msgType = .fallbackData
        · exact .inl fallback
        · rw [if_neg fallback] at declared
          exact .inr declared.2.symm
      · intro exact
        refine ⟨event, ?_⟩
        rw [taken]
        split
        case isTrue => rfl
        case isFalse other => rw [exact.resolve_left other]
    · intro cut exact
      exact accepted.takeFrame_cut exact long cut
  · rintro frames rest exactFrames rfl
    rcases reached_exactFrames rest exactFrames with ⟨events, count, reached⟩
    refine ⟨events, count, reached, fun cap ended pieces capacity split => ?_⟩
    have reads := Reached.readsTo (split ▸ reached : Reached pieces.flatten _ _) capacity ended
    rw [split, List.drop_left] at reads
    exact reads

/-- A polling event that declares two bytes of padding is not followed by its
padding but by the header its padding is taken for; fallback data with a
declared payload of two bytes is taken as a whole. -/
theorem frame_consumes_declared_iff_cases :
    (¬ Exists fun event =>
      takeFrame [0, 0, 0, 10, 0x77, 0x58, 3, 1, 1, 2] = some (event, 10)) /\
    Exists fun event =>
      takeFrame [0, 0, 0, 18, 0x77, 0x58, 3, 3, 0, 0, 0, 9, 0, 0, 0, 1, 10, 20] =
        some (event, 18) := by
  constructor
  · have here := ((frame_consumes_declared_iff
      [0, 0, 0, 10, 0x77, 0x58, 3, 1, 1, 2]).1 _ _ .start _
      rfl ⟨by decide, by decide, by decide, by decide, by decide⟩ (by decide)).1 (by decide)
    exact fun declared => absurd (here.mp declared) (by decide)
  · have here := ((frame_consumes_declared_iff
      [0, 0, 0, 18, 0x77, 0x58, 3, 3, 0, 0, 0, 9, 0, 0, 0, 1, 10, 20]).1 _ _ .start _
      rfl ⟨by decide, by decide, by decide, by decide, by decide⟩ (by decide)).1 (by decide)
    exact here.mpr (by decide)

/-- A polling event that declares 20 bytes is accepted, 8 of them are consumed,
and the other 12 are read as the close of stream 7. -/
theorem polling_payload_read_as_frames :
    (Header.decode
      [0, 0, 0, 20, 0x77, 0x58, 3, 1, 0, 0, 0, 12, 0x77, 0x58, 3, 2, 0, 0, 0, 7]).Accepted /\
    takeFrame [0, 0, 0, 20, 0x77, 0x58, 3, 1, 0, 0, 0, 12, 0x77, 0x58, 3, 2, 0, 0, 0, 7] =
      some (.polling, 8) /\
    ReadsTo 16 true [[0, 0, 0, 20, 0x77, 0x58, 3, 1], [0, 0, 0, 12, 0x77, 0x58, 3, 2, 0, 0, 0, 7]]
      ([.polling, .streamClose 7], .failed .invalidEof) := by
  refine ⟨⟨by decide, by decide, by decide, by decide, by decide⟩, by decide, ?_⟩
  have reached : Reached (List.flatten
      [[0, 0, 0, 20, 0x77, 0x58, 3, 1], [0, 0, 0, 12, 0x77, 0x58, 3, 2, 0, 0, 0, 7]])
      [.polling, .streamClose 7] 20 :=
    .next (.next .start (by decide : takeFrame _ = some (_, 8)))
      (by decide : takeFrame _ = some (_, 12))
  have reads : ReadsTo 16 true
      [[0, 0, 0, 20, 0x77, 0x58, 3, 1], [0, 0, 0, 12, 0x77, 0x58, 3, 2, 0, 0, 0, 7]]
      (after [.polling, .streamClose 7] (parse true [])) :=
    reached.readsTo (Nat.le_refl 16) true
  rw [parse_refill (rfl : handleEvent [] = .refill headerSize)] at reads
  exact reads

end Session
end Shmipc
