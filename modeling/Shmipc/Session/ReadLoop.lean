import Mathlib.Data.List.Forall2
import Shmipc.Session.EventReader

namespace Shmipc
namespace Session

open ByteStream

/-!
# How the socket splits its bytes does not matter

`handleEvents` takes every event off the buffer that is there as a whole and says
what is to be read next.  The read loop alternates between the two.  A pass of
the loop keeps one equation: the events handed on so far, followed by the events
of the bytes that are buffered or still to come, are the events of the stream.
-/

/-- What the read loop has to do before it handles events again. -/
inductive Next where
  | fill (len : Nat)
  | fallbackPayload (seqId status len : Nat)
deriving DecidableEq, Repr

structure Handled where
  events : List Dispatched
  consumed : Nat
  next : Next
  err : Option EventError

/-- The loop over the buffer.  An event takes at least a header, so there are no
more passes than bytes. -/
def handleLoop : Nat -> List UInt8 -> Handled
  | 0, _ => { events := [], consumed := 0, next := .fill headerSize, err := none }
  | passes + 1, buf =>
    match handleEvent buf with
    | .refill required => { events := [], consumed := 0, next := .fill required, err := none }
    | .fail err =>
      { events := [], consumed := headerSize, next := .fill headerSize, err := some err }
    | .dispatch event n =>
      let rest := handleLoop passes (buf.drop n)
      { events := event :: rest.events, consumed := n + rest.consumed, next := rest.next,
        err := rest.err }
    | .fallbackPayload seqId status len =>
      { events := [], consumed := headerSize + 8, next := .fallbackPayload seqId status len,
        err := none }

def handleEvents (buf : List UInt8) : Handled := handleLoop (buf.length + 1) buf

/-- Hand on events in front of what is still to come. -/
def after (events : List Dispatched) (rest : List Dispatched × Stop) : List Dispatched × Stop :=
  (events ++ rest.1, rest.2)

/-- The read loop with a number of rounds to go: the events it hands on and how
it comes to rest. -/
def readLoop (cap : Nat) (ended : Bool) :
    Nat -> Nat -> BufReader -> List (List UInt8) -> Option (List Dispatched × Stop)
  | 0, _, _, _ => none
  | rounds + 1, len, r, pieces =>
    match r.fillBufAtLeast cap len ended pieces with
    | .stopped stop => some ([], stop)
    | .returned buf r pieces =>
      let handled := handleEvents buf
      let r := r.consume handled.consumed
      match handled.err with
      | some err => some (handled.events, .failed err)
      | none =>
        match handled.next with
        | .fill len => (readLoop cap ended rounds len r pieces).map (after handled.events)
        | .fallbackPayload seqId status len =>
          match readExact cap ended len r pieces with
          | .stopped stop => some (handled.events, stop)
          | .returned payload r pieces =>
            (readLoop cap ended rounds headerSize r pieces).map
              (after (handled.events ++ [.fallbackData seqId status payload]))

/-- Given enough rounds, the loop over these pieces hands on these events and
comes to rest like this. -/
def ReadsTo (cap : Nat) (ended : Bool) (pieces : List (List UInt8))
    (outcome : List Dispatched × Stop) : Prop :=
  Exists fun enough => forall rounds, enough <= rounds ->
    readLoop cap ended rounds headerSize .new pieces = some outcome

/-! ## One look at the buffer -/

theorem after_nil (rest : List Dispatched × Stop) : after [] rest = rest := rfl

theorem after_after (first second : List Dispatched) (rest : List Dispatched × Stop) :
    after first (after second rest) = after (first ++ second) rest := by
  simp only [after, List.append_assoc]

/-- What the look at the buffer says of the bytes from the event on at which it
ended, and of what to do next. -/
structure Handled.Ends (handled : Handled) (buf : List UInt8) (start : Nat) : Prop where
  inside : start <= buf.length
  moved : start = 0 \/ headerSize <= start
  last :
    match handleEvent (buf.drop start) with
    | .refill required =>
      handled.consumed = start /\ handled.next = .fill required /\ handled.err = none
    | .fail err => handled.err = some err
    | .dispatch _ _ => False
    | .fallbackPayload seqId status len =>
      handled.consumed = start + 16 /\ handled.next = .fallbackPayload seqId status len /\
        handled.err = none

theorem handleLoop_spec {passes : Nat} {buf : List UInt8} (enough : buf.length < passes) :
    Exists fun start => (handleLoop passes buf).Ends buf start /\
      forall ended rest, parse ended (buf ++ rest) =
        after (handleLoop passes buf).events (parse ended (buf.drop start ++ rest)) := by
  induction passes generalizing buf with
  | zero => exact absurd enough (Nat.not_lt_zero _)
  | succ passes ih =>
    have size : headerSize = 8 := rfl
    have bounds := handleEvent_bounds buf
    cases step : handleEvent buf with
    | refill required =>
      refine ⟨0, ⟨Nat.zero_le _, .inl rfl, ?_⟩, fun ended rest => ?_⟩
      · simp only [List.drop_zero, step, handleLoop, and_self]
      · simp only [List.drop_zero, step, handleLoop, after_nil]
    | fail err =>
      refine ⟨0, ⟨Nat.zero_le _, .inl rfl, ?_⟩, fun ended rest => ?_⟩
      · simp only [List.drop_zero, step, handleLoop]
      · simp only [List.drop_zero, step, handleLoop, after_nil]
    | fallbackPayload seqId status len =>
      refine ⟨0, ⟨Nat.zero_le _, .inl rfl, ?_⟩, fun ended rest => ?_⟩
      · simp only [List.drop_zero, step, handleLoop, size, and_self]
      · simp only [List.drop_zero, step, handleLoop, after_nil]
    | dispatch event n =>
      rw [step] at bounds
      dsimp only at bounds
      have fewer : (buf.drop n).length < passes := by
        rw [List.length_drop]
        omega
      rcases ih fewer with ⟨start, ends, events⟩
      have drops : (buf.drop n).drop start = buf.drop (n + start) := List.drop_drop
      refine ⟨n + start, ⟨?_, .inr (by omega), ?_⟩, fun ended rest => ?_⟩
      · have inside := ends.inside
        rw [List.length_drop] at inside
        omega
      · have last := ends.last
        rw [drops] at last
        simp only [handleLoop, step]
        cases ended : handleEvent (buf.drop (n + start)) with
        | refill required =>
          rw [ended] at last
          exact ⟨by rw [last.1], last.2⟩
        | fail err | dispatch event n =>
          rw [ended] at last
          exact last
        | fallbackPayload seqId status len =>
          rw [ended] at last
          exact ⟨by rw [last.1, Nat.add_assoc], last.2⟩
      · have ahead : handleEvent (buf ++ rest) = .dispatch event n := by
          rw [handleEvent_append rest fun required => by rw [step]; nofun, step]
        rw [parse_dispatch ahead, List.drop_append_of_le_length bounds.2, events, drops]
        simp only [handleLoop, step]
        rfl

theorem handleEvents_spec (buf : List UInt8) :
    Exists fun start => (handleEvents buf).Ends buf start /\
      forall ended rest, parse ended (buf ++ rest) =
        after (handleEvents buf).events (parse ended (buf.drop start ++ rest)) :=
  handleLoop_spec (Nat.lt_succ_self buf.length)

/-! ## The loop -/

variable {cap : Nat} {r : BufReader}

theorem BufReader.consume_inside {amt : Nat} (inside : r.len <= cap) :
    (r.consume amt).len <= cap := by
  have length : r.len = r.pos + r.data.length := rfl
  simp only [consume, len, List.length_drop]
  omega

/-- The loop waits for no more than the next event needs: a stream that has fewer
bytes than it asks for has no further event. -/
def Asks (len : Nat) (stream : List UInt8) : Prop :=
  stream.length < len -> Exists fun missing => handleEvent stream = .refill missing

theorem asks_headerSize (stream : List UInt8) : Asks headerSize stream :=
  fun short => ⟨headerSize, if_pos short⟩

variable {len : Nat} {ended : Bool} {pieces : List (List UInt8)}

/-- What reading a payload means for the stream: the header was its front, the
payload comes next, and the loop goes on with the bytes behind it. -/
theorem parse_readExact {seqId status : Nat} {head : List UInt8} (ended : Bool)
    (pieces : List (List UInt8)) (capacity : 0 < cap) (inside : r.len <= cap)
    (front : head.drop 16 = r.data) (long : 16 <= head.length)
    (step : handleEvent head = .fallbackPayload seqId status len) :
    match readExact cap ended len r pieces with
    | .stopped stop => parse ended (head ++ pieces.flatten) = ([], stop)
    | .returned payload r' rest =>
      r'.len <= cap /\
        (r'.data ++ rest.flatten).length + 16 <= (head ++ pieces.flatten).length /\
        parse ended (head ++ pieces.flatten) =
          after [.fallbackData seqId status payload] (parse ended (r'.data ++ rest.flatten)) := by
  have ahead : handleEvent (head ++ pieces.flatten) = .fallbackPayload seqId status len := by
    rw [handleEvent_append _ fun required => by rw [step]; nofun, step]
  have behind : (head ++ pieces.flatten).drop 16 = r.data ++ pieces.flatten := by
    rw [List.drop_append_of_le_length long, front]
  have read := readExact_spec ended pieces len capacity inside
  cases result : readExact cap ended len r pieces with
  | stopped stop =>
    rw [result] at read
    rcases read with ⟨short, rfl⟩
    exact parse_cut ahead (by rw [behind]; exact short)
  | returned payload r' rest =>
    rw [result] at read
    rcases read with ⟨whole, count, inside'⟩
    have enough : len <= ((head ++ pieces.flatten).drop 16).length := by
      rw [behind, <- whole, List.length_append]
      omega
    refine ⟨inside', ?_, ?_⟩
    · have total := congrArg List.length (behind.trans whole.symm)
      simp only [List.length_drop, List.length_append] at total ⊢
      omega
    · rw [parse_payload ahead enough, behind, <- whole, List.take_left' count,
        List.drop_left' count]
      rfl

/-- From any state of the reader, the loop comes to the events and the end of the
bytes that are buffered or still to come. -/
theorem readLoop_eq {rounds : Nat} (capacity : 16 <= cap) (inside : r.len <= cap)
    (least : headerSize <= len) (most : len <= 16) (asks : Asks len (r.data ++ pieces.flatten))
    (enough : 2 * (r.data ++ pieces.flatten).length + (16 - len) < rounds) :
    readLoop cap ended rounds len r pieces = some (parse ended (r.data ++ pieces.flatten)) := by
  induction rounds generalizing len r pieces with
  | zero => exact absurd enough (Nat.not_lt_zero _)
  | succ rounds ih =>
    have size : headerSize = 8 := rfl
    have filled := BufReader.fillBufAtLeast_spec ended pieces inside (by omega : 0 < len)
      (by omega)
    rw [readLoop]
    cases result : r.fillBufAtLeast cap len ended pieces with
    | stopped stop =>
      rw [result] at filled
      rcases filled with ⟨short, rfl⟩
      rcases asks short with ⟨missing, refill⟩
      rw [parse_refill refill]
    | returned buf r' rest =>
      rw [result] at filled
      rcases filled with ⟨rfl, same, long, inside'⟩
      rcases handleEvents_spec r'.data with ⟨start, ends, events⟩
      rw [<- same] at enough ⊢
      rw [events ended rest.flatten]
      have last := ends.last
      have total : (r'.data.drop start ++ rest.flatten).length =
          (r'.data ++ rest.flatten).length - start := by
        rw [<- List.drop_append_of_le_length ends.inside, List.length_drop]
      have most' : start <= (r'.data ++ rest.flatten).length := by
        rw [List.length_append]
        exact Nat.le_add_right_of_le ends.inside
      have moved := ends.moved
      have bounds := handleEvent_bounds (r'.data.drop start)
      cases step : handleEvent (r'.data.drop start) with
      | refill required =>
        rw [step] at last bounds
        rcases last with ⟨consumed, next, none⟩
        dsimp only at bounds
        -- the loop asks for more than it had, or it has consumed an event
        have progress : 2 * (r'.data.drop start ++ rest.flatten).length + (16 - required) <
            rounds := by
          rw [List.length_drop] at bounds
          omega
        simp only [none, next, consumed]
        rw [ih (r := r'.consume start) (BufReader.consume_inside inside') bounds.2.1
          bounds.2.2 (handleEvent_refill_append step) progress]
        rfl
      | fail err =>
        rw [step] at last
        have ahead : handleEvent (r'.data.drop start ++ rest.flatten) = .fail err := by
          rw [handleEvent_append _ fun required => by rw [step]; nofun, step]
        dsimp only at last
        simp only [last, parse_fail ahead, after, List.append_nil]
      | dispatch event n =>
        rw [step] at last
        exact absurd last id
      | fallbackPayload seqId status count =>
        rw [step] at last bounds
        rcases last with ⟨consumed, next, none⟩
        simp only [none, next, consumed]
        have front : (r'.data.drop start).drop 16 = (r'.consume (start + 16)).data :=
          List.drop_drop
        have read := parse_readExact ended rest (by omega : 0 < cap)
          (BufReader.consume_inside inside') front bounds step
        cases payload : readExact cap ended count (r'.consume (start + 16)) rest with
        | stopped stop =>
          rw [payload] at read
          dsimp only at read ⊢
          rw [read, after, List.append_nil]
        | returned payload r'' rest' =>
          rw [payload] at read
          rcases read with ⟨inside'', fewer, parsed⟩
          have progress : 2 * (r''.data ++ rest'.flatten).length + (16 - headerSize) <
              rounds := by omega
          dsimp only
          rw [ih inside'' (Nat.le_refl _) (by omega) (asks_headerSize _) progress, parsed,
            after_after]
          rfl

/-- However the socket splits its bytes, the loop comes to the events of the
stream of bytes. -/
theorem readsTo_parse (capacity : 16 <= cap) (ended : Bool) (pieces : List (List UInt8)) :
    ReadsTo cap ended pieces (parse ended pieces.flatten) := by
  refine ⟨2 * pieces.flatten.length + 9, fun rounds enough => ?_⟩
  have size : headerSize = 8 := rfl
  have started : BufReader.new.data ++ pieces.flatten = pieces.flatten := List.nil_append _
  rw [<- started]
  refine readLoop_eq capacity (Nat.zero_le _) (Nat.le_refl _) (by omega) (asks_headerSize _) ?_
  rw [started]
  omega

/-! ## The frames of the crate -/

/-- A frame that the crate sends.  The `write_fallback` of versions two to four encodes
the header through a pointer to an array that is gone by then. -/
inductive CrateFrame where
  | encoded (frame : WireFrame)
  | writeFallback (seqId : Nat) (status : Shmipc.Stream.Status) (payload : List UInt8)
deriving DecidableEq

namespace CrateFrame

/-- The bytes that may go out for a frame.  In front of the payload of a `writeFallback`
stand sixteen bytes that nothing in the program determines. -/
def MayWrite (msgVersion : Nat) : CrateFrame -> List UInt8 -> Prop
  | .encoded frame, bytes => bytes = frame.encode msgVersion
  | .writeFallback _ _ payload, bytes => Exists fun header : List UInt8 =>
    header.length = 16 /\ bytes = header ++ payload

def Sendable : CrateFrame -> Prop
  | .encoded frame => frame.Sendable
  | .writeFallback seqId status payload => (WireFrame.fallbackData seqId status payload).Sendable

def event : CrateFrame -> Dispatched
  | .encoded frame => frame.event
  | .writeFallback seqId status payload => (WireFrame.fallbackData seqId status payload).event

def isEncoded : CrateFrame -> Bool
  | .encoded _ => true
  | .writeFallback _ _ _ => false

/-- What goes out for a frame if the array held zeros. -/
def zeroed (msgVersion : Nat) : CrateFrame -> List UInt8
  | .encoded frame => frame.encode msgVersion
  | .writeFallback _ _ payload => List.replicate 16 0 ++ payload

theorem mayWrite_zeroed (msgVersion : Nat) (frame : CrateFrame) :
    frame.MayWrite msgVersion (frame.zeroed msgVersion) := by
  cases frame with
  | encoded frame => exact rfl
  | writeFallback seqId status payload => exact ⟨List.replicate 16 0, rfl, rfl⟩

variable {ended : Bool} {msgVersion : Nat} {frames : List CrateFrame}

/-- Encoded frames are read as the events they were made for. -/
theorem parse_written {written : List (List UInt8)}
    (supported : msgVersion <= maxSupportProtoVersion) (sendable : ∀ frame ∈ frames, frame.Sendable)
    (encoded : ∀ frame ∈ frames, frame.isEncoded = true)
    (wrote : List.Forall₂ (MayWrite msgVersion) frames written) :
    parse ended written.flatten = (frames.map (·.event), .atEnd ended .invalidEof) := by
  induction wrote with
  | nil => exact parse_refill rfl
  | @cons frame bytes frames written first _ ih =>
    have rest := ih (fun other member => sendable other (List.mem_cons_of_mem _ member))
      (fun other member => encoded other (List.mem_cons_of_mem _ member))
    cases frame with
    | encoded frame =>
      rw [show bytes = frame.encode msgVersion from first, List.flatten_cons,
        parse_encode _ supported (sendable _ List.mem_cons_self), rest, List.map_cons]
      rfl
    | writeFallback seqId status payload => cases encoded _ List.mem_cons_self

/-- A header of zeros is refused. -/
theorem parse_zeroed (supported : msgVersion <= maxSupportProtoVersion)
    (sendable : ∀ frame ∈ frames, frame.Sendable)
    (found : ∃ frame ∈ frames, frame.isEncoded = false) :
    (parse ended (frames.map (zeroed msgVersion)).flatten).2 = .failed .invalidVersion := by
  induction frames with
  | nil =>
    rcases found with ⟨_, none, _⟩
    cases none
  | cons frame frames ih =>
    rw [List.map_cons, List.flatten_cons]
    cases frame with
    | encoded frame =>
      rw [zeroed, parse_encode _ supported (sendable _ List.mem_cons_self)]
      apply ih (fun other member => sendable other (List.mem_cons_of_mem _ member))
      rcases found with ⟨other, member, raw⟩
      rcases List.mem_cons.mp member with rfl | later
      · cases raw
      · exact ⟨other, later, raw⟩
    | writeFallback seqId status payload =>
      rw [zeroed, List.append_assoc]
      generalize payload ++ (frames.map (zeroed msgVersion)).flatten = rest
      have zeros : handleEvent (List.replicate 16 0) = .fail .invalidVersion := by decide
      have refused : handleEvent (List.replicate 16 0 ++ rest) = .fail .invalidVersion := by
        rw [handleEvent_append rest fun required => by rw [zeros]; simp, zeros]
      rw [parse_fail refused]

end CrateFrame

theorem ReadsTo.unique {outcome outcome' : List Dispatched × Stop}
    (reads : ReadsTo cap ended pieces outcome) (reads' : ReadsTo cap ended pieces outcome') :
    outcome = outcome' := by
  rcases reads with ⟨enough, reads⟩
  rcases reads' with ⟨enough', reads'⟩
  have first := reads (enough + enough') (Nat.le_add_right _ _)
  exact Option.some.inj (first.symm.trans (reads' _ (Nat.le_add_left _ _)))

/-- Two sockets that deliver the same bytes in different pieces lead to the same
events and the same end, whatever the bytes are.  Frames of the crate lead to the events
they were made for, in their order, and no others, whatever the bytes that nothing
determines happen to be, exactly if `write_fallback` made none of them. -/
theorem events_ignore_splitting {cap : Nat} (capacity : 16 <= cap) (ended : Bool) :
    (forall pieces pieces' : List (List UInt8), pieces.flatten = pieces'.flatten ->
      Exists fun outcome => ReadsTo cap ended pieces outcome /\ ReadsTo cap ended pieces' outcome) /\
    forall (msgVersion : Nat) (frames : List CrateFrame),
      msgVersion <= maxSupportProtoVersion -> (∀ frame ∈ frames, frame.Sendable) ->
      ((forall written pieces : List (List UInt8),
        List.Forall₂ (CrateFrame.MayWrite msgVersion) frames written ->
        pieces.flatten = written.flatten ->
        ReadsTo cap ended pieces (frames.map (·.event), .atEnd ended .invalidEof)) <->
      ∀ frame ∈ frames, frame.isEncoded = true) := by
  constructor
  · intro pieces pieces' same
    refine ⟨parse ended pieces.flatten, readsTo_parse capacity ended pieces, ?_⟩
    rw [same]
    exact readsTo_parse capacity ended pieces'
  · intro msgVersion frames supported sendable
    constructor
    · intro reads
      by_contra raw
      simp only [not_forall, Bool.not_eq_true] at raw
      rcases raw with ⟨frame, member, raw⟩
      have wrote : List.Forall₂ (CrateFrame.MayWrite msgVersion) frames
          (frames.map (CrateFrame.zeroed msgVersion)) :=
        List.forall₂_map_right_iff.mpr (List.forall₂_same.mpr fun frame _ =>
          frame.mayWrite_zeroed msgVersion)
      have same := (reads _ _ wrote rfl).unique (readsTo_parse capacity ended _)
      have failed : (parse ended (frames.map (CrateFrame.zeroed msgVersion)).flatten).2 = _ :=
        CrateFrame.parse_zeroed supported sendable ⟨frame, member, raw⟩
      rw [<- same] at failed
      cases ended <;> cases failed
    · intro encoded written pieces wrote delivered
      rw [<- CrateFrame.parse_written supported sendable encoded wrote, <- delivered]
      exact readsTo_parse capacity ended pieces

/-- A close of stream 7 followed by fallback data for stream 9, cut inside the
header of the fallback data and inside its payload. -/
theorem events_ignore_splitting_inside_frames :
    ReadsTo 16 true
      [[0, 0, 0, 12, 0x77, 0x58, 3, 2, 0, 0, 0, 7, 0, 0], [0, 18, 0x77, 0x58, 3, 3, 0, 0, 0], [],
        [9, 0, 0, 0, 1, 10], [20]]
      ([.streamClose 7, .fallbackData 9 1 [10, 20]], .failed .invalidEof) := by
  refine ((events_ignore_splitting (by decide) true).2 3
    [.encoded (.streamClose 7), .encoded (.fallbackData 9 .closed [10, 20])] (by decide) ?_).mpr
    (by decide) _ _ (.cons rfl (.cons rfl .nil)) (by decide)
  intro frame member
  rcases List.mem_pair.mp member with rfl | rfl
  · exact (by decide : 7 < 2 ^ 32)
  · exact ⟨by decide, by decide⟩

/-- Sixteen bytes where a header should have been encoded, and the payload `[8]`. -/
def rawFrame : List UInt8 := [0, 0, 0, 0, 0, 0, 0, 0, 17, 0, 0, 0, 0, 0, 0, 0, 8]

/-- The payload `[8]` on stream 2 may go out like this.  The peer then fails and hands
on nothing. -/
theorem write_fallback_is_not_read :
    CrateFrame.MayWrite 3 (.writeFallback 2 .opened [8]) rawFrame /\
    ReadsTo 4096 false [rawFrame] ([], .failed .invalidVersion) /\
    ¬ ReadsTo 4096 false [rawFrame]
      ([(CrateFrame.writeFallback 2 .opened [8]).event], .waiting) := by
  have refused : parse false rawFrame = ([], .failed .invalidVersion) := parse_fail (by decide)
  have reads := readsTo_parse (show 16 <= 4096 by decide) false [rawFrame]
  rw [List.flatten_singleton, refused] at reads
  refine ⟨⟨rawFrame.take 16, rfl, rfl⟩, reads, fun wrong => ?_⟩
  cases reads.unique wrong

end Session
end Shmipc
