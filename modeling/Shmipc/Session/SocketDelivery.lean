import Shmipc.Session.ReadLoop
import Shmipc.Session.WriterFrames

namespace Shmipc
namespace Session

open Transition

/-!
# From the tasks of one process to the event loop of the other

The writers of one process and the read loop of the other meet in the bytes on the
socket.  What goes into the channel is a frame of the encoders, or nothing, so the
bytes on the socket are a beginning of encoded frames, in the order in which they
were begun.  The read loop makes the same of a beginning as of the whole, up to
where it ends.
-/

/-- The callers of `wait_for_send` pass it a frame that the encoders made. -/
def WriterAction.SendsFrame (version : Nat) : WriterAction -> Prop
  | .waitForSend _ hdr body => Exists fun frame : WireFrame =>
    frame.Sendable /\ hdr.getD [] ++ body = frame.encode version
  | _ => True

/-- These frames were begun on the socket, one after the other.  The write loop also
takes an empty frame, to get the rest of a wakeup out. -/
inductive Spells (version : Nat) : List Frame -> List WireFrame -> Prop
  | nil : Spells version [] []
  | empty {frame : Frame} {begun : List Frame} {frames : List WireFrame}
      (nothing : frame.bytes (WireFrame.polling.encode version) = [])
      (rest : Spells version begun frames) : Spells version (frame :: begun) frames
  | frame {frame : Frame} {begun : List Frame} {wire : WireFrame} {frames : List WireFrame}
      (sendable : wire.Sendable)
      (bytes : frame.bytes (WireFrame.polling.encode version) = wire.encode version)
      (rest : Spells version begun frames) : Spells version (frame :: begun) (wire :: frames)

/-- What the write loop writes for it is a frame of the encoders, or nothing. -/
def SendReady.Framed (version : Nat) (ready : SendReady) : Prop :=
  ready.hdr.getD [] ++ ready.body = [] \/ Exists fun frame : WireFrame =>
    frame.Sendable /\ ready.hdr.getD [] ++ ready.body = frame.encode version

/-- All that is on its way into the channel, or was there, is a frame or nothing. -/
structure Writers.Framed (version : Nat) (s : Writers) : Prop where
  sending : forall i ready call, s.task i = .sending ready call -> ready.Framed version
  entered : ∀ ready ∈ s.entered, ready.Framed version

namespace Writers.Framed

variable {mode : WakeupMode} {version capacity : Nat} {s t : Writers}

theorem setTask {i : Nat} {p : TaskPoint} (inv : s.Framed version)
    (point : forall ready call, p = .sending ready call -> ready.Framed version) :
    (s.setTask i p).Framed version := by
  refine ⟨fun j ready call sending => ?_, inv.entered⟩
  have updated : Function.update s.task i p j = .sending ready call := sending
  by_cases same : j = i
  · rw [same, Function.update_self] at updated
    exact point ready call updated
  · rw [Function.update_of_ne same] at updated
    exact inv.sending j ready call updated

theorem step {a : WriterAction} (inv : s.Framed version) (sends : a.SendsFrame version)
    (moved : Moves mode (WireFrame.polling.encode version) capacity s a t) :
    t.Framed version := by
  cases moved with
  | awake i _ _ => exact inv
  | keeps i claim busy poll _ _ =>
    apply inv.setTask
    rintro ready call ⟨⟩
    exact .inr ⟨.polling, trivial, rfl⟩
  | wakesInPart i claim busy written _ _ _ _ _ =>
    refine setTask ⟨inv.sending, inv.entered⟩ ?_
    rintro ready call ⟨⟩
    exact .inl rfl
  | begins i hdr body _ =>
    apply inv.setTask
    rintro ready call ⟨⟩
    exact .inr sends
  | sends i ready call sending _ =>
    refine setTask ⟨inv.sending, fun other member => ?_⟩ (by cases call <;> simp)
    rcases List.mem_append.mp member with before | last
    · exact inv.entered other before
    · rw [List.mem_singleton.mp last]
      exact inv.sending i ready call sending
  | wins | signals | wakes => exact setTask ⟨inv.sending, inv.entered⟩ (by simp)
  | timesOut | returns | drops => exact inv.setTask (by simp)
  | receives | locks | writes | finishes | stores => exact ⟨inv.sending, inv.entered⟩

theorem reachable {working : Bool}
    (reached : (writerSystem mode (WireFrame.polling.encode version) capacity
      working).ReachableUnder (fun _ a => a.SendsFrame version) s) : s.Framed version := by
  refine reached.invariant (P := Writers.Framed version) ?_ ?_
  · rintro s rfl
    exact ⟨by simp [new], by simp [new]⟩
  · exact fun s a t _ sends moved inv => inv.step sends (moves_of_step moved)

end Writers.Framed

namespace Spells

variable {version : Nat} {begun : List Frame} {frames : List WireFrame}

theorem exists_of_framed (framed : ∀ ready ∈ begun.filterMap Frame.ready, ready.Framed version) :
    Exists fun frames => Spells version begun frames := by
  induction begun with
  | nil => exact ⟨[], .nil⟩
  | cons frame begun ih =>
    cases frame with
    | wakeup claim =>
      rcases ih framed with ⟨frames, rest⟩
      exact ⟨.polling :: frames, .frame trivial rfl rest⟩
    | queued ready =>
      rw [show Frame.queued ready :: begun = [.queued ready] ++ begun from rfl,
        List.filterMap_append] at framed
      rcases ih fun other member => framed other (List.mem_append_right _ member) with
        ⟨frames, rest⟩
      rcases framed ready (List.mem_append_left _ List.mem_cons_self) with
        nothing | ⟨wire, sendable, bytes⟩
      · exact ⟨frames, .empty nothing rest⟩
      · exact ⟨wire :: frames, .frame sendable bytes rest⟩

theorem bytes (spelled : Spells version begun frames) :
    begun.flatMap (Frame.bytes (WireFrame.polling.encode version)) =
      (frames.map (·.encode version)).flatten := by
  induction spelled with
  | nil => rfl
  | empty nothing _ ih => rw [List.flatMap_cons, nothing, List.nil_append, ih]
  | frame _ bytes _ ih => rw [List.flatMap_cons, bytes, ih, List.map_cons, List.flatten_cons]

theorem sendable (spelled : Spells version begun frames) : ∀ frame ∈ frames, frame.Sendable := by
  induction spelled with
  | nil => simp
  | empty _ _ ih => exact ih
  | frame sendable _ _ ih => exact List.forall_mem_cons.mpr ⟨sendable, ih⟩

end Spells

/-- The read loop hands on the events of these frames up to where the pieces end: all of
those that are there as a whole, and it does not fail. -/
def ReadsFrames (cap version : Nat) (frames : List WireFrame) (ended : Bool)
    (pieces : List (List UInt8)) : Prop :=
  Exists fun events => Exists fun err => ReadsTo cap ended pieces (events, .atEnd ended err) /\
    events <+: frames.map (·.event) /\
    forall count, ((frames.take count).map (·.encode version)).flatten <+: pieces.flatten ->
      (frames.take count).map (·.event) <+: events

theorem readsFrames_of_arrived {cap version : Nat} {frames : List WireFrame} (room : 16 <= cap)
    (supported : version <= maxSupportProtoVersion) (sendable : ∀ frame ∈ frames, frame.Sendable)
    (ended : Bool) {pieces : List (List UInt8)}
    (arrived : pieces.flatten <+: (frames.map (·.encode version)).flatten) :
    ReadsFrames cap version frames ended pieces := by
  rcases arrived with ⟨rest, whole⟩
  have before := parse_append ended false pieces.flatten rest
  rw [whole, parse_frames supported sendable] at before
  rcases before with ⟨events, stop⟩
  have stop : Exists fun err => (parse ended pieces.flatten).2 = .atEnd ended err := by
    rcases stop with stop | ⟨err, failed⟩
    · exact stop
    · cases failed
  rcases stop with ⟨err, stop⟩
  refine ⟨(parse ended pieces.flatten).1, err, ?_, events, fun count there => ?_⟩
  · rw [<- stop]
    exact readsTo_parse room ended pieces
  · -- the frames that are there as a whole are a beginning of what has arrived
    rcases there with ⟨more, there⟩
    have first := (parse_append false ended ((frames.take count).map (·.encode version)).flatten
      more).1
    rw [there, parse_frames supported fun frame member =>
      sendable frame (List.mem_of_mem_take member)] at first
    exact first

open Writers

/-- However many tasks send and wake, whatever the socket takes at a time and in
whatever pieces the bytes arrive, the read loop of the peer hands on the events of the
frames that were begun, in their order and once each. -/
theorem peer_reads_what_was_begun (mode : WakeupMode) (capacity : Nat) (working : Bool)
    {version cap : Nat} {s : Writers} (supported : version <= maxSupportProtoVersion)
    (room : 16 <= cap)
    (reached : (writerSystem mode (WireFrame.polling.encode version) capacity
      working).ReachableUnder (fun _ a => a.SendsFrame version) s) :
    Exists fun frames => Spells version s.begun frames /\
      s.socket ++ s.unwritten = (frames.map (·.encode version)).flatten /\
      forall (ended : Bool) (pieces : List (List UInt8)), pieces.flatten <+: s.socket ->
        ReadsFrames cap version frames ended pieces := by
  have inv := WireInv.reachable reached
  have framed := Framed.reachable reached
  have entered : ∀ ready ∈ s.begun.filterMap Frame.ready, ready.Framed version := by
    intro ready member
    apply framed.entered
    rw [<- inv.order]
    exact List.mem_append_left _ (List.mem_append_left _ member)
  rcases Spells.exists_of_framed entered with ⟨frames, spelled⟩
  have written := inv.bytes.trans spelled.bytes
  refine ⟨frames, spelled, written, fun ended pieces arrived => ?_⟩
  apply readsFrames_of_arrived room supported spelled.sendable
  rw [<- written]
  exact arrived.trans (List.prefix_append _ _)

/-- The close of stream 7 is on the socket but for its last two bytes, and what is there
arrives in two pieces. -/
theorem peer_reads_what_was_begun_in_pieces :
    Exists fun s : Writers => s.unwritten = [0, 7] /\
      Exists fun frames => Spells 3 s.begun frames /\
        ReadsFrames 16 3 frames false [[0, 0, 0, 12, 0x77], [0x58, 3, 2, 0, 0]] := by
  have sends : (WriterAction.waitForSend 0 none
      [0, 0, 0, 12, 0x77, 0x58, 3, 2, 0, 0, 0, 7]).SendsFrame 3 :=
    ⟨.streamClose 7, (by decide : 7 < 2 ^ 32), by decide⟩
  have reached : (writerSystem .queuePolling (WireFrame.polling.encode 3) 1 true).ReachableUnder
      (fun _ a => a.SendsFrame 3) _ :=
    .next (a := .poll 10) (.next (a := .lock) (.next (a := .receive) (.next (a := .send 0)
      (.next (.start rfl) sends rfl) trivial rfl) trivial rfl) trivial rfl) trivial rfl
  rcases peer_reads_what_was_begun _ _ _ (by decide) (Nat.le_refl 16) reached with
    ⟨frames, spelled, _, reads⟩
  exact ⟨_, rfl, frames, spelled, reads false _ ⟨[], rfl⟩⟩

end Session
end Shmipc
