import Shmipc.Buffer.V5RoundTrip

namespace Shmipc
namespace BufV5

open ByteMemory Tiling V5 Transition

/-!
# A message that leaves the segment

A message goes to the heap when the segment refuses a block, when the stream has
fallen back, or when it outgrows what one transfer carries.  It may have started
in shared blocks by then: they stay where they are, and the rest of the message
is collected in vectors behind them.  The blocks and the vectors together hold
the bytes written, in order, and are taken out together for the unix socket.
-/

/-- A piece of an outgoing message on the fallback path. -/
inductive OutChunk
  | shm (block : ShmBlock)
  | heap (chunk : List UInt8)
  deriving DecidableEq

def OutChunk.bytes (mem : Memory) : OutChunk -> List UInt8
  | .shm block => DynShmBufferHeader.data mem block.hdr
  | .heap chunk => chunk

/-- Take everything as chunks to write to the unix socket. -/
def V5WriteBuffer.takeFallback (w : V5WriteBuffer) : List OutChunk × V5WriteBuffer :=
  (w.pending.map .shm ++ w.fallback.map (fun chunk => .heap chunk.bytes),
    { w with pending := [], fallback := [], len := 0 })

/-- A stream reserves room and leaves `data` in it, or writes `data`, or anybody
else uses the segment.  A reservation that the stream fills in part is one whose
other bytes it leaves as they are. -/
inductive WriteCall
  | reserve (shared : StreamShared) (now : Int) (data : List UInt8)
  | writeBytes (shared : StreamShared) (now : Int) (data : List UInt8)
  | other (action : SegmentAction)

namespace MessageState

def callStep (s : MessageState) : WriteCall -> Option MessageState
  | .reserve shared now data =>
    if 0 < now then
      match s.writer.reserve shared s.segment now data.length with
      | (.error _, writer, segment) => some ⟨segment, writer, s.written⟩
      | (.ok room, writer, segment) =>
        (writer.fill segment data room).map fun (writer, segment) =>
          ⟨segment, writer, s.written ++ data⟩
    else none
  | .writeBytes shared now data =>
    if 0 < now then
      match s.writer.writeBytes shared s.segment now data with
      | none => none
      | some (.error _, writer, segment) => some ⟨segment, writer, s.written⟩
      | some (.ok _, writer, segment) => some ⟨segment, writer, s.written ++ data⟩
    else none
  | .other action => s.step (.other action)

end MessageState

/-- One message over the default segment, by the calls that write it. -/
def writeCallSystem (kind : AllocatorKind) (pinned : Option Nat) :
    System MessageState WriteCall where
  init := (messageSystem kind pinned).init
  step := MessageState.callStep

namespace MessageState

/-- The message is in the blocks and vectors of its write buffer, and one that is
on the heap has bytes. -/
structure Collected (s : MessageState) : Prop where
  inv : s.Inv
  message : Exists fun blocks => Collects s.segment s.writer s.written blocks
  nonempty : s.writer.fallback ≠ [] -> s.written ≠ []

theorem callStep_writeBytes (s : MessageState) (shared : StreamShared) (now : Int)
    (data : List UInt8) :
    s.callStep (.writeBytes shared now data) = s.callStep (.reserve shared now data) := by
  unfold callStep
  dsimp only
  by_cases empty : data = []
  · subst empty
    rfl
  · rw [V5WriteBuffer.writeBytes, if_neg empty]
    congr 1
    rcases s.writer.reserve shared s.segment now data.length with ⟨answer, writer, segment⟩
    cases answer with
    | error err => rfl
    | ok room =>
      dsimp only
      cases writer.fill segment data room <;> rfl

namespace Collected

variable {s t : MessageState} {now : Int} {data : List UInt8}

theorem reserve (collected : Collected s) (shared : StreamShared) (positive : 0 < now) :
    Exists fun t => s.callStep (.reserve shared now data) = some t /\ Collected t := by
  unfold callStep
  dsimp only
  rw [if_pos positive]
  by_cases empty : data = []
  · subst empty
    refine ⟨⟨s.segment, s.writer, s.written ++ []⟩, rfl, ?_⟩
    rw [List.append_nil]
    exact collected
  · rcases collected.inv.reserve shared positive empty with
      ⟨room, reserved, t, result, w, u, filled, inv, message⟩ | ⟨err, refused⟩
    · rw [result]
      dsimp only
      rw [filled]
      refine ⟨_, rfl, inv, message collected.message, fun _ => ?_⟩
      exact List.append_ne_nil_of_right_ne_nil _ empty
    · rw [refused]
      exact ⟨_, rfl, collected⟩

theorem other {action : SegmentAction} (collected : Collected s)
    (moved : s.callStep (.other action) = some t) : Collected t := by
  have inv := collected.inv.step (show s.step (.other action) = some t from moved)
  simp only [callStep, MessageState.step, Option.ite_none_right_eq_some,
    Option.map_eq_some_iff] at moved
  rcases moved with ⟨foreign, segment, moved, rfl⟩
  rcases collected.message with ⟨blocks, collects⟩
  have elsewhere : ∀ b ∈ blocks, action.target ≠ some b.offset := by
    intro b member
    refine foreign ⟨b.offset, b.offset⟩ ?_
    rw [collects.pending]
    exact List.mem_map.mpr ⟨b, member, rfl⟩
  rcases collects.chain.undisturbed collected.inv.segment moved elsewhere with ⟨chain, same⟩
  refine ⟨inv, ⟨blocks, chain, collects.pending, ?_⟩, collected.nonempty⟩
  rw [same]
  exact collects.bytes

theorem step {call : WriteCall} (collected : Collected s) (moved : s.callStep call = some t) :
    Collected t := by
  cases call with
  | reserve shared now data =>
    have positive : 0 < now := by
      by_contra early
      rw [callStep, if_neg early] at moved
      cases moved
    rcases collected.reserve shared positive with ⟨u, result, after⟩
    rw [result] at moved
    cases moved
    exact after
  | writeBytes shared now data =>
    have positive : 0 < now := by
      by_contra early
      rw [callStep, if_neg early] at moved
      cases moved
    rcases collected.reserve shared positive with ⟨u, result, after⟩
    rw [callStep_writeBytes, result] at moved
    cases moved
    exact after
  | other action => exact collected.other moved

theorem takeFallback (collected : Collected s) :
    (s.writer.takeFallback.1.map (OutChunk.bytes s.segment.manager.mem)).flatten = s.written := by
  rcases collected.message with ⟨blocks, collects⟩
  rw [V5WriteBuffer.takeFallback, List.map_append, List.flatten_append, List.map_map,
    List.map_map, <- List.flatMap_def, <- List.flatMap_def, collects.pending, List.flatMap_map]
  exact collects.bytes

end Collected

theorem collected_of_reachable {kind : AllocatorKind} {pinned : Option Nat} {s : MessageState}
    (reachable : (writeCallSystem kind pinned).Reachable s) : s.Collected := by
  refine reachable.invariant ?_ fun _ _ _ _ _ moved collected => collected.step moved
  intro s start
  refine ⟨inv_of_reachable (.start start), ⟨[], ?_⟩, ?_⟩
  · rw [start.2.2.1, start.2.2.2]
    exact ⟨Chain.nil s.segment, rfl, rfl⟩
  · intro onHeap
    rw [start.2.2.1] at onHeap
    exact absurd rfl onHeap

end MessageState

end BufV5
end Shmipc
