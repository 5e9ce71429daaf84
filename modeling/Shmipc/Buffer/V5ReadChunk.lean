import Shmipc.Buffer.V5FlatQueue

namespace Shmipc
namespace BufV5

open ByteMemory Transition V5

/-!
# Reading a chunk

`read_chunk` takes what is left of the chunk at the front.  A spent chunk leaves the queue
when its last byte is consumed; a chunk that never had a byte stays until the front moves
over it, and until then there is nothing to take.
-/

namespace ReadSide

def readChunk (s : ReadSide) (mem : Memory) : Option (Except Error Buf × ReadSide) :=
  let size := (s.buf.ready.head?.map ReadChunk.remaining).getD 0
  if size = 0 then some (.error .notEnoughData, s) else s.readExactBytes mem size

/-- The call hands out all that is unread of the first chunk with data and consumes just
that. -/
def TakesFirst (s : ReadSide) (mem : Memory) : Prop :=
  Exists fun chunk => Exists fun buf => Exists fun t =>
    s.buf.ready.find? (fun chunk => chunk.remaining != 0) = some chunk /\
    s.readChunk mem = some (.ok buf, t) /\
    buf.bytes mem = chunk.unread mem /\ buf.bytes mem ≠ [] /\
    t.buf.readable mem = (s.buf.readable mem).drop chunk.remaining

/-- There is a chunk at the front, and it has a byte that is unread. -/
def FrontHolds (s : ReadSide) : Prop :=
  ∃ front ∈ s.buf.ready.head?, front.remaining ≠ 0

/-- No chunk is empty. -/
def Full (s : ReadSide) : Prop := ∀ chunk ∈ s.buf.ready, chunk.remaining ≠ 0

variable {s : ReadSide} {mem : Memory}

theorem takesFirst_iff (counted : s.Counted mem) : s.TakesFirst mem <-> s.FrontHolds := by
  unfold TakesFirst readChunk FrontHolds
  cases ready : s.buf.ready with
  | nil =>
    constructor
    · rintro ⟨chunk, buf, t, found, _⟩
      cases found
    · rintro ⟨front, there, _⟩
      cases there
  | cons front rest =>
    rw [List.head?_cons, Option.map_some, Option.getD_some]
    dsimp only
    constructor
    · rintro ⟨chunk, buf, t, _, taken, _⟩
      refine ⟨front, rfl, fun empty => ?_⟩
      rw [if_pos empty] at taken
      cases taken
    · rintro ⟨_, ⟨⟩, holds⟩
      rw [if_neg holds]
      have first := front.length_unread mem
      have whole : (s.buf.readable mem).take front.remaining = front.unread mem := by
        rw [readable_cons ready]
        exact List.take_left' first
      have enough : front.remaining <= (s.buf.readable mem).length := by
        rw [<- first, <- whole]
        exact List.length_take_le' ..
      rcases s.readExactBytes_spec counted front.remaining with ⟨result, t, read, answers⟩
      rw [Fifo.readExact_of_le enough] at answers
      cases result with
      | error err => cases answers.reply_eq
      | ok buf =>
        have bytes : buf.bytes mem = front.unread mem :=
          (Except.ok.inj answers.reply_eq).trans whole
        refine ⟨front, buf, t, ?_, read, bytes, ?_, answers.readable⟩
        · exact List.find?_cons_of_pos (bne_iff_ne.mpr holds)
        · rw [bytes]
          exact List.ne_nil_of_length_pos (first ▸ Nat.pos_of_ne_zero holds)

theorem frontHolds_of_full (full : s.Full) (counted : s.Counted mem) (some : 0 < s.buf.len) :
    s.FrontHolds := by
  cases ready : s.buf.ready with
  | nil =>
    rw [counted.len, V5ReadBuffer.readable, ready] at some
    cases some
  | cons front rest =>
    refine ⟨front, by rw [ready]; rfl, full front ?_⟩
    rw [ready]
    exact List.mem_cons_self

/-! ## Queues without empty chunks -/

theorem popIfSpent_full (tail : ∀ chunk ∈ s.buf.ready.tail, chunk.remaining ≠ 0) :
    (s.popIfSpent mem).Full := by
  unfold popIfSpent Full
  cases ready : s.buf.ready with
  | nil =>
    rw [ready]
    exact nofun
  | cons front rest =>
    rw [ready] at tail
    dsimp only
    split
    · exact tail
    · next unspent =>
      rw [ready]
      exact List.forall_mem_cons.mpr ⟨unspent, tail⟩

theorem advance_full {front front' : ReadChunk} {rest : List ReadChunk} (full : s.Full)
    (ready : s.buf.ready = front :: rest) (take : Nat) : (s.advance mem front' rest take).Full := by
  apply popIfSpent_full
  intro chunk later
  exact full chunk (by rw [ready]; exact List.mem_cons_of_mem _ later)

theorem takeLoop_full {size passes : Nat} {out out' : List UInt8} {t : ReadSide} (full : s.Full)
    (taken : takeLoop mem size passes out s = some (out', t)) : t.Full := by
  induction passes generalizing out s with
  | zero => cases taken
  | succ passes ih =>
    rw [takeLoop] at taken
    split at taken
    · split at taken
      · cases taken
        exact full
      · next front rest ready => exact ih (advance_full full ready _) taken
    · cases taken
      exact full

theorem readExactBytes_full {size : Nat} {result : Except Error Buf} {t : ReadSide}
    (full : s.Full) (read : s.readExactBytes mem size = some (result, t)) : t.Full := by
  have copied : (takeLoop mem size s.passes [] s).map
      (fun p => (Except.ok (Buf.exm p.1), p.2)) = some (result, t) -> t.Full := by
    intro looped
    rcases Option.map_eq_some_iff.mp looped with ⟨⟨out, side⟩, taken, same⟩
    cases same
    exact takeLoop_full full taken
  unfold readExactBytes at read
  dsimp only at read
  split at read
  · cases read
    exact full
  · split at read
    · cases read
      exact full
    · split at read
      · exact copied read
      · next front rest ready =>
        split at read
        · cases read
          exact advance_full full ready _
        · exact copied read

theorem peek_full (full : s.Full) (size : Nat) : (s.peek mem size).2.Full := by
  unfold peek
  dsimp only
  split
  · exact full
  · split
    · exact full
    · split
      · exact full
      · next front rest ready =>
        split
        · have same : (front.shmLease size).2.remaining = front.remaining := by
            rcases front with ⟨_ | _, _⟩ <;> rfl
          intro chunk there
          rcases List.mem_cons.mp there with rfl | later
          · rw [same]
            exact full front (by rw [ready]; exact List.mem_cons_self)
          · exact full chunk (by rw [ready]; exact List.mem_cons_of_mem _ later)
        · exact full

end ReadSide

/-- A delivery without an empty piece: payload of the socket with a byte in it, or a chain
whose blocks all have one. -/
def PendingInput.HasNoGap (mgr : RemoteManager) (mem : Memory) : PendingInput -> Prop
  | .heap bytes => bytes ≠ []
  | .shm root => ∀ blocks ∈ blocksFrom mgr mem maxChainNodes root,
      ∀ block ∈ blocks, block.2.len ≠ 0

theorem drainInputs_full {mgr : RemoteManager} {mem : Memory} {inputs : List PendingInput}
    {coming : List (List UInt8)} (accepted : inputs.map (·.bytes mgr mem) = coming.map some)
    (solid : ∀ input ∈ inputs, input.HasNoGap mgr mem) {total : Nat} {b : V5ReadBuffer}
    {rq : List Int} (full : ∀ chunk ∈ b.ready, chunk.remaining ≠ 0) :
    ∀ chunk ∈ (V5ReadBuffer.drainInputs mem inputs total b mgr rq).2.1.ready,
      chunk.remaining ≠ 0 := by
  induction inputs generalizing coming total b with
  | nil => exact full
  | cons input inputs ih =>
    cases coming with
    | nil => cases accepted
    | cons bytes coming =>
      rcases List.cons.inj accepted with ⟨first, later⟩
      rcases List.forall_mem_cons.mp solid with ⟨here, there⟩
      cases input with
      | heap payload =>
        apply ih later there
        refine List.forall_mem_append.mpr ⟨full, List.forall_mem_singleton.mpr ?_⟩
        exact fun none => here (List.eq_nil_of_length_eq_zero none)
      | shm root =>
        have valid : chainBytes mgr mem root = some bytes := first
        unfold chainBytes at valid
        split at valid
        · cases valid
        · next blocks followed =>
          rw [Option.ite_none_right_eq_some] at valid
          rw [V5ReadBuffer.drainInputs, b.walkChain_blocks followed valid.1.1 valid.1.2]
          apply ih later there
          refine List.forall_mem_append.mpr ⟨full, fun chunk added => ?_⟩
          rcases List.mem_map.mp added with ⟨block, listed, rfl⟩
          exact here blocks followed block listed

namespace QueueState

/-- A drain takes up no delivery with an empty piece. -/
def NoGaps (s : QueueState) : QueueAction -> Prop
  | .drainPending => ∀ input ∈ s.side.buf.inbox, input.HasNoGap s.side.mgr s.mem
  | _ => True

theorem full_step {s t : QueueState} {action : QueueAction} (queued : s.Queued)
    (full : s.side.Full) (solid : s.NoGaps action) (moved : s.step action = some t) :
    t.side.Full := by
  cases action with
  | deliver input =>
    rcases Option.map_eq_some_iff.mp moved with ⟨bytes, _, rfl⟩
    exact full
  | drainPending =>
    cases moved
    exact drainInputs_full queued.coming solid full
  | readExactBytes size =>
    rcases Option.map_eq_some_iff.mp moved with ⟨⟨result, side⟩, read, rfl⟩
    exact ReadSide.readExactBytes_full full read
  | peek size =>
    cases moved
    exact ReadSide.peek_full full size
  | discard size =>
    rcases Option.map_eq_some_iff.mp moved with ⟨⟨result, side⟩, dropped, rfl⟩
    unfold ReadSide.discard at dropped
    split at dropped
    · cases dropped
      exact full
    · rcases Option.map_eq_some_iff.mp dropped with ⟨⟨out, side⟩, taken, same⟩
      cases same
      exact ReadSide.takeLoop_full full taken
  | read size =>
    rcases Option.map_eq_some_iff.mp moved with ⟨⟨out, side⟩, taken, rfl⟩
    exact ReadSide.takeLoop_full full taken
  | dropPin offset | retryPendingReleases | pop =>
    cases moved
    exact full
  | store address value =>
    rw [step, Option.ite_none_right_eq_some] at moved
    cases moved.2
    exact full

end QueueState

/-- In every state of a reader: with bytes to read, `read_chunk` takes the first chunk that
holds any exactly if that chunk is at the front.  That is always so if no delivery with an
empty piece was taken up. -/
theorem read_chunk_takes_first_iff {size : Nat} :
    (forall s, (queueSystem size).Reachable s -> 0 < s.side.buf.len ->
      (s.side.TakesFirst s.mem <-> s.side.FrontHolds)) /\
    forall s, (queueSystem size).ReachableUnder QueueState.NoGaps s -> 0 < s.side.buf.len ->
      s.side.FrontHolds := by
  constructor
  · intro s reachable _
    exact ReadSide.takesFirst_iff (QueueState.queued_of_reachable reachable).counted
  · intro s reachable some
    have kept : s.Queued /\ s.side.Full := by
      refine reachable.invariant (P := fun s => s.Queued /\ s.side.Full) ?_ ?_
      · rintro ⟨⟨buf, mgr, rq⟩, mem, coming, queue⟩ ⟨rfl, rfl, rfl, rfl, rfl⟩
        exact ⟨QueueState.queued_of_reachable (.start ⟨rfl, rfl, rfl, rfl, rfl⟩), nofun⟩
      · rintro s a t _ solid moved ⟨queued, full⟩
        exact ⟨queued.step moved, QueueState.full_step queued full solid moved⟩
    exact ReadSide.frontHolds_of_full kept.2 kept.1.counted some

/-- A byte of the socket is drained and taken as a chunk. -/
theorem read_chunk_takes_first_iff_byte :
    Exists fun s => (queueSystem 64).Reachable s /\ s.side.TakesFirst s.mem := by
  have found : Exists fun s => (queueSystem 64).Reachable s /\
      (0 < s.side.buf.len /\ s.side.buf.ready = [⟨.heap [7], 0⟩]) :=
    System.exists_reachable_of_run ⟨⟨⟨[], [], 0⟩, ⟨64, [], false⟩, []⟩, fun _ => 0, [], []⟩
      [.deliver (.heap [7]), .drainPending] ⟨rfl, rfl, rfl, rfl, rfl⟩ (by decide +kernel)
  rcases found with ⟨s, reachable, some, ready⟩
  refine ⟨s, reachable, (read_chunk_takes_first_iff.1 s reachable some).mpr ?_⟩
  exact ⟨_, by rw [ready]; rfl, by decide⟩

/-- Behind a block without a byte there are three, and `read_chunk` reports that there are
not enough. -/
theorem read_chunk_stops_at_empty_block :
    Exists fun s => (queueSystem (rqSize + 51)).Reachable s /\
      (s.side.buf.len = 3 /\
        (s.side.readChunk s.mem).map Prod.fst = some (.error .notEnoughData)) :=
  System.exists_reachable_of_run
    ⟨⟨⟨[], [], 0⟩, ⟨rqSize + 51, [], false⟩, []⟩, emptyThenThree, [], []⟩
    [.deliver (.shm rqSize), .drainPending] ⟨rfl, rfl, rfl, rfl, rfl⟩ (by decide +kernel)

end BufV5
end Shmipc
