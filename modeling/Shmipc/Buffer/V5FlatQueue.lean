import Shmipc.Buffer.V5Reads

namespace Shmipc
namespace BufV5

open ByteMemory Transition V5

/-!
# The V5 read buffer is a flat queue

Deliveries of the socket and of the segment are put into the inbox, drained and
read in any order of calls.  Meanwhile the peer uses its segment: it may write
any byte that is not part of something delivered and unread, and it takes
released blocks back.  Besides the buffer the state carries the flat queue of the
bytes that were drained and not consumed, and the bytes of what is still in the
inbox.  The theorem is that the buffer never tells the two apart.
-/

/-- The bytes of a delivery, if it is one that a reader accepts. -/
def PendingInput.bytes (mgr : RemoteManager) (mem : Memory) : PendingInput -> Option (List UInt8)
  | .heap bytes => some bytes
  | .shm root => chainBytes mgr mem root

structure QueueState where
  side : ReadSide
  mem : Memory
  coming : List (List UInt8)
  queue : List UInt8

inductive QueueAction
  | deliver (input : PendingInput)
  | drainPending
  | readExactBytes (size : Nat)
  | peek (size : Nat)
  | discard (size : Nat)
  | read (size : Nat)
  /-- The last lease of a block is dropped. -/
  | dropPin (offset : Int)
  | retryPendingReleases
  /-- The peer takes an offset off the release queue. -/
  | pop
  /-- The peer, or another user of the segment, writes a byte. -/
  | store (address : Nat) (value : UInt8)
  deriving DecidableEq

namespace QueueState

/-- The memory holds what was delivered and not consumed. -/
def Intact (s : QueueState) (mem : Memory) : Prop :=
  (∀ input ∈ s.side.buf.inbox, input.bytes s.side.mgr mem = input.bytes s.side.mgr s.mem) /\
    ∀ chunk ∈ s.side.buf.ready, chunk.bytes mem = chunk.bytes s.mem

instance (s : QueueState) (mem : Memory) : Decidable (s.Intact mem) :=
  inferInstanceAs (Decidable (_ /\ _))

def step (s : QueueState) : QueueAction -> Option QueueState
  | .deliver input =>
    (input.bytes s.side.mgr s.mem).map fun bytes =>
      { s with
        side := { s.side with buf := { s.side.buf with inbox := s.side.buf.inbox ++ [input] } }
        coming := s.coming ++ [bytes] }
  | .drainPending =>
    some { s with
      side := (s.side.drainPending s.mem).2
      coming := []
      queue := s.queue ++ s.coming.flatten }
  | .readExactBytes size =>
    (s.side.readExactBytes s.mem size).map fun (_, side) =>
      { s with side := side, queue := (Fifo.readExact Error.notEnoughData size s.queue).2 }
  | .peek size => some { s with side := (s.side.peek s.mem size).2 }
  | .discard size =>
    (s.side.discard s.mem size).map fun (_, side) =>
      { s with side := side, queue := (Fifo.discard Error.notEnoughData size s.queue).2 }
  | .read size =>
    (s.side.read s.mem size).map fun (_, side) =>
      { s with side := side, queue := (Fifo.read size s.queue).2 }
  | .dropPin offset =>
    let (_, mgr, rq) := s.side.mgr.free s.mem s.side.rq offset
    some { s with side := { s.side with mgr := mgr, rq := rq } }
  | .retryPendingReleases =>
    let (_, mgr, rq) := s.side.mgr.retryPendingReleases s.side.rq
    some { s with side := { s.side with mgr := mgr, rq := rq } }
  | .pop => some { s with side := { s.side with rq := s.side.rq.drop 1 } }
  | .store address value =>
    if s.Intact (Function.update s.mem address value) then
      some { s with mem := Function.update s.mem address value }
    else none

end QueueState

/-- A new read buffer over a mapping of `size` bytes, with any bytes in it. -/
def queueSystem (size : Nat) : System QueueState QueueAction where
  init s := s.side.buf = ⟨[], [], 0⟩ /\ s.side.mgr = ⟨size, [], false⟩ /\ s.side.rq = [] /\
    s.coming = [] /\ s.queue = []
  step := QueueState.step

/-! ## Draining -/

section Drain

variable {mgr mgr' : RemoteManager} {mem : Memory}

theorem blocksFrom_congr (size : mgr'.size = mgr.size) (closed : mgr'.closed = mgr.closed)
    (mem : Memory) (nodes : Nat) (offset : Int) :
    blocksFrom mgr' mem nodes offset = blocksFrom mgr mem nodes offset := by
  induction nodes generalizing offset with
  | zero => rfl
  | succ nodes ih =>
    have read : mgr'.read mem offset = mgr.read mem offset := by
      simp only [RemoteManager.read, RemoteManager.readInner, size, closed]
    simp only [blocksFrom, read, ih]

/-- What a delivery holds depends on the mapping and not on pending releases. -/
theorem PendingInput.bytes_congr (size : mgr'.size = mgr.size) (closed : mgr'.closed = mgr.closed)
    (mem : Memory) (input : PendingInput) : input.bytes mgr' mem = input.bytes mgr mem := by
  cases input with
  | heap bytes => rfl
  | shm root => rw [bytes, bytes, chainBytes, chainBytes, blocksFrom_congr size closed]

/-- Accepted deliveries are drained in order, and all of their bytes become
readable. -/
theorem drainInputs_spec {inputs : List PendingInput} {coming : List (List UInt8)}
    (accepted : inputs.map (·.bytes mgr mem) = coming.map some) (total : Nat) (b : V5ReadBuffer)
    (rq : List Int) :
    Exists fun b' =>
      V5ReadBuffer.drainInputs mem inputs total b mgr rq =
        (.ok (total + coming.flatten.length), b', mgr, rq) /\
      b'.inbox = b.inbox /\ b'.len = b.len + coming.flatten.length /\
      b'.readable mem = b.readable mem ++ coming.flatten /\
      ∀ chunk ∈ b'.ready, chunk ∈ b.ready \/ chunk.pos = 0 := by
  induction inputs generalizing coming total b with
  | nil =>
    cases coming with
    | nil => exact ⟨b, rfl, rfl, rfl, (List.append_nil _).symm, fun chunk there => .inl there⟩
    | cons bytes coming => cases accepted
  | cons input inputs ih =>
    cases coming with
    | nil => cases accepted
    | cons bytes coming =>
      rcases List.cons.inj accepted with ⟨first, later⟩
      rw [List.flatten_cons, List.length_append, <- Nat.add_assoc, <- Nat.add_assoc,
        <- List.append_assoc]
      cases input with
      | heap payload =>
        cases first
        rcases ih later (total + bytes.length) (b.pushBack (.heap bytes) bytes.length) with
          ⟨b', drained, inbox, len, readable, new⟩
        refine ⟨b', drained, inbox, len, ?_, fun chunk there => ?_⟩
        · rw [readable]
          simp only [V5ReadBuffer.readable, V5ReadBuffer.pushBack, List.flatMap_append,
            List.flatMap_singleton, ReadChunk.bytes, List.drop_zero]
        · rcases new chunk there with old | fresh
          · rcases List.mem_append.mp old with older | added
            · exact .inl older
            · exact .inr (List.mem_singleton.mp added ▸ rfl)
          · exact .inr fresh
      | shm root =>
        rcases V5ReadBuffer.walkChain_of_chainBytes b first with ⟨blocks, held, walked⟩
        rcases ih later (total + bytes.length) (b.append (chunksOf blocks) bytes.length) with
          ⟨b', drained, inbox, len, readable, new⟩
        refine ⟨b', ?_, inbox, len, ?_, fun chunk there => ?_⟩
        · rw [V5ReadBuffer.drainInputs, walked]
          exact drained
        · rw [readable, V5ReadBuffer.readable_append, held]
        · rcases new chunk there with old | fresh
          · rcases List.mem_append.mp old with older | added
            · exact .inl older
            · rcases List.mem_map.mp added with ⟨block, _, rfl⟩
              exact .inr rfl
          · exact .inr fresh

end Drain

/-! ## The buffer and the queue -/

namespace QueueState

variable {s t : QueueState}

/-- The buffer holds the flat queue and counts it, and the inbox holds what is
coming. -/
structure Queued (s : QueueState) : Prop where
  counted : s.side.Counted s.mem
  queue : s.side.buf.readable s.mem = s.queue
  coming : s.side.buf.inbox.map (·.bytes s.side.mgr s.mem) = s.coming.map some

namespace Queued

theorem len (queued : s.Queued) : s.side.buf.len = s.queue.length := by
  rw [queued.counted.len, queued.queue]

theorem of_read {side : ReadSide} {queue : List UInt8} (queued : s.Queued)
    (counted : side.Counted s.mem) (readable : side.buf.readable s.mem = queue)
    (source : ReadSide.SameSource s.side side) :
    Queued { s with side := side, queue := queue } := by
  refine ⟨counted, readable, ?_⟩
  dsimp only
  rw [source.inbox, <- queued.coming]
  exact List.map_congr_left fun input _ => input.bytes_congr source.size source.closed s.mem

theorem of_releases {mgr : RemoteManager} {rq : List Int} (queued : s.Queued)
    (size : mgr.size = s.side.mgr.size) (closed : mgr.closed = s.side.mgr.closed) :
    Queued { s with side := { s.side with mgr := mgr, rq := rq } } :=
  queued.of_read ⟨queued.counted.len, queued.counted.inside⟩ queued.queue ⟨rfl, size, closed⟩

theorem drainPending (queued : s.Queued) :
    Exists fun side => s.side.drainPending s.mem = (.ok s.coming.flatten.length, side) /\
      Queued { s with side := side, coming := [], queue := s.queue ++ s.coming.flatten } := by
  rcases drainInputs_spec queued.coming 0 { s.side.buf with inbox := [] } s.side.rq with
    ⟨b, drained, inbox, len, readable, new⟩
  rw [Nat.zero_add] at drained
  refine ⟨⟨b, s.side.mgr, s.side.rq⟩, ?_, ⟨?_, fun chunk there => ?_⟩, ?_, ?_⟩
  · rw [ReadSide.drainPending, V5ReadBuffer.drainPending, drained]
  · dsimp only
    rw [len, readable, List.length_append]
    exact congrArg (· + s.coming.flatten.length) queued.counted.len
  · rcases new chunk there with old | fresh
    · exact queued.counted.inside chunk old
    · rw [fresh]
      exact Nat.zero_le _
  · dsimp only
    rw [readable]
    exact congrArg (· ++ s.coming.flatten) queued.queue
  · dsimp only
    rw [inbox]
    rfl

theorem store {mem : Memory} (queued : s.Queued) (intact : s.Intact mem) :
    Queued { s with mem := mem } := by
  have readable : s.side.buf.readable mem = s.side.buf.readable s.mem := by
    simp only [V5ReadBuffer.readable]
    exact List.flatMap_congr fun chunk there => by rw [intact.2 chunk there]
  refine ⟨⟨?_, queued.counted.inside⟩, readable.trans queued.queue, ?_⟩
  · rw [queued.counted.len, readable]
  · rw [<- queued.coming]
    exact List.map_congr_left intact.1

theorem step {action : QueueAction} (queued : s.Queued) (moved : s.step action = some t) :
    t.Queued := by
  cases action with
  | deliver input =>
    rcases Option.map_eq_some_iff.mp moved with ⟨bytes, accepted, rfl⟩
    refine ⟨⟨queued.counted.len, queued.counted.inside⟩, queued.queue, ?_⟩
    dsimp only
    rw [List.map_append, List.map_append, queued.coming, List.map_singleton, List.map_singleton,
      accepted]
  | drainPending =>
    rcases queued.drainPending with ⟨side, drained, queued'⟩
    rw [QueueState.step, drained] at moved
    cases moved
    exact queued'
  | readExactBytes size =>
    rcases ReadSide.readExactBytes_spec queued.counted size with ⟨result, side, read, answers⟩
    rw [QueueState.step, read] at moved
    cases moved
    rw [queued.queue] at answers
    exact queued.of_read answers.counted answers.readable answers.source
  | peek size =>
    have answers := ReadSide.peek_spec queued.counted size
    cases moved
    exact queued.of_read answers.counted (answers.readable.trans queued.queue) answers.source
  | discard size =>
    rcases ReadSide.discard_spec queued.counted size with ⟨result, side, read, answers⟩
    rw [QueueState.step, read] at moved
    cases moved
    rw [queued.queue] at answers
    exact queued.of_read answers.counted answers.readable answers.source
  | read size =>
    rcases ReadSide.read_spec queued.counted size with ⟨side, read, counted, rest, source⟩
    rw [QueueState.step, read] at moved
    cases moved
    rw [queued.queue] at rest
    exact queued.of_read counted rest source
  | dropPin offset =>
    rcases ReadSide.free_sameSource s.side.mgr s.mem s.side.rq offset with ⟨size, closed⟩
    cases moved
    exact queued.of_releases size closed
  | retryPendingReleases =>
    have same : (s.side.mgr.retryPendingReleases s.side.rq).2.1.size = s.side.mgr.size /\
        (s.side.mgr.retryPendingReleases s.side.rq).2.1.closed = s.side.mgr.closed := by
      unfold RemoteManager.retryPendingReleases
      split <;> exact ⟨rfl, rfl⟩
    cases moved
    exact queued.of_releases same.1 same.2
  | pop =>
    cases moved
    exact queued.of_releases rfl rfl
  | store address value =>
    rw [QueueState.step, Option.ite_none_right_eq_some] at moved
    rcases moved with ⟨intact, moved⟩
    cases moved
    exact queued.store intact

end Queued

theorem queued_of_reachable {size : Nat} (reachable : (queueSystem size).Reachable s) :
    s.Queued := by
  refine reachable.invariant ?_ (fun _ _ _ _ _ moved queued => queued.step moved)
  rintro ⟨⟨buf, mgr, rq⟩, mem, coming, queue⟩ ⟨rfl, rfl, rfl, rfl, rfl⟩
  exact ⟨⟨rfl, fun chunk there => absurd there List.not_mem_nil⟩, rfl, rfl⟩

end QueueState

/-- After any calls, deliveries and uses of the segment by others: the length is
that of the flat queue of what was drained and not consumed, a drain adds
everything that was delivered, and every read ends and answers as it would on
the flat queue.  A request for more than there is fails and changes nothing. -/
theorem reads_like_flat_queue {size : Nat} {s : QueueState}
    (reachable : (queueSystem size).Reachable s) :
    s.side.buf.len = s.queue.length /\
    (Exists fun side => s.side.drainPending s.mem = (.ok s.coming.flatten.length, side) /\
      side.buf.readable s.mem = s.queue ++ s.coming.flatten /\ side.Counted s.mem) /\
    forall n,
      (Exists fun result => Exists fun side =>
        s.side.readExactBytes s.mem n = some (result, side) /\
        s.side.Answers s.mem (result.map (Buf.bytes s.mem)) side
          (Fifo.readExact .notEnoughData n s.queue)) /\
      s.side.Answers s.mem ((s.side.peek s.mem n).1.map (Buf.bytes s.mem)) (s.side.peek s.mem n).2
        (Fifo.peek .notEnoughData n s.queue, s.queue) /\
      (Exists fun result => Exists fun side =>
        s.side.discard s.mem n = some (result, side) /\
        s.side.Answers s.mem result side (Fifo.discard .notEnoughData n s.queue)) /\
      Exists fun side => s.side.read s.mem n = some ((Fifo.read n s.queue).1, side) /\
        (Fifo.read n s.queue).1.length = min n s.side.buf.len /\
        side.buf.readable s.mem = (Fifo.read n s.queue).2 /\ side.Counted s.mem := by
  have queued := QueueState.queued_of_reachable reachable
  refine ⟨queued.len, ?_, fun n => ⟨?_, ?_, ?_, ?_⟩⟩
  · rcases queued.drainPending with ⟨side, drained, queued'⟩
    exact ⟨side, drained, queued'.queue, queued'.counted⟩
  · rw [<- queued.queue]
    exact ReadSide.readExactBytes_spec queued.counted n
  · rw [<- queued.queue]
    exact ReadSide.peek_spec queued.counted n
  · rw [<- queued.queue]
    exact ReadSide.discard_spec queued.counted n
  · rcases ReadSide.read_spec queued.counted n with ⟨side, read, counted, rest, _⟩
    rw [queued.queue] at read rest
    refine ⟨side, read, ?_, rest, counted⟩
    rw [queued.len]
    exact List.length_take

/-- A segment with a block without a byte, linked to a block with three. -/
def emptyThenThree : Memory :=
  writeBytes
    (DynShmBufferHeader.write
      (DynShmBufferHeader.write (fun _ => 0) rqSize ⟨rqSize, (rqSize + 24 : Nat), 0, 0⟩)
      (rqSize + 24) ⟨(rqSize + 24 : Nat), 0, 3, 3⟩)
    (rqSize + 48) [1, 2, 3]

/-- A byte from the socket and a chain that starts with an empty block are read
across the boundary; another byte is still in the inbox. -/
theorem reads_like_flat_queue_across :
    Exists fun s => (queueSystem (rqSize + 51)).Reachable s /\ s.side.buf.len = 2 /\
      s.queue = [2, 3] /\ s.coming = [[9]] /\
      (Exists fun result => Exists fun side =>
        s.side.readExactBytes s.mem 3 = some (result, side) /\
        result.map (Buf.bytes s.mem) = .error .notEnoughData /\ side = s.side) /\
      Exists fun result => Exists fun side => s.side.readExactBytes s.mem 2 = some (result, side) /\
        result.map (Buf.bytes s.mem) = .ok [2, 3] := by
  have found : Exists fun s => (queueSystem (rqSize + 51)).Reachable s /\
      (s.queue = [2, 3] /\ s.coming = [[9]]) :=
    System.exists_reachable_of_run
      ⟨⟨⟨[], [], 0⟩, ⟨rqSize + 51, [], false⟩, []⟩, emptyThenThree, [], []⟩
      [.deliver (.heap [7]), .deliver (.shm rqSize), .drainPending, .peek 2, .readExactBytes 2,
        .deliver (.heap [9]), .store 5 1] ⟨rfl, rfl, rfl, rfl, rfl⟩ (by decide +kernel)
  rcases found with ⟨s, reachable, queue, coming⟩
  rcases reads_like_flat_queue reachable with ⟨len, _, calls⟩
  rw [queue] at len calls
  rcases (calls 3).1 with ⟨result, side, read, answers⟩
  rcases (calls 2).1 with ⟨result', side', read', answers'⟩
  exact ⟨s, reachable, len, queue, coming, ⟨result, side, read, answers.reply_eq,
    answers.failed _ answers.reply_eq⟩, result', side', read', answers'.reply_eq⟩

end BufV5
end Shmipc
