import Shmipc.Base.Transition

namespace Shmipc
namespace Util

/-!
# The buffer of the reader

`BufReader` keeps bytes that it has read ahead in `buf[pos..len]`.  The buffer never grows:
where the bytes that are wanted do not fit behind `pos`, the live ones move to the front.
A read that is at least as large as the buffer bypasses it while it is empty.

Nothing is assumed of the inner reader but that it fills no more than the room it is given.
-/

structure BufReader where
  buf : List UInt8
  pos : Nat
  len : Nat
  cap : Nat
  deriving DecidableEq

/-- What a poll of the inner reader comes to.  It takes as many of the bytes that are
there as there is room for; no bytes at all are the end of the stream. -/
inductive Answer
  | pending
  | failed
  | ready (bytes : List UInt8)

inductive Outcome
  | pending
  | failed
  | tooLarge
  | invalidEof
  | ok (bytes : List UInt8)
  deriving DecidableEq

/-- Replace the bytes from `start` on. -/
def overwrite (buf : List UInt8) (start : Nat) (bytes : List UInt8) : List UInt8 :=
  buf.take start ++ bytes ++ buf.drop (start + bytes.length)

namespace BufReader

def withCapacity (capacity : Nat) : BufReader :=
  { buf := List.replicate capacity 0, pos := 0, len := 0, cap := capacity }

def buffer (r : BufReader) : List UInt8 := (r.buf.drop r.pos).take (r.len - r.pos)

def compact (r : BufReader) : BufReader :=
  if r.len = r.pos then { r with pos := 0, len := 0 }
  else { r with buf := overwrite r.buf 0 r.buffer, pos := 0, len := r.len - r.pos }

def discardBuffer (r : BufReader) : BufReader := { r with pos := 0, len := 0 }

def consume (r : BufReader) (amt : Nat) : BufReader := { r with pos := min (r.pos + amt) r.len }

/-- The inner reader has filled some of `buf[len..cap]`. -/
def receive (r : BufReader) (got : List UInt8) : BufReader :=
  { r with buf := overwrite r.buf r.len got, len := r.len + got.length }

/-- The loop of `fill_buf_at_least`, with the answers that its reads get before it is done or
dropped.  The second component are the bytes that it takes from the inner reader. -/
def fillLoop (len : Nat) (r : BufReader) : List Answer -> BufReader × List UInt8 × Outcome
  | [] => (r, [], if r.len - r.pos < len then .pending else .ok r.buffer)
  | answer :: later =>
    if r.len - r.pos < len then
      match answer with
      | .pending => r.fillLoop len later
      | .failed => (r, [], .failed)
      | .ready bytes =>
        let got := bytes.take (r.cap - r.len)
        if got.length = 0 then (r, [], .invalidEof)
        else
          let (r', more, outcome) := (r.receive got).fillLoop len later
          (r', got ++ more, outcome)
    else (r, [], .ok r.buffer)

def fillBufAtLeast (r : BufReader) (len : Nat) (answers : List Answer) :
    BufReader × List UInt8 × Outcome :=
  let r := if r.pos = r.len then r.compact else r
  if len = 0 then (r, [], .ok [])
  else if len <= r.len - r.pos then (r, [], .ok r.buffer)
  else if r.cap < len then (r, [], .tooLarge)
  else (if r.cap - r.pos < len then r.compact else r).fillLoop len answers

def pollFillBuf (r : BufReader) (answer : Answer) : BufReader × List UInt8 × Outcome :=
  if r.cap <= r.pos then
    match answer with
    | .pending => (r, [], .pending)
    | .failed => (r, [], .failed)
    | .ready bytes =>
      let got := bytes.take r.buf.length
      let r' := { r with buf := overwrite r.buf 0 got, len := got.length, pos := 0 }
      (r', got, .ok r'.buffer)
  else if r.len < r.cap then
    match answer with
    | .pending => (r, [], if r.pos < r.len then .ok r.buffer else .pending)
    | .failed => (r, [], .failed)
    | .ready bytes =>
      let got := bytes.take (r.cap - r.len)
      (r.receive got, got, .ok (r.receive got).buffer)
  else (r, [], .ok r.buffer)

/-- The outcome holds the bytes that are put into a destination with `remaining` bytes left. -/
def pollRead (r : BufReader) (remaining : Nat) (answer : Answer) :
    BufReader × List UInt8 × Outcome :=
  if r.pos = r.len /\ r.buf.length <= remaining then
    match answer with
    | .pending => (r, [], .pending)
    | .failed => (r.discardBuffer, [], .failed)
    | .ready bytes =>
      let got := bytes.take remaining
      (r.discardBuffer, got, .ok got)
  else
    match r.pollFillBuf answer with
    | (r', got, .ok rem) =>
      let amt := min rem.length remaining
      (r'.consume amt, got, .ok (rem.take amt))
    | other => other

end BufReader

/-! ## Every mix of operations -/

/-- The reader with the bytes taken from the inner one and those given to its user so far. -/
structure ReaderState where
  reader : BufReader
  taken : List UInt8
  consumed : List UInt8

inductive ReaderAction
  | fillBufAtLeast (len : Nat) (answers : List Answer)
  | pollFillBuf (answer : Answer)
  | consume (amt : Nat)
  | pollRead (remaining : Nat) (answer : Answer)

/-- The bytes that a read hands out. -/
def Outcome.bytes : Outcome -> List UInt8
  | .ok bytes => bytes
  | _ => []

def ReaderState.step (s : ReaderState) : ReaderAction -> ReaderState
  | .fillBufAtLeast len answers =>
    let (r, got, _) := s.reader.fillBufAtLeast len answers
    { s with reader := r, taken := s.taken ++ got }
  | .pollFillBuf answer =>
    let (r, got, _) := s.reader.pollFillBuf answer
    { s with reader := r, taken := s.taken ++ got }
  | .consume amt =>
    { s with reader := s.reader.consume amt, consumed := s.consumed ++ s.reader.buffer.take amt }
  | .pollRead remaining answer =>
    let (r, got, outcome) := s.reader.pollRead remaining answer
    { reader := r, taken := s.taken ++ got, consumed := s.consumed ++ outcome.bytes }

/-- A reader over an inner one that hands out the bytes of a stream, in order. -/
def readerSystem (stream : List UInt8) : Transition.System ReaderState ReaderAction where
  init s := Exists fun capacity => s = ⟨.withCapacity capacity, [], []⟩
  step s a := if (s.step a).taken <+: stream then some (s.step a) else none

/-! ## What the operations keep -/

/-- The live bytes lie inside the buffer. -/
structure BufReader.Valid (r : BufReader) : Prop where
  size : r.buf.length = r.cap
  start : r.pos <= r.len
  stop : r.len <= r.cap

theorem length_overwrite {buf bytes : List UInt8} {start : Nat}
    (fits : start + bytes.length <= buf.length) :
    (overwrite buf start bytes).length = buf.length := by
  simp only [overwrite, List.length_append, List.length_take, List.length_drop]
  omega

theorem slice_overwrite {buf bytes : List UInt8} {first last : Nat} (ordered : first <= last)
    (fits : last + bytes.length <= buf.length) :
    ((overwrite buf last bytes).drop first).take (last + bytes.length - first) =
      (buf.drop first).take (last - first) ++ bytes := by
  have front : ((buf.take last).drop first).length = last - first := by
    rw [List.length_drop, List.length_take]
    omega
  rw [overwrite, List.append_assoc, List.drop_append_of_le_length (by
    rw [List.length_take]; omega), List.take_append, front,
    List.take_of_length_le (by omega), show last + bytes.length - first - (last - first) =
      bytes.length by omega, List.take_left, List.drop_take]

namespace BufReader

variable {r : BufReader}

theorem Valid.length_buffer (valid : r.Valid) : r.buffer.length = r.len - r.pos := by
  have := valid.size
  have := valid.stop
  rw [buffer, List.length_take, List.length_drop]
  omega

theorem buffer_of_empty (empty : r.pos = r.len) : r.buffer = [] := by
  rw [buffer, empty, Nat.sub_self, List.take_zero]

/-- Compaction keeps the live bytes, although it writes over where they were. -/
theorem Valid.compact (valid : r.Valid) :
    r.compact.Valid /\ r.compact.buffer = r.buffer := by
  rcases valid with ⟨size, start, stop⟩
  have live := Valid.length_buffer ⟨size, start, stop⟩
  unfold BufReader.compact
  split
  · next empty =>
    rw [buffer_of_empty empty.symm]
    exact ⟨⟨size, Nat.le_refl 0, Nat.zero_le _⟩, buffer_of_empty rfl⟩
  · have fits : 0 + r.buffer.length <= r.buf.length := by omega
    refine ⟨⟨(length_overwrite fits).trans size, Nat.zero_le _, by dsimp only; omega⟩, ?_⟩
    have moved := slice_overwrite (Nat.le_refl 0) fits
    rw [Nat.zero_add, Nat.sub_zero, live] at moved
    exact moved

theorem Valid.receive (valid : r.Valid) {got : List UInt8} (room : got.length <= r.cap - r.len) :
    (r.receive got).Valid /\ (r.receive got).buffer = r.buffer ++ got := by
  rcases valid with ⟨size, start, stop⟩
  have fits : r.len + got.length <= r.buf.length := by omega
  refine ⟨⟨(length_overwrite fits).trans size, ?_, ?_⟩, slice_overwrite start fits⟩
  · exact Nat.le_add_right_of_le start
  · exact Nat.le_trans fits (Nat.le_of_eq size)

theorem Valid.consume (valid : r.Valid) (amt : Nat) :
    (r.consume amt).Valid /\ r.buffer.take amt ++ (r.consume amt).buffer = r.buffer := by
  refine ⟨⟨valid.size, Nat.min_le_right .., valid.stop⟩, ?_⟩
  have rest : (r.consume amt).buffer = r.buffer.drop amt := by
    by_cases inside : r.pos + amt <= r.len
    · rw [buffer, BufReader.consume]
      dsimp only
      rw [Nat.min_eq_left inside, buffer, List.drop_take, List.drop_drop, Nat.sub_sub]
    · rw [buffer_of_empty (Nat.min_eq_right (by omega)), List.drop_of_length_le]
      rw [valid.length_buffer]
      omega
  rw [rest, List.take_append_drop]

/-- What an operation that hands out nothing does: it keeps the live bytes and puts behind
them what it has taken. -/
structure Fills (r : BufReader) (done : BufReader × List UInt8 × Outcome) : Prop where
  valid : done.1.Valid
  live : done.1.buffer = r.buffer ++ done.2.1

/-- A fill of `len` bytes: a successful one comes back with at least as many. -/
structure FillsAtLeast (len : Nat) (r : BufReader) (done : BufReader × List UInt8 × Outcome) :
    Prop extends r.Fills done where
  enough : forall bytes, done.2.2 = .ok bytes -> len <= bytes.length

theorem Fills.same (valid : r.Valid) (outcome : Outcome) : r.Fills (r, [], outcome) :=
  ⟨valid, (List.append_nil _).symm⟩

theorem FillsAtLeast.buffer {len : Nat} (valid : r.Valid) (enough : len <= r.len - r.pos) :
    FillsAtLeast len r (r, [], .ok r.buffer) := by
  refine ⟨.same valid _, ?_⟩
  rintro _ ⟨⟩
  exact valid.length_buffer.symm ▸ enough

theorem fillLoop_spec (len : Nat) (answers : List Answer) (valid : r.Valid) :
    FillsAtLeast len r (r.fillLoop len answers) := by
  induction answers generalizing r with
  | nil =>
    unfold fillLoop
    split
    · exact ⟨.same valid _, nofun⟩
    · next enough => exact .buffer valid (Nat.not_lt.mp enough)
  | cons answer later ih =>
    unfold fillLoop
    split
    · cases answer with
      | pending => exact ih valid
      | failed => exact ⟨.same valid _, nofun⟩
      | ready bytes =>
        dsimp only
        generalize taken : bytes.take (r.cap - r.len) = got
        have room : got.length <= r.cap - r.len := taken ▸ List.length_take_le ..
        split
        · exact ⟨.same valid _, nofun⟩
        · rcases valid.receive room with ⟨received, longer⟩
          have filled := ih received
          refine ⟨⟨filled.valid, ?_⟩, filled.enough⟩
          rw [filled.live, longer, List.append_assoc]
    · next enough => exact .buffer valid (Nat.not_lt.mp enough)

theorem FillsAtLeast.of_compact {len : Nat} {done : BufReader × List UInt8 × Outcome}
    (valid : r.Valid) (fills : FillsAtLeast len r.compact done) : FillsAtLeast len r done :=
  ⟨⟨fills.valid, fills.live.trans (congrArg (· ++ _) valid.compact.2)⟩, fills.enough⟩

theorem fillBufAtLeast_spec (len : Nat) (answers : List Answer) (valid : r.Valid) :
    FillsAtLeast len r (r.fillBufAtLeast len answers) := by
  -- what follows the first compaction, for whichever reader it leaves
  have rest : forall {q : BufReader}, q.Valid ->
      FillsAtLeast len q (if len = 0 then (q, [], .ok [])
        else if len <= q.len - q.pos then (q, [], .ok q.buffer)
        else if q.cap < len then (q, [], .tooLarge)
        else (if q.cap - q.pos < len then q.compact else q).fillLoop len answers) := by
    intro q holds
    split
    · next none => exact ⟨.same holds _, fun bytes _ => none ▸ Nat.zero_le _⟩
    · split
      · next enough => exact .buffer holds enough
      · split
        · exact ⟨.same holds _, nofun⟩
        · split
          · exact .of_compact holds (fillLoop_spec len answers holds.compact.1)
          · exact fillLoop_spec len answers holds
  unfold fillBufAtLeast
  dsimp only
  by_cases empty : r.pos = r.len
  · rw [if_pos empty]
    exact .of_compact valid (rest valid.compact.1)
  · rw [if_neg empty]
    exact rest valid

theorem pollFillBuf_spec (answer : Answer) (valid : r.Valid) :
    r.Fills (r.pollFillBuf answer) /\
      forall bytes, (r.pollFillBuf answer).2.2 = .ok bytes ->
        bytes = (r.pollFillBuf answer).1.buffer := by
  unfold pollFillBuf
  split
  · next used =>
    cases answer with
    | pending | failed => exact ⟨.same valid _, nofun⟩
    | ready bytes =>
      dsimp only
      generalize taken : bytes.take r.buf.length = got
      have room : got.length <= r.buf.length := taken ▸ List.length_take_le ..
      have fits : 0 + got.length <= r.buf.length := (Nat.zero_add _).symm ▸ room
      -- a cursor at the end of the buffer has nothing before it
      have empty : r.pos = r.len := Nat.le_antisymm valid.start (Nat.le_trans valid.stop used)
      have fresh := slice_overwrite (Nat.le_refl 0) fits
      refine ⟨⟨⟨(length_overwrite fits).trans valid.size, Nat.zero_le _, ?_⟩, ?_⟩, ?_⟩
      · exact Nat.le_trans room (Nat.le_of_eq valid.size)
      · rw [buffer_of_empty empty]
        rw [Nat.zero_add] at fresh
        exact fresh
      · rintro _ ⟨⟩
        rfl
  · split
    · cases answer with
      | pending =>
        refine ⟨.same valid _, fun bytes done => ?_⟩
        dsimp only at done
        split at done
        · cases done
          rfl
        · cases done
      | failed => exact ⟨.same valid _, nofun⟩
      | ready bytes =>
        rcases valid.receive (List.length_take_le (r.cap - r.len) bytes) with ⟨received, longer⟩
        refine ⟨⟨received, longer⟩, ?_⟩
        rintro _ ⟨⟩
        rfl
    · refine ⟨.same valid _, ?_⟩
      rintro _ ⟨⟩
      rfl

theorem pollRead_spec (remaining : Nat) (answer : Answer) (valid : r.Valid) :
    (r.pollRead remaining answer).1.Valid /\
      (r.pollRead remaining answer).2.2.bytes ++ (r.pollRead remaining answer).1.buffer =
        r.buffer ++ (r.pollRead remaining answer).2.1 := by
  unfold pollRead
  split
  · next direct =>
    have dropped : r.discardBuffer.Valid := ⟨valid.size, Nat.le_refl 0, Nat.zero_le _⟩
    have none : r.discardBuffer.buffer = [] := buffer_of_empty rfl
    cases answer with
    | pending => exact ⟨valid, (List.append_nil _).symm⟩
    | failed =>
      refine ⟨dropped, ?_⟩
      rw [none, buffer_of_empty direct.1]
      rfl
    | ready bytes =>
      refine ⟨dropped, ?_⟩
      dsimp only
      rw [none, buffer_of_empty direct.1, List.append_nil]
      rfl
  · have filled := pollFillBuf_spec answer valid
    generalize r.pollFillBuf answer = done at filled
    rcases done with ⟨r', got, outcome⟩
    rcases filled with ⟨⟨valid', live⟩, result⟩
    cases outcome with
    | ok rem =>
      have same : rem = r'.buffer := result rem rfl
      subst same
      rcases valid'.consume (min r'.buffer.length remaining) with ⟨consumed, split⟩
      exact ⟨consumed, split.trans live⟩
    | _ => exact ⟨valid', live⟩

end BufReader

/-! ## Whole runs -/

structure ReaderState.Kept (s : ReaderState) : Prop where
  valid : s.reader.Valid
  bytes : s.consumed ++ s.reader.buffer = s.taken

theorem ReaderState.Kept.step {s : ReaderState} (kept : s.Kept) (a : ReaderAction) :
    (s.step a).Kept := by
  rcases kept with ⟨valid, bytes⟩
  cases a with
  | fillBufAtLeast len answers =>
    have filled := BufReader.fillBufAtLeast_spec len answers valid
    refine ⟨filled.valid, ?_⟩
    dsimp only [ReaderState.step]
    rw [filled.live, <- List.append_assoc, bytes]
  | pollFillBuf answer =>
    have filled := (BufReader.pollFillBuf_spec answer valid).1
    refine ⟨filled.valid, ?_⟩
    dsimp only [ReaderState.step]
    rw [filled.live, <- List.append_assoc, bytes]
  | consume amt =>
    rcases valid.consume amt with ⟨consumed, split⟩
    refine ⟨consumed, ?_⟩
    dsimp only [ReaderState.step]
    rw [List.append_assoc, split, bytes]
  | pollRead remaining answer =>
    rcases BufReader.pollRead_spec remaining answer valid with ⟨read, split⟩
    refine ⟨read, ?_⟩
    dsimp only [ReaderState.step]
    rw [List.append_assoc, split, <- List.append_assoc, bytes]

theorem kept_of_reachable {stream : List UInt8} {s : ReaderState}
    (reachable : (readerSystem stream).Reachable s) : s.Kept /\ s.taken <+: stream := by
  refine reachable.invariant (P := fun s => s.Kept /\ s.taken <+: stream) ?_
    fun s a t _ _ moved kept => ?_
  · rintro s ⟨capacity, rfl⟩
    refine ⟨⟨⟨List.length_replicate, Nat.le_refl 0, Nat.zero_le _⟩, ?_⟩, List.nil_prefix⟩
    exact BufReader.buffer_of_empty rfl
  · rcases Transition.of_guarded moved with ⟨given, rfl⟩
    exact ⟨kept.1.step a, given⟩

/-- No byte is lost, repeated or moved, whatever mix of operations a reader of whatever
capacity is used with: what was consumed and what is buffered are the first bytes of the
inner reader's stream.  A fill that succeeds has as many bytes as were asked for, and one
that is dropped half-way keeps what it has read. -/
theorem reader_keeps_bytes {stream : List UInt8} {s : ReaderState}
    (reachable : (readerSystem stream).Reachable s) :
    (s.consumed ++ s.reader.buffer = s.taken /\ s.taken <+: stream) /\
    (s.reader.pos <= s.reader.len /\ s.reader.len <= s.reader.cap) /\
    (forall len answers r got bytes,
      s.reader.fillBufAtLeast len answers = (r, got, .ok bytes) -> len <= bytes.length) /\
    forall len answers r got,
      s.reader.fillBufAtLeast len answers = (r, got, .pending) ->
        s.consumed ++ r.buffer = s.taken ++ got := by
  rcases kept_of_reachable reachable with ⟨⟨valid, bytes⟩, given⟩
  refine ⟨⟨bytes, given⟩, ⟨valid.start, valid.stop⟩, ?_, ?_⟩
  · intro len answers r got result filled
    have spec := BufReader.fillBufAtLeast_spec len answers valid
    rw [filled] at spec
    exact spec.enough result rfl
  · intro len answers r got dropped
    have spec := BufReader.fillBufAtLeast_spec len answers valid
    rw [dropped] at spec
    rw [spec.live, <- List.append_assoc, bytes]

/-- A fill of four bytes behind three that are consumed: the buffer of four is compacted,
the fill is dropped after two of the bytes, and all of them are still there. -/
theorem reader_keeps_bytes_of_dropped_fill :
    Exists fun s => (readerSystem [1, 2, 3, 4, 5, 6, 7]).Reachable s /\
      s.consumed = [1, 2, 3] /\ s.taken = [1, 2, 3, 4] /\ Exists fun r =>
        s.reader.fillBufAtLeast 4 [.pending, .ready [5, 6]] = (r, [5, 6], .pending) /\
        s.consumed ++ r.buffer = s.taken ++ [5, 6] := by
  have reachable : (readerSystem [1, 2, 3, 4, 5, 6, 7]).Reachable
      ⟨⟨[1, 2, 3, 4], 3, 4, 4⟩, [1, 2, 3, 4], [1, 2, 3]⟩ :=
    .next (.next (.start ⟨4, rfl⟩) trivial (a := .pollFillBuf (.ready [1, 2, 3, 4])) rfl) trivial
      (a := .consume 3) rfl
  have dropped : BufReader.fillBufAtLeast ⟨[1, 2, 3, 4], 3, 4, 4⟩ 4 [.pending, .ready [5, 6]] =
      (⟨[4, 5, 6, 4], 0, 3, 4⟩, [5, 6], .pending) := by
    decide +kernel
  exact ⟨_, reachable, rfl, rfl, _, dropped, (reader_keeps_bytes reachable).2.2.2 _ _ _ _ dropped⟩

end Util
end Shmipc
