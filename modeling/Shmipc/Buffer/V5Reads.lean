import Shmipc.Base.Fifo
import Shmipc.Buffer.V5Walk
import Shmipc.V5.Release

namespace Shmipc
namespace BufV5

open ByteMemory V5

/-!
# The reads of the V5 read buffer

The readable chunks are consumed from the front.  A read that one block holds is
handed out as a lease on the block; a read that spans blocks is copied.  A chunk
that is spent leaves the queue, and its block goes back to the peer unless a
lease holds it.

The loops that copy, discard and fill a destination take the same steps, so
`takeLoop` is all three.  It is given a number of passes and says if they run
out.
-/

/-- What a read hands back: a lease on a part of a block, or bytes of its own. -/
inductive Buf
  | shm (ptr len : Nat) (block : Int)
  | exm (bytes : List UInt8)
  deriving DecidableEq

def Buf.bytes (mem : Memory) : Buf -> List UInt8
  | .shm ptr len _ => readBytes mem ptr len
  | .exm bytes => bytes

namespace ReadChunk

def len (chunk : ReadChunk) : Nat :=
  match chunk.src with
  | .shm _ slice _ => slice.len
  | .heap bytes => bytes.length

def remaining (chunk : ReadChunk) : Nat :=
  chunk.len - chunk.pos

/-- The zero-copy read of the next bytes of a chunk.  It borrows the block, if
there is one. -/
def shmLease (chunk : ReadChunk) (size : Nat) : Buf × ReadChunk :=
  match chunk.src with
  | .shm offset slice _ =>
    (.shm (slice.ptr + chunk.pos) size offset, { chunk with src := .shm offset slice true })
  | .heap bytes => (.exm ((bytes.drop chunk.pos).take size), chunk)

/-- Give the block back, unless a lease holds it, in which case its pin will. -/
def release (chunk : ReadChunk) (mem : Memory) (mgr : RemoteManager) (rq : List Int) :
    RemoteManager × List Int :=
  match chunk.src with
  | .shm offset _ false => (mgr.free mem rq offset).2
  | _ => (mgr, rq)

end ReadChunk

/-- A read buffer with what it gives blocks back to. -/
structure ReadSide where
  buf : V5ReadBuffer
  mgr : RemoteManager
  rq : List Int

namespace ReadSide

def popIfSpent (s : ReadSide) (mem : Memory) : ReadSide :=
  match s.buf.ready with
  | [] => s
  | front :: rest =>
    if front.remaining = 0 then
      let (mgr, rq) := front.release mem s.mgr s.rq
      { buf := { s.buf with ready := rest }, mgr := mgr, rq := rq }
    else s

/-- Move the cursor of the front chunk, which stands in front of the rest. -/
def advance (s : ReadSide) (mem : Memory) (front : ReadChunk) (rest : List ReadChunk)
    (take : Nat) : ReadSide :=
  popIfSpent { s with
    buf := { s.buf with
      ready := { front with pos := front.pos + take } :: rest
      len := s.buf.len - take } } mem

/-- Take bytes from the front until there are `size` of them or none is left. -/
def takeLoop (mem : Memory) (size : Nat) : Nat -> List UInt8 -> ReadSide ->
    Option (List UInt8 × ReadSide)
  | 0, _, _ => none
  | passes + 1, out, s =>
    if out.length < size then
      match s.buf.ready with
      | [] => some (out, s)
      | front :: rest =>
        let take := min front.remaining (size - out.length)
        takeLoop mem size passes (out ++ ((front.bytes mem).drop front.pos).take take)
          (s.advance mem front rest take)
    else some (out, s)

/-- As many passes as a loop can need: one for each chunk and one to see that it
is done. -/
def passes (s : ReadSide) : Nat :=
  s.buf.ready.length + 1

def readExactBytes (s : ReadSide) (mem : Memory) (size : Nat) :
    Option (Except Error Buf × ReadSide) :=
  let copied := (takeLoop mem size s.passes [] s).map fun (out, s) => (.ok (.exm out), s)
  if size = 0 then some (.ok (.exm []), s)
  else if s.buf.len < size then some (.error .notEnoughData, s)
  else
    match s.buf.ready with
    | [] => copied
    | front :: rest =>
      if size <= front.remaining then
        let (buf, front) := front.shmLease size
        some (.ok buf, s.advance mem front rest size)
      else copied

/-- The loop of `peek` over the chunks. -/
def peekLoop (mem : Memory) (size : Nat) : List ReadChunk -> List UInt8 -> List UInt8
  | [], out => out
  | chunk :: rest, out =>
    if size <= out.length then out
    else
      let take := min chunk.remaining (size - out.length)
      peekLoop mem size rest (out ++ ((chunk.bytes mem).drop chunk.pos).take take)

def peek (s : ReadSide) (mem : Memory) (size : Nat) : Except Error Buf × ReadSide :=
  let copied := (.ok (.exm (peekLoop mem size s.buf.ready [])), s)
  if size = 0 then (.ok (.exm []), s)
  else if s.buf.len < size then (.error .notEnoughData, s)
  else
    match s.buf.ready with
    | [] => copied
    | front :: rest =>
      if size <= front.remaining then
        let (buf, front) := front.shmLease size
        (.ok buf, { s with buf := { s.buf with ready := front :: rest } })
      else copied

/-- The bytes that are dropped are only counted. -/
def discard (s : ReadSide) (mem : Memory) (size : Nat) : Option (Except Error Nat × ReadSide) :=
  if s.buf.len < size then some (.error .notEnoughData, s)
  else (takeLoop mem size s.passes [] s).map fun (dropped, s) => (.ok dropped.length, s)

/-- Fill a destination of `size` bytes as far as there are any. -/
def read (s : ReadSide) (mem : Memory) (size : Nat) : Option (List UInt8 × ReadSide) :=
  takeLoop mem size s.passes [] s

def drainPending (s : ReadSide) (mem : Memory) : Except Error Nat × ReadSide :=
  let (result, buf, mgr, rq) := s.buf.drainPending s.mgr mem s.rq
  (result, { buf := buf, mgr := mgr, rq := rq })

end ReadSide

/-! ## Chunks -/

namespace ReadChunk

variable {mem : Memory} {chunk : ReadChunk} {size : Nat}

/-- The bytes of a chunk that were not consumed. -/
def unread (chunk : ReadChunk) (mem : Memory) : List UInt8 :=
  (chunk.bytes mem).drop chunk.pos

theorem length_bytes (chunk : ReadChunk) (mem : Memory) :
    (chunk.bytes mem).length = chunk.len := by
  rcases chunk with ⟨src, pos⟩
  cases src with
  | shm offset slice pinned => exact length_readBytes ..
  | heap bytes => rfl

theorem length_unread (chunk : ReadChunk) (mem : Memory) :
    (chunk.unread mem).length = chunk.remaining := by
  rw [unread, List.length_drop, length_bytes, remaining]

theorem shmLease_spec (chunk : ReadChunk) (mem : Memory) (fits : size <= chunk.remaining) :
    (chunk.shmLease size).1.bytes mem = (chunk.unread mem).take size /\
      (chunk.shmLease size).2.bytes mem = chunk.bytes mem /\
      (chunk.shmLease size).2.pos = chunk.pos := by
  rcases chunk with ⟨src, pos⟩
  cases src with
  | shm offset slice pinned =>
    refine ⟨?_, rfl, rfl⟩
    have inside : pos + (size + (slice.len - pos - size)) = slice.len \/ size = 0 := by
      simp only [remaining, len] at fits
      omega
    rcases inside with inside | rfl
    · simp only [shmLease, Buf.bytes, unread, bytes]
      rw [<- inside, readBytes_add, List.drop_left' (length_readBytes ..), readBytes_add,
        List.take_left' (length_readBytes ..)]
    · simp only [shmLease, Buf.bytes, readBytes, List.take_zero]
  | heap bytes => exact ⟨rfl, rfl, rfl⟩

end ReadChunk

/-! ## Consuming from the front -/

namespace ReadSide

variable {mem : Memory} {s : ReadSide}

/-- The total is the number of readable bytes, and no cursor is behind the end of
its chunk. -/
structure Counted (s : ReadSide) (mem : Memory) : Prop where
  len : s.buf.len = (s.buf.readable mem).length
  inside : ∀ chunk ∈ s.buf.ready, chunk.pos <= chunk.len

/-- What no read touches. -/
structure SameSource (s t : ReadSide) : Prop where
  inbox : t.buf.inbox = s.buf.inbox
  size : t.mgr.size = s.mgr.size
  closed : t.mgr.closed = s.mgr.closed

theorem SameSource.refl (s : ReadSide) : SameSource s s :=
  ⟨rfl, rfl, rfl⟩

theorem SameSource.trans {t u : ReadSide} (first : SameSource s t) (second : SameSource t u) :
    SameSource s u :=
  ⟨second.inbox.trans first.inbox, second.size.trans first.size,
    second.closed.trans first.closed⟩

theorem free_sameSource (mgr : RemoteManager) (mem : Memory) (rq : List Int) (offset : Int) :
    (mgr.free mem rq offset).2.1.size = mgr.size /\
      (mgr.free mem rq offset).2.1.closed = mgr.closed := by
  unfold RemoteManager.free
  split <;> exact ⟨rfl, rfl⟩

theorem release_sameSource (chunk : ReadChunk) (mem : Memory) (mgr : RemoteManager)
    (rq : List Int) :
    (chunk.release mem mgr rq).1.size = mgr.size /\
      (chunk.release mem mgr rq).1.closed = mgr.closed := by
  unfold ReadChunk.release
  split
  · exact free_sameSource mgr mem rq _
  · exact ⟨rfl, rfl⟩

theorem readable_cons {front : ReadChunk} {rest : List ReadChunk}
    (ready : s.buf.ready = front :: rest) :
    s.buf.readable mem = front.unread mem ++ rest.flatMap (·.unread mem) := by
  rw [V5ReadBuffer.readable, ready, List.flatMap_cons]
  rfl

theorem popIfSpent_spec (counted : s.Counted mem) :
    (s.popIfSpent mem).Counted mem /\
      (s.popIfSpent mem).buf.readable mem = s.buf.readable mem /\
      SameSource s (s.popIfSpent mem) := by
  unfold popIfSpent
  cases ready : s.buf.ready with
  | nil => exact ⟨counted, rfl, .refl s⟩
  | cons front rest =>
    dsimp only
    split
    case isFalse => exact ⟨counted, rfl, .refl s⟩
    case isTrue spent =>
      have nothing : front.unread mem = [] :=
        List.eq_nil_of_length_eq_zero ((front.length_unread mem).trans spent)
      have same : rest.flatMap (·.unread mem) = s.buf.readable mem := by
        rw [readable_cons ready, nothing, List.nil_append]
      have source := release_sameSource front mem s.mgr s.rq
      refine ⟨⟨counted.len.trans (congrArg List.length same.symm), fun chunk member => ?_⟩, same,
        rfl, source.1, source.2⟩
      exact counted.inside chunk (by rw [ready]; exact List.mem_cons_of_mem _ member)

section Advance

variable {front front' : ReadChunk} {rest : List ReadChunk} {take : Nat}

/-- Moving the cursor of the front chunk consumes that many bytes.  The chunk may
have been pinned before. -/
theorem advance_spec (counted : s.Counted mem) (ready : s.buf.ready = front :: rest)
    (same : front'.bytes mem = front.bytes mem /\ front'.pos = front.pos)
    (fits : take <= front.remaining) :
    (s.advance mem front' rest take).Counted mem /\
      (s.advance mem front' rest take).buf.readable mem = (s.buf.readable mem).drop take /\
      SameSource s (s.advance mem front' rest take) := by
  have first := front.length_unread mem
  have unread : ({ front' with pos := front'.pos + take } : ReadChunk).unread mem =
      (front.unread mem).drop take := by
    change (front'.bytes mem).drop (front'.pos + take) = (front.unread mem).drop take
    rw [same.1, same.2, <- List.drop_drop]
    rfl
  have inside := counted.inside front (by rw [ready]; exact List.mem_cons_self)
  have len : front'.len = front.len := by
    rw [<- front'.length_bytes mem, same.1, front.length_bytes]
  have moved : V5ReadBuffer.readable { s.buf with
      ready := { front' with pos := front'.pos + take } :: rest
      len := s.buf.len - take } mem = (s.buf.readable mem).drop take := by
    rw [readable_cons ready, List.drop_append_of_le_length (by omega), <- unread]
    rfl
  have counted' : Counted { s with
      buf := { s.buf with
        ready := { front' with pos := front'.pos + take } :: rest
        len := s.buf.len - take } } mem := by
    constructor
    · rw [moved, List.length_drop, <- counted.len]
    · intro chunk member
      rcases List.mem_cons.mp member with rfl | later
      · change front'.pos + take <= front'.len
        rw [len, same.2]
        simp only [ReadChunk.remaining] at fits
        omega
      · exact counted.inside chunk (by rw [ready]; exact List.mem_cons_of_mem _ later)
  rcases popIfSpent_spec counted' with ⟨kept, readable, source⟩
  exact ⟨kept, readable.trans moved, source.inbox, source.size, source.closed⟩

theorem advance_whole (s : ReadSide) (mem : Memory) (front : ReadChunk) (rest : List ReadChunk) :
    (s.advance mem front rest front.remaining).buf.ready = rest := by
  have spent : ({ front with pos := front.pos + front.remaining } : ReadChunk).remaining = 0 := by
    change front.len - (front.pos + (front.len - front.pos)) = 0
    omega
  unfold advance popIfSpent
  dsimp only
  rw [if_pos spent]

end Advance

theorem takeLoop_spec {size passes : Nat} {out : List UInt8} (counted : s.Counted mem)
    (enough : s.buf.ready.length < passes) (short : out.length <= size) :
    Exists fun t =>
      takeLoop mem size passes out s =
        some (out ++ (s.buf.readable mem).take (size - out.length), t) /\
      t.Counted mem /\ t.buf.readable mem = (s.buf.readable mem).drop (size - out.length) /\
      SameSource s t := by
  induction passes generalizing out s with
  | zero => exact absurd enough (Nat.not_lt_zero _)
  | succ passes ih =>
    rw [takeLoop]
    by_cases more : out.length < size
    swap
    · have done : size - out.length = 0 := by omega
      rw [if_neg more, done, List.take_zero, List.append_nil, List.drop_zero]
      exact ⟨s, rfl, counted, rfl, .refl s⟩
    rw [if_pos more]
    cases ready : s.buf.ready with
    | nil =>
      have nothing : s.buf.readable mem = [] := by
        rw [V5ReadBuffer.readable, ready]
        rfl
      rw [nothing, List.take_nil, List.append_nil, List.drop_nil]
      exact ⟨s, rfl, counted, nothing, .refl s⟩
    | cons front rest =>
      dsimp only
      have first := front.length_unread mem
      have whole := @readable_cons mem s _ _ ready
      rcases advance_spec counted ready ⟨rfl, rfl⟩
        (Nat.min_le_left front.remaining (size - out.length)) with ⟨counted', readable, source⟩
      change Exists fun t => takeLoop mem size passes (out ++ (front.unread mem).take
        (min front.remaining (size - out.length))) _ = _ /\ _
      generalize taken : min front.remaining (size - out.length) = take at *
      have length : (out ++ (front.unread mem).take take).length = out.length + take := by
        rw [List.length_append, List.length_take]
        omega
      have front_take : (front.unread mem).take take = (s.buf.readable mem).take take := by
        rw [whole, List.take_append_of_le_length (by omega)]
      rw [front_take] at length ⊢
      by_cases last : out.length + take = size
      · -- all that was asked for is there, and the next pass sees it
        have count : size - out.length = take := by omega
        rw [ready, List.length_cons] at enough
        cases passes with
        | zero => omega
        | succ passes =>
          rw [takeLoop, if_neg (by omega), count]
          exact ⟨_, rfl, counted', readable, source⟩
      · have all : take = front.remaining := by omega
        have shorter : (s.advance mem front rest take).buf.ready.length < passes := by
          rw [all, advance_whole]
          rw [ready, List.length_cons] at enough
          omega
        have short' : (out ++ (s.buf.readable mem).take take).length <= size := by omega
        rcases ih counted' shorter short' with ⟨t, result, counted'', rest', source'⟩
        have count : size - out.length = take + (size - (out.length + take)) := by omega
        refine ⟨t, ?_, counted'', ?_, source.trans source'⟩
        · rw [result, readable, length, List.append_assoc, <- List.take_add, <- count]
        · rw [rest', readable, length, List.drop_drop, <- count]

theorem peekLoop_spec (mem : Memory) (size : Nat) (chunks : List ReadChunk) (out : List UInt8)
    (short : out.length <= size) :
    peekLoop mem size chunks out =
      out ++ (chunks.flatMap (·.unread mem)).take (size - out.length) := by
  induction chunks generalizing out with
  | nil => rw [peekLoop, List.flatMap_nil, List.take_nil, List.append_nil]
  | cons chunk rest ih =>
    rw [peekLoop]
    by_cases done : size <= out.length
    · have none : size - out.length = 0 := by omega
      rw [if_pos done, none, List.take_zero, List.append_nil]
    · rw [if_neg done]
      dsimp only
      change peekLoop mem size rest (out ++ (chunk.unread mem).take
        (min chunk.remaining (size - out.length))) = _
      have first := chunk.length_unread mem
      have cut : (chunk.unread mem).take (min chunk.remaining (size - out.length)) =
          (chunk.unread mem).take (size - out.length) := by
        rw [<- first, Nat.min_comm, <- List.take_take, List.take_length]
      have length : (out ++ (chunk.unread mem).take (size - out.length)).length =
          out.length + min (size - out.length) chunk.remaining := by
        rw [List.length_append, List.length_take, first]
      rw [cut, ih _ (by omega), length, List.append_assoc, List.flatMap_cons, List.take_append,
        first]
      congr 3
      omega

/-! ## The calls -/

theorem read_spec (counted : s.Counted mem) (size : Nat) :
    Exists fun t => s.read mem size = some ((s.buf.readable mem).take size, t) /\
      t.Counted mem /\ t.buf.readable mem = (s.buf.readable mem).drop size /\ SameSource s t :=
  @takeLoop_spec mem s size s.passes [] counted (Nat.lt_succ_self _) (Nat.zero_le _)

/-- How a call answers compared with the same call on the flat queue: it says the
same, leaves the same bytes, and changes nothing if it fails. -/
structure Answers {α : Type} (s : ReadSide) (mem : Memory) (reply : Except Error α) (t : ReadSide)
    (flat : Except Error α × List UInt8) : Prop where
  reply_eq : reply = flat.1
  counted : t.Counted mem
  readable : t.buf.readable mem = flat.2
  source : SameSource s t
  failed : forall err, reply = .error err -> t = s

theorem peek_spec (counted : s.Counted mem) (size : Nat) :
    Answers s mem ((s.peek mem size).1.map (Buf.bytes mem)) (s.peek mem size).2
      (Fifo.peek .notEnoughData size (s.buf.readable mem), s.buf.readable mem) := by
  have len := counted.len
  unfold peek
  by_cases none : size = 0
  · subst none
    rw [if_pos rfl, Fifo.peek_of_le (Nat.zero_le _), List.take_zero]
    exact ⟨rfl, counted, rfl, .refl s, nofun⟩
  rw [if_neg none]
  by_cases few : s.buf.len < size
  · rw [if_pos few, Fifo.peek_of_lt (by omega)]
    exact ⟨rfl, counted, rfl, .refl s, fun _ _ => rfl⟩
  rw [if_neg few, Fifo.peek_of_le (by omega)]
  have copied : Answers s mem
      ((Except.ok (Buf.exm (peekLoop mem size s.buf.ready [])) : Except Error Buf).map
        (Buf.bytes mem)) s
      (.ok ((s.buf.readable mem).take size), s.buf.readable mem) := by
    refine ⟨?_, counted, rfl, .refl s, nofun⟩
    rw [peekLoop_spec mem size _ [] (Nat.zero_le _)]
    rfl
  cases ready : s.buf.ready with
  | nil =>
    rw [ready] at copied
    exact copied
  | cons front rest =>
    dsimp only
    by_cases fits : size <= front.remaining
    · rw [if_pos fits]
      rcases front.shmLease_spec mem fits with ⟨bytes, same, pos⟩
      have first := front.length_unread mem
      have len' : (front.shmLease size).2.len = front.len := by
        rw [<- (front.shmLease size).2.length_bytes mem, same, front.length_bytes]
      have unread : (front.shmLease size).2.unread mem = front.unread mem := by
        rw [ReadChunk.unread, same, pos]
        rfl
      have readable : V5ReadBuffer.readable
          { s.buf with ready := (front.shmLease size).2 :: rest } mem = s.buf.readable mem := by
        rw [readable_cons ready, <- unread]
        rfl
      refine ⟨?_, ⟨?_, fun chunk member => ?_⟩, readable, ⟨rfl, rfl, rfl⟩, nofun⟩
      · rw [readable_cons ready, List.take_append_of_le_length (by omega), <- bytes]
        rfl
      · exact len.trans (congrArg List.length readable.symm)
      · rcases List.mem_cons.mp member with rfl | later
        · rw [len', pos]
          exact counted.inside front (by rw [ready]; exact List.mem_cons_self)
        · exact counted.inside chunk (by rw [ready]; exact List.mem_cons_of_mem _ later)
    · rw [if_neg fits, <- ready]
      exact copied

theorem readExactBytes_spec (counted : s.Counted mem) (size : Nat) :
    Exists fun result => Exists fun t => s.readExactBytes mem size = some (result, t) /\
      Answers s mem (result.map (Buf.bytes mem)) t
        (Fifo.readExact .notEnoughData size (s.buf.readable mem)) := by
  have len := counted.len
  unfold readExactBytes
  by_cases none : size = 0
  · subst none
    rw [if_pos rfl, Fifo.readExact_of_le (Nat.zero_le _), List.take_zero, List.drop_zero]
    exact ⟨_, _, rfl, rfl, counted, rfl, .refl s, nofun⟩
  rw [if_neg none]
  by_cases few : s.buf.len < size
  · rw [if_pos few, Fifo.readExact_of_lt (by omega)]
    exact ⟨_, _, rfl, rfl, counted, rfl, .refl s, fun _ _ => rfl⟩
  rw [if_neg few, Fifo.readExact_of_le (by omega)]
  rcases s.read_spec counted size with ⟨t, result, counted', rest, source⟩
  rw [read] at result
  have copied : Answers s mem ((.ok (Buf.exm ((s.buf.readable mem).take size)) :
      Except Error Buf).map (Buf.bytes mem)) t
      (.ok ((s.buf.readable mem).take size), (s.buf.readable mem).drop size) :=
    ⟨rfl, counted', rest, source, nofun⟩
  rw [result]
  cases ready : s.buf.ready with
  | nil => exact ⟨_, t, rfl, copied⟩
  | cons front rest =>
    dsimp only
    by_cases fits : size <= front.remaining
    · rw [if_pos fits]
      rcases front.shmLease_spec mem fits with ⟨bytes, same⟩
      have first := front.length_unread mem
      rcases advance_spec counted ready same fits with ⟨counted', readable, source⟩
      refine ⟨_, _, rfl, ?_, counted', readable, source, nofun⟩
      rw [readable_cons ready, List.take_append_of_le_length (by omega), <- bytes]
      rfl
    · rw [if_neg fits]
      exact ⟨_, t, rfl, copied⟩

theorem discard_spec (counted : s.Counted mem) (size : Nat) :
    Exists fun result => Exists fun t => s.discard mem size = some (result, t) /\
      Answers s mem result t (Fifo.discard .notEnoughData size (s.buf.readable mem)) := by
  have len := counted.len
  unfold discard
  by_cases few : s.buf.len < size
  · rw [if_pos few, Fifo.discard_of_lt (by omega)]
    exact ⟨_, _, rfl, rfl, counted, rfl, .refl s, fun _ _ => rfl⟩
  rw [if_neg few, Fifo.discard_of_le (by omega)]
  rcases s.read_spec counted size with ⟨t, result, counted', rest, source⟩
  rw [read] at result
  rw [result]
  refine ⟨_, t, rfl, ?_, counted', rest, source, nofun⟩
  have count : ((s.buf.readable mem).take size).length = size := by
    rw [List.length_take]
    omega
  exact congrArg Except.ok count

end ReadSide

end BufV5
end Shmipc
