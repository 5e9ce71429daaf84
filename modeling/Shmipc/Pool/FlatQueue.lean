import Shmipc.Base.Fifo
import Shmipc.Pool.LeaseSafety

namespace Shmipc
namespace Pool
namespace Lease

open Transition

/-!
# A linked buffer reads like a flat queue

The buffer is a list of slices, each with bytes that are still to be read.  Read
slices stay at the front until a later call pops them, and a slice may be reset in
place.  What a reader sees of it is one queue of the bytes that were appended and
not consumed.

The calls are those of the lease model, so a call is a sequence of steps and `Buf`
values are dropped by any thread between them.  Beside the buffer the state
carries the flat queue and what every call that has ended answered.
-/

/-- The calls that feed the queue or read it.  A discard asks for at least a byte. -/
def Call.OnQueue : Call -> Prop
  | .discard size => 0 < size
  | .readAvailableInto _ _ => False
  | .recycle => False
  | .clean => False
  | _ => True

instance : (c : Call) -> Decidable c.OnQueue
  | .discard size => inferInstanceAs (Decidable (0 < size))
  | .readAvailableInto _ _ => isFalse id
  | .recycle => isFalse id
  | .clean => isFalse id
  | .appendBufferSlice _ _ _ _ => isTrue trivial
  | .readChunk => isTrue trivial
  | .readExactBytes _ => isTrue trivial
  | .peek _ => isTrue trivial
  | .releasePreviousRead => isTrue trivial
  | .releasePreviousReadAndReserve => isTrue trivial

/-- The bytes a call returns, lent or copied. -/
def Returned.bytes : Returned -> Except Returned (List UInt8)
  | .shm buf => .ok buf.bytes
  | .exm bytes => .ok bytes
  | value => .error value

def Returned.number : Returned -> Except Returned Nat
  | .count n => .ok n
  | value => .error value

/-- The flat queue after a call.  How much `read_chunk` takes is up to it. -/
def flatQueue (queue : List UInt8) (value : Returned) : Call -> List UInt8
  | .appendBufferSlice _ _ _ unread => queue ++ unread
  | .readChunk => queue.drop (value.bytes.toOption.getD []).length
  | .readExactBytes size => (Fifo.readExact Returned.notEnoughData size queue).2
  | .discard size => (Fifo.discard Returned.notEnoughData size queue).2
  | _ => queue

/-- The answer is that of the flat queue.  Of `read_chunk` it is any bytes from the
front, and an error only if there are none. -/
def Answers (queue : List UInt8) (value : Returned) : Call -> Prop
  | .readChunk =>
    if queue = [] then value = .notEnoughData
    else Exists fun bytes => value.bytes = .ok bytes /\ bytes ≠ [] /\ bytes <+: queue
  | .readExactBytes size => value.bytes = (Fifo.readExact .notEnoughData size queue).1
  | .peek size => value.bytes = Fifo.peek .notEnoughData size queue
  | .discard size => value.number = (Fifo.discard .notEnoughData size queue).1
  | _ => value = .unit

/-- A call that has ended: the flat queue it found and what it returned. -/
structure Ended where
  call : Call
  queue : List UInt8
  value : Returned
  deriving DecidableEq, Repr

/-- A buffer beside the flat queue.  `call` is the call that is running. -/
structure FlatState where
  reader : Reader
  queue : List UInt8
  call : Option Call
  ended : List Ended

namespace FlatState

/-- The flat queue takes part in a call when it ends. -/
def settle (s : FlatState) : FlatState :=
  match s.call, s.reader.running, s.reader.returned with
  | some call, none, some value =>
    { s with
      queue := flatQueue s.queue value call
      call := none
      ended := s.ended ++ [⟨call, s.queue, value⟩] }
  | _, _, _ => s

def step (s : FlatState) : Action -> Option FlatState
  | .call call =>
    if call.OnQueue then
      (s.reader.step (.call call)).map fun reader =>
        { s with reader := reader, call := some call }.settle
    else none
  | .advance => (s.reader.step .advance).map fun reader => { s with reader := reader }.settle
  | .dropBuf i => (s.reader.step (.dropBuf i)).map fun reader => { s with reader := reader }

end FlatState

/-- All sequences of these calls on a new buffer. -/
def flatSystem : System FlatState Action where
  init := fun s => s = ⟨.new, [], none, []⟩
  step := FlatState.step

/-! ## The slices -/

namespace Pins

variable {p q : Pins} {slice : Slice}

theorem dropState_sliceList (p : Pins) (state : Nat) :
    (p.dropState state).sliceList = p.sliceList := by
  unfold dropState
  split
  · split <;> rfl
  · rfl

theorem acquire_sliceList (p : Pins) (slice : Slice) :
    (p.acquire slice).1.sliceList = p.sliceList := by
  unfold acquire
  split <;> rfl

theorem retire_sliceList (p : Pins) (slice : Slice) :
    (p.retire slice).sliceList = p.sliceList := by
  unfold retire
  dsimp only
  split <;> rfl

theorem retireStep_sliceList (p : Pins) : p.retireStep.sliceList = p.sliceList := by
  unfold retireStep
  split
  · rfl
  · split
    · exact dropState_sliceList _ _
    · rfl
  · rfl
  · exact dropState_sliceList _ _

theorem dropBuf_sliceList {i : Nat} (dropped : p.dropBuf i = some q) :
    q.sliceList = p.sliceList := by
  rcases Option.map_eq_some_iff.mp dropped with ⟨buf, _, rfl⟩
  exact dropState_sliceList _ _

end Pins

/-! ## How much of a call is left -/

/-- The steps a retirement can still take. -/
def Hand.steps : Hand -> Nat
  | .empty => 0
  | .counting _ _ => 3
  | .storing _ _ => 2
  | .dropping _ => 1

/-- The steps a call can take between two slices. -/
def Rest.steps : Rest -> Nat
  | .readExact _ => 3
  | .readExactSlow size _ => if size = 0 then 1 else 2
  | _ => 1

namespace Reader

/-- A bound on the steps of the running call: a slice is popped once, and its
retirement takes three steps. -/
def stepsLeft (s : Reader) : Nat :=
  match s.running with
  | none => 0
  | some rest => 5 * s.pins.sliceList.length + s.pins.hand.steps + rest.steps

def readable (s : Reader) : List UInt8 :=
  s.pins.sliceList.flatMap Slice.unread

/-- The buffer holds this queue and counts it. -/
structure Holds (s : Reader) (queue : List UInt8) : Prop where
  readable : s.readable = queue
  len : s.len = queue.length

/-- Where a call stands that is not over: what it has taken of the queue it found,
and what is left in the buffer. -/
inductive Midway (s : Reader) (queue : List UInt8) : Call -> Rest -> Prop
  | readChunk : s.Holds queue -> Midway s queue .readChunk .readChunk
  | readExact {size : Nat} : s.Holds queue -> 0 < size -> size <= queue.length ->
      Midway s queue (.readExactBytes size) (.readExact size)
  | readExactSlow {size left : Nat} {result : List UInt8} : result ++ s.readable = queue ->
      result.length + left = size -> size <= queue.length -> s.len = queue.length - size ->
      Midway s queue (.readExactBytes size) (.readExactSlow left result)
  | discard {size left n : Nat} : s.readable = queue.drop n -> n + left = size -> 0 < left ->
      size <= queue.length -> s.len = queue.length ->
      Midway s queue (.discard size) (.discard left n)
  | clearWrite : s.Holds queue -> Midway s queue .releasePreviousRead .clearWrite
  | ret : s.Holds queue -> Midway s queue .releasePreviousReadAndReserve (.ret .unit)

/-- A call that was started on a queue goes on, or it has answered and left the
queue that the flat queue is left as. -/
inductive Progress (s : Reader) (queue : List UInt8) (c : Call) : Prop
  | ended (value : Returned) : s.running = none -> s.returned = some value ->
      Answers queue value c -> s.Holds (flatQueue queue value c) -> Progress s queue c
  | goesOn (rest : Rest) : s.running = some rest -> s.Midway queue c rest -> Progress s queue c

variable {s t : Reader} {queue : List UInt8} {c : Call} {rest : Rest} {slice : Slice}
  {slices : List Slice}

theorem readable_cons (list : s.pins.sliceList = slice :: slices) :
    s.readable = slice.unread ++ slices.flatMap Slice.unread := by
  rw [readable, list, List.flatMap_cons]

theorem Holds.congr (holds : s.Holds queue) (list : t.pins.sliceList = s.pins.sliceList)
    (len : t.len = s.len) : t.Holds queue := by
  refine ⟨?_, len.trans holds.len⟩
  rw [Reader.readable, list]
  exact holds.readable

theorem Midway.congr (midway : s.Midway queue c rest)
    (list : t.pins.sliceList = s.pins.sliceList) (len : t.len = s.len) :
    t.Midway queue c rest := by
  have readable : t.readable = s.readable := by rw [readable, list]; rfl
  cases midway with
  | readChunk holds => exact .readChunk (holds.congr list len)
  | readExact holds some enough => exact .readExact (holds.congr list len) some enough
  | readExactSlow read sum enough taken =>
    exact .readExactSlow (readable.symm ▸ read) sum enough (len.trans taken)
  | discard left sum some enough same =>
    exact .discard (readable.trans left) sum some enough (len.trans same)
  | clearWrite holds => exact .clearWrite (holds.congr list len)
  | ret holds => exact .ret (holds.congr list len)

theorem popRetire_spec (list : s.pins.sliceList = slice :: slices) (rest : Rest) :
    (s.popFront.retire slice rest).pins.sliceList = slices /\
      (s.popFront.retire slice rest).len = s.len /\
      (s.popFront.retire slice rest).running = some rest := by
  refine ⟨?_, ?_, rfl⟩
  · simp only [retire, Pins.retire_sliceList, popFront, list]
  · simp only [retire, popFront, list]

theorem hand_popRetire (s : Reader) (slice : Slice) (rest : Rest)
    (free : s.pins.hand = .empty) :
    (s.popFront.retire slice rest).pins.hand.steps <= 3 := by
  have free' : s.popFront.pins.hand = .empty := by
    unfold popFront
    split <;> exact free
  simp only [retire, Pins.retire]
  split
  · simp only [Pins.reclaim, free']
    decide
  · exact Nat.le_refl _

theorem lendAndRead_spec (list : s.pins.sliceList = slice :: slices) (n : Nat) :
    (s.lendAndRead slice n).running = none /\
      (Exists fun buf => (s.lendAndRead slice n).returned = some (.shm buf) /\
        buf.bytes = slice.unread.take n) /\
      (s.lendAndRead slice n).readable =
        slice.unread.drop n ++ slices.flatMap Slice.unread /\
      (s.lendAndRead slice n).len = s.len - n := by
  refine ⟨rfl, ⟨_, rfl, rfl⟩, ?_, rfl⟩
  simp only [readable, lendAndRead, done, Pins.lend, Pins.consume, Pins.acquire_sliceList, list,
    List.flatMap_cons]

theorem readable_consume (list : s.pins.sliceList = slice :: slices) (n : Nat) :
    (s.consume n).readable = slice.unread.drop n ++ slices.flatMap Slice.unread := by
  simp only [readable, consume, Pins.consume, list, List.flatMap_cons]

theorem sliceList_consume (list : s.pins.sliceList = slice :: slices) (n : Nat) :
    (s.consume n).pins.sliceList = { slice with unread := slice.unread.drop n } :: slices := by
  simp only [consume, Pins.consume, list]

theorem stepsLeft_pos (running : s.running = some rest) : 0 < s.stepsLeft := by
  have positive : 0 < rest.steps := by
    unfold Rest.steps
    split <;> try split
    all_goals omega
  rw [stepsLeft, running]
  dsimp only
  omega

theorem stepsLeft_popRetire {next : Rest} (list : s.pins.sliceList = slice :: slices)
    (free : s.pins.hand = .empty) (running : s.running = some rest)
    (few : next.steps <= rest.steps) :
    (s.popFront.retire slice next).stepsLeft < s.stepsLeft := by
  rcases popRetire_spec list next with ⟨left, _, goesOn⟩
  have hand := hand_popRetire s slice next free
  rw [stepsLeft, stepsLeft, running, goesOn]
  dsimp only
  rw [left, list, List.length_cons, free]
  have idle : Hand.steps .empty = 0 := rfl
  omega

theorem readable_popEmpty (list : s.pins.sliceList = slice :: slices) (empty : slice.unread = [])
    (next : Rest) : (s.popFront.retire slice next).readable = s.readable := by
  rw [readable, (popRetire_spec list next).1, readable_cons list, empty, List.nil_append]

theorem readNextSlice_eq (list : s.pins.sliceList = slice :: slices) (next : Rest) :
    s.readNextSlice next = s.popFront.retire slice next := by
  simp only [readNextSlice, list]

theorem stepsLeft_ended (running : s.running = some rest) (ended : t.running = none) :
    t.stepsLeft < s.stepsLeft := by
  have some := stepsLeft_pos running
  rw [stepsLeft, ended]
  exact some

section Resume

variable (free : s.pins.hand = .empty)

include free

theorem resume_readChunk (holds : s.Holds queue) (running : s.running = some .readChunk) :
    (s.resume .readChunk).Progress queue .readChunk /\
      (s.resume .readChunk).stepsLeft < s.stepsLeft := by
  unfold resume
  cases list : s.pins.sliceList with
  | nil =>
    have empty : queue = [] := by
      rw [<- holds.readable, readable, list]
      rfl
    subst empty
    exact ⟨.ended .notEnoughData rfl rfl rfl (holds.congr rfl rfl),
      stepsLeft_ended running rfl⟩
  | cons slice slices =>
    dsimp only
    split
    · next none =>
      have empty : slice.unread = [] := List.eq_nil_of_length_eq_zero none
      rw [readNextSlice_eq list]
      refine ⟨.goesOn _ rfl (.readChunk ⟨?_, ?_⟩),
        stepsLeft_popRetire list free running (Nat.le_refl _)⟩
      · rw [readable_popEmpty list empty]
        exact holds.readable
      · rw [(popRetire_spec list _).2.1]
        exact holds.len
    · next nonempty =>
      have whole := holds.readable
      rw [readable_cons list] at whole
      have counted := holds.len
      rw [<- whole, List.length_append] at counted
      have size : slice.size = slice.unread.length := rfl
      rw [if_neg (by omega)]
      rcases lendAndRead_spec list slice.size with ⟨ended, ⟨buf, value, bytes⟩, left, len⟩
      have lent : buf.bytes = slice.unread := bytes.trans List.take_length
      have nothing : slice.unread.drop slice.size = [] := List.drop_length
      have unread : slice.unread ≠ [] := fun empty =>
        nonempty (size.trans (congrArg List.length empty))
      have after : flatQueue queue (.shm buf) .readChunk = slices.flatMap Slice.unread := by
        rw [flatQueue, <- whole, Returned.bytes, lent]
        exact List.drop_left
      refine ⟨.ended (.shm buf) ended value ?_ ⟨?_, ?_⟩, stepsLeft_ended running ended⟩
      · rw [Answers, if_neg (by simp [<- whole, unread])]
        exact ⟨slice.unread, congrArg Except.ok lent, unread, _, whole⟩
      · rw [left, nothing, after]
        rfl
      · rw [len, after]
        omega

omit free in
theorem resume_readExact {size : Nat} (holds : s.Holds queue) (asked : 0 < size)
    (enough : size <= queue.length) (running : s.running = some (.readExact size)) :
    (s.resume (.readExact size)).Progress queue (.readExactBytes size) /\
      (s.resume (.readExact size)).stepsLeft < s.stepsLeft := by
  have counted := holds.len
  unfold resume
  cases list : s.pins.sliceList with
  | nil =>
    have empty : queue = [] := by
      rw [<- holds.readable, readable, list]
      rfl
    rw [empty, List.length_nil] at enough
    omega
  | cons slice slices =>
    have whole := holds.readable
    rw [readable_cons list] at whole
    dsimp only
    split
    · next fits =>
      have fits : size <= slice.unread.length := fits
      rcases lendAndRead_spec list size with ⟨ended, ⟨buf, value, bytes⟩, left, len⟩
      refine ⟨.ended (.shm buf) ended value ?_ ⟨?_, ?_⟩, stepsLeft_ended running ended⟩
      · rw [Answers, Fifo.readExact_of_le enough, Returned.bytes, bytes, <- whole,
          List.take_append_of_le_length fits]
      · rw [flatQueue, Fifo.readExact_of_le enough, left, <- whole,
          List.drop_append_of_le_length fits]
      · rw [flatQueue, Fifo.readExact_of_le enough, len, List.length_drop]
        omega
    · refine ⟨.goesOn _ rfl (.readExactSlow holds.readable (Nat.zero_add _) enough ?_), ?_⟩
      · show s.len - size = _
        omega
      · rw [stepsLeft, stepsLeft, running]
        simp only [continueWith, Rest.steps]
        split <;> omega

theorem resume_readExactSlow {size left : Nat} {result : List UInt8}
    (read : result ++ s.readable = queue) (sum : result.length + left = size)
    (enough : size <= queue.length) (taken : s.len = queue.length - size)
    (running : s.running = some (.readExactSlow left result)) :
    (s.resume (.readExactSlow left result)).Progress queue (.readExactBytes size) /\
      (s.resume (.readExactSlow left result)).stepsLeft < s.stepsLeft := by
  have steps : Rest.steps (.readExactSlow left result) = if left = 0 then 1 else 2 := rfl
  unfold resume
  dsimp only
  split
  · next ended =>
    have all : result.length = size := by omega
    refine ⟨.ended (.exm result) rfl rfl ?_ ⟨?_, ?_⟩, stepsLeft_ended running rfl⟩
    · rw [Answers, Fifo.readExact_of_le enough, Returned.bytes, <- read, <- all, List.take_left]
    · rw [flatQueue, Fifo.readExact_of_le enough, <- read, <- all, List.drop_left]
      rfl
    · rw [flatQueue, Fifo.readExact_of_le enough, List.length_drop]
      exact taken
  · next more =>
    rw [if_neg more] at steps
    cases list : s.pins.sliceList with
    | nil =>
      rw [readable, list, List.flatMap_nil, List.append_nil] at read
      rw [<- read] at enough
      omega
    | cons slice slices =>
      rw [readable_cons list] at read
      dsimp only
      split
      · next short =>
        rw [List.length_take] at short
        have part : slice.unread.take left = slice.unread :=
          List.take_of_length_le (by omega)
        have listed := sliceList_consume list left
        rw [readNextSlice_eq listed, part]
        refine ⟨.goesOn _ rfl (.readExactSlow ?_ ?_ enough ?_), ?_⟩
        · rw [readable, (popRetire_spec listed _).1, List.append_assoc]
          exact read
        · rw [List.length_append]
          omega
        · rw [(popRetire_spec listed _).2.1]
          exact taken
        · have fewer := @stepsLeft_popRetire (s.consume left) _ _ _
            (.readExactSlow (left - slice.unread.length) (result ++ slice.unread)) listed free
            running (by rw [steps, Rest.steps]; split <;> omega)
          have same : (s.consume left).stepsLeft = s.stepsLeft := by
            rw [stepsLeft, stepsLeft, listed, list]
            rfl
          rw [same] at fewer
          exact fewer
      · next full =>
        have full : (slice.unread.take left).length = left := not_not.mp full
        refine ⟨.goesOn _ rfl (.readExactSlow ?_ ?_ enough taken), ?_⟩
        · rw [List.append_assoc]
          refine Eq.trans (congrArg (result ++ ·) ?_) read
          show slice.unread.take left ++ (s.consume left).readable = _
          rw [readable_consume list, <- List.append_assoc, List.take_append_drop]
        · rw [List.length_append]
          omega
        · rw [stepsLeft, stepsLeft, running, full, Nat.sub_self]
          simp only [continueWith, sliceList_consume list, list, List.length_cons, steps]
          show _ + (s.pins.hand.steps) + 1 < _
          omega

theorem resume_discard {size left n : Nat} (rest : s.readable = queue.drop n)
    (sum : n + left = size) (asked : 0 < left) (enough : size <= queue.length)
    (len : s.len = queue.length) (running : s.running = some (.discard left n)) :
    (s.resume (.discard left n)).Progress queue (.discard size) /\
      (s.resume (.discard left n)).stepsLeft < s.stepsLeft := by
  unfold resume
  cases list : s.pins.sliceList with
  | nil =>
    have short := congrArg List.length rest
    rw [readable, list, List.length_drop] at short
    have none : (List.flatMap Slice.unread []).length = 0 := rfl
    omega
  | cons slice slices =>
    rw [readable_cons list] at rest
    have unread : slice.size = slice.unread.length := rfl
    dsimp only
    split
    · next last =>
      have whole : min slice.size left = left := by omega
      rw [whole, sum]
      refine ⟨.ended (.count size) rfl rfl ?_ ⟨?_, ?_⟩, stepsLeft_ended running rfl⟩
      · rw [Answers, Fifo.discard_of_le enough]
        rfl
      · rw [flatQueue, Fifo.discard_of_le enough]
        show (s.consume left).readable = _
        rw [readable_consume list, <- List.drop_append_of_le_length (by omega), rest,
          List.drop_drop, sum]
      · rw [flatQueue, Fifo.discard_of_le enough, List.length_drop, <- len]
        rfl
    · next more =>
      have part : min slice.size left = slice.unread.length := by omega
      have listed := sliceList_consume list slice.unread.length
      rw [part, readNextSlice_eq listed]
      refine ⟨.goesOn _ rfl (.discard ?_ (by omega) (by omega) enough ?_), ?_⟩
      · rw [readable, (popRetire_spec listed _).1, <- List.drop_drop, <- rest, List.drop_left]
      · rw [(popRetire_spec listed _).2.1]
        exact len
      · have fewer := @stepsLeft_popRetire (s.consume slice.unread.length) _ _ _
          (.discard (left - slice.unread.length) (n + slice.unread.length)) listed free running
          (Nat.le_refl _)
        have same : (s.consume slice.unread.length).stepsLeft = s.stepsLeft := by
          rw [stepsLeft, stepsLeft, listed, list]
          rfl
        rw [same] at fewer
        exact fewer

/-- The next piece of a call, up to its next retirement or its end. -/
theorem Midway.resume (midway : s.Midway queue c rest) (running : s.running = some rest) :
    (s.resume rest).Progress queue c /\ (s.resume rest).stepsLeft < s.stepsLeft := by
  cases midway with
  | readChunk holds => exact resume_readChunk free holds running
  | readExact holds asked enough => exact resume_readExact holds asked enough running
  | readExactSlow read sum enough taken =>
    exact resume_readExactSlow free read sum enough taken running
  | discard left sum asked enough same =>
    exact resume_discard free left sum asked enough same running
  | clearWrite holds | ret holds =>
    exact ⟨.ended .unit rfl rfl rfl (holds.congr rfl rfl), stepsLeft_ended running rfl⟩

end Resume

theorem peekLoop_eq (size : Nat) (slices : List Slice) (result : List UInt8) :
    peekLoop size slices result = result ++ (slices.flatMap Slice.unread).take size := by
  induction slices generalizing size result with
  | nil => simp [peekLoop]
  | cons slice rest ih =>
    rw [peekLoop]
    split
    · next ended => simp [ended]
    · dsimp only
      rw [ih, List.flatMap_cons, List.take_append, List.append_assoc, List.length_take]
      congr 3
      omega

theorem Holds.progress {value : Returned} (holds : s.Holds queue)
    (list : t.pins.sliceList = s.pins.sliceList) (len : t.len = s.len) (ended : t.running = none)
    (returned : t.returned = some value) (answers : Answers queue value c)
    (same : flatQueue queue value c = queue) : t.Progress queue c := by
  refine .ended value ended returned answers ?_
  rw [same]
  exact holds.congr list len

section Start

variable (holds : s.Holds queue)

include holds

theorem start_readExactBytes {size : Nat} (started : s.call (.readExactBytes size) = some t) :
    t.Progress queue (.readExactBytes size) := by
  have counted := holds.len
  unfold call at started
  dsimp only at started
  split at started
  · next none =>
    cases started
    subst none
    exact holds.progress rfl rfl rfl rfl rfl rfl
  split at started
  · next few =>
    have short : queue.length < size := by omega
    cases started
    refine holds.progress rfl rfl rfl rfl ?_ ?_
    · rw [Answers, Fifo.readExact_of_lt short]
      rfl
    · rw [flatQueue, Fifo.readExact_of_lt short]
  next asked enough =>
  split at started
  · next head =>
    cases started
    cases list : s.pins.sliceList with
    | nil =>
      rw [list] at head
      cases head
    | cons slice slices =>
      rw [list] at head
      have empty : slice.unread = [] := List.eq_nil_of_length_eq_zero (beq_iff_eq.mp head)
      rw [readNextSlice_eq list]
      refine .goesOn _ rfl (.readExact ⟨?_, ?_⟩ (by omega) (by omega))
      · rw [readable_popEmpty list empty]
        exact holds.readable
      · rw [(popRetire_spec list _).2.1]
        exact counted
  · cases started
    exact .goesOn _ rfl (.readExact (holds.congr rfl rfl) (by omega) (by omega))

theorem start_peek {size : Nat} (started : s.call (.peek size) = some t) :
    t.Progress queue (.peek size) := by
  have counted := holds.len
  unfold call at started
  dsimp only at started
  split at started
  · next none =>
    cases started
    subst none
    refine holds.progress rfl rfl rfl rfl ?_ rfl
    rw [Answers, Fifo.peek_of_le (Nat.zero_le _)]
    rfl
  split at started
  · next few =>
    have short : queue.length < size := by omega
    cases started
    refine holds.progress rfl rfl rfl rfl ?_ rfl
    rw [Answers, Fifo.peek_of_lt short]
    rfl
  next asked enough =>
  have answer : Fifo.peek Returned.notEnoughData size queue = .ok (s.readable.take size) := by
    rw [Fifo.peek_of_le (by omega), holds.readable]
  cases list : s.pins.sliceList with
  | nil =>
    have empty := holds.readable
    rw [readable, list, List.flatMap_nil] at empty
    rw [<- empty, List.length_nil] at counted
    omega
  | cons slice slices =>
    rw [list] at started
    dsimp only at started
    split at started
    · next fits =>
      cases started
      refine holds.progress ?_ rfl rfl rfl ?_ rfl
      · exact Pins.acquire_sliceList s.pins slice
      · rw [List.length_take] at fits
        rw [Answers, answer, readable_cons list, List.take_append_of_le_length (by omega)]
        rfl
    · cases started
      refine holds.progress (Pins.acquire_sliceList s.pins slice) rfl rfl rfl ?_ rfl
      rw [Answers, answer, Returned.bytes, peekBytes, peekLoop_eq, List.nil_append]
      rfl

theorem start_discard {size : Nat} (asked : 0 < size) (started : s.call (.discard size) = some t) :
    t.Progress queue (.discard size) := by
  have counted := holds.len
  unfold call at started
  dsimp only at started
  split at started
  · next few =>
    have short : queue.length < size := by omega
    cases started
    refine holds.progress rfl rfl rfl rfl ?_ ?_
    · rw [Answers, Fifo.discard_of_lt short]
      rfl
    · rw [flatQueue, Fifo.discard_of_lt short]
  · cases started
    exact .goesOn _ rfl (.discard holds.readable (Nat.zero_add _) asked (by omega) counted)

theorem start_releasePreviousRead (started : s.call .releasePreviousRead = some t) :
    t.Progress queue .releasePreviousRead := by
  unfold call at started
  cases list : s.pins.sliceList with
  | nil =>
    rw [list] at started
    cases started
    exact holds.progress rfl rfl rfl rfl rfl rfl
  | cons slice slices =>
    rw [list] at started
    dsimp only at started
    split at started
    · next front =>
      cases started
      refine .goesOn _ rfl (.clearWrite ⟨?_, ?_⟩)
      · rw [readable_popEmpty list (List.eq_nil_of_length_eq_zero front.1)]
        exact holds.readable
      · rw [(popRetire_spec list _).2.1]
        exact holds.len
    · cases started
      exact holds.progress rfl rfl rfl rfl rfl rfl

theorem start_releasePreviousReadAndReserve
    (started : s.call .releasePreviousReadAndReserve = some t) :
    t.Progress queue .releasePreviousReadAndReserve := by
  unfold call at started
  dsimp only at started
  split at started
  · next slice list =>
    split at started
    · cases started
      exact holds.progress rfl rfl rfl rfl rfl rfl
    · next none =>
      -- the only slice has no bytes, so neither popping nor resetting it loses any
      have counted := holds.len
      have whole := holds.readable
      rw [readable_cons list, List.flatMap_nil, List.append_nil] at whole
      have empty : slice.unread = [] := by
        rw [whole]
        exact List.eq_nil_of_length_eq_zero (by omega)
      split at started
      · cases started
        refine .goesOn _ rfl (.ret ⟨?_, ?_⟩)
        · exact (readable_popEmpty list empty (.ret .unit)).trans holds.readable
        · exact (popRetire_spec list (.ret .unit)).2.1.trans counted
      · split at started
        · cases started
          refine .ended .unit rfl rfl rfl ⟨?_, counted⟩
          simp only [readable, Pins.resetFront, done, list, List.flatMap_cons, List.flatMap_nil,
            List.append_nil, flatQueue]
          rw [<- whole, empty]
        · cases started
          refine .goesOn _ rfl (.ret ⟨?_, ?_⟩)
          · exact (readable_popEmpty list empty (.ret .unit)).trans holds.readable
          · exact (popRetire_spec list (.ret .unit)).2.1.trans counted
  · cases started
    exact holds.progress rfl rfl rfl rfl rfl rfl

theorem Holds.call (onQueue : c.OnQueue) (started : s.call c = some t) : t.Progress queue c := by
  cases c with
  | appendBufferSlice data cap isFromShm unread =>
    rcases of_guarded started with ⟨_, rfl⟩
    refine .ended .unit rfl rfl rfl ⟨?_, ?_⟩
    · rw [flatQueue, <- holds.readable]
      simp [Reader.readable, Pins.append, done]
    · rw [flatQueue, List.length_append, <- holds.len]
      rfl
  | readChunk =>
    cases started
    exact .goesOn _ rfl (.readChunk (holds.congr rfl rfl))
  | readExactBytes size => exact start_readExactBytes holds started
  | peek size => exact start_peek holds started
  | discard size => exact start_discard holds onQueue started
  | readAvailableInto room maxSlices | recycle | clean => exact absurd onQueue id
  | releasePreviousRead => exact start_releasePreviousRead holds started
  | releasePreviousReadAndReserve => exact start_releasePreviousReadAndReserve holds started

end Start

theorem call_isSome (onQueue : c.OnQueue)
    (placed : forall data cap isFromShm unread, c = .appendBufferSlice data cap isFromShm unread ->
      unread.length <= cap /\ s.Separate data cap) : (s.call c).isSome = true := by
  cases c with
  | appendBufferSlice data cap isFromShm unread =>
    rw [call, if_pos (placed data cap isFromShm unread rfl)]
    rfl
  | readAvailableInto room maxSlices => exact absurd onQueue id
  | _ => grind [call]

theorem hand_retireStep {p : Pins} (busy : p.hand ≠ .empty) :
    p.retireStep.hand.steps < p.hand.steps := by
  unfold Pins.retireStep
  cases hand : p.hand with
  | empty => exact absurd hand busy
  | counting slice state =>
    dsimp only
    split
    · rw [dropState_hand]
      exact Nat.zero_lt_succ 2
    · exact Nat.lt_succ_self 2
  | storing slice state => exact Nat.lt_succ_self 1
  | dropping state =>
    dsimp only
    rw [dropState_hand]
    exact Nat.zero_lt_one

theorem Midway.advance (midway : s.Midway queue c rest) (running : s.running = some rest)
    (moved : s.advance = some t) : t.Progress queue c /\ t.stepsLeft < s.stepsLeft := by
  rcases advance_cases moved with ⟨_, runs, ⟨free, rfl⟩ | ⟨busy, rfl⟩⟩
  all_goals cases running.symm.trans runs
  · exact Midway.resume free midway running
  · have list := Pins.retireStep_sliceList s.pins
    refine ⟨.goesOn rest running (midway.congr list rfl), ?_⟩
    have fewer := hand_retireStep busy
    rw [stepsLeft, stepsLeft, running]
    dsimp only
    rw [list]
    omega

end Reader

/-! ## The buffer and the queue -/

namespace FlatState

variable {s t : FlatState}

/-- All calls that ended answered as the flat queue does.  Between two calls the
buffer holds the flat queue, and a running call is on its way to its answer. -/
structure Flat (s : FlatState) : Prop where
  answered : ∀ e ∈ s.ended, Answers e.queue e.value e.call
  idle : s.reader.running = none -> s.call = none /\ s.reader.Holds s.queue
  busy : forall rest, s.reader.running = some rest ->
    Exists fun c => s.call = some c /\ s.reader.Midway s.queue c rest

namespace Flat

theorem settle {c : Call} (answered : ∀ e ∈ s.ended, Answers e.queue e.value e.call)
    (called : s.call = some c) (progress : s.reader.Progress s.queue c) : s.settle.Flat := by
  unfold FlatState.settle
  cases progress with
  | ended value running returned answers holds =>
    rw [called, running, returned]
    refine ⟨?_, fun _ => ⟨rfl, holds⟩, ?_⟩
    · exact forall_mem_snoc answered answers
    · intro rest goesOn
      exact absurd (running.symm.trans goesOn) nofun
  | goesOn rest running midway =>
    rw [called, running]
    refine ⟨answered, fun ended => absurd (running.symm.trans ended) nofun, ?_⟩
    intro other same
    cases running.symm.trans same
    exact ⟨c, called, midway⟩

theorem advance (flat : s.Flat) (moved : s.step .advance = some t) :
    t.Flat /\ t.reader.stepsLeft < s.reader.stepsLeft := by
  rcases Option.map_eq_some_iff.mp moved with ⟨reader, advanced, rfl⟩
  rcases Reader.advance_cases advanced with ⟨rest, running, _⟩
  rcases flat.busy rest running with ⟨c, called, midway⟩
  rcases midway.advance running advanced with ⟨progress, fewer⟩
  refine ⟨@settle { s with reader := reader } c flat.answered called progress, ?_⟩
  have same : FlatState.reader (FlatState.settle { s with reader := reader }) = reader := by
    unfold FlatState.settle
    split <;> rfl
  rw [same]
  exact fewer

theorem dropBuf {i : Nat} (flat : s.Flat) (moved : s.step (.dropBuf i) = some t) :
    t.Flat /\ t.reader.stepsLeft = s.reader.stepsLeft := by
  rcases Option.map_eq_some_iff.mp moved with ⟨reader, stepped, rfl⟩
  rcases Option.map_eq_some_iff.mp stepped with ⟨pins, dropped, rfl⟩
  have list := Pins.dropBuf_sliceList dropped
  refine ⟨⟨flat.answered, ?_, ?_⟩, ?_⟩
  · intro idle
    rcases flat.idle idle with ⟨ended, holds⟩
    exact ⟨ended, holds.congr list rfl⟩
  · intro rest running
    rcases flat.busy rest running with ⟨c, called, midway⟩
    exact ⟨c, called, midway.congr list rfl⟩
  · simp only [Reader.stepsLeft, list, Reader.dropBuf_hand dropped]

theorem call {c : Call} (flat : s.Flat) (moved : s.step (.call c) = some t) : t.Flat := by
  rw [FlatState.step, Option.ite_none_right_eq_some, Option.map_eq_some_iff] at moved
  rcases moved with ⟨onQueue, reader, started, rfl⟩
  rw [Reader.step, Option.ite_none_right_eq_some] at started
  exact @settle { s with reader := reader, call := some c } c flat.answered rfl
    ((flat.idle started.1).2.call onQueue started.2)

theorem step {a : Action} (flat : s.Flat) (moved : s.step a = some t) : t.Flat := by
  cases a with
  | call c => exact flat.call moved
  | advance => exact (flat.advance moved).1
  | dropBuf i => exact (flat.dropBuf moved).1

/-- A running call ends: its steps are bounded, however drops come between. -/
theorem advances_le (flat : s.Flat) {actions : List Action}
    (ran : flatSystem.run (fun _ _ => True) s actions = some t)
    (noCall : forall c, Action.call c ∉ actions) :
    actions.count .advance <= s.reader.stepsLeft := by
  induction actions generalizing s with
  | nil => exact Nat.zero_le _
  | cons a rest ih =>
    rcases System.run_cons_eq_some ran with ⟨_, u, moved, remaining⟩
    have later : forall c, Action.call c ∉ rest := fun c member =>
      noCall c (List.mem_cons_of_mem _ member)
    cases a with
    | call c => exact absurd List.mem_cons_self (noCall c)
    | advance =>
      rcases flat.advance moved with ⟨flat', fewer⟩
      have few := ih flat' remaining later
      rw [List.count_cons_self]
      omega
    | dropBuf i =>
      rcases flat.dropBuf moved with ⟨flat', same⟩
      rw [List.count_cons_of_ne (by nofun), <- same]
      exact ih flat' remaining later

end Flat

theorem flat_of_reachable (reachable : flatSystem.Reachable s) : s.Flat := by
  refine reachable.invariant ?_ fun _ _ _ _ _ moved flat => flat.step moved
  rintro s rfl
  refine ⟨fun e member => absurd member List.not_mem_nil, fun _ => ⟨rfl, rfl, rfl⟩, ?_⟩
  intro rest running
  cases running

end FlatState

/-- Whatever calls were made and whenever their `Buf` values were dropped: every
call that ended answered as the flat queue of the bytes appended and not consumed
does, and between calls the buffer holds that queue and its length.  Every call can
be made between calls (a slice to be appended has its own memory), a running call
can always go on, and it takes no more than a fixed number of steps to end. -/
theorem linked_buffer_reads_like_flat_queue {s : FlatState}
    (reachable : flatSystem.Reachable s) :
    (∀ e ∈ s.ended, Answers e.queue e.value e.call) /\
    (s.reader.running = none ->
      s.reader.readable = s.queue /\ s.reader.len = s.queue.length /\
      forall c : Call, c.OnQueue ->
        (forall data cap isFromShm unread, c = .appendBufferSlice data cap isFromShm unread ->
          unread.length <= cap /\ s.reader.Separate data cap) ->
        (s.step (.call c)).isSome = true) /\
    (s.reader.running ≠ none -> (s.step .advance).isSome = true) /\
    Exists fun bound => forall actions t,
      flatSystem.run (fun _ _ => True) s actions = some t ->
      (forall c, Action.call c ∉ actions) -> actions.count .advance <= bound := by
  have flat := FlatState.flat_of_reachable reachable
  refine ⟨flat.answered, fun idle => ?_, fun busy => ?_, s.reader.stepsLeft, ?_⟩
  · rcases flat.idle idle with ⟨_, holds⟩
    refine ⟨holds.readable, holds.len, fun c onQueue placed => ?_⟩
    rw [FlatState.step, if_pos onQueue, Option.isSome_map, Reader.step, if_pos idle]
    exact Reader.call_isSome onQueue placed
  · rw [FlatState.step, Option.isSome_map, Reader.step, Reader.advance]
    cases running : s.reader.running with
    | none => exact absurd running busy
    | some rest =>
      dsimp only
      split <;> rfl
  · intro actions t ran noCall
    exact flat.advances_le ran noCall

/-- An empty slice from the socket, one of shared memory and one of the heap: four
bytes are read across the three, a peek for two finds too few, and the byte that is
left stays where it is. -/
theorem linked_buffer_reads_like_flat_queue_across :
    Exists fun s => flatSystem.Reachable s /\ s.reader.readable = [5] /\ s.reader.len = 1 /\
      s.ended.drop 3 =
        [⟨.readExactBytes 4, [1, 2, 3, 4, 5], .exm [1, 2, 3, 4]⟩, ⟨.peek 2, [5], .notEnoughData⟩] /\
      Answers [5] .notEnoughData (.peek 2) := by
  have found : Exists fun s => flatSystem.Reachable s /\
      (s.queue = [5] /\ s.reader.running = none /\ s.ended.drop 3 =
        [⟨.readExactBytes 4, [1, 2, 3, 4, 5], .exm [1, 2, 3, 4]⟩,
          ⟨.peek 2, [5], .notEnoughData⟩]) :=
    System.exists_reachable_of_run ⟨.new, [], none, []⟩
      [.call (.appendBufferSlice 1 0 false []), .call (.appendBufferSlice 100 8 true [1, 2, 3]),
        .call (.appendBufferSlice 200 2 false [4, 5]), .call (.readExactBytes 4), .advance,
        .advance, .advance, .advance, .call (.peek 2)] rfl (by decide +kernel)
  rcases found with ⟨s, reachable, queue, idle, ended⟩
  rcases linked_buffer_reads_like_flat_queue reachable with ⟨answered, between, _⟩
  rcases between idle with ⟨readable, len, _⟩
  rw [queue] at readable len
  refine ⟨s, reachable, readable, len, ended, answered ⟨.peek 2, [5], .notEnoughData⟩ ?_⟩
  refine List.mem_of_mem_drop (i := 3) ?_
  rw [ended]
  exact List.mem_cons_of_mem _ List.mem_cons_self

end Lease
end Pool
end Shmipc
