import Shmipc.Pool.LinkedShared
import Shmipc.Pool.Views

namespace Shmipc
namespace Pool

open ByteMemory Transition
open Buffer (bufferHeaderSize)

/-!
# Writes that go through or leave nothing

`reserve` tries the slice at the cursor, the one behind it, a fresh one from the pool
and at last one of ordinary memory, and counts the bytes before the last try.  The
pool is asked for a 32-bit size, and the capacity of a slice is a 32-bit word, while
the size of the request is not.  A request that is cut to zero on its way to an
exhausted pool is granted no slice at all.

Up to that the writes of a sender are all or nothing.  The pool is shared: other
users take and return buffers between any two calls.
-/

/-- What comes of `reserve`: it unwraps a slice that is missing, it returns
`Error::NoMoreBuffer` and leaves the buffer in some state, or it hands out the bytes
that end at the write index. -/
inductive ReserveOutcome
  | panicked
  | refused (buf : LinkedBuffer) (shm : Shm)
  | reserved (buf : LinkedBuffer) (shm : Shm)

def ReserveOutcome.toOption : ReserveOutcome -> Option (LinkedBuffer × Shm)
  | .reserved buf shm => some (buf, shm)
  | _ => none

namespace LinkedBuffer

/-- The end of `reserve`: the slice at the back is asked for the bytes, which are
counted before. -/
def reserveBack (size : Nat) (buf : LinkedBuffer) (shm : Shm) : ReserveOutcome :=
  let list := buf.sliceList.writeBack
  let buf := { buf with sliceList := list, len := buf.len + size }
  match list.write with
  | none => .panicked
  | some w =>
    match w.reserve size with
    | none => .refused buf shm
    | some w => .reserved { buf with sliceList := { list with write := some w } } shm

/-- The last try of `reserve`, a new slice at the back. -/
def tryReserveNew (bm : BufferManager) (size : Nat) (buf : LinkedBuffer) (shm : Shm) :
    ReserveOutcome :=
  match bm.allocShmBuffer (size % 2 ^ 32) shm with
  | (some slice, shm) => (buf.pushBack slice).reserveBack size shm
  | (none, shm) => (buf.pushHeap size).reserveBack size shm

/-- `reserve` with its errors and panics. -/
def tryReserve (bm : BufferManager) (size : Nat) (buf : LinkedBuffer) (shm : Shm) :
    ReserveOutcome :=
  let (buf, shm) := buf.ensureWrite bm size shm
  match buf.sliceList.write with
  | none => .panicked
  | some w =>
    match w.reserve size with
    | some w =>
      let list := { buf.sliceList with write := some w }
      .reserved { buf with sliceList := list, len := buf.len + size } shm
    | none =>
      match buf.sliceList.after.head?.bind fun e => e.reserve size with
      | some e =>
        let list := { buf.sliceList.writeNext with write := some e }
        .reserved { buf with sliceList := list, len := buf.len + size } shm
      | none => buf.tryReserveNew bm size shm

theorem toOption_tryReserveNew (bm : BufferManager) (size : Nat) (buf : LinkedBuffer)
    (shm : Shm) : (buf.tryReserveNew bm size shm).toOption = buf.reserveNew bm size shm := by
  have atBack : forall (buf : LinkedBuffer) (shm : Shm), (buf.reserveBack size shm).toOption =
      (buf.sliceList.writeBack.write.bind fun w => w.reserve size).map fun w =>
        (({ buf with
            sliceList := { buf.sliceList.writeBack with write := some w }
            len := buf.len + size } : LinkedBuffer), shm) := by
    intro buf shm
    unfold reserveBack
    dsimp only
    cases buf.sliceList.writeBack.write with
    | none => rfl
    | some w =>
      dsimp only [Option.bind_some]
      cases w.reserve size <;> rfl
  unfold tryReserveNew reserveNew
  rcases bm.allocShmBuffer (size % 2 ^ 32) shm with ⟨answer, shm'⟩
  cases answer with
  | none => exact atBack _ _
  | some slice => exact atBack _ _

theorem toOption_tryReserve (bm : BufferManager) (size : Nat) (buf : LinkedBuffer) (shm : Shm) :
    (buf.tryReserve bm size shm).toOption = buf.reserve bm size shm := by
  unfold tryReserve reserve
  rcases buf.ensureWrite bm size shm with ⟨ready, shm'⟩
  dsimp only
  cases ready.sliceList.write with
  | none => rfl
  | some w =>
    dsimp only [Option.bind_some]
    cases w.reserve size with
    | some w => rfl
    | none =>
      dsimp only
      cases ready.sliceList.after.head?.bind fun e => e.reserve size with
      | some e => rfl
      | none => exact toOption_tryReserveNew bm size ready shm'

end LinkedBuffer

/-- The call returned `size` bytes behind all that was written, whatever is left in
them, or an error that changed nothing. -/
def ReserveOutcome.AllOrNothing (before : LinkedBuffer) (mem : Memory) (size : Nat) :
    ReserveOutcome -> Prop
  | .panicked => False
  | .refused buf shm => buf.len = before.len /\ buf.contents shm.mem = before.contents mem
  | .reserved buf shm =>
    buf.len = before.len + size /\
    (Exists fun w => buf.sliceList.write = some w /\ size <= w.writeIndex /\
      w.writeIndex <= w.cap) /\
    forall bytes : List UInt8, bytes.length = size ->
      (buf.fillReserved bytes shm).1.contents (buf.fillReserved bytes shm).2.mem =
        before.contents mem ++ bytes

/-! ## Runs -/

/-- A list has a buffer that it can give away: it is not the last one, and the first
one lies in its region. -/
def BufferList.Spares (l : BufferList) (mem : Memory) : Prop :=
  1 < readSigned mem l.size 4 /\
    (readWord mem l.head 4 + bufferHeaderSize + readWord mem l.capPerBuffer 4) % 2 ^ 32 <=
      l.bufferRegionLen

instance (l : BufferList) (mem : Memory) : Decidable (l.Spares mem) :=
  inferInstanceAs (Decidable (_ /\ _))

def BufferManager.Spares (bm : BufferManager) (mem : Memory) : Prop :=
  ∃ l ∈ bm.lists, l.Spares mem

instance (bm : BufferManager) (mem : Memory) : Decidable (bm.Spares mem) :=
  inferInstanceAs (Decidable (∃ l ∈ bm.lists, l.Spares mem))

/-- The sizes that go through: a request for bytes is a 32-bit size, and one for no
bytes finds a slice at the cursor or a buffer in the pool. -/
def LinkedBuffer.Reservable (bm : BufferManager) (buf : LinkedBuffer) (mem : Memory)
    (size : Nat) : Prop :=
  size < 2 ^ 32 /\ (size = 0 -> buf.sliceList.write.isSome = true \/ bm.Spares mem)

instance (bm : BufferManager) (buf : LinkedBuffer) (mem : Memory) (size : Nat) :
    Decidable (buf.Reservable bm mem size) :=
  inferInstanceAs (Decidable (_ /\ _))

/-- The pool with the slices of all others, and one buffer that is written to. -/
structure WriteState where
  pool : PoolState
  buf : LinkedBuffer
  written : List UInt8

/-- A reservation leaves `bytes` in what it gets. -/
inductive WriteAction
  | reserve (bytes : List UInt8)
  | writeBytes (bytes : List UInt8)
  | done
  | recycle
  | clean
  | other (action : PoolAction)

namespace WriteState

def step (views : Side -> BufferManager) (side : Side) (s : WriteState) :
    WriteAction -> Option WriteState
  | .reserve bytes =>
    match s.buf.tryReserve (views side) bytes.length s.pool.shm with
    | .panicked => none
    | .refused buf shm => some { s with pool := { s.pool with shm := shm }, buf := buf }
    | .reserved buf shm =>
      let (buf, shm) := buf.fillReserved bytes shm
      some ⟨{ s.pool with shm := shm }, buf, s.written ++ bytes⟩
  | .writeBytes bytes =>
    (s.buf.writeBytes (views side) bytes s.pool.shm).map fun (buf, shm) =>
      ⟨{ s.pool with shm := shm }, buf, s.written ++ bytes⟩
  | .done =>
    let (buf, shm) := s.buf.done (views side) s.pool.shm
    some { s with pool := { s.pool with shm := shm }, buf := buf }
  | .recycle =>
    let (buf, shm) := s.buf.recycle (views side) s.pool.shm
    some ⟨{ s.pool with shm := shm }, buf, []⟩
  | .clean =>
    -- the slices from the pool belong to others from now on
    let held := s.buf.sliceList.toList.filter BufferSlice.isFromShm ++ s.pool.held
    some ⟨{ s.pool with held := held }, s.buf.clean, []⟩
  | .other action => (s.pool.step views action).map fun pool => { s with pool := pool }

/-- The runs in which every write has such a size. -/
def Sized (views : Side -> BufferManager) (side : Side) (s : WriteState) : WriteAction -> Prop
  | .reserve bytes => s.buf.Reservable (views side) s.pool.shm.mem bytes.length
  | .writeBytes bytes => bytes.length < 2 ^ 32
  | _ => True

instance (views : Side -> BufferManager) (side : Side) (s : WriteState) :
    (action : WriteAction) -> Decidable (s.Sized views side action)
  | .reserve bytes =>
    inferInstanceAs (Decidable (s.buf.Reservable (views side) s.pool.shm.mem bytes.length))
  | .writeBytes bytes => inferInstanceAs (Decidable (bytes.length < 2 ^ 32))
  | .done => isTrue trivial
  | .recycle => isTrue trivial
  | .clean => isTrue trivial
  | .other _ => isTrue trivial

end WriteState

/-- One buffer of one side over a pool in use. -/
def writeSystem (views : Side -> BufferManager) (side : Side) (pool : PoolState) :
    System WriteState WriteAction where
  init s := s = ⟨pool, .new, []⟩
  step := WriteState.step views side

/-! ## What the pool can give -/

namespace Represents

variable {layout : PoolLayout} {shm : Shm} {ledger : Ledger} {g : ListLayout}

theorem ready_iff_spares (rep : Represents layout shm ledger) (inside : g ∈ layout.lists)
    (side : Side) : ledger.Ready g <-> (g.view side).Spares shm.mem := by
  have cap : readWord shm.mem (g.offset + 16) 4 = g.cap := rep.capPerBuffer_eq inside
  have stride : readWord shm.mem (g.offset + 8) 4 + g.stride =
      readWord shm.mem (g.offset + 8) 4 + bufferHeaderSize + g.cap := by
    simp only [ListLayout.stride]
    omega
  constructor
  · intro ready
    by_contra none
    have refused : (ListHeader.read shm.mem g.offset).size <= 1 \/
        g.regionLen < ((ListHeader.read shm.mem g.offset).head + g.stride) % 2 ^ 32 := by
      rw [BufferList.Spares, not_and_or, not_lt, not_le] at none
      simp only [ListLayout.view, cap] at none
      simp only [ListHeader.read, stride]
      exact none
    have result := BufferList.pop_refused side (rep.capPerBuffer_eq inside) refused
    rcases rep.pop_cases inside side with ⟨missing, _⟩ | ⟨_, b, shm', taken, _⟩
    · exact missing ready
    · rw [result] at taken
      cases taken
  · intro spares
    by_contra missing
    have refused := rep.refuses_of_not_ready inside missing
    simp only [ListHeader.read, stride] at refused
    simp only [BufferList.Spares, ListLayout.view, cap] at spares
    omega

theorem popFirst_zero (rep : Represents layout shm ledger) (side : Side) {lists : List ListLayout}
    (known : lists ⊆ layout.lists) :
    (BufferManager.popFirst 0 (lists.map fun g => g.view side) shm).1 = none <->
      ∀ g ∈ lists, ¬ (g.view side).Spares shm.mem := by
  induction lists with
  | nil => exact ⟨fun _ _ none => absurd none List.not_mem_nil, fun _ => rfl⟩
  | cons g rest ih =>
    have inside := known List.mem_cons_self
    have later := ih fun _ member => known (List.mem_cons_of_mem _ member)
    rw [List.map_cons, BufferManager.popFirst, if_pos (Nat.zero_le _), List.forall_mem_cons,
      <- rep.ready_iff_spares inside side]
    rcases rep.pop_cases inside side with ⟨missing, result⟩ | ⟨ready, b, shm', result, _⟩
    · rw [result]
      exact later.trans (and_iff_right missing).symm
    · rw [result]
      exact iff_of_false (Option.some_ne_none _) fun none => none.1 ready

theorem allocShmBuffer_zero (rep : Represents layout shm ledger) (side : Side) :
    ((layout.view side).allocShmBuffer 0 shm).1 = none <->
      ¬ (layout.view side).Spares shm.mem := by
  rw [BufferManager.allocShmBuffer, if_pos (Nat.zero_le _)]
  refine (rep.popFirst_zero side (List.Subset.refl _)).trans ?_
  constructor
  · rintro none ⟨l, member, spares⟩
    rcases List.mem_map.mp member with ⟨g, inside, rfl⟩
    exact none g inside spares
  · intro none g inside spares
    exact none ⟨g.view side, List.mem_map.mpr ⟨g, inside, rfl⟩, spares⟩

end Represents

/-! ## What a reservation does -/

namespace BufferSlice

theorem reserve_eq_some {w w' : BufferSlice} {size : Nat} (got : w.reserve size = some w') :
    size <= w.remain /\ w' = { w with writeIndex := w.writeIndex + size } := by
  rw [reserve, Option.ite_none_right_eq_some, Option.some.injEq] at got
  exact ⟨got.1, got.2.symm⟩

/-- The capacity of a slice is a 32-bit word, so it has no room for more. -/
theorem reserve_large {w : BufferSlice} {size : Nat} (narrow : w.cap < 2 ^ 32)
    (large : 2 ^ 32 <= size) : w.reserve size = none := by
  rw [reserve, remain, if_neg (by omega)]

end BufferSlice

namespace LinkedBuffer

variable {bm : BufferManager} {size : Nat} {buf ready : LinkedBuffer} {shm shm' : Shm}

theorem ensureWrite_nothing (bm : BufferManager) (shm : Shm) (new : buf.sliceList = .new) :
    (Exists fun slice => Exists fun shm' => bm.allocShmBuffer 0 shm = (some slice, shm') /\
      buf.ensureWrite bm 0 shm = ({ buf with sliceList := ⟨[], some slice, []⟩ }, shm')) \/
    (Exists fun shm' => bm.allocShmBuffer 0 shm = (none, shm') /\
      buf.ensureWrite bm 0 shm = (buf, shm')) := by
  rcases buf with ⟨list, fromShm, len⟩
  cases new
  unfold ensureWrite alloc
  dsimp only [SliceList.new, Option.isNone_none, Nat.zero_mod]
  rcases answer : bm.allocShmBuffer 0 shm with ⟨reply, shm'⟩
  cases reply with
  | some slice => exact Or.inl ⟨slice, shm', rfl, rfl⟩
  | none =>
    have nothing : bm.allocShmBuffers 0 shm' = ([], 0, shm') := by
      unfold BufferManager.allocShmBuffers
      cases bm.lists.reverse <;> rfl
    refine Or.inr ⟨shm', rfl, ?_⟩
    simp only [nothing]
    rfl

theorem reserveBack_cases {slice : BufferSlice} {list : SliceList} (size : Nat) (shm : Shm)
    (pushed : buf.sliceList = list.pushBack slice) :
    (Exists fun last => slice.reserve size = none /\
      buf.reserveBack size shm = .refused last shm /\ last.len = buf.len + size) \/
    (Exists fun w => Exists fun last => slice.reserve size = some w /\
      buf.reserveBack size shm = .reserved last shm /\ last.sliceList.write = some w) := by
  have cursor : buf.sliceList.writeBack.write = some slice := by
    rw [pushed, SliceList.writeBack_pushBack]
  unfold reserveBack
  dsimp only
  rw [cursor]
  dsimp only
  cases slice.reserve size with
  | none => exact Or.inl ⟨_, rfl, rfl, rfl⟩
  | some w => exact Or.inr ⟨w, _, rfl, rfl, rfl⟩

theorem tryReserveNew_cases (bm : BufferManager) (size : Nat) (buf : LinkedBuffer) (shm : Shm) :
    Exists fun slice => Exists fun shm' =>
      (bm.allocShmBuffer (size % 2 ^ 32) shm = (some slice, shm') \/
        slice = heapSlice (max size defaultSingleBufferSize)) /\
      ((Exists fun last => slice.reserve size = none /\
          buf.tryReserveNew bm size shm = .refused last shm' /\ last.len = buf.len + size) \/
        (Exists fun w => Exists fun last => slice.reserve size = some w /\
          buf.tryReserveNew bm size shm = .reserved last shm' /\
          last.sliceList.write = some w)) := by
  unfold tryReserveNew
  rcases bm.allocShmBuffer (size % 2 ^ 32) shm with ⟨reply, shm'⟩
  cases reply with
  | none => exact ⟨_, shm', Or.inr rfl, reserveBack_cases size shm' rfl⟩
  | some slice => exact ⟨slice, shm', Or.inl rfl, reserveBack_cases size shm' rfl⟩

/-- A reservation panics, is granted by a slice that is there, or comes to the last
try. -/
theorem tryReserve_cases (ensured : buf.ensureWrite bm size shm = (ready, shm')) :
    (ready.sliceList.write = none /\ buf.tryReserve bm size shm = .panicked) \/
    (∃ slice ∈ ready.sliceList.toList, Exists fun w => Exists fun last =>
      slice.reserve size = some w /\ buf.tryReserve bm size shm = .reserved last shm' /\
      last.sliceList.write = some w) \/
    buf.tryReserve bm size shm = ready.tryReserveNew bm size shm' := by
  unfold tryReserve
  rw [ensured]
  dsimp only
  cases cursor : ready.sliceList.write with
  | none => exact Or.inl ⟨rfl, rfl⟩
  | some w =>
    right
    dsimp only
    cases here : w.reserve size with
    | some w' =>
      refine Or.inl ⟨w, ?_, w', _, here, rfl, rfl⟩
      simp [SliceList.toList, cursor]
    | none =>
      dsimp only
      cases ahead : ready.sliceList.after with
      | nil => exact Or.inr rfl
      | cons e rest =>
        rw [List.head?_cons, Option.bind_some]
        cases there : e.reserve size with
        | some e' =>
          refine Or.inl ⟨e, ?_, e', _, there, rfl, rfl⟩
          simp [SliceList.toList, ahead]
        | none => exact Or.inr rfl

theorem room_of_reserved {last : LinkedBuffer} {shm'' : Shm}
    (result : buf.tryReserve bm size shm = .reserved last shm'') :
    Exists fun w => last.sliceList.write = some w /\ size <= w.writeIndex := by
  have granted : forall {slice w : BufferSlice}, slice.reserve size = some w ->
      size <= w.writeIndex := by
    intro slice w got
    rw [(BufferSlice.reserve_eq_some got).2]
    exact Nat.le_add_left ..
  rcases ensured : buf.ensureWrite bm size shm with ⟨ready, shm'⟩
  rcases tryReserve_cases ensured with
    ⟨_, panicked⟩ | ⟨slice, _, w, last', got, reserved, cursor⟩ | later
  · rw [panicked] at result
    cases result
  · rw [reserved] at result
    cases result
    exact ⟨w, cursor, granted got⟩
  · rw [later] at result
    rcases tryReserveNew_cases bm size ready shm' with
      ⟨slice, _, _, ⟨_, _, refused, _⟩ | ⟨w, last', got, reserved, cursor⟩⟩
    · rw [refused] at result
      cases result
    · rw [reserved] at result
      cases result
      exact ⟨w, cursor, granted got⟩

theorem fillReserved_room {w : BufferSlice} (bytes : List UInt8)
    (cursor : buf.sliceList.write = some w) :
    (buf.fillReserved bytes shm).1.len = buf.len /\
    Exists fun w' => (buf.fillReserved bytes shm).1.sliceList.write = some w' /\
      w'.writeIndex = w.writeIndex /\ w'.cap = w.cap := by
  unfold fillReserved
  rw [cursor]
  refine ⟨rfl, _, rfl, ?_⟩
  unfold BufferSlice.store
  split <;> exact ⟨rfl, rfl⟩

theorem ensureWrite_mod (bm : BufferManager) (size : Nat) (buf : LinkedBuffer) (shm : Shm) :
    buf.ensureWrite bm (size % 2 ^ 32) shm = buf.ensureWrite bm size shm := by
  unfold ensureWrite
  rw [Nat.mod_mod]

end LinkedBuffer

namespace Sending

variable {layout : PoolLayout} {custody : Custody layout} {shm : Shm} {buf : LinkedBuffer}
  {written : List UInt8} {size : Nat} {side : Side}

theorem narrow (sending : Sending custody buf shm written) :
    ∀ slice ∈ buf.sliceList.toList, slice.cap < 2 ^ 32 := by
  rcases sending.filled with ⟨_, filled⟩
  exact fun slice member => (filled.writable slice member).cap_lt

theorem ensureWrite_zero (sending : Sending custody buf shm written) (side : Side)
    (new : buf.sliceList = .new) :
    (buf.ensureWrite (layout.view side) 0 shm).1.sliceList.write = none <->
      ¬ (layout.view side).Spares shm.mem := by
  rcases sending.filled with ⟨ledger, filled⟩
  rw [<- (custody.rep filled.owned).allocShmBuffer_zero side]
  rcases LinkedBuffer.ensureWrite_nothing (layout.view side) shm new with
    ⟨slice, shm', answer, ensured⟩ | ⟨shm', answer, ensured⟩
  · rw [ensured, answer]
  · rw [ensured, answer, new]
    exact iff_of_true rfl rfl

theorem writeBytes_missing {bytes : List UInt8} (some : bytes ≠ [])
    (missing : (buf.ensureWrite (layout.view side) bytes.length shm).1.sliceList.write = none) :
    buf.writeBytes (layout.view side) bytes shm = none := by
  rw [LinkedBuffer.writeBytes, if_neg (by simpa using some)]
  simp only [LinkedBuffer.writeLoop, missing, Option.bind_none, Option.map_none]

/-- A request for more than a 32-bit size counts bytes that it does not get, or
panics if there was no slice. -/
theorem tryReserve_large (sending : Sending custody buf shm written) (side : Side)
    (start : buf.sliceList.write = none -> buf.sliceList = .new) (large : 2 ^ 32 <= size) :
    (buf.sliceList.write = none /\ buf.tryReserve (layout.view side) size shm = .panicked) \/
    Exists fun last => Exists fun shm' =>
      buf.tryReserve (layout.view side) size shm = .refused last shm' /\
      last.len = buf.len + size := by
  rcases sending.ensureWrite side start (Nat.mod_lt size (Nat.two_pow_pos 32)) with
    ⟨ready, shm', ensured, after, len, _⟩
  rw [LinkedBuffer.ensureWrite_mod] at ensured
  rcases LinkedBuffer.tryReserve_cases ensured with
    ⟨none, panicked⟩ | ⟨slice, member, w, _, got, _⟩ | later
  · refine Or.inl ⟨?_, panicked⟩
    cases cursor : buf.sliceList.write with
    | none => rfl
    | some w =>
      rw [LinkedBuffer.ensureWrite, cursor] at ensured
      cases ensured
      rw [cursor] at none
      cases none
  · rw [BufferSlice.reserve_large (after.narrow slice member) large] at got
    cases got
  · rw [later]
    rcases LinkedBuffer.tryReserveNew_cases (layout.view side) size ready shm' with
      ⟨slice, shm'', source, ⟨last, _, refused, counted⟩ | ⟨w, _, got, _⟩⟩
    · exact Or.inr ⟨last, shm'', refused, counted.trans (congrArg (· + size) len)⟩
    · have narrow : slice.cap < 2 ^ 32 := by
        rcases source with given | rfl
        · rcases after.allocShmBuffer_cases side (size % 2 ^ 32) with
            none | ⟨_, _, result, _, _, pushed⟩
          · rw [none] at given
            cases given
          · rw [result] at given
            cases given
            exact pushed.narrow slice (by
              simp [LinkedBuffer.pushBack, SliceList.pushBack, SliceList.toList])
        · exact Nat.mod_lt _ (Nat.two_pow_pos 32)
      rw [BufferSlice.reserve_large narrow large] at got
      cases got

end Sending

namespace Pending

variable {layout : PoolLayout} {custody : Custody layout} {shm : Shm} {buf : LinkedBuffer}
  {written : List UInt8} {size : Nat}

theorem contents_eq (pending : Pending custody buf shm written) :
    buf.contents shm.mem = written := by
  rcases pending.sending.filled with ⟨_, filled⟩
  exact filled.contents

theorem ready (pending : Pending custody buf shm written) (side : Side)
    (fits : buf.Reservable (layout.view side) shm.mem size) :
    Exists fun ready => Exists fun shm' => Exists fun w =>
      buf.ensureWrite (layout.view side) size shm = (ready, shm') /\
      ready.sliceList.write = some w := by
  rcases pending.sending.ensureWrite side pending.start fits.1 with
    ⟨ready, shm', ensured, _, _, ⟨w, cursor⟩ | ⟨zero, none⟩⟩
  · exact ⟨ready, shm', w, ensured, cursor⟩
  · subst zero
    cases there : buf.sliceList.write with
    | some w =>
      have same : buf.ensureWrite (layout.view side) 0 shm = (buf, shm) := by
        rw [LinkedBuffer.ensureWrite, there]
        rfl
      exact ⟨buf, shm, w, same, there⟩
    | none =>
      have missing := (pending.sending.ensureWrite_zero side (pending.start there)).mp
        (by rw [ensured]; exact none)
      rcases fits.2 rfl with some | spares
      · rw [there] at some
        cases some
      · exact absurd spares missing

theorem reserve_returns (pending : Pending custody buf shm written) (side : Side)
    (bytes : List UInt8) (fits : buf.Reservable (layout.view side) shm.mem bytes.length) :
    Exists fun last => Exists fun shm' =>
      buf.call (layout.view side) (.reserve bytes) shm = some (last, shm') := by
  cases bytes with
  | cons byte bytes =>
    have some : 0 < (byte :: bytes).length := Nat.succ_pos _
    rcases pending.sending.reserve side pending.start some fits.1 with
      ⟨last, shm', result, _⟩
    exact ⟨last, shm', result⟩
  | nil =>
    rcases pending.ready side fits with ⟨ready, shm', w, ensured, cursor⟩
    have result : buf.reserve (layout.view side) 0 shm = some
        ({ ready with
            sliceList := { ready.sliceList with write := some { w with
              writeIndex := w.writeIndex + 0 } }
            len := ready.len + 0 }, shm') := by
      rw [LinkedBuffer.reserve, <- List.length_nil, ensured]
      simp only [cursor, Option.bind_some, BufferSlice.reserve, List.length_nil, Nat.zero_le,
        if_true]
    exact ⟨_, _, congrArg (Option.map _) result⟩

theorem reserved (pending : Pending custody buf shm written) (side : Side)
    (fits : buf.Reservable (layout.view side) shm.mem size) :
    Exists fun last => Exists fun shm' =>
      buf.tryReserve (layout.view side) size shm = .reserved last shm' /\
      forall bytes : List UInt8, bytes.length = size ->
        Pending custody (last.fillReserved bytes shm').1 (last.fillReserved bytes shm').2
          (written ++ bytes) := by
  have asked := LinkedBuffer.toOption_tryReserve (layout.view side) size buf shm
  rcases pending.reserve_returns side (List.replicate size 0)
    (by rw [List.length_replicate]; exact fits) with ⟨_, _, returned⟩
  rw [LinkedBuffer.call, List.length_replicate] at returned
  rcases Option.map_eq_some_iff.mp returned with ⟨⟨last, shm'⟩, result, _⟩
  rw [result] at asked
  refine ⟨last, shm', ?_, ?_⟩
  · cases outcome : buf.tryReserve (layout.view side) size shm with
    | panicked | refused _ _ =>
      rw [outcome] at asked
      cases asked
    | reserved _ _ =>
      rw [outcome] at asked
      cases asked
      rfl
  · intro bytes length
    subst length
    refine pending.call side (c := .reserve bytes) fits.1 ?_
    rw [LinkedBuffer.call, result]
    rfl

theorem allOrNothing (pending : Pending custody buf shm written) (side : Side)
    (fits : buf.Reservable (layout.view side) shm.mem size) :
    (buf.tryReserve (layout.view side) size shm).AllOrNothing buf shm.mem size := by
  rcases pending.reserved side fits with ⟨last, shm', outcome, after⟩
  rcases LinkedBuffer.room_of_reserved outcome with ⟨w, cursor, room⟩
  have sample := after (List.replicate size 0) List.length_replicate
  rcases @LinkedBuffer.fillReserved_room last shm' w (List.replicate size 0) cursor with
    ⟨len, w', cursor', index, cap⟩
  rw [outcome]
  refine ⟨?_, ⟨w, cursor, room, ?_⟩, fun bytes length => ?_⟩
  · rw [<- len, sample.len, pending.len, List.length_append, List.length_replicate]
  · rcases sample.sending.filled with ⟨_, filled⟩
    rw [<- index, <- cap]
    refine (filled.writable w' ?_).writeIndex
    simp [SliceList.toList, cursor']
  · rw [(after bytes length).contents_eq, pending.contents_eq]

theorem allOrNothing_iff (pending : Pending custody buf shm written) (side : Side) :
    (buf.tryReserve (layout.view side) size shm).AllOrNothing buf shm.mem size <->
      buf.Reservable (layout.view side) shm.mem size := by
  refine ⟨fun good => ?_, pending.allOrNothing side⟩
  by_contra unfit
  rw [LinkedBuffer.Reservable, not_and_or] at unfit
  rcases unfit with large | nothing
  · rcases pending.sending.tryReserve_large side pending.start (Nat.le_of_not_lt large) with
      ⟨_, panicked⟩ | ⟨last, shm', refused, counted⟩
    · rw [panicked] at good
      exact good
    · rw [refused] at good
      have unchanged : last.len = buf.len := good.1
      omega
  · rw [Classical.not_imp, not_or] at nothing
    rcases nothing with ⟨rfl, missing, none⟩
    have new := pending.start (by simpa using missing)
    have cursor := (pending.sending.ensureWrite_zero side new).mpr none
    rw [LinkedBuffer.tryReserve] at good
    simp only [cursor] at good
    exact good

theorem writeBytes_returns (pending : Pending custody buf shm written) (side : Side)
    {bytes : List UInt8} (small : bytes.length < 2 ^ 32) :
    Exists fun last => Exists fun shm' =>
      buf.writeBytes (layout.view side) bytes shm = some (last, shm') /\
      Pending custody last shm' (written ++ bytes) := by
  have returns : Exists fun last => Exists fun shm' =>
      buf.call (layout.view side) (.writeBytes bytes) shm = some (last, shm') := by
    cases bytes with
    | nil => exact ⟨buf, shm, rfl⟩
    | cons byte bytes =>
      have some : 0 < (byte :: bytes).length := Nat.succ_pos _
      rcases pending.sending.writeBytes side pending.start some small with
        ⟨last, shm', result, _⟩
      exact ⟨last, shm', result⟩
  rcases returns with ⟨last, shm', result⟩
  exact ⟨last, shm', result, pending.call side (c := .writeBytes bytes) small result⟩

end Pending

/-! ## Whole runs -/

namespace WriteState

variable {layout : PoolLayout} {side : Side} {s t : WriteState}

theorem step_withMessage {action : WriteAction}
    (both : s.pool.WithMessage layout s.buf s.written) (sized : s.Sized layout.view side action)
    (moved : s.step layout.view side action = some t) :
    t.pool.WithMessage layout t.buf t.written := by
  cases action with
  | reserve bytes =>
    rcases both.pending.reserved side sized with ⟨last, shm, outcome, after⟩
    simp only [step, outcome, Option.some.injEq] at moved
    subst moved
    exact both.of_pending (after bytes rfl)
  | writeBytes bytes =>
    rcases both.pending.writeBytes_returns side sized with ⟨last, shm, result, after⟩
    simp only [step, result, Option.map_some, Option.some.injEq] at moved
    subst moved
    exact both.of_pending after
  | done =>
    cases moved
    exact both.of_pending (both.pending.done side)
  | recycle =>
    cases moved
    exact both.of_pending (both.pending.recycle side)
  | clean =>
    cases moved
    rcases both.setAside with ⟨ledger, inv⟩
    exact PoolState.WithMessage.of_inv inv
  | other action =>
    rcases Option.map_eq_some_iff.mp moved with ⟨pool, stepped, rfl⟩
    exact both.step stepped

theorem withMessage_of_reachable {pool : PoolState} {ledger : Ledger}
    (inv : PoolInv layout pool ledger)
    (reachable : (writeSystem layout.view side pool).ReachableUnder (Sized layout.view side) s) :
    s.pool.WithMessage layout s.buf s.written := by
  refine reachable.invariant ?_ fun _ _ _ _ sized moved both => step_withMessage both sized moved
  rintro s rfl
  exact PoolState.WithMessage.of_inv inv

end WriteState

/-- In every run whose writes have sizes that go through, over any state of the pool:
the buffer holds and counts what was written, a reservation is all or nothing for
exactly these sizes, and a write of a 32-bit size appends its bytes. -/
theorem writes_all_or_nothing {layout : PoolLayout} {side : Side} {pool : PoolState}
    {ledger : Ledger} {s : WriteState} (inv : PoolInv layout pool ledger)
    (reachable : (writeSystem layout.view side pool).ReachableUnder
      (WriteState.Sized layout.view side) s) :
    s.buf.contents s.pool.shm.mem = s.written /\ s.buf.len = s.written.length /\
    (forall size,
      (s.buf.tryReserve (layout.view side) size s.pool.shm).AllOrNothing s.buf s.pool.shm.mem
          size <->
        s.buf.Reservable (layout.view side) s.pool.shm.mem size) /\
    forall bytes : List UInt8, bytes.length < 2 ^ 32 -> Exists fun buf => Exists fun shm =>
      s.buf.writeBytes (layout.view side) bytes s.pool.shm = some (buf, shm) /\
      buf.len = s.buf.len + bytes.length /\
      buf.contents shm.mem = s.buf.contents s.pool.shm.mem ++ bytes := by
  have pending := (WriteState.withMessage_of_reachable inv reachable).pending
  refine ⟨pending.contents_eq, pending.len, fun size => pending.allOrNothing_iff side, ?_⟩
  intro bytes small
  rcases pending.writeBytes_returns side small with ⟨last, shm, result, after⟩
  refine ⟨last, shm, result, ?_, ?_⟩
  · rw [after.len, pending.len, List.length_append]
  · rw [after.contents_eq, pending.contents_eq]

/-- A pool that has no buffer to spare, and a stream that has written three bytes. -/
theorem exists_exhausted :
    Exists fun layout : PoolLayout => Exists fun mem =>
      BufferManager.create [⟨16, 100⟩] 100 0 (fun _ => 0) = .ok (layout.view .creator, mem) /\
      BufferManager.mapping 100 0 mem = .ok (layout.view .mapper) /\
      PoolInv layout ⟨⟨mem, []⟩, []⟩ layout.initialLedger /\
      ¬ (layout.view .creator).Spares mem /\
      Exists fun s => (writeSystem layout.view .creator ⟨⟨mem, []⟩, []⟩).ReachableUnder
          (WriteState.Sized layout.view .creator) s /\
        s.written = [1, 2, 3] /\ s.buf.sliceList.write.isSome = true := by
  have test : (BufferManager.create [⟨16, 100⟩] 100 0 (fun _ => 0)).toOption.any (fun pool =>
      (BufferManager.mapping 100 0 pool.2).toOption.any fun peer =>
        decide (¬ pool.1.Spares pool.2) &&
        ((writeSystem (viewsOf pool.1 peer) .creator ⟨⟨pool.2, []⟩, []⟩).run
          (WriteState.Sized (viewsOf pool.1 peer) .creator) ⟨⟨⟨pool.2, []⟩, []⟩, .new, []⟩
          [.writeBytes [1, 2], .done, .reserve [3]]).any fun s =>
            decide (s.written = [1, 2, 3] /\ s.buf.sliceList.write.isSome = true)) = true := by
    decide +kernel
  rcases Transition.exists_ok_of_any test with ⟨⟨bm, mem⟩, created, test⟩
  rcases inUse_of_created (by decide) (by decide) (by decide) created with
    ⟨layout, rfl, mapped, inUse⟩
  simp only [Except.toOption, Option.any_some, mapped, viewsOf_layout, Bool.and_eq_true,
    decide_eq_true_eq] at test
  rcases test with ⟨exhausted, ran⟩
  rcases System.exists_run_of_any ran with ⟨s, ran, written, cursor⟩
  have reached := System.reachable_run (.start rfl) ran
  exact ⟨layout, mem, created, mapped, inUse, exhausted, s, reached, written, cursor⟩

/-- On a pool that has no buffer to spare, bytes are written to ordinary memory and a
reservation for nothing finds the slice that is there. -/
theorem writes_all_or_nothing_exhausted :
    Exists fun bm => Exists fun mem => Exists fun peer =>
      BufferManager.create [⟨16, 100⟩] 100 0 (fun _ => 0) = .ok (bm, mem) /\
      BufferManager.mapping 100 0 mem = .ok peer /\ ¬ bm.Spares mem /\
      Exists fun s => (writeSystem (viewsOf bm peer) .creator ⟨⟨mem, []⟩, []⟩).ReachableUnder
          (WriteState.Sized (viewsOf bm peer) .creator) s /\
        s.buf.contents s.pool.shm.mem = [1, 2, 3] /\ s.buf.len = 3 /\
        (s.buf.tryReserve (viewsOf bm peer .creator) 0 s.pool.shm).AllOrNothing s.buf
          s.pool.shm.mem 0 := by
  rcases exists_exhausted with
    ⟨layout, mem, created, mapped, inUse, exhausted, s, reached, written, cursor⟩
  rcases writes_all_or_nothing inUse reached with ⟨contents, len, reserve, _⟩
  rw [written] at contents len
  refine ⟨_, mem, _, created, mapped, exhausted, s, ?_, contents, len, ?_⟩
  · rw [viewsOf_layout]
    exact reached
  · exact (reserve 0).mpr ⟨by decide, fun _ => Or.inl cursor⟩

/-- On the same pool a reservation for nothing and a write of 4 GiB unwrap a slice that
is missing.  Behind three bytes a reservation of 4 GiB fails and is counted. -/
theorem reserve_unwraps_missing_slice :
    Exists fun bm => Exists fun mem => Exists fun peer =>
      BufferManager.create [⟨16, 100⟩] 100 0 (fun _ => 0) = .ok (bm, mem) /\
      BufferManager.mapping 100 0 mem = .ok peer /\
      LinkedBuffer.tryReserve bm 0 .new ⟨mem, []⟩ = .panicked /\
      LinkedBuffer.writeBytes bm (List.replicate (2 ^ 32) 0) .new ⟨mem, []⟩ = none /\
      Exists fun s => (writeSystem (viewsOf bm peer) .creator ⟨⟨mem, []⟩, []⟩).ReachableUnder
          (WriteState.Sized (viewsOf bm peer) .creator) s /\ s.buf.len = 3 /\
        Exists fun last => Exists fun shm =>
          s.buf.tryReserve bm (2 ^ 32) s.pool.shm = .refused last shm /\
          last.len = 3 + 2 ^ 32 := by
  rcases exists_exhausted with
    ⟨layout, mem, created, mapped, inUse, exhausted, s, reached, written, cursor⟩
  have fresh := (PoolState.WithMessage.of_inv inUse).pending
  have pending := (WriteState.withMessage_of_reachable inUse reached).pending
  have missing := (fresh.sending.ensureWrite_zero .creator rfl).mpr exhausted
  have none : forall size, size % 2 ^ 32 = 0 ->
      (LinkedBuffer.ensureWrite (layout.view .creator) size .new ⟨mem, []⟩).1.sliceList.write =
        none := by
    intro size multiple
    rw [<- LinkedBuffer.ensureWrite_mod, multiple]
    exact missing
  refine ⟨_, mem, _, created, mapped, ?_, ?_, s, ?_, ?_, ?_⟩
  · rw [LinkedBuffer.tryReserve]
    simp only [none 0 rfl]
  · apply Sending.writeBytes_missing
    · intro empty
      have length := congrArg List.length empty
      rw [List.length_replicate] at length
      exact absurd length (by decide)
    · rw [List.length_replicate]
      exact none _ rfl
  · rw [viewsOf_layout]
    exact reached
  · rw [pending.len, written]
    rfl
  · rcases pending.sending.tryReserve_large .creator pending.start (Nat.le_refl _) with
      ⟨missing, _⟩ | ⟨last, shm, refused, counted⟩
    · rw [missing] at cursor
      cases cursor
    · refine ⟨last, shm, refused, ?_⟩
      rw [counted, pending.len, written]
      rfl

end Pool
end Shmipc
