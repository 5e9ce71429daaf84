import Shmipc.Pool.Manager
import Shmipc.Queue.Mapping

namespace Shmipc
namespace Pool

open ByteMemory
open Buffer (bufferHeaderSize bufferListHeaderSize)
open Queue (QueueManager MappedQueue queueHeaderLength queueElementLen)

/-!
# What the checks of peer memory guarantee

The bytes of a mapping are the peer's.  `read_buffer_slice` and the functions that
map a pool compare sums and products of numbers they find there with the length of
the mapping, in 32-bit arithmetic that wraps, and nothing compares the window of a
buffer with its capacity or the capacity of a queue with the size of its half.

So what passes the checks lies inside the mapping exactly if that makes no difference:
no sum wraps, a window lies in its buffer, and a queue has no more slots than its
half has room for.

A mapping is shorter than 4 GiB: `get_with_memfd` and `get_with_file` refuse a
longer one before they map it.
-/

variable {mem : Memory}

/-- The end of the buffer does not wrap, and its window lies in its capacity. -/
structure PlainHeader (mem : Memory) (offset : Nat) : Prop where
  noWrap : offset + bufferHeaderSize + (BufferHeader.read mem offset).cap < 2 ^ 32
  window : (BufferHeader.read mem offset).start + (BufferHeader.read mem offset).size <=
    (BufferHeader.read mem offset).cap

/-- The end of the buffers of a list, if it has any, does not wrap. -/
def PlainList (mem : Memory) (l : BufferList) : Prop :=
  0 < readWord mem l.cap 4 -> l.offsetInShm + bufferListHeaderSize +
    readWord mem l.cap 4 * (readWord mem l.capPerBuffer 4 + bufferHeaderSize) < 2 ^ 32

/-- Every buffer of a list lies in the mapping with its header. -/
def BuffersInside (memLen : Nat) (mem : Memory) (l : BufferList) : Prop :=
  forall i, i < readWord mem l.cap 4 ->
    l.bufferRegion + i * (readWord mem l.capPerBuffer 4 + bufferHeaderSize) + bufferHeaderSize +
      readWord mem l.capPerBuffer 4 <= memLen

/-- The buffer lies in the mapping and the readable window in the buffer. -/
structure SliceInside (memLen offset : Nat) (slice : BufferSlice) : Prop where
  inside : offset + bufferHeaderSize + slice.cap <= memLen
  ordered : slice.readIndex <= slice.writeIndex
  bounded : slice.writeIndex <= slice.cap

/-! ## Buffers -/

variable {bm : BufferManager} {offset memLen start : Nat}

theorem sliceInside_iff {slice : BufferSlice} (short : bm.memLen < 2 ^ 32)
    (read : bm.readBufferSlice offset mem = .ok slice) :
    SliceInside bm.memLen offset slice <-> PlainHeader mem offset := by
  have size_lt : (BufferHeader.read mem offset).size < 256 ^ 4 := readWord_lt ..
  simp only [BufferManager.readBufferSlice] at read
  split_ifs at read with early late
  have spelled : SliceInside bm.memLen offset slice <->
      offset + bufferHeaderSize + (BufferHeader.read mem offset).cap <= bm.memLen /\
      (BufferHeader.read mem offset).start <= ((BufferHeader.read mem offset).start +
        (BufferHeader.read mem offset).size) % 2 ^ 32 /\
      ((BufferHeader.read mem offset).start + (BufferHeader.read mem offset).size) % 2 ^ 32 <=
        (BufferHeader.read mem offset).cap := by
    rw [<- Except.ok.inj read]
    exact ⟨fun ⟨inside, ordered, bounded⟩ => ⟨inside, ordered, bounded⟩,
      fun ⟨inside, ordered, bounded⟩ => ⟨inside, ordered, bounded⟩⟩
  rw [spelled]
  constructor
  · rintro ⟨inside, ordered, bounded⟩
    -- A wrapped end of the window would come before its start.
    constructor <;> omega
  · rintro ⟨noWrap, window⟩
    rw [Nat.mod_eq_of_lt noWrap] at late
    omega

/-! ## Lists -/

theorem buffersInside_iff {l : BufferList} (short : memLen < 2 ^ 32)
    (mapped : BufferList.mapping memLen offset mem = .ok l) :
    BuffersInside memLen mem l <-> PlainList mem l := by
  simp only [BufferList.mapping] at mapped
  split_ifs at mapped with early checked
  rw [<- Except.ok.inj mapped, BuffersInside, PlainList]
  dsimp only
  generalize readWord mem (offset + 4) 4 = cap at *
  generalize readWord mem (offset + 16) 4 = capPerBuffer at *
  constructor
  · intro inside positive
    have last := inside (cap - 1) (by omega)
    have all : cap * (capPerBuffer + bufferHeaderSize) =
        (cap - 1) * (capPerBuffer + bufferHeaderSize) + (capPerBuffer + bufferHeaderSize) := by
      rw [<- Nat.succ_mul, Nat.succ_eq_add_one, Nat.sub_add_cancel positive]
    omega
  · intro plain i below
    have noWrap := plain (by omega)
    have needSize : countBufferListMemSize cap capPerBuffer =
        bufferListHeaderSize + cap * (capPerBuffer + bufferHeaderSize) :=
      Nat.mod_eq_of_lt (by omega)
    have stop : offset + bufferListHeaderSize + cap * (capPerBuffer + bufferHeaderSize) <=
        memLen := by
      rw [not_or, needSize, <- Nat.add_assoc, Nat.mod_eq_of_lt noWrap] at checked
      exact Nat.not_lt.mp checked.1
    have next : (i + 1) * (capPerBuffer + bufferHeaderSize) <=
        cap * (capPerBuffer + bufferHeaderSize) := Nat.mul_le_mul_right _ below
    rw [Nat.succ_mul] at next
    omega

theorem BufferManager.mapLists_mapped {remaining hadUsedOffset : Nat} {lists : List BufferList}
    (mapped : mapLists memLen start mem remaining hadUsedOffset = .ok lists) :
    ∀ l ∈ lists, Exists fun offset => BufferList.mapping memLen offset mem = .ok l := by
  induction remaining generalizing hadUsedOffset lists with
  | zero =>
    rw [mapLists] at mapped
    rw [<- Except.ok.inj mapped]
    exact nofun
  | succ remaining ih =>
    rw [mapLists] at mapped
    cases first : BufferList.mapping memLen ((start + hadUsedOffset) % 2 ^ 32) mem with
    | error err =>
      rw [first] at mapped
      exact nomatch mapped
    | ok l =>
      rw [first] at mapped
      dsimp only at mapped
      split at mapped
      · exact nomatch mapped
      case h_2 rest others =>
        rw [<- Except.ok.inj mapped]
        intro other member
        rcases List.mem_cons.mp member with rfl | member
        · exact ⟨_, first⟩
        · exact ih others other member

theorem BufferManager.lists_mapped (mapped : mapping memLen start mem = .ok bm) :
    ∀ l ∈ bm.lists, Exists fun offset => BufferList.mapping memLen offset mem = .ok l := by
  unfold mapping at mapped
  dsimp only at mapped
  split at mapped
  · exact nomatch mapped
  split at mapped
  · exact nomatch mapped
  split at mapped
  · exact nomatch mapped
  case h_2 lists listed =>
    rw [<- Except.ok.inj mapped]
    exact mapLists_mapped listed

/-! ## The checks together -/

/-- In a mapping shorter than 4 GiB, a slice that is read lies in the mapping with its
window exactly if no sum of its check wraps and its window lies in its capacity, and
a mapped list has its buffers in the mapping exactly if the end of its buffers does
not wrap.  A mapped queue has the slots of its calls in its own half, for all
positions that are not negative, exactly if the half has room for its capacity; then
a call goes outside only by a negative remainder.  The bytes may change between the
mapping of a queue and a call on it. -/
theorem accepted_peer_memory_inside (mem : Memory) :
    (forall (bm : BufferManager) (offset : Nat) (slice : BufferSlice), bm.memLen < 2 ^ 32 ->
      bm.readBufferSlice offset mem = .ok slice ->
      (SliceInside bm.memLen offset slice <-> PlainHeader mem offset)) /\
    (forall (memLen start : Nat) (bm : BufferManager), memLen < 2 ^ 32 ->
      BufferManager.mapping memLen start mem = .ok bm ->
      ∀ l ∈ bm.lists, (BuffersInside memLen mem l <-> PlainList mem l)) /\
    (forall (alignedTarget : Bool) (stSize : Int) (protoVersion : Nat) (qm : QueueManager),
      QueueManager.mappingWithMemfd alignedTarget stSize protoVersion mem = .ok qm ->
      forall (q : MappedQueue) (data : Nat),
        (q, data) = (qm.recvQueue, 0) \/ (q, data) = (qm.sendQueue, qm.memLen / 2) ->
        ((forall now, 0 <= q.loadHead now -> 0 <= q.loadTail now ->
          q.SlotsInside data (qm.memLen / 2) now) <-> q.Roomy (qm.memLen / 2)) /\
        (q.Roomy (qm.memLen / 2) -> forall now,
          (q.SlotsInside data (qm.memLen / 2) now <-> q.Forward now))) := by
  refine ⟨fun bm offset slice short read => sliceInside_iff short read,
    fun memLen start bm short mapped l listed => ?_,
    fun alignedTarget stSize protoVersion qm mapped q data which => ?_⟩
  · rcases BufferManager.lists_mapped mapped l listed with ⟨offset, found⟩
    exact buffersInside_iff short found
  · rcases QueueManager.queues_of_mapping mapped with ⟨recv, send⟩
    have at_ : q.MappedAt data := by
      rcases which with same | same <;> cases same
      · exact recv
      · exact send
    exact ⟨at_.roomy_iff, fun roomy now => at_.slotsInside_iff_forward roomy⟩

/-- A segment that holds the words given with their addresses and widths. -/
def segment (words : List (Nat × Nat × Nat)) : Memory :=
  words.foldl (fun mem word => writeWord mem word.1 word.2.1 word.2.2) fun _ => 0

/-- A pool of one list with one buffer of four bytes, two of which are readable, and
a queue of two slots whose first one is taken. -/
theorem accepted_peer_memory_inside_small :
    SliceInside 68 44
      { bufferHeader := some 44, data := 64, cap := 4, start := 1, offsetInShm := 44,
        readIndex := 1, writeIndex := 3, isFromShm := true, heap := [] } /\
    (Exists fun bm => BufferManager.mapping 68 0
        (segment [(0, 2, 1), (4, 4, 60), (12, 4, 1), (24, 4, 4)]) = .ok bm /\
      bm.lists ≠ [] /\ ∀ l ∈ bm.lists,
        BuffersInside 68 (segment [(0, 2, 1), (4, 4, 60), (12, 4, 1), (24, 4, 4)]) l) /\
    (Exists fun qm => QueueManager.mappingWithMemfd false 96 4
        (segment [(0, 4, 2), (16, 8, 1), (48, 4, 2)]) = .ok qm /\
      qm.recvQueue.SlotsInside 0 48 (segment [(0, 4, 2), (16, 8, 1), (48, 4, 2)]) /\
      qm.sendQueue.SlotsInside 48 48 (segment [(0, 4, 2), (16, 8, 1), (48, 4, 2)])) := by
  refine ⟨?_, ?_, ?_⟩
  · exact (accepted_peer_memory_inside (segment [(44, 4, 4), (48, 4, 2), (52, 4, 1)])).1
      { lists := [], memLen := 68, minSliceSize := 4, maxSliceSize := 4 } 44 _ (by decide) rfl
      |>.mpr ⟨by decide, by decide⟩
  · refine ⟨_, rfl, by decide, fun l listed => ?_⟩
    refine ((accepted_peer_memory_inside _).2.1 68 0 _ (by decide) rfl l listed).mpr ?_
    rw [List.mem_singleton.mp listed]
    unfold PlainList
    decide
  · refine ⟨_, rfl, ?_, ?_⟩
    · exact ((accepted_peer_memory_inside _).2.2 false 96 4 _ rfl _ _ (.inl rfl)).1.mpr
        (.inr (by decide)) _ (by decide) (by decide)
    · exact ((accepted_peer_memory_inside _).2.2 false 96 4 _ rfl _ _ (.inr rfl)).1.mpr
        (.inr (by decide)) _ (by decide) (by decide)

/-- Bytes that pass the checks and lead outside: a capacity with which the end of the
buffer wraps to zero, a window of a hundred bytes in a buffer of four, a list of
`2 ^ 16` buffers of `2 ^ 16` bytes with their headers, whose product wraps to zero,
and a queue of a thousand slots in 32 bytes. -/
theorem accepted_peer_memory_outside :
    (Exists fun slice =>
      (BufferManager.mk [] 64 4 4).readBufferSlice 0 (segment [(0, 4, 2 ^ 32 - 20)]) =
        .ok slice /\ ¬ 0 + bufferHeaderSize + slice.cap <= 64) /\
    (Exists fun slice =>
      (BufferManager.mk [] 64 4 4).readBufferSlice 0 (segment [(0, 4, 4), (4, 4, 100)]) =
        .ok slice /\ ¬ slice.writeIndex <= slice.cap) /\
    (Exists fun bm => BufferManager.mapping 64 0
        (segment [(0, 2, 1), (12, 4, 2 ^ 16), (24, 4, 2 ^ 16 - 20)]) = .ok bm /\
      Exists fun l => l ∈ bm.lists /\
        ¬ BuffersInside 64 (segment [(0, 2, 1), (12, 4, 2 ^ 16), (24, 4, 2 ^ 16 - 20)]) l) /\
    (Exists fun qm => QueueManager.mappingWithMemfd false 64 4
        (segment [(0, 4, 1000), (8, 8, 5), (16, 8, 6)]) = .ok qm /\
      ¬ qm.recvQueue.SlotsInside 0 32 (segment [(0, 4, 1000), (8, 8, 5), (16, 8, 6)])) := by
  refine ⟨⟨_, rfl, by decide⟩, ⟨_, rfl, by decide⟩, ⟨_, rfl, _, List.mem_singleton_self _, ?_⟩,
    ⟨_, rfl, ?_⟩⟩
  · intro inside
    exact absurd (inside 1 (by decide)) (by decide)
  · intro inside
    exact absurd (inside.put 96 rfl) (by decide)

end Pool
end Shmipc
