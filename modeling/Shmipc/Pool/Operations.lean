import Shmipc.Pool.Represents

namespace Shmipc
namespace Pool

open ByteMemory Tiling
open Buffer (bufferHeaderSize bufferListHeaderSize)

/-!
# The operations on represented ledgers

`pop` and `push` change one list header and the headers of one or two buffers.
Each is described once, by what it leaves in those headers; the rest of the pool
is untouched.  From that, every call of the manager acts on the ledger as a
number of takes or as one return.
-/

/-- The ranges that an operation on a list and on some of its buffers may
change. -/
def touched (g : ListLayout) (bs : List Nat) : List Span :=
  ⟨g.offset, bufferListHeaderSize⟩ :: bs.map fun b => ⟨b, bufferHeaderSize⟩

section Frame

variable {layout : PoolLayout} {g g' home : ListLayout} {bs : List Nat} {b : Nat}
  {mem mem' : Memory}

theorem touched_apart {start size : Nat} (list : g.offset + bufferListHeaderSize <= start \/
      start + size <= g.offset)
    (buffers : ∀ b ∈ bs, b + bufferHeaderSize <= start \/ start + size <= b) :
    ∀ span ∈ touched g bs, span.Apart ⟨start, size⟩ := by
  intro span listed
  rcases List.mem_cons.mp listed with rfl | later
  · exact list
  · rcases List.mem_map.mp later with ⟨b, inside, rfl⟩
    exact buffers b inside

theorem agreeOn_of_touched {start size : Nat} (agree : AgreeOff (touched g bs) mem mem')
    (list : g.offset + bufferListHeaderSize <= start \/ start + size <= g.offset)
    (buffers : ∀ b ∈ bs, b + bufferHeaderSize <= start \/ start + size <= b) :
    AgreeOn mem mem' start size :=
  agree.agreeOn (touched_apart list buffers)

theorem listHeader_of_touched (inside : g ∈ layout.lists) (known : bs ⊆ layout.buffers)
    (agree : AgreeOff (touched g bs) mem mem') (other : g' ∈ layout.lists)
    (different : g' ≠ g) : ListHeader.read mem' g'.offset = ListHeader.read mem g'.offset := by
  refine ListHeader.read_congr (agreeOn_of_touched agree ?_ ?_)
  · have apart := PoolLayout.lists_apart inside other different.symm
    simp only [ListLayout.stop, ListLayout.region] at apart
    omega
  · intro b touched
    rcases PoolLayout.mem_buffers.mp (known touched) with ⟨home, listed, buffer⟩
    have apart := PoolLayout.header_apart other listed buffer
    have long := home.stride_pos
    omega

theorem buffer_of_touched (inside : g ∈ layout.lists) (known : bs ⊆ layout.buffers)
    (agree : AgreeOff (touched g bs) mem mem') (listed : home ∈ layout.lists)
    (buffer : b ∈ home.buffers) (different : b ∉ bs) : AgreeOn mem mem' b home.stride := by
  refine agreeOn_of_touched agree (PoolLayout.header_apart inside listed buffer) ?_
  intro c touched
  rcases PoolLayout.mem_buffers.mp (known touched) with ⟨home', listed', buffer'⟩
  have apart := PoolLayout.buffers_apart listed buffer listed' buffer' (fun same =>
    different (same ▸ touched))
  have long := home'.stride_pos
  omega

theorem bufferHeader_of_touched (inside : g ∈ layout.lists) (known : bs ⊆ layout.buffers)
    (agree : AgreeOff (touched g bs) mem mem') (buffer : b ∈ layout.buffers)
    (different : b ∉ bs) : BufferHeader.read mem' b = BufferHeader.read mem b := by
  rcases PoolLayout.mem_buffers.mp buffer with ⟨home, listed, inHome⟩
  have whole := buffer_of_touched inside known agree listed inHome different
  exact BufferHeader.read_congr (whole.mono (Nat.le_refl _)
    (Nat.add_le_add_left home.stride_pos b))

theorem start_of_touched (inside : g ∈ layout.lists) (known : bs ⊆ layout.buffers)
    (agree : AgreeOff (touched g bs) mem mem') :
    AgreeOn mem mem' layout.start bufferManagerHeaderSize := by
  refine agreeOn_of_touched agree (Or.inr (PoolLayout.bounds inside).1) ?_
  intro c touched
  rcases PoolLayout.mem_buffers.mp (known touched) with ⟨home, listed, buffer⟩
  have lower := (PoolLayout.bounds listed).1
  have above := (ListLayout.bounds_of_mem buffer).1
  simp only [ListLayout.region] at above
  omega

end Frame

/-! ## One list in memory -/

/-- The handle of an empty buffer that is out. -/
def freshSlice (b cap : Nat) : BufferSlice where
  bufferHeader := some b
  data := b + bufferHeaderSize
  cap := cap
  start := 0
  offsetInShm := b
  readIndex := 0
  writeIndex := 0
  isFromShm := true
  heap := []

namespace BufferList

variable {g : ListLayout} {shm : Shm} {b next : Nat}

/-- `pop` refuses to take the last buffer, or a first buffer that does not lie in
the region of the list.  It then leaves every byte as it was. -/
theorem pop_refused (side : Side)
    (capEq : (ListHeader.read shm.mem g.offset).capPerBuffer = g.cap)
    (refused : (ListHeader.read shm.mem g.offset).size <= 1 \/
      g.regionLen < ((ListHeader.read shm.mem g.offset).head + g.stride) % 2 ^ 32) :
    (g.view side).pop shm = (none, shm) := by
  have restored : fetchAdd (fetchAdd shm.mem g.offset 4 (-1)) g.offset 4 1 = shm.mem := by
    rw [fetchAdd_fetchAdd, Int.add_left_neg, fetchAdd_zero]
  have capKept : readWord (fetchAdd shm.mem g.offset 4 (-1)) (g.offset + 16) 4 = g.cap :=
    (congrArg ListHeader.capPerBuffer (ListHeader.read_addSize shm.mem g.offset (-1))).trans capEq
  have test : readSigned shm.mem g.offset 4 <= 1 \/
      g.regionLen < (readWord shm.mem (g.offset + 8) 4 + bufferHeaderSize + g.cap) % 2 ^ 32 := by
    rw [Nat.add_assoc, Nat.add_comm bufferHeaderSize]
    exact refused
  simp only [pop, ListLayout.view, capKept, if_pos test, restored]

/-- `pop` takes the first buffer if it has a successor and lies in the region. -/
theorem pop_taken (side : Side) (lower : g.region <= b) (upper : b + g.stride <= g.stop)
    (small : g.stop < 2 ^ 32)
    (capEq : (ListHeader.read shm.mem g.offset).capPerBuffer = g.cap)
    (many : 1 < (ListHeader.read shm.mem g.offset).size)
    (first : (ListHeader.read shm.mem g.offset).head = b - g.region)
    (linked : (BufferHeader.read shm.mem b).link = some next)
    (bufferCap : (BufferHeader.read shm.mem b).cap = g.cap)
    (unused : (BufferHeader.read shm.mem b).size = 0 /\ (BufferHeader.read shm.mem b).start = 0) :
    Exists fun mem => (g.view side).pop shm =
        (some (freshSlice b g.cap), ⟨mem, shm.log ++ [.took (g.view side) b]⟩) /\
      AgreeOff (touched g [b]) shm.mem mem /\
      ListHeader.read mem g.offset =
        { ListHeader.read shm.mem g.offset with
          size := ((ListHeader.read shm.mem g.offset).size - 1).bmod (2 ^ 32)
          head := next
          counter := Function.update (ListHeader.read shm.mem g.offset).counter side
            (((ListHeader.read shm.mem g.offset).counter side + 1).bmod (2 ^ 32)) } /\
      BufferHeader.read mem b =
        { BufferHeader.read shm.mem b with flag := sliceInUsedFlag } := by
  have apart : g.offset + bufferListHeaderSize <= b := lower
  have hasNext : (BufferHeader.read shm.mem b).hasNext = true := by
    rw [BufferHeader.link, Option.ite_none_right_eq_some] at linked
    exact linked.1
  have nextEq : (BufferHeader.read shm.mem b).next = next := by
    rw [BufferHeader.link, if_pos hasNext] at linked
    exact Option.some.inj linked
  have nextFits : next < 2 ^ 32 := nextEq ▸ readWord_lt shm.mem _ 4
  -- the memory after each write of the call
  let m1 := fetchAdd shm.mem g.offset 4 (-1)
  let m2 := writeWord m1 (g.offset + 8) 4 next
  let m3 := BufferHeader.clearFlag m2 b
  let m4 := BufferHeader.setInUsed m3 b
  let m5 := fetchAdd m4 (g.offset + side.counterOffset) 4 1
  have counterInside : side.counterOffset + 4 <= bufferListHeaderSize := by cases side <;> decide
  have a1 : AgreeOutside shm.mem m1 g.offset bufferListHeaderSize :=
    (fetchAdd_agreeOutside shm.mem g.offset 4 (-1)).mono (Nat.le_refl _)
      (Nat.add_le_add_left (by decide) _)
  have a2 : AgreeOutside m1 m2 g.offset bufferListHeaderSize :=
    (writeWord_agreeOutside m1 (g.offset + 8) 4 next).mono (Nat.le_add_right ..)
      (by simp only [bufferListHeaderSize]; omega)
  have a3 : AgreeOutside m2 m3 b bufferHeaderSize := BufferHeader.setFlag_inside m2 b 0
  have a4 : AgreeOutside m3 m4 b bufferHeaderSize := BufferHeader.setFlag_inside m3 b _
  have a5 : AgreeOutside m4 m5 g.offset bufferListHeaderSize :=
    (fetchAdd_agreeOutside m4 (g.offset + side.counterOffset) 4 1).mono (Nat.le_add_right ..)
      (by omega)
  have b2 : BufferHeader.read m2 b = BufferHeader.read shm.mem b :=
    (BufferHeader.read_congr (a2.agreeOn (Or.inr apart))).trans
      (BufferHeader.read_congr (a1.agreeOn (Or.inr apart)))
  have b1 : BufferHeader.read m1 b = BufferHeader.read shm.mem b :=
    BufferHeader.read_congr (a1.agreeOn (Or.inr apart))
  have b5 : BufferHeader.read m5 b =
      { BufferHeader.read shm.mem b with flag := sliceInUsedFlag } := by
    rw [BufferHeader.read_congr (a5.agreeOn (Or.inr apart)), BufferHeader.read_setInUsed,
      BufferHeader.read_clearFlag, b2]
    simp only [UInt8.zero_or]
  have l1 := ListHeader.read_addSize shm.mem g.offset (-1)
  have l2 := ListHeader.read_setHead m1 g.offset nextFits
  have l4 : ListHeader.read m4 g.offset = ListHeader.read m2 g.offset :=
    (ListHeader.read_congr (a4.agreeOn (Or.inl apart))).trans
      (ListHeader.read_congr (a3.agreeOn (Or.inl apart)))
  have l5 := ListHeader.read_addCounter m4 g.offset side 1
  rw [l4, l2, l1, <- Int.sub_eq_add_neg] at l5
  dsimp only at l5
  have agree : AgreeOff (touched g [b]) shm.mem m5 := by
    have list : ⟨g.offset, bufferListHeaderSize⟩ ∈ touched g [b] := List.mem_cons_self
    have buffer : ⟨b, bufferHeaderSize⟩ ∈ touched g [b] :=
      List.mem_cons_of_mem _ (List.mem_singleton_self _)
    have one := (AgreeOff.refl (touched g [b]) shm.mem).step a1 list (Nat.le_refl _) (Nat.le_refl _)
    have two := one.step a2 list (Nat.le_refl _) (Nat.le_refl _)
    have three := two.step a3 buffer (Nat.le_refl _) (Nat.le_refl _)
    have four := three.step a4 buffer (Nat.le_refl _) (Nat.le_refl _)
    exact four.step a5 list (Nat.le_refl _) (Nat.le_refl _)
  refine ⟨m5, ?_, agree, l5, b5⟩
  have place : g.region + (b - g.region) = b := by omega
  have headNow : readWord shm.mem (g.offset + 8) 4 = b - g.region := first
  have headKept : readWord m1 (g.offset + 8) 4 = b - g.region :=
    (congrArg ListHeader.head l1).trans first
  have capKept : readWord m1 (g.offset + 16) 4 = g.cap :=
    (congrArg ListHeader.capPerBuffer l1).trans capEq
  have accepted : ¬ (readSigned shm.mem g.offset 4 <= 1 \/ g.regionLen <
      (b - g.region + bufferHeaderSize + g.cap) % 2 ^ 32) := by
    have size : 1 < readSigned shm.mem g.offset 4 := many
    simp only [ListLayout.stop, ListLayout.stride] at upper small
    rw [Nat.mod_eq_of_lt (by omega)]
    omega
  have offsetEq : (b - g.region + g.region) % 2 ^ 32 = b := by
    have long := g.stride_pos
    simp only [bufferHeaderSize] at long
    rw [Nat.mod_eq_of_lt (by omega)]
    omega
  have slice : BufferSlice.new m5 (some b) (b + bufferHeaderSize)
      (readWord m5 (g.offset + 16) 4) b true [] = freshSlice b g.cap := by
    simp only [BufferSlice.new, b5, bufferCap, unused.1, unused.2, freshSlice]
    rfl
  have round : forall tries, popLoop (g.view side) (tries + 1) (b - g.region) ⟨m1, shm.log⟩ =
      (some (freshSlice b g.cap), ⟨m5, shm.log ++ [.took (g.view side) b]⟩) := by
    intro tries
    rw [<- slice]
    simp only [popLoop, ListLayout.view, place, b1, hasNext, headKept, nextEq, offsetEq,
      if_true]
    rfl
  refine Eq.trans ?_ (round 199)
  simp only [pop, ListLayout.view, headNow]
  rw [capKept, if_neg accepted]

theorem reset_effect {slice : BufferSlice} (mem : Memory) (header : slice.bufferHeader = some b) :
    (slice.resetForRecycle mem).1.offsetInShm = slice.offsetInShm /\
    AgreeOutside mem (slice.resetForRecycle mem).2 b bufferHeaderSize /\
    BufferHeader.read (slice.resetForRecycle mem).2 b =
      { cap := (BufferHeader.read mem b).cap, size := 0, start := 0, next := 0, flag := 0 } := by
  simp only [BufferSlice.resetForRecycle, BufferSlice.resetIndicesAndLink, header]
  refine ⟨trivial, ?_, ?_⟩
  · refine AgreeOutside.trans ?_ (BufferHeader.setFlag_inside _ b 0)
    refine AgreeOutside.trans ?_ (BufferHeader.unlinkNext_inside _ b)
    exact (BufferHeader.setWord_agreeOutside mem b 0 (by decide)).trans
      (BufferHeader.setWord_agreeOutside _ b 0 (by decide))
  · rw [BufferHeader.read_clearFlag, BufferHeader.read_unlinkNext,
      BufferHeader.read_setStart _ b (by decide), BufferHeader.read_setSize _ b (by decide)]

/-- `push` clears the header of the buffer, links it behind the last one and makes
it the last. -/
theorem push_effect {slice : BufferSlice} {last : Nat} (side : Side) (shm : Shm)
    (header : slice.bufferHeader = some b) (offset : slice.offsetInShm = b)
    (lower : g.region <= b) (small : b < 2 ^ 32) (lastLower : g.region <= last)
    (apart : b + bufferHeaderSize <= last \/ last + bufferHeaderSize <= b)
    (tail : (ListHeader.read shm.mem g.offset).tail = last - g.region) :
    Exists fun mem => (g.view side).push slice shm =
        ⟨mem, shm.log ++ [.returned (g.view side) b]⟩ /\
      AgreeOff (touched g [b, last]) shm.mem mem /\
      ListHeader.read mem g.offset =
        { ListHeader.read shm.mem g.offset with
          size := ((ListHeader.read shm.mem g.offset).size + 1).bmod (2 ^ 32)
          tail := b - g.region
          counter := Function.update (ListHeader.read shm.mem g.offset).counter side
            (((ListHeader.read shm.mem g.offset).counter side - 1).bmod (2 ^ 32)) } /\
      BufferHeader.read mem b =
        { cap := (BufferHeader.read shm.mem b).cap, size := 0, start := 0, next := 0, flag := 0 } /\
      BufferHeader.read mem last =
        { BufferHeader.read shm.mem last with
          next := b - g.region
          flag := (BufferHeader.read shm.mem last).flag ||| hasNextBufferFlag } := by
  have list : g.offset + bufferListHeaderSize <= b := lower
  have listLast : g.offset + bufferListHeaderSize <= last := lastLower
  have newFits : b - g.region < 2 ^ 32 := by omega
  rcases reset_effect shm.mem header with ⟨kept, a1, b1⟩
  -- the memory after the reset and after each write that follows
  let m1 := (slice.resetForRecycle shm.mem).2
  let m2 := writeWord m1 (g.offset + 12) 4 (b - g.region)
  let m3 := BufferHeader.linkNext m2 last (b - g.region)
  let m4 := fetchAdd m3 g.offset 4 1
  let m5 := fetchAdd m4 (g.offset + side.counterOffset) 4 (-1)
  have counterInside : side.counterOffset + 4 <= bufferListHeaderSize := by cases side <;> decide
  have a2 : AgreeOutside m1 m2 g.offset bufferListHeaderSize :=
    (writeWord_agreeOutside m1 (g.offset + 12) 4 _).mono (Nat.le_add_right ..)
      (by simp only [bufferListHeaderSize]; omega)
  have a3 : AgreeOutside m2 m3 last bufferHeaderSize := BufferHeader.linkNext_inside m2 last _
  have a4 : AgreeOutside m3 m4 g.offset bufferListHeaderSize :=
    (fetchAdd_agreeOutside m3 g.offset 4 1).mono (Nat.le_refl _)
      (Nat.add_le_add_left (by decide) _)
  have a5 : AgreeOutside m4 m5 g.offset bufferListHeaderSize :=
    (fetchAdd_agreeOutside m4 (g.offset + side.counterOffset) 4 (-1)).mono (Nat.le_add_right ..)
      (by omega)
  have l1 : ListHeader.read m1 g.offset = ListHeader.read shm.mem g.offset :=
    ListHeader.read_congr (a1.agreeOn (Or.inl list))
  have l2 := ListHeader.read_setTail m1 g.offset newFits
  have l3 : ListHeader.read m3 g.offset = ListHeader.read m2 g.offset :=
    ListHeader.read_congr (a3.agreeOn (Or.inl listLast))
  have l4 := ListHeader.read_addSize m3 g.offset 1
  have l5 := ListHeader.read_addCounter m4 g.offset side (-1)
  rw [l4, l3, l2, l1, <- Int.sub_eq_add_neg] at l5
  dsimp only at l5
  have b5 : BufferHeader.read m5 b = BufferHeader.read m1 b := by
    rw [BufferHeader.read_congr (a5.agreeOn (Or.inr list)),
      BufferHeader.read_congr (a4.agreeOn (Or.inr list)),
      BufferHeader.read_congr (a3.agreeOn apart),
      BufferHeader.read_congr (a2.agreeOn (Or.inr list))]
  have t2 : BufferHeader.read m2 last = BufferHeader.read shm.mem last :=
    (BufferHeader.read_congr (a2.agreeOn (Or.inr listLast))).trans
      (BufferHeader.read_congr (a1.agreeOn apart.symm))
  have t5 : BufferHeader.read m5 last = BufferHeader.read m3 last :=
    (BufferHeader.read_congr (a5.agreeOn (Or.inr listLast))).trans
      (BufferHeader.read_congr (a4.agreeOn (Or.inr listLast)))
  have t3 := BufferHeader.read_linkNext m2 last newFits
  rw [t2] at t3
  have agree : AgreeOff (touched g [b, last]) shm.mem m5 := by
    have inList : ⟨g.offset, bufferListHeaderSize⟩ ∈ touched g [b, last] := List.mem_cons_self
    have inBuffer : ⟨b, bufferHeaderSize⟩ ∈ touched g [b, last] := by simp [touched]
    have inLast : ⟨last, bufferHeaderSize⟩ ∈ touched g [b, last] := by simp [touched]
    have one := (AgreeOff.refl (touched g [b, last]) shm.mem).step a1 inBuffer (Nat.le_refl _)
      (Nat.le_refl _)
    have two := one.step a2 inList (Nat.le_refl _) (Nat.le_refl _)
    have three := two.step a3 inLast (Nat.le_refl _) (Nat.le_refl _)
    have four := three.step a4 inList (Nat.le_refl _) (Nat.le_refl _)
    exact four.step a5 inList (Nat.le_refl _) (Nat.le_refl _)
  refine ⟨m5, ?_, agree, l5, b5.trans b1, t5.trans t3⟩
  have tailNow : readWord (slice.resetForRecycle shm.mem).2 (g.offset + 12) 4 =
      last - g.region := (congrArg ListHeader.tail l1).trans tail
  have place : g.region + (last - g.region) = last := by omega
  have newTail : wrappingSub b g.region = b - g.region := wrappingSub_of_le lower small
  simp only [push, ListLayout.view, kept, offset, tailNow, newTail, place]
  rfl

end BufferList

end Pool
end Shmipc
