import Shmipc.Pool.Moves

namespace Shmipc
namespace Pool

open ByteMemory Tiling
open Buffer (bufferHeaderSize bufferListHeaderSize CreateError)

/-!
# Laying a pool out

If no buffer size wraps around when the header is added, and no list ends beyond the
addresses, a pool that `create` builds has a layout.  Over
zeroed memory its bytes represent the ledger in which every buffer is free, in
the order of the buffers.  `mapping` finds the same layout again in whatever
state the pool is.
-/

theorem BufferHeader.read_clearFlagWord (mem : Memory) (address : Nat) :
    BufferHeader.read (writeWord mem (address + bufferFlagOffset) 4 0) address =
      { BufferHeader.read mem address with flag := 0 } := by
  have stored : writeWord mem (address + bufferFlagOffset) 4 0 (address + bufferFlagOffset) = 0 := by
    rw [writeWord_apply, if_pos (by omega), Nat.zero_div]
    rfl
  rw [BufferHeader.read, stored, BufferHeader.word_setWord mem address (by decide),
    BufferHeader.word_setWord mem address (by decide),
    BufferHeader.word_setWord mem address (by decide),
    BufferHeader.word_setWord mem address (by decide)]
  rfl

namespace BufferList

theorem initBuffer_spec (address cap next : Nat) (linked : Bool) (mem : Memory)
    (capFits : cap < 2 ^ 32) (nextFits : next < 2 ^ 32) :
    AgreeOutside mem (initBuffer address cap next linked mem) address bufferHeaderSize /\
    (BufferHeader.read (initBuffer address cap next linked mem) address).cap = cap /\
    (BufferHeader.read (initBuffer address cap next linked mem) address).size = 0 /\
    (BufferHeader.read (initBuffer address cap next linked mem) address).start = 0 /\
    (linked = true ->
      (BufferHeader.read (initBuffer address cap next linked mem) address).link = some next) := by
  have word : forall mem field value, field + 4 <= bufferHeaderSize ->
      AgreeOutside mem (writeWord mem (address + field) 4 value) address bufferHeaderSize :=
    fun mem _ value inside => BufferHeader.setWord_agreeOutside mem address value inside
  have empty := ((word mem bufferCapOffset cap (by decide)).trans
    (word _ bufferSizeOffset 0 (by decide))).trans (word _ bufferDataStartOffset 0 (by decide))
  have header : BufferHeader.read (BufferHeader.setStart (BufferHeader.setSize
      (BufferHeader.setCap mem address cap) address 0) address 0) address =
      { BufferHeader.read mem address with cap := cap, size := 0, start := 0 } := by
    rw [BufferHeader.read_setStart _ address (by decide),
      BufferHeader.read_setSize _ address (by decide), BufferHeader.read_setCap _ address capFits]
  cases linked with
  | false =>
    simp only [initBuffer, Bool.false_eq_true, if_false, header]
    exact ⟨empty, trivial, trivial, trivial, False.elim⟩
  | true =>
    simp only [initBuffer, if_true, BufferHeader.read_setFlag]
    refine ⟨?_, ?_, ?_, ?_, fun _ => ?_⟩
    · exact ((empty.trans (word _ nextBufferOffset next (by decide))).trans
        (word _ bufferFlagOffset 0 (by decide))).trans (BufferHeader.setFlag_inside _ address _)
    · rw [BufferHeader.read_clearFlagWord, BufferHeader.read_setNext _ address nextFits, header]
    · rw [BufferHeader.read_clearFlagWord, BufferHeader.read_setNext _ address nextFits, header]
    · rw [BufferHeader.read_clearFlagWord, BufferHeader.read_setNext _ address nextFits, header]
    · rw [BufferHeader.link, if_pos (BufferHeader.hasNext_of_or rfl),
        BufferHeader.read_clearFlagWord, BufferHeader.read_setNext _ address nextFits]

/-- What the loop of `create` leaves in the headers of the buffers it has not come
to yet: all are empty, and each but the last is linked to the next. -/
theorem initBuffers_spec (region cap rounds current : Nat) (mem : Memory)
    (small : current + rounds * (cap + bufferHeaderSize) < 2 ^ 32) :
    AgreeOutside mem (initBuffers region cap rounds current mem) (region + current)
      (rounds * (cap + bufferHeaderSize)) /\
    forall i, i < rounds -> forall b, region + current + i * (cap + bufferHeaderSize) = b ->
      (BufferHeader.read (initBuffers region cap rounds current mem) b).cap = cap /\
      (BufferHeader.read (initBuffers region cap rounds current mem) b).size = 0 /\
      (BufferHeader.read (initBuffers region cap rounds current mem) b).start = 0 /\
      (i + 1 < rounds -> (BufferHeader.read (initBuffers region cap rounds current mem) b).link =
        some (current + (i + 1) * (cap + bufferHeaderSize))) := by
  induction rounds generalizing current mem with
  | zero => exact ⟨fun _ _ => rfl, fun _ below => absurd below (Nat.not_lt_zero _)⟩
  | succ rounds ih =>
    rw [Nat.succ_mul] at small ⊢
    have next : (current + cap + bufferHeaderSize) % 2 ^ 32 =
        current + (cap + bufferHeaderSize) := by
      rw [Nat.mod_eq_of_lt (by omega), Nat.add_assoc]
    rw [initBuffers, next]
    rcases initBuffer_spec (region + current) cap
      (current + (cap + bufferHeaderSize)) (0 < rounds) mem (by omega) (by omega) with
      ⟨inside, capEq, sizeEq, startEq, linkEq⟩
    rcases ih (current + (cap + bufferHeaderSize)) (initBuffer (region + current) cap
      (current + (cap + bufferHeaderSize)) (0 < rounds) mem) (by omega) with ⟨later, headers⟩
    generalize initBuffer (region + current) cap (current + (cap + bufferHeaderSize))
      (0 < rounds) mem = mem1 at *
    generalize initBuffers region cap rounds (current + (cap + bufferHeaderSize)) mem1 =
      mem2 at *
    refine ⟨?_, ?_⟩
    · intro x outside
      rw [later x (by omega), inside x (by omega)]
    · intro i below b place
      cases i with
      | zero =>
        rw [Nat.zero_mul, Nat.add_zero] at place
        subst place
        have kept : BufferHeader.read mem2 (region + current) =
            BufferHeader.read mem1 (region + current) :=
          BufferHeader.read_congr (later.agreeOn (Or.inl (by omega)))
        rw [kept]
        refine ⟨capEq, sizeEq, startEq, fun more => ?_⟩
        rw [linkEq (decide_eq_true (by omega)), Nat.zero_add, Nat.one_mul]
      | succ i =>
        rw [Nat.succ_mul] at place
        have rest := headers i (by omega) b (by omega)
        refine ⟨rest.1, rest.2.1, rest.2.2.1, fun more => ?_⟩
        rw [rest.2.2.2 (by omega), Nat.succ_mul (i + 1)]
        congr 1
        omega

end BufferList

namespace ListHeader

/-! Only `create` writes these fields. -/

theorem read_setSize {value : Nat} (mem : Memory) (offset : Nat) (fits : value < 2 ^ 31) :
    read (writeSigned mem offset 4 value) offset = { read mem offset with size := value } := by
  have written : AgreeOutside mem (writeSigned mem offset 4 value) (offset + 0) 4 :=
    writeSigned_agreeOutside mem offset 4 value
  have stored : readSigned (writeSigned mem offset 4 value) offset 4 = value :=
    readSigned_writeSigned mem offset (by omega)
  rw [read, stored]
  simp (disch := decide) only [word_of_agreeOutside written, counter_of_agreeOutside written, read]

theorem read_setCap {value : Nat} (mem : Memory) (offset : Nat) (fits : value < 2 ^ 32) :
    read (writeWord mem (offset + 4) 4 value) offset = { read mem offset with cap := value } :=
  read_writeWord mem offset fits (by decide)

theorem read_setCapPerBuffer {value : Nat} (mem : Memory) (offset : Nat)
    (fits : value < 2 ^ 32) :
    read (writeWord mem (offset + 16) 4 value) offset =
      { read mem offset with capPerBuffer := value } :=
  read_writeWord mem offset fits (by decide)

theorem read_clearCounter (mem : Memory) (offset : Nat) :
    read (writeSigned mem (offset + 20) 4 0) offset =
      { read mem offset with
        counter := Function.update (read mem offset).counter .creator 0 } := by
  have written := writeSigned_agreeOutside mem (offset + 20) 4 0
  have stored : readSigned (writeSigned mem (offset + 20) 4 0) (offset + 20) 4 = 0 := by
    rw [readSigned_writeSigned_bmod, Int.zero_bmod]
  have counter : counters (writeSigned mem (offset + 20) 4 0) offset =
      Function.update (counters mem offset) .creator 0 := by
    funext side
    cases side with
    | creator =>
      simp only [counters, Side.counterOffset, stored, Function.update_self]
    | mapper =>
      have kept : AgreeOn mem (writeSigned mem (offset + 20) 4 0) (offset + 24) 4 :=
        written.agreeOn (Or.inr (by omega))
      rw [Function.update_of_ne (by decide)]
      simp only [counters, Side.counterOffset, readSigned_congr kept]
  rw [read, size_of_agreeOutside written (by decide), word_of_agreeOutside written (by decide),
    word_of_agreeOutside written (by decide), word_of_agreeOutside written (by decide),
    word_of_agreeOutside written (by decide), counter]
  dsimp only [read]

end ListHeader

/-- A list as `create` leaves it: all its buffers are free and empty, in the order
in which they lie.  One of the counters keeps what was there before. -/
structure LaidOut (mem : Memory) (counter : Side -> Int) (g : ListLayout) : Prop where
  header : ListHeader.read mem g.offset =
    { size := g.count, cap := g.count, head := 0, tail := (g.count - 1) * g.stride,
      capPerBuffer := g.cap, counter := counter }
  buffers : ∀ b ∈ g.buffers, (BufferHeader.read mem b).cap = g.cap /\
    (BufferHeader.read mem b).size = 0 /\ (BufferHeader.read mem b).start = 0
  thread : Threaded (freeLink mem g) g.buffers

/-- A list as `create` leaves it in zeroed memory. -/
structure Laid (mem : Memory) (g : ListLayout) : Prop where
  header : ListHeader.read mem g.offset =
    { size := g.count, cap := g.count, head := 0, tail := (g.count - 1) * g.stride,
      capPerBuffer := g.cap, counter := fun _ => 0 }
  buffers : ∀ b ∈ g.buffers, (BufferHeader.read mem b).cap = g.cap /\
    (BufferHeader.read mem b).size = 0 /\ (BufferHeader.read mem b).start = 0
  thread : Threaded (freeLink mem g) g.buffers

variable {mem : Memory} {g : ListLayout}

theorem LaidOut.laid (laid : LaidOut mem (fun _ => 0) g) :
    Laid mem g :=
  ⟨laid.header, laid.buffers, laid.thread⟩

/-- The counters of a list that is laid out over `mem`: `create` clears its own. -/
def ListLayout.countersOver (g : ListLayout) (mem : Memory) : Side -> Int :=
  Function.update (ListHeader.counters mem g.offset) .creator 0

variable {mem' : Memory} {counter : Side -> Int}

theorem ListLayout.countersOver_congr (agree : AgreeOn mem mem' g.offset bufferListHeaderSize) :
    g.countersOver mem' = g.countersOver mem := by
  have same := congrArg ListHeader.counter (ListHeader.read_congr agree)
  dsimp only [ListHeader.read] at same
  rw [countersOver, countersOver, same]

theorem ListLayout.countersOver_zero (zero : forall x, g.offset <= x -> mem x = 0) :
    g.countersOver mem = fun _ => 0 := by
  funext side
  cases side with
  | creator => exact Function.update_self _ _ _
  | mapper =>
    have word : readWord mem (g.offset + 24) 4 = 0 :=
      readWord_eq_zero fun x lower _ => zero x (by omega)
    rw [countersOver, Function.update_of_ne (by decide), ListHeader.counters, readSigned]
    simp only [Side.counterOffset, word]
    rfl

theorem LaidOut.congr (laid : LaidOut mem counter g)
    (agree : AgreeOn mem mem' g.offset (g.stop - g.offset)) :
    LaidOut mem' counter g := by
  have stop : g.region <= g.stop := Nat.le_add_right ..
  have buffer : ∀ b ∈ g.buffers, BufferHeader.read mem' b = BufferHeader.read mem b := by
    intro b inside
    rcases ListLayout.bounds_of_mem inside with ⟨lower, upper⟩
    have long := g.stride_pos
    simp only [ListLayout.region] at lower
    exact BufferHeader.read_congr (agree.mono (by omega) (by omega))
  refine ⟨?_, fun b inside => ?_, ?_⟩
  · simp only [ListLayout.region] at stop
    rw [ListHeader.read_congr (agree.mono (Nat.le_refl _) (by omega))]
    exact laid.header
  · rw [buffer b inside]
    exact laid.buffers b inside
  · exact laid.thread.congr fun b inside => by rw [freeLink, freeLink, buffer b inside]

/-- A row of buffers that are linked in order becomes a list once the flag of the
last one is cleared. -/
theorem LaidOut.of_rows (positive : 0 < g.count) (header : ListHeader.read mem g.offset =
      { size := g.count, cap := g.count, head := 0, tail := (g.count - 1) * g.stride,
        capPerBuffer := g.cap, counter := counter })
    (headers : forall i, i < g.count -> forall b, g.region + i * g.stride = b ->
      (BufferHeader.read mem b).cap = g.cap /\ (BufferHeader.read mem b).size = 0 /\
      (BufferHeader.read mem b).start = 0 /\
      (i + 1 < g.count -> (BufferHeader.read mem b).link = some ((i + 1) * g.stride))) :
    LaidOut (writeWord mem (g.region + (g.count - 1) * g.stride + bufferFlagOffset) 4 0)
      counter g := by
  have long := g.stride_pos
  have lastMem : g.region + (g.count - 1) * g.stride ∈ g.buffers :=
    ListLayout.mem_buffers.mpr ⟨g.count - 1, by omega, rfl⟩
  have inside := BufferHeader.setWord_agreeOutside mem (g.region + (g.count - 1) * g.stride) 0
    (show bufferFlagOffset + 4 <= bufferHeaderSize by decide)
  have lastHeader := BufferHeader.read_clearFlagWord mem (g.region + (g.count - 1) * g.stride)
  generalize writeWord mem (g.region + (g.count - 1) * g.stride + bufferFlagOffset) 4 0 =
    cleared at *
  have kept : ∀ b ∈ g.buffers, b ≠ g.region + (g.count - 1) * g.stride ->
      BufferHeader.read cleared b = BufferHeader.read mem b := by
    intro b buffer different
    have apart := ListLayout.buffers_apart buffer lastMem different
    exact BufferHeader.read_congr (inside.agreeOn (by omega))
  have listKept : ListHeader.read cleared g.offset = ListHeader.read mem g.offset := by
    refine ListHeader.read_congr (inside.agreeOn (Or.inl ?_))
    simp only [ListLayout.region]
    omega
  refine ⟨listKept.trans header, fun b buffer => ?_, Threaded.of_range ?_ ?_⟩
  · rcases ListLayout.mem_buffers.mp buffer with ⟨i, below, place⟩
    rcases headers i below b place with ⟨cap, size, start, _⟩
    by_cases atEnd : b = g.region + (g.count - 1) * g.stride
    · subst atEnd
      rw [lastHeader]
      exact ⟨cap, size, start⟩
    · rw [kept b buffer atEnd]
      exact ⟨cap, size, start⟩
  · intro i more
    have buffer : g.region + i * g.stride ∈ g.buffers :=
      ListLayout.mem_buffers.mpr ⟨i, by omega, rfl⟩
    have before : g.region + i * g.stride ≠ g.region + (g.count - 1) * g.stride := by
      have less : (i + 1) * g.stride <= (g.count - 1) * g.stride :=
        Nat.mul_le_mul_right _ (by omega)
      rw [Nat.succ_mul] at less
      simp only [bufferHeaderSize] at long
      omega
    rw [freeLink, kept _ buffer before, (headers i (by omega) _ rfl).2.2.2 more, Option.map_some]
  · intro i atEnd
    have same : i = g.count - 1 := by omega
    subst same
    rw [freeLink, BufferHeader.link_of_clear (congrArg BufferHeader.flag lastHeader)]
    rfl

namespace BufferList

variable {num cap memLen offset : Nat} {mem : Memory}

variable {result : BufferList × Memory}

/-- In a segment that ends early enough, the checks of `create` refuse a list that
wraps around. -/
theorem unwrapped_of_created (short : memLen + bufferListHeaderSize < 2 ^ 32)
    (whole : num * (cap + bufferHeaderSize) < 2 ^ 32)
    (created : create num cap memLen offset mem = .ok result) :
    offset + bufferListHeaderSize + num * (cap + bufferHeaderSize) < 2 ^ 32 := by
  simp only [create] at created
  split_ifs at created with zero memory range
  simp only [countBufferListMemSize, bufferListHeaderSize] at *
  omega

theorem create_bounds
    (unwrapped : offset + bufferListHeaderSize + num * (cap + bufferHeaderSize) < 2 ^ 32)
    (created : create num cap memLen offset mem = .ok result) :
    0 < num /\ 0 < cap /\
    offset + bufferListHeaderSize + num * (cap + bufferHeaderSize) <= memLen := by
  simp only [create] at created
  split_ifs at created with zero memory range
  simp only [countBufferListMemSize, bufferListHeaderSize] at *
  omega

theorem create_header (numFits : num < 2 ^ 31) (capFits : cap < 2 ^ 32) (tail : Nat)
    (tailFits : tail < 2 ^ 32) :
    ListHeader.read
      (writeSigned (writeWord (writeWord (writeWord (writeWord (writeSigned mem offset 4 num)
        (offset + 4) 4 num) (offset + 8) 4 0) (offset + 12) 4 tail) (offset + 16) 4 cap)
        (offset + 20) 4 0) offset =
      { size := num, cap := num, head := 0, tail := tail, capPerBuffer := cap,
        counter := (ListLayout.mk offset num cap).countersOver mem } := by
  rw [ListHeader.read_clearCounter, ListHeader.read_setCapPerBuffer _ _ capFits,
    ListHeader.read_setTail _ _ tailFits, ListHeader.read_setHead _ _ (by decide),
    ListHeader.read_setCap _ _ (by omega), ListHeader.read_setSize _ _ numFits]
  dsimp only [ListHeader.read, ListLayout.countersOver]

theorem create_spec {mem' : Memory} {l : BufferList}
    (unwrapped : offset + bufferListHeaderSize + num * (cap + bufferHeaderSize) < 2 ^ 32)
    (capFits : cap + bufferHeaderSize < 2 ^ 32)
    (created : create num cap memLen offset mem = .ok (l, mem')) :
    l = (ListLayout.mk offset num cap).view .creator /\
    AgreeOutside mem mem' offset ((ListLayout.mk offset num cap).stop - offset) /\
    LaidOut mem' ((ListLayout.mk offset num cap).countersOver mem)
      (ListLayout.mk offset num cap) := by
  rcases create_bounds unwrapped created with ⟨numPos, capPos, bound⟩
  have atLeast : countBufferListMemSize num cap =
      bufferListHeaderSize + num * (cap + bufferHeaderSize) := Nat.mod_eq_of_lt (by omega)
  have start : (offset + bufferListHeaderSize) % 2 ^ 32 = offset + bufferListHeaderSize :=
    Nat.mod_eq_of_lt (by omega)
  have length : wrappingSub (bufferListHeaderSize + num * (cap + bufferHeaderSize))
      bufferListHeaderSize = num * (cap + bufferHeaderSize) := by
    rw [wrappingSub_of_le (Nat.le_add_right ..) (by omega), Nat.add_sub_cancel_left]
  have numFits : num < 2 ^ 31 := by
    have room : num * 20 <= num * (cap + bufferHeaderSize) :=
      Nat.mul_le_mul_left num (Nat.le_add_left ..)
    omega
  have last : (num - 1) * (cap + bufferHeaderSize) + (cap + bufferHeaderSize) =
      num * (cap + bufferHeaderSize) := by
    rw [<- Nat.succ_mul, Nat.succ_eq_add_one, Nat.sub_add_cancel numPos]
  simp only [create] at created
  split_ifs at created
  simp only [Except.ok.injEq, Prod.mk.injEq, atLeast, start, length] at created
  rcases created with ⟨rfl, written⟩
  refine ⟨rfl, ?_⟩
  have header := @create_header num cap offset mem numFits
    (Nat.lt_of_le_of_lt (Nat.le_add_right ..) capFits) ((num - 1) * (cap + bufferHeaderSize))
    (by omega)
  have outside : AgreeOutside mem (writeSigned (writeWord (writeWord (writeWord (writeWord
      (writeSigned mem offset 4 num) (offset + 4) 4 num) (offset + 8) 4 0) (offset + 12) 4
      ((num - 1) * (cap + bufferHeaderSize))) (offset + 16) 4 cap) (offset + 20) 4 0) offset
      bufferListHeaderSize := by
    intro x missed
    simp only [bufferListHeaderSize] at missed
    rw [writeSigned_agreeOutside _ _ _ _ x (by omega), writeWord_agreeOutside _ _ _ _ x (by omega),
      writeWord_agreeOutside _ _ _ _ x (by omega), writeWord_agreeOutside _ _ _ _ x (by omega),
      writeWord_agreeOutside _ _ _ _ x (by omega), writeSigned_agreeOutside _ _ _ _ x (by omega)]
  generalize writeSigned (writeWord (writeWord (writeWord (writeWord
    (writeSigned mem offset 4 num) (offset + 4) 4 num) (offset + 8) 4 0) (offset + 12) 4
    ((num - 1) * (cap + bufferHeaderSize))) (offset + 16) 4 cap) (offset + 20) 4 0 =
    headed at header outside written
  rcases initBuffers_spec (offset + bufferListHeaderSize) cap num 0 headed
    (by omega) with ⟨rows, headers⟩
  generalize initBuffers (offset + bufferListHeaderSize) cap num 0 headed = filled at *
  have headerKept : ListHeader.read filled offset = ListHeader.read headed offset :=
    ListHeader.read_congr (rows.agreeOn (Or.inl (by omega)))
  have tailEq : readWord filled (offset + 12) 4 = (num - 1) * (cap + bufferHeaderSize) :=
    (congrArg ListHeader.tail headerKept).trans (congrArg ListHeader.tail header)
  rw [tailEq] at written
  have laid := LaidOut.of_rows (g := ⟨offset, num, cap⟩) numPos (headerKept.trans header)
    (fun i below b place => by
      have row := headers i below b place
      rw [Nat.zero_add] at row
      exact row)
  simp only [ListLayout.region, ListLayout.stride] at laid
  rw [written] at laid
  refine ⟨?_, laid⟩
  intro x missed
  simp only [ListLayout.stop, ListLayout.region, ListLayout.regionLen, ListLayout.stride] at missed
  rw [<- written, writeWord_agreeOutside _ _ _ _ x (by
      simp only [bufferFlagOffset, nextBufferOffset, bufferDataStartOffset, bufferSizeOffset,
        bufferCapOffset, bufferHeaderSize] at *
      omega),
    rows x (by omega), outside x (by omega)]

end BufferList

namespace BufferManager

variable {regionCap memLen sum hadUsedOffset stop : Nat} {mem mem' : Memory}
  {created : List BufferList} {pairs : List SizePercentPair}

theorem createLists_cons {pair : SizePercentPair} {rest : List SizePercentPair}
    (result : createLists regionCap memLen (pair :: rest) sum hadUsedOffset mem =
      .ok (created, stop, mem')) :
    Exists fun num => Exists fun l => Exists fun mem1 => Exists fun others =>
      (sum + pair.percent) % 2 ^ 32 <= 100 /\
      regionCap * pair.percent / 100 % 2 ^ 32 / ((pair.size + bufferHeaderSize) % 2 ^ 32) = num /\
      BufferList.create num pair.size memLen hadUsedOffset mem = .ok (l, mem1) /\
      createLists regionCap memLen rest ((sum + pair.percent) % 2 ^ 32)
        ((hadUsedOffset + countBufferListMemSize num pair.size) % 2 ^ 32) mem1 =
          .ok (others, stop, mem') /\
      created = l :: others := by
  simp only [createLists] at result
  split_ifs at result with large
  split at result
  · cases result
  · next l mem1 made =>
    split at result
    · cases result
    · next others stop' mem2 later =>
      cases result
      exact ⟨_, l, mem1, others, Nat.le_of_not_lt large, rfl, made, later, rfl⟩

/-- As `create` lays the lists out from `hadUsedOffset` on, no buffer size wraps around
when its header is added, and no list ends beyond the addresses. -/
def Unwrapped (regionCap : Nat) : List SizePercentPair -> Nat -> Prop
  | [], _ => True
  | pair :: rest, hadUsedOffset =>
    let bufferNum := regionCap * pair.percent / 100 % 2 ^ 32 / (pair.size + bufferHeaderSize)
    let stop := hadUsedOffset + bufferListHeaderSize + bufferNum * (pair.size + bufferHeaderSize)
    pair.size + bufferHeaderSize < 2 ^ 32 /\ stop < 2 ^ 32 /\ Unwrapped regionCap rest stop

/-- The lists of a pool that `create` lays out do not wrap around. -/
def PoolUnwrapped (pairs : List SizePercentPair) (memLen offset : Nat) : Prop :=
  Unwrapped (wrappingSub (wrappingSub (wrappingSub memLen offset)
    (bufferListHeaderSize * pairs.length)) bufferManagerHeaderSize) pairs
    (offset + bufferManagerHeaderSize)

theorem share_lt (share stride : Nat) : share % 2 ^ 32 / stride * stride < 2 ^ 32 :=
  Nat.lt_of_le_of_lt (Nat.div_mul_le_self _ _) (Nat.mod_lt _ (by decide))

/-- The offset behind a list that does not wrap around. -/
theorem next_of_unwrapped {num cap : Nat} (unwrapped : hadUsedOffset +
      bufferListHeaderSize + num * (cap + bufferHeaderSize) < 2 ^ 32) :
    (hadUsedOffset + countBufferListMemSize num cap) % 2 ^ 32 =
      hadUsedOffset + bufferListHeaderSize + num * (cap + bufferHeaderSize) := by
  simp only [countBufferListMemSize]
  omega

theorem unwrapped_of_short (short : memLen + bufferListHeaderSize < 2 ^ 32)
    (sizes : ∀ pair ∈ pairs, pair.size + bufferHeaderSize < 2 ^ 32)
    (result : createLists regionCap memLen pairs sum hadUsedOffset mem =
      .ok (created, stop, mem')) : Unwrapped regionCap pairs hadUsedOffset := by
  induction pairs generalizing sum hadUsedOffset mem created with
  | nil => trivial
  | cons pair rest ih =>
    rcases createLists_cons result with ⟨num, l, mem1, others, _, numEq, made, restMade, rfl⟩
    have sizeFits := sizes pair List.mem_cons_self
    rw [Nat.mod_eq_of_lt sizeFits] at numEq
    have stopFits := BufferList.unwrapped_of_created short (numEq ▸ share_lt _ _) made
    rw [next_of_unwrapped stopFits] at restMade
    rw [Unwrapped, numEq]
    exact ⟨sizeFits, stopFits,
      ih (fun pair member => sizes pair (List.mem_cons_of_mem _ member)) restMade⟩

/-- The lists that `create` lays out from `hadUsedOffset` on. -/
theorem createLists_spec (unwrapped : Unwrapped regionCap pairs hadUsedOffset)
    (result : createLists regionCap memLen pairs sum hadUsedOffset mem =
      .ok (created, stop, mem')) :
    Exists fun lists : List ListLayout => created = lists.map (fun g => g.view .creator) /\
      lists.map ListLayout.cap = pairs.map SizePercentPair.size /\
      Follow hadUsedOffset lists stop /\ (pairs = [] \/ stop <= memLen) /\
      (∀ g ∈ lists, (0 < g.count /\ 0 < g.cap) /\ LaidOut mem' (g.countersOver mem) g) /\
      AgreeOutside mem mem' hadUsedOffset (stop - hadUsedOffset) := by
  induction pairs generalizing sum hadUsedOffset mem created with
  | nil =>
    cases result
    exact ⟨[], rfl, rfl, rfl, Or.inl rfl, fun _ none => absurd none List.not_mem_nil,
      AgreeOutside.refl _ _ _⟩
  | cons pair rest ih =>
    rcases createLists_cons result with ⟨num, l, mem1, others, _, numEq, made, restMade, rfl⟩
    rcases unwrapped with ⟨sizeFits, stopFits, restUnwrapped⟩
    rw [Nat.mod_eq_of_lt sizeFits] at numEq
    rw [numEq] at stopFits restUnwrapped
    rcases BufferList.create_bounds stopFits made with ⟨numPos, capPos, bound⟩
    rcases BufferList.create_spec stopFits sizeFits made with ⟨view, outside, laid⟩
    generalize hg : ListLayout.mk hadUsedOffset num pair.size = g at view outside laid
    have offsetEq : g.offset = hadUsedOffset := by rw [<- hg]
    have stopEq : (hadUsedOffset + countBufferListMemSize num pair.size) % 2 ^ 32 = g.stop := by
      rw [<- hg]
      exact next_of_unwrapped stopFits
    have stopLe : g.stop <= memLen := by
      rw [<- hg]
      exact bound
    have stopGe : g.offset + bufferListHeaderSize <= g.stop := Nat.le_add_right ..
    rw [stopEq] at restMade
    rcases ih (hg ▸ restUnwrapped) restMade with ⟨lists, views, caps, follow, last, all, later⟩
    have stopLater := follow.start_le
    refine ⟨g :: lists, ?_, ?_, ⟨offsetEq, follow⟩, Or.inr ?_, ?_, ?_⟩
    · rw [List.map_cons, view, views]
    · rw [List.map_cons, List.map_cons, caps, <- hg]
    · rcases last with rfl | inside
      · cases lists with
        | nil =>
          rw [show stop = g.stop from follow]
          exact stopLe
        | cons first rest => cases caps
      · exact inside
    · intro g' member
      rcases List.mem_cons.mp member with rfl | there
      · have counts : 0 < g'.count /\ 0 < g'.cap := by
          rw [<- hg]
          exact ⟨numPos, capPos⟩
        exact ⟨counts, laid.congr (later.agreeOn (Or.inl (by omega)))⟩
      · have behind := (follow.bounds there).1
        rw [<- ListLayout.countersOver_congr (outside.agreeOn (Or.inr (by omega)))]
        exact all g' there
    · intro x missed
      rw [later x (by omega), outside x (by omega)]

theorem create_cases {offset : Nat} {bm : BufferManager} {before : Memory}
    (created : create pairs memLen offset before = .ok (bm, mem)) :
    offset < memLen /\
    Exists fun lists => Exists fun stop => Exists fun mem1 =>
    Exists fun first => Exists fun last =>
      createLists (wrappingSub (wrappingSub (wrappingSub memLen offset)
          (bufferListHeaderSize * pairs.length)) bufferManagerHeaderSize) memLen pairs 0
        ((bufferManagerHeaderSize + offset) % 2 ^ 32) (writeWord before offset 2 pairs.length) =
          .ok (lists, stop, mem1) /\
      pairs.head? = some first /\ pairs.getLast? = some last /\
      bm = ⟨lists, memLen, first.size, last.size⟩ /\
      mem = writeWord mem1 (offset + bmCapOffset) 4 (wrappingSub stop bufferManagerHeaderSize) := by
  simp only [create] at created
  split_ifs at created with outOfRange
  split at created
  · cases created
  · next lists stop mem1 made =>
    split at created
    · next first last headEq lastEq =>
      cases created
      exact ⟨Nat.lt_of_not_le outOfRange, lists, stop, mem1, first, last, made, headEq, lastEq,
        rfl, rfl⟩
    · cases created

end BufferManager

/-- The ledger of a fresh pool: every buffer is free. -/
def PoolLayout.initialLedger (layout : PoolLayout) : Ledger where
  chain := fun offset =>
    ((layout.lists.find? fun g => g.offset == offset).map ListLayout.buffers).getD []
  held := []

namespace PoolLayout

variable {layout : PoolLayout} {g : ListLayout}

theorem chain_initialLedger (inside : g ∈ layout.lists) :
    layout.initialLedger.chain g.offset = g.buffers := by
  have found : layout.lists.find? (fun other => other.offset == g.offset) = some g := by
    rcases Option.isSome_iff_exists.mp
      (List.find?_isSome (p := fun other : ListLayout => other.offset == g.offset) |>.mpr
        ⟨g, inside, beq_self_eq_true g.offset⟩) with ⟨other, first⟩
    have same : other.offset = g.offset := by simpa using List.find?_some first
    rw [first, eq_of_offset (List.mem_of_find?_eq_some first) inside same]
  rw [initialLedger]
  simp only [found, Option.map_some, Option.getD_some]

theorem sound_initialLedger (layout : PoolLayout) : layout.initialLedger.Sound layout where
  perm := by
    rw [Ledger.free, List.flatMap_congr fun g inside => chain_initialLedger inside]
    exact List.Perm.of_eq (List.append_nil _)
  nonempty := by
    intro g inside empty
    rw [chain_initialLedger inside] at empty
    have none := congrArg List.length empty
    rw [ListLayout.buffers, List.length_map, List.length_range, List.length_nil] at none
    have positive := (layout.positive g inside).1
    omega
  fits := by
    intro g inside b queued
    rw [chain_initialLedger inside] at queued
    exact ⟨g, inside, queued, rfl, Nat.le_refl _⟩

/-- The bytes of freshly laid out lists represent the ledger in which every
buffer is free. -/
theorem represents_initialLedger {mem : Memory}
    (number : readWord mem layout.start 2 = layout.lists.length % 2 ^ 16)
    (used : readWord mem (layout.start + bmCapOffset) 4 = layout.stop - bufferManagerHeaderSize)
    (laid : ∀ g ∈ layout.lists, Laid mem g) :
    Represents layout ⟨mem, []⟩ layout.initialLedger where
  sound := layout.sound_initialLedger
  number := number
  used := used
  header := by
    intro g inside
    have positive := (layout.positive g inside).1
    have some : Exists fun count => g.count = count + 1 := ⟨g.count - 1, by omega⟩
    rcases some with ⟨count, countEq⟩
    rw [(laid g inside).header, Ledger.listHeader, chain_initialLedger inside]
    have first : g.buffers.headD g.region = g.region := by
      rw [ListLayout.buffers, countEq, List.range_succ_eq_map, List.map_cons, List.headD_cons,
        Nat.zero_mul, Nat.add_zero]
    have last : g.buffers.getLastD g.region = g.region + (g.count - 1) * g.stride := by
      rw [ListLayout.buffers, countEq, List.range_succ, List.map_append, List.map_singleton,
        List.getLastD_concat, Nat.add_sub_cancel]
    have length : g.buffers.length = g.count := by
      rw [ListLayout.buffers, List.length_map, List.length_range]
    rw [first, last, length, Nat.sub_self, Nat.add_sub_cancel_left]
    rfl
  thread := by
    intro g inside
    rw [chain_initialLedger inside]
    exact (laid g inside).thread
  empty := by
    intro g inside b queued
    rw [chain_initialLedger inside] at queued
    exact ((laid g inside).buffers b queued).2
  cap := fun g inside b buffer => ((laid g inside).buffers b buffer).1
  logged := fun _ none => absurd none List.not_mem_nil
  balance := by
    intro g inside
    rw [chain_initialLedger inside, ListLayout.buffers, List.length_map, List.length_range]
    simp [netTakes]

end PoolLayout

namespace BufferManager

variable {pairs : List SizePercentPair} {memLen offset : Nat} {bm : BufferManager}

theorem create_layout {before mem : Memory} (memFits : memLen < 2 ^ 32)
    (startFits : offset + bufferManagerHeaderSize < 2 ^ 32)
    (unwrapped : PoolUnwrapped pairs memLen offset)
    (created : create pairs memLen offset before = .ok (bm, mem)) :
    Exists fun layout : PoolLayout => layout.start = offset /\ layout.memLen = memLen /\
      bm = layout.view .creator /\
      layout.lists.map ListLayout.cap = pairs.map SizePercentPair.size /\
      readWord mem layout.start 2 = layout.lists.length % 2 ^ 16 /\
      readWord mem (layout.start + bmCapOffset) 4 = layout.stop - bufferManagerHeaderSize /\
      ∀ g ∈ layout.lists, LaidOut mem (g.countersOver before) g := by
  rcases create_cases created with
    ⟨inRange, lists, stop, mem1, first, final, made, headEq, lastEq, rfl, rfl⟩
  rw [Nat.add_comm bufferManagerHeaderSize, Nat.mod_eq_of_lt startFits] at made
  rcases createLists_spec unwrapped made with ⟨layouts, views, caps, follow, last, all, outside⟩
  have nonempty : pairs ≠ [] := by
    rintro rfl
    cases headEq
  have inside : stop <= memLen := last.resolve_left nonempty
  have start := follow.start_le
  have someList : layouts ≠ [] := by
    rintro rfl
    exact nonempty (List.map_eq_nil_iff.mp caps.symm)
  let layout : PoolLayout :=
    { start := offset, stop := stop, memLen := memLen, lists := layouts,
      nonempty := someList, follow := follow, stop_le := inside,
      memLen_lt := by omega, positive := fun g listed => (all g listed).1 }
  have written := writeWord_agreeOutside mem1 (offset + bmCapOffset) 4
    (wrappingSub stop bufferManagerHeaderSize)
  refine ⟨layout, rfl, rfl, ?_, caps, ?_, ?_, ?_⟩
  · have minEq : (layouts.head?.map ListLayout.cap).getD 0 = first.size := by
      rw [<- List.head?_map, caps, List.head?_map, headEq]
      rfl
    have maxEq : (layouts.getLast?.map ListLayout.cap).getD 0 = final.size := by
      rw [<- List.getLast?_map, caps, List.getLast?_map, lastEq]
      rfl
    simp only [PoolLayout.view, layout, minEq, maxEq, views]
  · have count : layouts.length = pairs.length := by
      simpa using congrArg List.length caps
    simp only [layout, bufferManagerHeaderSize, bmCapOffset] at *
    rw [readWord_congr (written.agreeOn (Or.inl (by omega))),
      readWord_congr (outside.agreeOn (Or.inl (by omega))), readWord_writeWord, count]
    rfl
  · have usedEq : wrappingSub stop bufferManagerHeaderSize = stop - bufferManagerHeaderSize :=
      wrappingSub_of_le (by omega) (by omega)
    simp only [layout, usedEq]
    exact readWord_writeWord_of_lt _ _ (by omega)
  · intro g listed
    have lower := (follow.bounds listed).1
    have number := writeWord_agreeOutside before offset 2 pairs.length
    simp only [bufferManagerHeaderSize, bmCapOffset] at *
    rw [<- ListLayout.countersOver_congr (number.agreeOn (Or.inr (by omega)))]
    exact (all g listed).2.congr (written.agreeOn (Or.inr (by omega)))

theorem create_spec {mem : Memory} (short : memLen + bufferListHeaderSize < 2 ^ 32)
    (sizes : ∀ pair ∈ pairs, pair.size + bufferHeaderSize < 2 ^ 32)
    (created : create pairs memLen offset (fun _ => 0) = .ok (bm, mem)) :
    Exists fun layout : PoolLayout => layout.start = offset /\ layout.memLen = memLen /\
      bm = layout.view .creator /\
      layout.lists.map ListLayout.cap = pairs.map SizePercentPair.size /\
      Represents layout ⟨mem, []⟩ layout.initialLedger := by
  rcases create_cases created with ⟨inRange, _, _, _, _, _, made, _⟩
  have startFits : offset + bufferManagerHeaderSize < 2 ^ 32 := by
    simp only [bufferManagerHeaderSize, bufferListHeaderSize] at *
    omega
  rw [Nat.add_comm bufferManagerHeaderSize, Nat.mod_eq_of_lt startFits] at made
  rcases create_layout (by omega) startFits (unwrapped_of_short short sizes made) created with
    ⟨layout, start, length, view, caps, number, used, laid⟩
  refine ⟨layout, start, length, view, caps,
    PoolLayout.represents_initialLedger number used fun g listed => LaidOut.laid ?_⟩
  rw [<- ListLayout.countersOver_zero (g := g) fun _ _ => rfl]
  exact laid g listed

end BufferManager

/-- The words in which `mapping` finds a layout. -/
structure Described (layout : PoolLayout) (mem : Memory) : Prop where
  number : readWord mem layout.start 2 = layout.lists.length % 2 ^ 16
  used : readWord mem (layout.start + bmCapOffset) 4 = layout.stop - bufferManagerHeaderSize
  count : ∀ g ∈ layout.lists, readWord mem (g.offset + 4) 4 = g.count
  cap : ∀ g ∈ layout.lists, readWord mem (g.offset + 16) 4 = g.cap

namespace Described

variable {layout : PoolLayout} {mem : Memory} {g : ListLayout}

theorem mapping_list (described : Described layout mem) (inside : g ∈ layout.lists) :
    BufferList.mapping layout.memLen g.offset mem = .ok (g.view .mapper) := by
  have stop := (PoolLayout.bounds inside).2
  have small := layout.memLen_lt
  have capEq := described.count g inside
  have perBuffer := described.cap g inside
  simp only [ListLayout.stop, ListLayout.region, ListLayout.regionLen, ListLayout.stride] at stop
  have size : countBufferListMemSize g.count g.cap =
      bufferListHeaderSize + g.count * (g.cap + bufferHeaderSize) := Nat.mod_eq_of_lt (by omega)
  have headerEnd : (g.offset + bufferListHeaderSize) % 2 ^ 32 = g.offset + bufferListHeaderSize :=
    Nat.mod_eq_of_lt (by omega)
  have listEnd : (g.offset + (bufferListHeaderSize + g.count * (g.cap + bufferHeaderSize))) %
      2 ^ 32 = g.offset + (bufferListHeaderSize + g.count * (g.cap + bufferHeaderSize)) :=
    Nat.mod_eq_of_lt (by omega)
  have length : wrappingSub (bufferListHeaderSize + g.count * (g.cap + bufferHeaderSize))
      bufferListHeaderSize = g.count * (g.cap + bufferHeaderSize) := by
    rw [wrappingSub_of_le (Nat.le_add_right ..) (by omega), Nat.add_sub_cancel_left]
  simp only [BufferList.mapping, capEq, perBuffer, size, headerEnd, listEnd, length]
  rw [if_neg (by omega), if_neg (by omega)]
  rfl

theorem mapLists_eq (described : Described layout mem) {lists : List ListLayout}
    {hadUsedOffset : Nat} (known : lists ⊆ layout.lists)
    (follow : Follow (layout.start + hadUsedOffset) lists layout.stop) :
    BufferManager.mapLists layout.memLen layout.start mem lists.length hadUsedOffset =
      .ok (lists.map fun g => g.view .mapper) := by
  induction lists generalizing hadUsedOffset with
  | nil => rfl
  | cons g rest ih =>
    have inside := known List.mem_cons_self
    rcases follow with ⟨here, behind⟩
    have stop := (PoolLayout.bounds inside).2
    have small := layout.memLen_lt
    have offsetEq : (layout.start + hadUsedOffset) % 2 ^ 32 = g.offset := by
      simp only [ListLayout.stop, ListLayout.region] at stop
      omega
    have capEq : readWord mem (g.view .mapper).cap 4 = g.count := described.count g inside
    have perBuffer : readWord mem (g.view .mapper).capPerBuffer 4 = g.cap :=
      described.cap g inside
    have next : (hadUsedOffset + countBufferListMemSize g.count g.cap) % 2 ^ 32 =
        g.stop - layout.start := by
      simp only [countBufferListMemSize, ListLayout.stop, ListLayout.region,
        ListLayout.regionLen, ListLayout.stride] at *
      omega
    have shifted : layout.start + (g.stop - layout.start) = g.stop := by
      simp only [ListLayout.stop, ListLayout.region] at *
      omega
    rw [List.length_cons, BufferManager.mapLists, offsetEq, described.mapping_list inside]
    simp only [capEq, perBuffer, next]
    rw [ih (fun _ member => known (List.mem_cons_of_mem _ member)) (shifted.symm ▸ behind)]
    rfl

theorem mapping_eq (described : Described layout mem) (few : layout.lists.length < 2 ^ 16) :
    BufferManager.mapping layout.memLen layout.start mem = .ok (layout.view .mapper) := by
  have small := layout.memLen_lt
  have start := layout.follow.start_le
  have inside := layout.stop_le
  have number : readWord mem layout.start 2 = layout.lists.length := by
    rw [described.number, Nat.mod_eq_of_lt few]
  have some : layout.lists.length ≠ 0 := fun none =>
    layout.nonempty (List.length_eq_zero_iff.mp none)
  have lists := described.mapLists_eq (List.Subset.refl layout.lists) layout.follow
  have capOf : forall l : Option ListLayout, (∀ g, l = Option.some g -> g ∈ layout.lists) ->
      (((l.map fun g => g.view .mapper).map fun l => readWord mem l.capPerBuffer 4).getD 0) =
        (l.map ListLayout.cap).getD 0 := by
    intro l known
    cases l with
    | none => rfl
    | some g => exact described.cap g (known g rfl)
  have room : ¬ (layout.memLen <= (layout.start + bmCapOffset) % 2 ^ 32 \/
      layout.memLen <= layout.start) := by
    simp only [bufferManagerHeaderSize, bmCapOffset] at *
    omega
  have fits : ¬ (layout.memLen < (bufferManagerHeaderSize +
      (layout.stop - bufferManagerHeaderSize)) % 2 ^ 32 \/ layout.lists.length = 0) := by
    omega
  simp only [BufferManager.mapping, number, described.used, lists]
  rw [if_neg room, if_neg fits]
  simp only [PoolLayout.view, List.head?_map, List.getLast?_map]
  rw [capOf _ fun g first => List.mem_of_head? first,
    capOf _ fun g last => List.mem_of_getLast? last]

end Described

theorem Represents.described {layout : PoolLayout} {shm : Shm} {ledger : Ledger}
    (rep : Represents layout shm ledger) : Described layout shm.mem where
  number := rep.number
  used := rep.used
  count := fun g inside => congrArg ListHeader.cap (rep.header g inside)
  cap := fun g inside => congrArg ListHeader.capPerBuffer (rep.header g inside)

end Pool
end Shmipc
