import Shmipc.Config
import Shmipc.Pool.Create

namespace Shmipc
namespace Pool

open ByteMemory Tiling
open Buffer (bufferHeaderSize bufferListHeaderSize)

/-!
# A pool as its peer recovers it

The creator of a pool divides the segment among the sizes of the configuration.
The peer is told none of them.  It walks the list headers and computes where each
list ends from what the header says.

Both compute with `u32`.  The percents of a configuration may wrap around as they
are added up, so there is no saying how long a list will be.  As long as no list wraps
around, the checks of `create` still keep every list inside the segment, and as every
list takes memory away there are few enough of them for their number to fit into two
bytes.  In a segment that reaches the last 36 bytes below 4 GiB a list can pass the
checks and wrap around: its size can when the header of a buffer is added to it.
-/

/-- The first byte behind a list. -/
def BufferList.stop (l : BufferList) : Nat :=
  l.bufferRegion + l.bufferRegionLen

/-- The buffers of a list, in the order in which it hands them out: as many as its
header says, linked from the head to the tail, of the size that the header says, in
the region of the list and apart from each other. -/
structure BufferList.Threads (l : BufferList) (mem : Memory) (chain : List Nat) : Prop where
  count : chain.length = readWord mem l.cap 4
  size : readSigned mem l.size 4 = chain.length
  head : chain.head? = some (l.bufferRegion + readWord mem l.head 4)
  tail : chain.getLast? = some (l.bufferRegion + readWord mem l.tail 4)
  linked : Threaded
    (fun b => (BufferHeader.read mem b).link.map fun next => l.bufferRegion + next) chain
  cap : ∀ b ∈ chain, (BufferHeader.read mem b).cap = readWord mem l.capPerBuffer 4
  inside : ∀ b ∈ chain, l.bufferRegion <= b /\
    b + (readWord mem l.capPerBuffer 4 + bufferHeaderSize) <= l.stop
  apart : chain.Pairwise fun b b' => b + (readWord mem l.capPerBuffer 4 + bufferHeaderSize) <= b' \/
    b' + (readWord mem l.capPerBuffer 4 + bufferHeaderSize) <= b

/-- The lists lie in a segment of `memLen` bytes, each behind its header and apart from
the others, and every list threads its buffers. -/
structure WellLaid (memLen : Nat) (lists : List BufferList) (mem : Memory) : Prop where
  apart : lists.Pairwise fun l l' => l.stop <= l'.offsetInShm \/ l'.stop <= l.offsetInShm
  inside : ∀ l ∈ lists, l.offsetInShm + bufferListHeaderSize = l.bufferRegion /\
    l.bufferRegion <= l.stop /\ l.stop <= memLen
  threads : ∀ l ∈ lists, Exists fun chain => l.Threads mem chain

/-- What a view has to say about a list. -/
structure Outline where
  offsetInShm : Nat
  bufferRegionOffsetInShm : Nat
  bufferRegionLen : Nat
  size : Int
  cap : Nat
  head : Nat
  tail : Nat
  capPerBuffer : Nat
  deriving DecidableEq

def BufferList.outline (mem : Memory) (l : BufferList) : Outline where
  offsetInShm := l.offsetInShm
  bufferRegionOffsetInShm := l.bufferRegionOffsetInShm
  bufferRegionLen := l.bufferRegionLen
  size := readSigned mem l.size 4
  cap := readWord mem l.cap 4
  head := readWord mem l.head 4
  tail := readWord mem l.tail 4
  capPerBuffer := readWord mem l.capPerBuffer 4

/-! ## A fresh list threads its buffers -/

namespace ListLayout

variable {g : ListLayout}

theorem head?_buffers (positive : 0 < g.count) : g.buffers.head? = some g.region := by
  rw [buffers, List.head?_map, List.head?_range, if_neg (Nat.ne_of_gt positive), Option.map_some,
    Nat.zero_mul, Nat.add_zero]

theorem getLast?_buffers (positive : 0 < g.count) :
    g.buffers.getLast? = some (g.region + (g.count - 1) * g.stride) := by
  rw [buffers, List.getLast?_map, List.getLast?_range, if_neg (Nat.ne_of_gt positive),
    Option.map_some]

theorem pairwise_buffers (g : ListLayout) :
    g.buffers.Pairwise fun b b' => b + g.stride <= b' := by
  rw [buffers, List.pairwise_map]
  refine List.pairwise_lt_range.imp fun {k k'} before => ?_
  have room : (k + 1) * g.stride <= k' * g.stride := Nat.mul_le_mul_right _ before
  rw [Nat.succ_mul] at room
  omega

end ListLayout

theorem LaidOut.threads {mem : Memory} {counter : Side -> Int} {g : ListLayout}
    (laid : LaidOut mem counter g) (positive : 0 < g.count) (side : Side) :
    (g.view side).Threads mem g.buffers := by
  have cap : readWord mem (g.offset + 16) 4 = g.cap := congrArg ListHeader.capPerBuffer laid.header
  have count : readWord mem (g.offset + 4) 4 = g.count := congrArg ListHeader.cap laid.header
  have head : readWord mem (g.offset + 8) 4 = 0 := congrArg ListHeader.head laid.header
  have tail : readWord mem (g.offset + 12) 4 = (g.count - 1) * g.stride :=
    congrArg ListHeader.tail laid.header
  have size : readSigned mem g.offset 4 = g.count := congrArg ListHeader.size laid.header
  have length : g.buffers.length = g.count := by
    rw [ListLayout.buffers, List.length_map, List.length_range]
  constructor
  case count => exact length.trans count.symm
  case size => exact size.trans (congrArg Nat.cast length.symm)
  case head =>
    change _ = some (g.region + readWord mem (g.offset + 8) 4)
    rw [head]
    exact ListLayout.head?_buffers positive
  case tail =>
    change _ = some (g.region + readWord mem (g.offset + 12) 4)
    rw [tail]
    exact ListLayout.getLast?_buffers positive
  case linked => exact laid.thread
  case cap =>
    intro b buffer
    exact (laid.buffers b buffer).1.trans cap.symm
  case inside =>
    intro b buffer
    change g.region <= b /\ b + (readWord mem (g.offset + 16) 4 + bufferHeaderSize) <= g.stop
    rw [cap]
    exact ListLayout.bounds_of_mem buffer
  case apart =>
    change g.buffers.Pairwise fun b b' =>
      b + (readWord mem (g.offset + 16) 4 + bufferHeaderSize) <= b' \/
        b' + (readWord mem (g.offset + 16) 4 + bufferHeaderSize) <= b
    rw [cap]
    exact g.pairwise_buffers.imp Or.inl

theorem PoolLayout.wellLaid {layout : PoolLayout} {mem : Memory} {counter : ListLayout -> Side -> Int}
    (laid : ∀ g ∈ layout.lists, LaidOut mem (counter g) g) (side : Side) :
    WellLaid layout.memLen (layout.view side).lists mem where
  apart := by
    rw [PoolLayout.view, List.pairwise_map]
    exact layout.follow.pairwise.imp Or.inl
  inside := by
    intro l listed
    rcases List.mem_map.mp listed with ⟨g, inside, rfl⟩
    exact ⟨rfl, Nat.le_add_right .., (PoolLayout.bounds inside).2⟩
  threads := by
    intro l listed
    rcases List.mem_map.mp listed with ⟨g, inside, rfl⟩
    exact ⟨g.buffers, (laid g inside).threads (layout.positive g inside).1 side⟩

/-! ## The number of lists -/

/-- A pair either raises the sum of the percents and takes a share of the region, or it
wraps the sum around and lowers it. -/
theorem share_of_pair {regionCap sum percent stride num : Nat} (regionFits : regionCap < 2 ^ 32)
    (percentFits : percent < 2 ^ 32) (sumLow : sum <= 100) (low : (sum + percent) % 2 ^ 32 <= 100)
    (numEq : regionCap * percent / 100 % 2 ^ 32 / stride = num) (numPos : 0 < num) :
    regionCap + regionCap * ((sum + percent) % 2 ^ 32) <= 400 * (num * stride) + regionCap * sum := by
  by_cases wraps : 2 ^ 32 <= sum + percent
  · have lower : (sum + percent) % 2 ^ 32 + 1 <= sum := by omega
    have share : regionCap * ((sum + percent) % 2 ^ 32 + 1) <= regionCap * sum :=
      Nat.mul_le_mul_left _ lower
    rw [Nat.mul_add, Nat.mul_one] at share
    omega
  · have added : (sum + percent) % 2 ^ 32 = sum + percent := Nat.mod_eq_of_lt (by omega)
    have percentPos : 0 < percent := by
      rcases Nat.eq_zero_or_pos percent with none | some
      · rw [none, Nat.mul_zero, Nat.zero_div, Nat.zero_mod, Nat.zero_div] at numEq
        omega
      · exact some
    have stridePos : 0 < stride := by
      rcases Nat.eq_zero_or_pos stride with none | some
      · rw [none, Nat.div_zero] at numEq
        omega
      · exact some
    have once : regionCap * 1 <= regionCap * percent := Nat.mul_le_mul_left _ percentPos
    have all : regionCap * percent <= regionCap * 100 := Nat.mul_le_mul_left _ (by omega)
    have fits : regionCap * percent / 100 % 2 ^ 32 = regionCap * percent / 100 :=
      Nat.mod_eq_of_lt (by omega)
    -- Rounding down to whole buffers loses less than half, as there is at least one.
    have filled : regionCap * percent / 100 < (num + 1) * stride := by
      rw [fits] at numEq
      exact (Nat.div_lt_iff_lt_mul stridePos).mp (by omega)
    have half : stride <= num * stride := Nat.le_mul_of_pos_left _ numPos
    rw [Nat.add_mul, Nat.one_mul] at filled
    rw [added, Nat.mul_add]
    omega

namespace BufferManager

theorem createLists_count {regionCap memLen sum hadUsedOffset stop : Nat} {mem mem' : Memory}
    {pairs : List SizePercentPair} {created : List BufferList} (regionFits : regionCap < 2 ^ 32)
    (unwrapped : Unwrapped regionCap pairs hadUsedOffset)
    (percents : ∀ pair ∈ pairs, pair.percent < 2 ^ 32) (sumLow : sum <= 100)
    (result : createLists regionCap memLen pairs sum hadUsedOffset mem =
      .ok (created, stop, mem')) :
    hadUsedOffset + 37 * pairs.length <= stop /\
      regionCap * pairs.length + 400 * (hadUsedOffset + bufferListHeaderSize * pairs.length) <=
        400 * stop + regionCap * sum := by
  induction pairs generalizing sum hadUsedOffset mem created with
  | nil =>
    cases result
    simp only [List.length_nil, Nat.mul_zero]
    omega
  | cons pair rest ih =>
    rcases createLists_cons result with ⟨num, l, mem1, others, low, numEq, made, restMade, rfl⟩
    rcases unwrapped with ⟨sizeFits, stopFits, restUnwrapped⟩
    rw [Nat.mod_eq_of_lt sizeFits] at numEq
    rw [numEq] at stopFits restUnwrapped
    rcases BufferList.create_bounds stopFits made with ⟨numPos, _, bound⟩
    have share := share_of_pair regionFits (percents pair List.mem_cons_self) sumLow low numEq
      numPos
    have taken : 0 < num * (pair.size + bufferHeaderSize) :=
      Nat.mul_pos numPos (Nat.lt_of_lt_of_le (by decide) (Nat.le_add_left ..))
    rw [next_of_unwrapped stopFits] at restMade
    rcases ih restUnwrapped
      (fun pair member => percents pair (List.mem_cons_of_mem _ member)) low restMade with
      ⟨room, count⟩
    simp only [bufferListHeaderSize] at room count ⊢
    rw [List.length_cons, Nat.mul_add regionCap, Nat.mul_one]
    omega

/-- A list that raises the sum of the percents takes at least half of its share, and the
sum is never raised by more than twice a hundred.  Every other list lowers it. -/
theorem length_of_created {pairs : List SizePercentPair} {memLen offset : Nat} {bm : BufferManager}
    {before mem : Memory} (memFits : memLen < 2 ^ 32)
    (startFits : offset + bufferManagerHeaderSize < 2 ^ 32)
    (unwrapped : PoolUnwrapped pairs memLen offset)
    (percents : ∀ pair ∈ pairs, pair.percent < 2 ^ 32)
    (created : create pairs memLen offset before = .ok (bm, mem)) : pairs.length <= 400 := by
  rcases create_cases created with ⟨inRange, lists, stop, mem1, _, _, made, _⟩
  generalize regionEq : wrappingSub (wrappingSub (wrappingSub memLen offset)
    (bufferListHeaderSize * pairs.length)) bufferManagerHeaderSize = regionCap at made
  rw [PoolUnwrapped, regionEq] at unwrapped
  have regionFits : regionCap < 2 ^ 32 := by
    rw [<- regionEq]
    exact Nat.mod_lt _ (by decide)
  rw [Nat.add_comm bufferManagerHeaderSize, Nat.mod_eq_of_lt startFits] at made
  rcases createLists_spec unwrapped made with ⟨_, _, _, _, last, _, _⟩
  rcases createLists_count regionFits unwrapped percents (Nat.zero_le _) made with ⟨room, count⟩
  rcases last with none | inside
  · rw [none]
    exact Nat.zero_le _
  simp only [bufferManagerHeaderSize, bufferListHeaderSize] at *
  have behind : wrappingSub memLen offset = memLen - offset :=
    wrappingSub_of_le (by omega) (by omega)
  have headers : wrappingSub (memLen - offset) (36 * pairs.length) =
      memLen - offset - 36 * pairs.length := wrappingSub_of_le (by omega) (by omega)
  rw [behind, headers, wrappingSub_of_le (by omega) (by omega)] at regionEq
  by_contra more
  have twice : regionCap * 401 <= regionCap * pairs.length := Nat.mul_le_mul_left _ (by omega)
  omega

end BufferManager

/-! ## A list that wraps around -/

namespace BufferList

theorem initBuffers_below {region cap : Nat} (capFits : cap < 2 ^ 32) (rounds current : Nat)
    (mem : Memory) {x : Nat} (below : x < region) :
    initBuffers region cap rounds current mem x = mem x := by
  induction rounds generalizing current mem with
  | zero => rfl
  | succ rounds ih =>
    rw [initBuffers, ih]
    exact (initBuffer_spec _ cap _ _ mem capFits (Nat.mod_lt _ (by decide))).1 x (by omega)

variable {num cap memLen offset : Nat} {mem mem' : Memory} {l : BufferList}

theorem fields_of_created (created : create num cap memLen offset mem = .ok (l, mem')) :
    l.capPerBuffer = offset + 16 /\ l.bufferRegion = offset + bufferListHeaderSize /\
      l.bufferRegionLen = wrappingSub (countBufferListMemSize num cap) bufferListHeaderSize /\
      (offset + bufferListHeaderSize) % 2 ^ 32 <
        (offset + countBufferListMemSize num cap) % 2 ^ 32 := by
  simp only [create] at created
  split_ifs at created with zero memory range
  rcases Prod.mk.inj (Except.ok.inj created) with ⟨rfl, _⟩
  exact ⟨rfl, rfl, rfl, Nat.lt_of_not_le range⟩

/-- However its buffers wrap around, a list is written from its offset on, and its header
is what `create` wrote. -/
theorem writes_of_created (capFits : cap < 2 ^ 32)
    (created : create num cap memLen offset mem = .ok (l, mem')) :
    (forall x, x < offset -> mem' x = mem x) /\ readWord mem' (offset + 16) 4 = cap := by
  simp only [create] at created
  split_ifs at created
  have written := (Prod.mk.inj (Except.ok.inj created)).2
  generalize begunEq : writeWord (writeWord (writeWord (writeSigned mem offset 4 num) (offset + 4)
    4 num) (offset + 8) 4 0) (offset + 12) 4 ((num - 1) * (cap + bufferHeaderSize)) = begun
    at written
  -- The loop and the last write are behind the header.
  have behind (x : Nat) (below : x < offset + bufferListHeaderSize) : mem' x =
      writeSigned (writeWord begun (offset + 16) 4 cap) (offset + 20) 4 0 x := by
    rw [<- written, writeWord_agreeOutside _ _ _ _ x (by omega), initBuffers_below capFits _ _ _ below]
  constructor
  · intro x below
    rw [behind x (by omega), <- begunEq, writeSigned_agreeOutside _ _ _ _ x (by omega),
      writeWord_agreeOutside _ _ _ _ x (by omega), writeWord_agreeOutside _ _ _ _ x (by omega),
      writeWord_agreeOutside _ _ _ _ x (by omega), writeWord_agreeOutside _ _ _ _ x (by omega),
      writeSigned_agreeOutside _ _ _ _ x (by omega)]
  · have kept : AgreeOn (writeWord begun (offset + 16) 4 cap) mem' (offset + 16) 4 := by
      intro x lower upper
      rw [behind x (by simp only [bufferListHeaderSize]; omega)]
      exact writeSigned_agreeOutside _ _ _ _ x (by omega)
    rw [readWord_congr kept]
    exact readWord_writeWord_of_lt _ _ capFits

/-- A list whose buffers are as long as all addresses cannot thread them in its region. -/
theorem not_threads_of_created {mem'' : Memory} (capFits : cap < 2 ^ 32)
    (wraps : 2 ^ 32 <= cap + bufferHeaderSize)
    (created : create num cap memLen offset mem = .ok (l, mem'))
    (agree : AgreeOn mem' mem'' (offset + 16) 4) (chain : List Nat) : ¬ l.Threads mem'' chain := by
  intro threads
  rcases fields_of_created created with ⟨address, _, length, _⟩
  have cap : readWord mem'' l.capPerBuffer 4 = cap := by
    rw [address, readWord_congr agree, (writes_of_created capFits created).2]
  have short : l.bufferRegionLen < 2 ^ 32 := length ▸ Nat.mod_lt _ (by decide)
  have bounds := threads.inside _ (List.mem_of_head? threads.head)
  rw [cap, stop] at bounds
  omega

end BufferList

namespace BufferManager

variable {regionCap memLen sum hadUsedOffset stop : Nat} {mem mem' final : Memory}
  {pairs : List SizePercentPair} {created : List BufferList}

/-- Lists that lie in the segment follow each other, and none is written before its
offset. -/
theorem createLists_below (memFits : memLen < 2 ^ 32) (sizes : ∀ pair ∈ pairs, pair.size < 2 ^ 32)
    (inside : ∀ l ∈ created, l.stop <= memLen)
    (result : createLists regionCap memLen pairs sum hadUsedOffset mem =
      .ok (created, stop, mem')) {x : Nat} (below : x < hadUsedOffset) : mem' x = mem x := by
  induction pairs generalizing sum hadUsedOffset mem created with
  | nil =>
    cases result
    rfl
  | cons pair rest ih =>
    rcases createLists_cons result with ⟨num, l, mem1, others, _, _, made, restMade, rfl⟩
    rcases BufferList.fields_of_created made with ⟨_, region, _, after⟩
    have ends := inside l List.mem_cons_self
    rw [BufferList.stop, region] at ends
    rw [ih (fun pair member => sizes pair (List.mem_cons_of_mem _ member))
      (fun l member => inside l (List.mem_cons_of_mem _ member)) restMade (by omega)]
    exact (BufferList.writes_of_created (sizes pair List.mem_cons_self) made).1 x below

theorem unwrapped_of_laid (memFits : memLen < 2 ^ 32)
    (sizes : ∀ pair ∈ pairs, pair.size < 2 ^ 32) (inside : ∀ l ∈ created, l.stop <= memLen)
    (threads : ∀ l ∈ created, Exists fun chain => l.Threads final chain)
    (kept : forall x, hadUsedOffset <= x -> final x = mem' x)
    (result : createLists regionCap memLen pairs sum hadUsedOffset mem =
      .ok (created, stop, mem')) : Unwrapped regionCap pairs hadUsedOffset := by
  induction pairs generalizing sum hadUsedOffset mem created with
  | nil => trivial
  | cons pair rest ih =>
    rcases createLists_cons result with ⟨num, l, mem1, others, _, numEq, made, restMade, rfl⟩
    rcases BufferList.fields_of_created made with ⟨_, region, length, after⟩
    have ends := inside l List.mem_cons_self
    rw [BufferList.stop, region] at ends
    have restSizes := fun pair member => sizes pair (List.mem_cons_of_mem _ member)
    have restInside := fun l member => inside l (List.mem_cons_of_mem _ member)
    by_cases sizeFits : pair.size + bufferHeaderSize < 2 ^ 32
    · rw [Nat.mod_eq_of_lt sizeFits] at numEq
      have whole := share_lt (regionCap * pair.percent / 100) (pair.size + bufferHeaderSize)
      rw [numEq] at whole
      -- What is added to the whole size is taken away again, so the list has that size.
      have regionLen : l.bufferRegionLen = num * (pair.size + bufferHeaderSize) := by
        rw [length]
        simp only [wrappingSub, countBufferListMemSize, bufferListHeaderSize]
        omega
      have stopFits : hadUsedOffset + bufferListHeaderSize +
          num * (pair.size + bufferHeaderSize) < 2 ^ 32 := by omega
      rw [next_of_unwrapped stopFits] at restMade
      rw [Unwrapped, numEq]
      exact ⟨sizeFits, stopFits, ih restSizes restInside
        (fun l member => threads l (List.mem_cons_of_mem _ member))
        (fun x behind => kept x (by omega)) restMade⟩
    · rcases threads l List.mem_cons_self with ⟨chain, threaded⟩
      refine absurd threaded (BufferList.not_threads_of_created (sizes pair List.mem_cons_self)
        (by omega) made (fun x lower upper => ?_) chain)
      rw [kept x (by omega)]
      simp only [bufferListHeaderSize] at *
      exact createLists_below memFits restSizes restInside restMade (by omega)

theorem unwrapped_of_wellLaid {offset : Nat} {bm : BufferManager} {before : Memory}
    (memFits : memLen < 2 ^ 32) (startFits : offset + bufferManagerHeaderSize < 2 ^ 32)
    (sizes : ∀ pair ∈ pairs, pair.size < 2 ^ 32)
    (made : create pairs memLen offset before = .ok (bm, mem))
    (laid : WellLaid memLen bm.lists mem) : PoolUnwrapped pairs memLen offset := by
  rcases create_cases made with ⟨_, lists, stop, mem1, _, _, created, _, _, rfl, rfl⟩
  rw [Nat.add_comm bufferManagerHeaderSize, Nat.mod_eq_of_lt startFits] at created
  refine unwrapped_of_laid memFits sizes (fun l member => (laid.inside l member).2.2)
    laid.threads (fun x behind => ?_) created
  apply writeWord_agreeOutside
  simp only [bmCapOffset, bufferManagerHeaderSize] at *
  omega

end BufferManager

/-! ## Every accepted configuration -/

/-- Whatever a configuration that passes `verify` asks for, and whatever was in the memory:
a pool that `create` lays out from its pairs, in the order of their sizes or any other,
is well formed, and `mapping` finds the same lists in it, exactly if no list wraps
around. -/
theorem pool_recovered {config accepted : Config} {pairs : List SizePercentPair} {offset : Nat}
    {bm : BufferManager} {before mem : Memory} (verified : config.verify = .ok accepted)
    (percents : ∀ pair ∈ accepted.bufferSliceSizes, pair.percent < 2 ^ 32)
    (order : pairs.Perm accepted.bufferSliceSizes)
    (memFits : accepted.shareMemoryBufferCap < 2 ^ 32)
    (startFits : offset + bufferManagerHeaderSize < 2 ^ 32)
    (created : BufferManager.create pairs accepted.shareMemoryBufferCap offset before =
      .ok (bm, mem)) :
    (WellLaid accepted.shareMemoryBufferCap bm.lists mem /\
      Exists fun peer =>
        BufferManager.mapping accepted.shareMemoryBufferCap offset mem = .ok peer /\
        peer.lists.map (BufferList.outline mem) = bm.lists.map (BufferList.outline mem)) <->
      BufferManager.PoolUnwrapped pairs accepted.shareMemoryBufferCap offset := by
  have sizes : ∀ pair ∈ pairs, pair.size < 2 ^ 32 := fun pair member =>
    (Config.verify_sizes verified pair (order.mem_iff.mp member)).2
  refine ⟨fun both => BufferManager.unwrapped_of_wellLaid memFits startFits sizes created both.1,
    fun unwrapped => ?_⟩
  have few := BufferManager.length_of_created memFits startFits unwrapped
    (fun pair member => percents pair (order.mem_iff.mp member)) created
  rcases BufferManager.create_layout memFits startFits unwrapped created with
    ⟨layout, rfl, length, rfl, caps, number, used, laid⟩
  have count : layout.lists.length = pairs.length := by
    simpa using congrArg List.length caps
  have described : Described layout mem :=
    { number := number
      used := used
      count := fun g inside => congrArg ListHeader.cap (laid g inside).header
      cap := fun g inside => congrArg ListHeader.capPerBuffer (laid g inside).header }
  rw [<- length]
  refine ⟨PoolLayout.wellLaid laid .creator, layout.view .mapper,
    described.mapping_eq (by omega), ?_⟩
  rw [PoolLayout.view, PoolLayout.view, List.map_map, List.map_map]
  rfl

theorem pool_recovered_two_sizes :
    Exists fun accepted => Exists fun bm => Exists fun mem => Exists fun peer =>
      { Config.default with
        shareMemoryBufferCap := 2 ^ 20
        bufferSliceSizes := [⟨262097, 50⟩, ⟨524225, 50⟩] }.verify = .ok accepted /\
      BufferManager.create [⟨262100, 50⟩, ⟨524228, 50⟩] (2 ^ 20) 0 (fun _ => 1) = .ok (bm, mem) /\
      WellLaid (2 ^ 20) bm.lists mem /\
      BufferManager.mapping (2 ^ 20) 0 mem = .ok peer /\
      peer.lists.map (BufferList.outline mem) = bm.lists.map (BufferList.outline mem) := by
  have laidOut : (BufferManager.create [⟨262100, 50⟩, ⟨524228, 50⟩] (2 ^ 20) 0
      (fun _ => 1)).isOk = true := by
    decide +kernel
  rcases Transition.exists_ok_of_isOk laidOut with ⟨pool, created⟩
  have unwrapped : BufferManager.PoolUnwrapped [⟨262100, 50⟩, ⟨524228, 50⟩] (2 ^ 20) 0 :=
    ⟨by decide, by decide, by decide, by decide, trivial⟩
  rcases (pool_recovered Config.verify_two_sizes (by decide) (List.Perm.refl _) (by decide) (by decide)
    created).mpr unwrapped with ⟨laid, peer, mapped, same⟩
  exact ⟨_, pool.1, pool.2, peer, Config.verify_two_sizes, created, laid, mapped, same⟩

/-- The only size is as large as the segment.  With its header added it wraps around to
four bytes, and `create` succeeds with more than 2 ^ 30 buffers of that size. -/
theorem wrapped_size_overlaps :
    Exists fun accepted => Exists fun bm => Exists fun mem =>
      { Config.default with
        shareMemoryBufferCap := 2 ^ 32 - 16
        bufferSliceSizes := [⟨2 ^ 32 - 16, 100⟩] }.verify = .ok accepted /\
      BufferManager.create accepted.bufferSliceSizes accepted.shareMemoryBufferCap 0 (fun _ => 0) =
        .ok (bm, mem) /\
      ¬ WellLaid accepted.shareMemoryBufferCap bm.lists mem := by
  have laidOut : (BufferManager.create [⟨2 ^ 32 - 16, 100⟩] (2 ^ 32 - 16) 0
      (fun _ => 0)).isOk = true := by
    decide +kernel
  rcases Transition.exists_ok_of_isOk laidOut with ⟨pool, created⟩
  refine ⟨{ Config.default with
    shareMemoryBufferCap := 2 ^ 32 - 16
    bufferSliceSizes := [⟨2 ^ 32 - 16, 100⟩] }, pool.1, pool.2, ?_, created, ?_⟩
  · decide +kernel
  · intro laid
    have unwrapped := BufferManager.unwrapped_of_wellLaid (by decide) (by decide) (by decide)
      created laid
    exact absurd unwrapped.1 (by decide)

end Pool
end Shmipc
