import Mathlib.Data.List.Chain
import Shmipc.Buffer.V5Walk
import Shmipc.V5.DynShmSafety

namespace Shmipc
namespace BufV5

open ByteMemory Tiling V5

/-!
# A message across the segment

The blocks of a message are held by its write buffer, so whatever the other users
of the segment do leaves their bytes alone.  Writing extends the last block or
links a new one behind it; either way the bytes of the blocks, read along the
links, are the bytes written so far.  A reader over the same segment accepts each
of these blocks and finds no more of them than it is willing to follow, because
every block takes up at least a smallest one.
-/

/-- The blocks of a message in order: each is held and linked to the next, and the
last is linked to nothing. -/
structure Chain (s : SegmentState) (blocks : List Block) : Prop where
  live : ∀ b ∈ blocks, b ∈ s.live
  held : ∀ b ∈ blocks, (b.offset : Int) ∉ s.manager.rq
  distinct : (blocks.map Block.offset).Nodup
  linked : blocks.IsChain fun b c =>
    (DynShmBufferHeader.read s.manager.mem b.offset).next = c.offset
  ended : ∀ b ∈ blocks.getLast?, (DynShmBufferHeader.read s.manager.mem b.offset).next = 0

/-- The bytes that the blocks hold. -/
def contents (mem : Memory) (blocks : List Block) : List UInt8 :=
  blocks.flatMap fun b => DynShmBufferHeader.data mem b.offset

theorem contents_append (mem : Memory) (first second : List Block) :
    contents mem (first ++ second) = contents mem first ++ contents mem second :=
  List.flatMap_append

theorem contents_singleton (mem : Memory) (b : Block) :
    contents mem [b] = DynShmBufferHeader.data mem b.offset :=
  List.flatMap_singleton ..

variable {blocks : List Block} {s : SegmentState}

theorem contents_congr {mem mem' : Memory} (stamped : ∀ b ∈ blocks, b.Stamped mem)
    (untouched : Untouched blocks mem mem') :
    contents mem' blocks = contents mem blocks := by
  refine List.flatMap_congr fun b member => ?_
  exact (stamped b member).data_congr (untouched b member)

namespace Chain

variable {unit total : Nat} {s t : SegmentState} {blocks before : List Block} {b b' block : Block}
  {data : List UInt8}

theorem nil (s : SegmentState) : Chain s [] where
  live := fun b none => by cases none
  held := fun b none => by cases none
  distinct := List.nodup_nil
  linked := List.isChain_nil
  ended := fun b none => by cases none

theorem frame (chain : Chain s blocks) (live : ∀ b ∈ blocks, b ∈ t.live)
    (held : ∀ b ∈ blocks, (b.offset : Int) ∉ t.manager.rq)
    (untouched : Untouched blocks s.manager.mem t.manager.mem) : Chain t blocks := by
  have header : ∀ b ∈ blocks, DynShmBufferHeader.read t.manager.mem b.offset =
      DynShmBufferHeader.read s.manager.mem b.offset := fun b member =>
    DynShmBufferHeader.read_congr ((untouched b member).mono (Nat.le_refl _) (by omega))
  refine ⟨live, held, chain.distinct, ?_, ?_⟩
  · refine chain.linked.imp_of_mem_imp fun b c member _ link => ?_
    rw [header b member]
    exact link
  · intro b last
    rw [header b (List.mem_of_getLast? last)]
    exact chain.ended b last

theorem contents_eq (chain : Chain s blocks) (inv : s.Inv unit total)
    (untouched : Untouched blocks s.manager.mem t.manager.mem) :
    contents t.manager.mem blocks = contents s.manager.mem blocks := by
  rcases inv.segment with ⟨outs, segment⟩
  exact contents_congr (fun b member => segment.stamped b (chain.live b member)) untouched

theorem undisturbed {action : SegmentAction} (chain : Chain s blocks) (inv : s.Inv unit total)
    (moved : s.step action = some t) (elsewhere : ∀ b ∈ blocks, action.target ≠ some b.offset) :
    Chain t blocks /\ contents t.manager.mem blocks = contents s.manager.mem blocks := by
  have intact := fun b member =>
    (inv.step moved).2 b (chain.live b member) (chain.held b member) (elsewhere b member)
  constructor
  · exact chain.frame (fun b member => (intact b member).1) (fun b member => (intact b member).2.1)
      fun b member => (intact b member).2.2
  · exact chain.contents_eq inv fun b member => (intact b member).2.2

theorem mem_others (chain : Chain s (before ++ [b])) :
    ∀ c ∈ before, c ∈ s.live.filter fun c => c.offset ≠ b.offset := by
  intro c member
  have distinct := chain.distinct
  rw [List.map_append, List.nodup_append] at distinct
  refine List.mem_filter.mpr ⟨chain.live c (List.mem_append_left _ member),
    decide_eq_true fun same => ?_⟩
  exact distinct.2.2 c.offset (List.mem_map_of_mem member) b.offset (by simp) same

theorem replaceLast (chain : Chain s (before ++ [b])) (same : b'.offset = b.offset)
    (live : ∀ c ∈ before ++ [b'], c ∈ t.live) (queue : t.manager.rq = s.manager.rq)
    (untouched : Untouched (s.live.filter fun c => c.offset ≠ b.offset) s.manager.mem
      t.manager.mem)
    (ended : (DynShmBufferHeader.read t.manager.mem b.offset).next = 0) :
    Chain t (before ++ [b']) := by
  have header : ∀ c ∈ before, DynShmBufferHeader.read t.manager.mem c.offset =
      DynShmBufferHeader.read s.manager.mem c.offset := fun c member =>
    DynShmBufferHeader.read_congr
      ((untouched c (chain.mem_others c member)).mono (Nat.le_refl _) (by omega))
  have offsets : (before ++ [b']).map Block.offset = (before ++ [b]).map Block.offset := by
    simp [same]
  refine ⟨live, ?_, offsets ▸ chain.distinct, ?_, ?_⟩
  · intro c member
    rw [queue]
    rcases List.mem_append.mp member with early | last
    · exact chain.held c (List.mem_append_left _ early)
    · rw [List.mem_singleton.mp last, same]
      exact chain.held b (by simp)
  · rcases List.isChain_append.mp chain.linked with ⟨linked, _, across⟩
    refine List.isChain_append.mpr ⟨?_, List.isChain_singleton _, ?_⟩
    · refine linked.imp_of_mem_imp fun c d member _ link => ?_
      rw [header c member]
      exact link
    · intro c last d first
      cases first
      rw [header c (List.mem_of_getLast? last), same]
      exact across c last b rfl
  · intro c last
    rw [List.getLast?_concat] at last
    cases last
    rw [same]
    exact ended

theorem link (chain : Chain s blocks) (inv : s.Inv unit total) (member : block ∈ s.live)
    (held : (block.offset : Int) ∉ s.manager.rq) (elsewhere : block.offset ∉ blocks.map Block.offset)
    (unlinked : (DynShmBufferHeader.read s.manager.mem block.offset).next = 0)
    (result : t = blocks.getLast?.elim s fun prev => s.setNext prev.offset block.offset) :
    t.Inv unit total /\ Chain t (blocks ++ [block]) /\
      contents t.manager.mem blocks = contents s.manager.mem blocks := by
  have listed : ∀ c ∈ blocks ++ [block], c ∈ s.live := by
    exact Transition.forall_mem_snoc chain.live member
  have kept : ∀ c ∈ blocks ++ [block], (c.offset : Int) ∉ s.manager.rq := by
    exact Transition.forall_mem_snoc chain.held held
  have distinct : ((blocks ++ [block]).map Block.offset).Nodup := by
    rw [List.map_append, List.nodup_append]
    refine ⟨chain.distinct, List.nodup_singleton _, ?_⟩
    rintro x old y added rfl
    exact elsewhere (List.mem_singleton.mp added ▸ old)
  cases last : blocks.getLast? with
  | none =>
    rcases List.getLast?_eq_none_iff.mp last with rfl
    subst result
    refine ⟨inv, ⟨listed, kept, distinct, List.isChain_singleton _, ?_⟩, rfl⟩
    intro c final
    cases final
    exact unlinked
  | some prev =>
    rcases List.getLast?_eq_some_iff.mp last with ⟨before, rfl⟩
    rw [last, Option.elim_some] at result
    subst result
    have prevLive := chain.live prev (by simp)
    rcases inv.segment with ⟨outs, segment⟩
    rcases inv.setNext prevLive member with ⟨inv', untouched⟩
    rcases inv'.segment with ⟨outs', segment'⟩
    have header : ∀ c ∈ s.live.filter (fun c => c.offset ≠ prev.offset),
        DynShmBufferHeader.read (s.setNext prev.offset block.offset).manager.mem c.offset =
        DynShmBufferHeader.read s.manager.mem c.offset := fun c inside =>
      DynShmBufferHeader.read_congr ((untouched c inside).mono (Nat.le_refl _) (by omega))
    have ahead : (DynShmBufferHeader.read (s.setNext prev.offset block.offset).manager.mem
        prev.offset).next = block.offset :=
      congrArg DynShmBufferHeader.next (DynShmBufferHeader.read_setNext s.manager.mem prev.offset
        (segment.offset_lt member))
    have fresh : block ∈ s.live.filter fun c => c.offset ≠ prev.offset := by
      refine List.mem_filter.mpr ⟨member, decide_eq_true fun same => elsewhere ?_⟩
      rw [same]
      exact List.mem_map_of_mem (by simp)
    refine ⟨inv', ⟨listed, kept, distinct, ?_, ?_⟩, ?_⟩
    · rcases List.isChain_append.mp chain.linked with ⟨linked, _, across⟩
      refine List.isChain_append.mpr ⟨List.isChain_append.mpr ⟨?_, List.isChain_singleton _, ?_⟩,
        List.isChain_singleton _, ?_⟩
      · refine linked.imp_of_mem_imp fun c d inside _ next => ?_
        rw [header c (chain.mem_others c inside)]
        exact next
      · intro c final d first
        rw [header c (chain.mem_others c (List.mem_of_getLast? final))]
        exact across c final d first
      · intro c final d first
        rw [List.getLast?_concat] at final
        cases final
        cases first
        exact ahead
    · intro c final
      rw [List.getLast?_concat] at final
      cases final
      rw [header block fresh]
      exact unlinked
    · -- the link of a block is no part of its bytes
      have written := DynShmBufferHeader.setNext_agreeOutside s.manager.mem prev.offset
        block.offset
      have inside : 8 + 8 <= dynshmBufferHeaderSize := by decide
      rw [contents_append, contents_append, contents_congr
        (fun c early => segment.stamped c (chain.live c (List.mem_append_left _ early)))
        (fun c early => untouched c (chain.mem_others c early)), contents_singleton,
        contents_singleton, (segment.stamped prev prevLive).data_eq,
        (segment'.stamped prev prevLive).data_eq]
      exact congrArg _ (readBytes_congr (written.agreeOn (Or.inr (by omega))))

theorem fill (chain : Chain s (before ++ [b])) (inv : s.Inv unit total) (index : Nat)
    (covers : index + data.length = b.len)
    (result : t = s.store (b.offset + dynshmBufferHeaderSize + index) data) :
    t.Inv unit total /\ Chain t (before ++ [b]) /\
      contents t.manager.mem (before ++ [b]) = contents s.manager.mem before ++
        (readBytes s.manager.mem (b.offset + dynshmBufferHeaderSize) index ++ data) := by
  subst result
  have member := chain.live b (by simp)
  rcases inv.segment with ⟨outs, segment⟩
  have fits := (segment.stamped b member).len_le
  rcases inv.store member (Nat.le_trans (Nat.le_of_eq covers) fits) with ⟨inv', untouched⟩
  rcases inv'.segment with ⟨outs', segment'⟩
  have written := writeBytes_agreeOutside s.manager.mem
    (b.offset + dynshmBufferHeaderSize + index) data
  have header : DynShmBufferHeader.read
      (s.store (b.offset + dynshmBufferHeaderSize + index) data).manager.mem b.offset =
      DynShmBufferHeader.read s.manager.mem b.offset :=
    DynShmBufferHeader.read_congr (written.agreeOn (Or.inl (by omega)))
  refine ⟨inv', chain.replaceLast rfl chain.live rfl untouched ?_, ?_⟩
  · rw [header]
    exact chain.ended b (by simp)
  · rw [contents_append, contents_congr
      (fun c early => segment.stamped c (chain.live c (List.mem_append_left _ early)))
      (fun c early => untouched c (chain.mem_others c early)), contents_singleton,
      (segment'.stamped b member).data_eq, <- covers, readBytes_add]
    have first : readBytes
        (s.store (b.offset + dynshmBufferHeaderSize + index) data).manager.mem
        (b.offset + dynshmBufferHeaderSize) index =
        readBytes s.manager.mem (b.offset + dynshmBufferHeaderSize) index :=
      readBytes_congr (written.agreeOn (Or.inl (by omega)))
    rw [first]
    exact congrArg _ (congrArg _ (readBytes_writeBytes s.manager.mem _ data))

theorem extend {room : Nat} {u : SegmentState} (chain : Chain s (before ++ [b]))
    (inv : s.Inv unit total) (reserved : s.reserve b.offset data.length = some (room, t))
    (result : u = t.store room data) :
    u.Inv unit total /\
      Chain u (before ++ [{ b with len := b.len + data.length }]) /\
      contents u.manager.mem (before ++ [{ b with len := b.len + data.length }]) =
        contents s.manager.mem (before ++ [b]) ++ data := by
  have member := chain.live b (by simp)
  rcases inv.segment with ⟨outs, segment⟩
  rcases inv.reserve member reserved with ⟨inv', rfl, fits, untouched, live, queue, mem_eq⟩
  have written := DynShmBufferHeader.setLen_agreeOutside s.manager.mem b.offset
    (b.len + data.length)
  rw [<- mem_eq] at written
  have header : 16 + 4 <= dynshmBufferHeaderSize := by decide
  have capLt := (segment.stamped b member).cap_lt
  have ended : (DynShmBufferHeader.read t.manager.mem b.offset).next = 0 := by
    have stamp := DynShmBufferHeader.read_setLen s.manager.mem b.offset
      (show b.len + data.length < 2 ^ 32 by omega)
    simpa only [mem_eq, stamp] using chain.ended b (by simp)
  have grown : ∀ c ∈ before ++ [{ b with len := b.len + data.length }], c ∈ t.live := by
    intro c inside
    rw [live]
    rcases List.mem_append.mp inside with early | last
    · have other := List.mem_filter.mp (chain.mem_others c early)
      exact List.mem_map.mpr ⟨c, other.1, if_neg (of_decide_eq_true other.2)⟩
    · rw [List.mem_singleton.mp last]
      exact List.mem_map.mpr ⟨b, member, if_pos rfl⟩
  have chain' : Chain t (before ++ [{ b with len := b.len + data.length }]) :=
    chain.replaceLast rfl grown queue untouched ended
  rcases chain'.fill inv' b.len rfl result with ⟨inv'', filled, bytes⟩
  refine ⟨inv'', filled, ?_⟩
  rw [bytes, contents_append, contents_singleton, contents_congr
    (fun c early => segment.stamped c (chain.live c (List.mem_append_left _ early)))
    (fun c early => untouched c (chain.mem_others c early)),
    (segment.stamped b member).data_eq, List.append_assoc]
  have same : readBytes t.manager.mem (b.offset + dynshmBufferHeaderSize) b.len =
      readBytes s.manager.mem (b.offset + dynshmBufferHeaderSize) b.len :=
    readBytes_congr (written.agreeOn (Or.inr (by omega)))
  rw [same]

end Chain

/-! ## Writing -/

/-- The write buffer holds the blocks of a message with these bytes. -/
structure Carries (s : SegmentState) (w : V5WriteBuffer) (written : List UInt8)
    (blocks : List Block) : Prop where
  chain : Chain s blocks
  pending : w.pending = blocks.map fun b => ⟨b.offset, b.offset⟩
  bytes : contents s.manager.mem blocks = written
  len : w.len = written.length
  limit : written.length <= maxDynShmTransferSize

/-- The write buffer holds a message with these bytes, in its blocks and then in
its vectors. -/
structure Collects (s : SegmentState) (w : V5WriteBuffer) (written : List UInt8)
    (blocks : List Block) : Prop where
  chain : Chain s blocks
  pending : w.pending = blocks.map fun b => ⟨b.offset, b.offset⟩
  bytes : contents s.manager.mem blocks ++ w.fallback.flatMap HeapChunk.bytes = written

theorem Carries.collects {w : V5WriteBuffer} {written : List UInt8}
    (carries : Carries s w written blocks) (noFallback : w.fallback = []) :
    Collects s w written blocks where
  chain := carries.chain
  pending := carries.pending
  bytes := by
    rw [noFallback, List.flatMap_nil, List.append_nil]
    exact carries.bytes

namespace V5WriteBuffer

variable {unit total : Nat} {s t : SegmentState} {w : V5WriteBuffer} {blocks : List Block}
  {written data : List UInt8} {now : Int}

/-- Bytes that go to the heap fit the room reserved for them and stand behind the
ones before, and the message stays on the heap. -/
theorem fill_reserveFallback (w : V5WriteBuffer) (s : SegmentState) (data : List UInt8) :
    Exists fun w' => (w.reserveFallback data.length).2.fill s data
        (w.reserveFallback data.length).1 = some (w', s) /\ w'.fallback ≠ [] /\
      w'.pending = w.pending /\
      w'.fallback.flatMap HeapChunk.bytes = w.fallback.flatMap HeapChunk.bytes ++ data := by
  unfold reserveFallback fill
  simp only [if_true, List.getLast?_concat, List.dropLast_concat, List.take_left]
  refine ⟨_, rfl, by simp, rfl, ?_⟩
  rw [List.flatMap_append, List.flatMap_singleton, <- List.append_assoc]
  congr 1
  -- the chosen vector ends the ones there are, or starts empty behind them
  cases last : w.fallback.getLast? with
  | none => exact List.append_nil _
  | some chunk =>
    dsimp only
    split
    · conv_rhs => rw [<- List.dropLast_append_getLast? chunk last]
      rw [List.flatMap_append, List.flatMap_singleton]
    · exact List.append_nil _

/-- A reservation is refused, goes to the heap, or is made in the segment, which
takes it up to the transfer limit. -/
theorem reserve_cases (w : V5WriteBuffer) (shared : StreamShared) (s : SegmentState) (now : Int)
    {size : Nat} (nonempty : size ≠ 0) :
    (Exists fun err => w.reserve shared s now size = (.error err, w, s)) \/
    w.reserve shared s now size =
      (.ok (w.reserveFallback size).1, (w.reserveFallback size).2, s) \/
    (w.fallback = [] /\ w.len + size <= maxDynShmTransferSize /\
      w.reserve shared s now size = w.reserveShm s now size) := by
  unfold reserve
  rw [if_neg nonempty]
  split
  · exact Or.inl ⟨_, rfl⟩
  split
  · exact Or.inl ⟨_, rfl⟩
  split
  · exact Or.inr (Or.inl rfl)
  next onSegment =>
  split
  · exact Or.inr (Or.inl rfl)
  next fits =>
  refine Or.inr (Or.inr ⟨?_, by omega, rfl⟩)
  exact not_not.mp (not_or.mp onSegment).1

theorem reserveShm_of_refused {size : Nat} (full : w.reserveLast s size = none)
    (refused : s.alloc now size = (.error .noSpace, t)) :
    w.reserveShm s now size = (.ok (w.reserveFallback size).1, (w.reserveFallback size).2, t) := by
  simp only [reserveShm, full, refused]

theorem reserveShm_of_served {size : Nat} {block : Block} (full : w.reserveLast s size = none)
    (served : s.alloc now size = (.ok block, t)) :
    w.reserveShm s now size =
      (.ok (w.appendBlock t block.offset size).1, (w.appendBlock t block.offset size).2) := by
  simp only [reserveShm, full, served]

end V5WriteBuffer

namespace Carries

variable {unit total : Nat} {s t : SegmentState} {w : V5WriteBuffer} {blocks : List Block}
  {written data : List UInt8} {now : Int}

theorem getLast_pending (carries : Carries s w written blocks) :
    w.pending.getLast? = blocks.getLast?.map fun b => ⟨b.offset, b.offset⟩ := by
  rw [carries.pending, List.getLast?_map]

theorem extendLast {room : Nat} (carries : Carries s w written blocks) (inv : s.Inv unit total)
    (limit : w.len + data.length <= maxDynShmTransferSize)
    (reserved : w.reserveLast s data.length = some (room, t)) :
    (t.store room data).Inv unit total /\ Exists fun blocks =>
      Carries (t.store room data) { w with len := w.len + data.length } (written ++ data)
        blocks := by
  unfold V5WriteBuffer.reserveLast at reserved
  rw [carries.getLast_pending] at reserved
  cases last : blocks.getLast? with
  | none =>
    rw [last] at reserved
    cases reserved
  | some b =>
    rcases List.getLast?_eq_some_iff.mp last with ⟨before, rfl⟩
    rw [last] at reserved
    rcases carries.chain.extend inv reserved rfl with ⟨inv', chain, bytes⟩
    refine ⟨inv', _, chain, ?_, ?_, ?_, ?_⟩
    · rw [carries.pending]
      simp
    · rw [bytes, carries.bytes]
    · rw [carries.len, List.length_append]
    · rw [List.length_append, <- carries.len]
      exact limit

theorem appendFresh {block : Block} (carries : Carries s w written blocks)
    (inv : s.Inv unit total) (limit : w.len + data.length <= maxDynShmTransferSize)
    (member : block ∈ s.live) (held : (block.offset : Int) ∉ s.manager.rq)
    (elsewhere : block.offset ∉ blocks.map Block.offset)
    (fresh : block.Fresh data.length s.manager.mem) :
    Exists fun u => (w.appendBlock s block.offset data.length).2.1.fill
        (w.appendBlock s block.offset data.length).2.2 data
        (w.appendBlock s block.offset data.length).1 =
          some ((w.appendBlock s block.offset data.length).2.1, u) /\
      u.Inv unit total /\ Exists fun blocks =>
        Carries u (w.appendBlock s block.offset data.length).2.1 (written ++ data) blocks := by
  rcases inv.segment with ⟨outs, segment⟩
  have own := segment.stamped block member
  unfold V5WriteBuffer.appendBlock
  rw [carries.getLast_pending]
  simp only [own.offset, own.len, fresh.len, V5WriteBuffer.fill, if_true]
  rw [Option.elim_map]
  rcases carries.chain.link inv member held elsewhere fresh.next rfl with ⟨inv', chain, bytes⟩
  rcases chain.fill inv' 0
    (by rw [Nat.zero_add]; exact fresh.len.symm) rfl with ⟨inv'', filled, bytes'⟩
  refine ⟨_, rfl, inv'', blocks ++ [block], filled, ?_, ?_, ?_, ?_⟩
  · rw [carries.pending, List.map_append, List.map_singleton]
  · rw [bytes, carries.bytes] at bytes'
    exact bytes'
  · rw [carries.len, List.length_append]
  · rw [List.length_append, <- carries.len]
    exact limit

theorem afterAlloc (carries : Carries s w written blocks) (inv : s.Inv unit total)
    (queue : t.manager.rq = []) (untouched : Untouched s.unreleased s.manager.mem t.manager.mem)
    (live : s.unreleased ⊆ t.live) : Carries t w written blocks := by
  have stays : blocks ⊆ s.unreleased := fun b member =>
    List.mem_filter.mpr ⟨carries.chain.live b member,
      decide_eq_true (carries.chain.held b member)⟩
  exact {
    chain := carries.chain.frame (fun b member => live (stays member)) (fun b _ => by simp [queue])
      (untouched.mono stays)
    pending := carries.pending
    bytes := (carries.chain.contents_eq inv (untouched.mono stays)).trans carries.bytes
    len := carries.len
    limit := carries.limit }

/-- Writing to the segment: the bytes are put behind the others, or the message
goes to the heap. -/
theorem writeShm (carries : Carries s w written blocks) (inv : s.Inv unit total)
    (positive : 0 < now) (nonempty : data.length ≠ 0)
    (limit : w.len + data.length <= maxDynShmTransferSize) (noFallback : w.fallback = []) :
    Exists fun room => Exists fun reserved => Exists fun t =>
      w.reserveShm s now data.length = (.ok room, reserved, t) /\
      Exists fun w' => Exists fun u => reserved.fill t data room = some (w', u) /\
        u.Inv unit total /\
        (w'.fallback = [] -> Exists fun blocks => Carries u w' (written ++ data) blocks) /\
        Exists fun blocks => Collects u w' (written ++ data) blocks := by
  cases extended : w.reserveLast s data.length with
  | some answer =>
    rcases answer with ⟨room, t⟩
    rcases carries.extendLast inv limit extended with ⟨inv', blocks', message⟩
    refine ⟨.segment room data.length, { w with len := w.len + data.length }, t, ?_,
      { w with len := w.len + data.length }, t.store room data, ?_, inv',
      fun _ => ⟨blocks', message⟩, blocks', message.collects noFallback⟩
    · simp only [V5WriteBuffer.reserveShm, extended]
    · simp only [V5WriteBuffer.fill, if_true]
  | none =>
    rcases inv.alloc positive nonempty with ⟨inv', queue, untouched, answer⟩
    rcases result : s.alloc now data.length with ⟨reply, t⟩
    rw [result] at inv' queue untouched answer
    dsimp only at inv' queue untouched answer
    rcases answer with ⟨block, rfl, fresh, live⟩ | ⟨rfl, live⟩
    · have moved := carries.afterAlloc inv queue untouched
        (live ▸ List.subset_cons_self _ _)
      rcases inv'.segment with ⟨outs', segment'⟩
      have elsewhere : block.offset ∉ blocks.map Block.offset := by
        have distinct := segment'.distinct
        rw [live, List.map_cons, List.nodup_cons] at distinct
        refine fun member => distinct.1 (List.map_subset _ (fun b inside => ?_) member)
        exact List.mem_filter.mpr ⟨carries.chain.live b inside,
          decide_eq_true (carries.chain.held b inside)⟩
      rcases
        moved.appendFresh inv' limit (live ▸ List.mem_cons_self) (by simp [queue]) elsewhere fresh
        with ⟨u, filled, inv'', blocks', message⟩
      exact ⟨_, _, _, V5WriteBuffer.reserveShm_of_served extended result, _, u, filled, inv'',
        fun _ => ⟨blocks', message⟩, blocks', message.collects noFallback⟩
    · have moved := carries.afterAlloc inv queue untouched (live ▸ List.Subset.refl _)
      rcases V5WriteBuffer.fill_reserveFallback w t data with ⟨w', filled, onHeap, pending, heap⟩
      refine ⟨_, _, t, V5WriteBuffer.reserveShm_of_refused extended result, w', t, filled, inv',
        fun none => absurd none onHeap, blocks, moved.chain, pending.trans moved.pending, ?_⟩
      rw [heap, noFallback, List.flatMap_nil, List.nil_append, moved.bytes]

end Carries

namespace MessageState

/-- The segment's invariant, and that a message which is not on the heap is in the
blocks of its write buffer. -/
structure Inv (s : MessageState) : Prop where
  segment : s.segment.Inv minBlockSize dynshmTotalSize
  message : s.writer.fallback = [] ->
    Exists fun blocks => Carries s.segment s.writer s.written blocks

namespace Inv

variable {s t : MessageState} {now : Int} {data : List UInt8}

/-- A reservation either fails and changes nothing or gives room that all the bytes
fill; the copy never stops in the middle. -/
theorem reserve (inv : Inv s) (shared : StreamShared) (positive : 0 < now)
    (nonempty : data ≠ []) :
    (Exists fun room => Exists fun reserved => Exists fun t =>
      s.writer.reserve shared s.segment now data.length = (.ok room, reserved, t) /\
      Exists fun w => Exists fun u => reserved.fill t data room = some (w, u) /\
        Inv ⟨u, w, s.written ++ data⟩ /\
        ((Exists fun blocks => Collects s.segment s.writer s.written blocks) ->
          Exists fun blocks => Collects u w (s.written ++ data) blocks)) \/
    (Exists fun err =>
      s.writer.reserve shared s.segment now data.length = (.error err, s.writer, s.segment)) := by
  have positiveLength : data.length ≠ 0 := fun empty => nonempty (List.eq_nil_of_length_eq_zero empty)
  rcases s.writer.reserve_cases shared s.segment now positiveLength with
    refused | onHeap | ⟨noFallback, limit, inSegment⟩
  · exact Or.inr refused
  · rcases s.writer.fill_reserveFallback s.segment data with ⟨w, filled, stays, pending, heap⟩
    refine Or.inl ⟨_, _, _, onHeap, w, s.segment, filled,
      ⟨inv.segment, fun none => absurd none stays⟩, ?_⟩
    rintro ⟨blocks, collects⟩
    refine ⟨blocks, collects.chain, pending.trans collects.pending, ?_⟩
    rw [heap, <- List.append_assoc, collects.bytes]
  · rcases inv.message noFallback with ⟨blocks, carries⟩
    rcases carries.writeShm inv.segment positive positiveLength limit noFallback with
      ⟨room, reserved, t, result, w, u, filled, inv', message, collected⟩
    exact Or.inl ⟨room, reserved, t, inSegment.trans result, w, u, filled, ⟨inv', message⟩,
      fun _ => collected⟩

theorem writeBytes (inv : Inv s) (shared : StreamShared) (positive : 0 < now)
    (nonempty : data ≠ []) :
    (Exists fun count => Exists fun w => Exists fun segment =>
      s.writer.writeBytes shared s.segment now data = some (.ok count, w, segment) /\
      Inv ⟨segment, w, s.written ++ data⟩) \/
    (Exists fun err =>
      s.writer.writeBytes shared s.segment now data = some (.error err, s.writer, s.segment)) := by
  unfold V5WriteBuffer.writeBytes
  rw [if_neg nonempty]
  rcases inv.reserve shared positive nonempty with
    ⟨room, reserved, t, result, w, u, filled, inv', _⟩ | ⟨err, refused⟩
  · rw [result]
    dsimp only
    rw [filled]
    exact Or.inl ⟨_, w, u, rfl, inv'⟩
  · rw [refused]
    exact Or.inr ⟨err, rfl⟩

theorem other {action : SegmentAction} {segment : SegmentState} (inv : Inv s)
    (foreign : s.Foreign action) (moved : s.segment.step action = some segment) :
    Inv { s with segment := segment } := by
  refine ⟨(inv.segment.step moved).1, fun noFallback => ?_⟩
  rcases inv.message noFallback with ⟨blocks, carries⟩
  have elsewhere : ∀ b ∈ blocks, action.target ≠ some b.offset := by
    intro b member
    refine foreign ⟨b.offset, b.offset⟩ ?_
    rw [carries.pending]
    exact List.mem_map.mpr ⟨b, member, rfl⟩
  rcases carries.chain.undisturbed inv.segment moved elsewhere with ⟨chain, same⟩
  exact ⟨blocks, chain, carries.pending, same.trans carries.bytes, carries.len, carries.limit⟩

theorem step {action : MessageAction} (inv : Inv s) (moved : s.step action = some t) : Inv t := by
  cases action with
  | write shared now data =>
    rcases Option.ite_none_right_eq_some.mp moved with ⟨⟨positive, nonempty⟩, moved⟩
    rcases inv.writeBytes shared positive nonempty with
      ⟨count, w, segment, result, inv'⟩ | ⟨err, result⟩
    · rw [result] at moved
      cases moved
      exact inv'
    · rw [result] at moved
      cases moved
      exact inv
  | other action =>
    simp only [MessageState.step, Option.ite_none_right_eq_some, Option.map_eq_some_iff] at moved
    rcases moved with ⟨foreign, segment, moved, rfl⟩
    exact inv.other foreign moved

end Inv

theorem inv_of_reachable {kind : AllocatorKind} {pinned : Option Nat} {s : MessageState}
    (reachable : (messageSystem kind pinned).Reachable s) : s.Inv := by
  refine reachable.invariant ?_ fun _ _ _ _ _ moved inv => inv.step moved
  rintro s ⟨built, empty, new, nothing⟩
  refine ⟨SegmentState.inv_new built empty (by decide) (by decide), fun _ => ⟨[], ?_⟩⟩
  rw [new, nothing]
  exact {
    chain := Chain.nil s.segment
    pending := rfl
    bytes := rfl
    len := rfl
    limit := Nat.zero_le _ }

end MessageState

/-! ## Reading -/

/-- The offset a chain starts at, zero for an empty one. -/
def firstOffset (blocks : List Block) : Int :=
  blocks.head?.elim 0 fun b => b.offset

/-- The blocks of a chain as a reader comes to them. -/
def readBlocks (blocks : List Block) : List (Int × Slice) :=
  blocks.map fun b => (b.offset, ⟨b.offset + dynshmBufferHeaderSize, b.len⟩)

namespace Chain

variable {unit : Nat} {s : SegmentState} {rest blocks : List Block} {b : Block}
  {mgr : RemoteManager}

theorem tail (chain : Chain s (b :: rest)) : Chain s rest where
  live := fun c member => chain.live c (List.mem_cons_of_mem _ member)
  held := fun c member => chain.held c (List.mem_cons_of_mem _ member)
  distinct := (List.nodup_cons.mp chain.distinct).2
  linked := chain.linked.tail
  ended := by
    intro c last
    refine chain.ended c ?_
    cases rest with
    | nil => cases last
    | cons next rest => rwa [List.getLast?_cons_cons]

theorem next_eq (chain : Chain s (b :: rest)) :
    (DynShmBufferHeader.read s.manager.mem b.offset).next = firstOffset rest := by
  cases rest with
  | nil => exact chain.ended b rfl
  | cons next rest => exact (List.isChain_cons_cons.mp chain.linked).1

theorem read_first (chain : Chain s (b :: rest)) (inv : s.Inv unit mgr.size)
    (isOpen : mgr.closed = false) :
    mgr.read s.manager.mem b.offset =
      some (⟨b.offset + dynshmBufferHeaderSize, b.len⟩, firstOffset rest) := by
  rcases inv.segment with ⟨outs, segment⟩
  have member := chain.live b List.mem_cons_self
  have own := segment.stamped b member
  have bounds := segment.span_bounds member
  have len_le := own.len_le
  rw [inv.size] at bounds
  simp only [Block.span] at bounds
  have linkOk : ¬ (firstOffset rest ≠ 0 /\ (firstOffset rest < rqSize \/
      (mgr.size : Int) - dynshmBufferHeaderSize < firstOffset rest \/
      firstOffset rest = b.offset)) := by
    cases rest with
    | nil => exact fun wrong => wrong.1 rfl
    | cons next rest =>
      have nextBounds := segment.span_bounds
        (chain.live next (List.mem_cons_of_mem _ List.mem_cons_self))
      have fresh := (List.nodup_cons.mp chain.distinct).1
      have differs : b.offset ≠ next.offset := fun same => fresh (by simp [same])
      rw [inv.size] at nextBounds
      simp only [Block.span] at nextBounds
      simp only [firstOffset, List.head?_cons, Option.elim_some]
      omega
  unfold RemoteManager.read RemoteManager.readInner
  rw [if_neg (by simp [isOpen]), if_neg (by omega), Int.toNat_natCast]
  dsimp only
  rw [chain.next_eq, own.offset, own.len, own.cap, if_neg (by simp; omega), if_neg (by omega),
    if_neg linkOk]

end Chain

namespace V5ReadBuffer

variable {unit : Nat} {s : SegmentState} {blocks : List Block} {mgr : RemoteManager}

theorem blocksFrom_chain {nodes : Nat} (inv : s.Inv unit mgr.size) (isOpen : mgr.closed = false)
    (chain : Chain s blocks) (enough : blocks.length <= nodes) :
    blocksFrom mgr s.manager.mem nodes (firstOffset blocks) = some (readBlocks blocks) := by
  induction blocks generalizing nodes with
  | nil => cases nodes <;> rfl
  | cons block rest ih =>
    rcases inv.segment with ⟨outs, segment⟩
    have positive : (0 : Int) < block.offset := by
      have bounds := (segment.span_bounds (chain.live block List.mem_cons_self)).1
      have queue : 0 < rqSize := by decide
      simp only [Block.span] at bounds
      omega
    cases nodes with
    | zero => cases enough
    | succ nodes =>
      rw [show firstOffset (block :: rest) = block.offset from rfl, blocksFrom,
        if_pos positive, chain.read_first inv isOpen]
      dsimp only
      rw [ih chain.tail (Nat.le_of_succ_le_succ enough)]
      rfl

theorem payload_chain (inv : s.Inv unit mgr.size) (chain : Chain s blocks) :
    payload s.manager.mem (readBlocks blocks) = contents s.manager.mem blocks := by
  rcases inv.segment with ⟨outs, segment⟩
  rw [payload, readBlocks, List.flatMap_map, contents]
  refine List.flatMap_congr fun b member => ?_
  exact (segment.stamped b (chain.live b member)).data_eq.symm

theorem chainBytes_chain (inv : s.Inv unit mgr.size) (isOpen : mgr.closed = false)
    (chain : Chain s blocks) (enough : blocks.length <= maxChainNodes)
    (limit : (contents s.manager.mem blocks).length <= maxDynShmTransferSize) :
    chainBytes mgr s.manager.mem (firstOffset blocks) = some (contents s.manager.mem blocks) := by
  have distinct : ((readBlocks blocks).map Prod.fst).Nodup := by
    have cast := List.Nodup.map (fun _ _ same => Int.ofNat.inj same : Function.Injective Int.ofNat)
      chain.distinct
    rw [List.map_map] at cast
    rw [readBlocks, List.map_map]
    exact cast
  rw [chainBytes, blocksFrom_chain inv isOpen chain enough]
  dsimp only
  rw [payload_chain inv chain, if_pos ⟨distinct, limit⟩]

theorem drainPending_chain {b : V5ReadBuffer} (rq : List Int) (inv : s.Inv unit mgr.size)
    (isOpen : mgr.closed = false) (chain : Chain s blocks) (enough : blocks.length <= maxChainNodes)
    (limit : (contents s.manager.mem blocks).length <= maxDynShmTransferSize)
    (delivered : b.inbox = [.shm (firstOffset blocks)]) :
    Exists fun b' =>
      b.drainPending mgr s.manager.mem rq =
        (.ok (contents s.manager.mem blocks).length, b', mgr, rq) /\
      b'.len = b.len + (contents s.manager.mem blocks).length /\
      b'.readable s.manager.mem = b.readable s.manager.mem ++ contents s.manager.mem blocks := by
  rcases walkChain_of_chainBytes { b with inbox := [] }
    (chainBytes_chain inv isOpen chain enough limit) with ⟨found, bytes, walked⟩
  refine ⟨append { b with inbox := [] } (chunksOf found) _, ?_, rfl, ?_⟩
  · rw [drainPending, delivered, drainInputs, walked]
    simp only [drainInputs, Nat.zero_add]
  · rw [readable_append, bytes]
    rfl

end V5ReadBuffer

/-- The segment has room for no more blocks than a reader follows. -/
theorem Chain.length_le (chain : Chain s blocks) (inv : s.Inv minBlockSize dynshmTotalSize) :
    blocks.length <= maxChainNodes := by
  rcases inv.segment with ⟨outs, segment⟩
  have inside : blocks.map Block.offset ⊆ s.live.map Block.offset :=
    List.map_subset _ chain.live
  have fewer := (List.subperm_of_subset chain.distinct inside).length_le
  have few := segment.live_length_le (by decide) (by decide)
  rw [List.length_map, List.length_map] at fewer
  rw [inv.size] at few
  exact fewer.trans few

theorem Carries.takeShm {s : SegmentState} {w : V5WriteBuffer} {written : List UInt8}
    {blocks : List Block} (carries : Carries s w written blocks) (noFallback : w.fallback = [])
    (nonempty : written ≠ []) :
    Exists fun outgoing => w.takeShm = (.ok (some outgoing), .new) /\
      outgoing.root = firstOffset blocks := by
  cases blocks with
  | nil => exact absurd carries.bytes.symm nonempty
  | cons first rest =>
    have pending : w.pending ≠ [] := by simp [carries.pending]
    refine ⟨⟨w.pending, pending⟩, ?_, ?_⟩
    · rw [V5WriteBuffer.takeShm, if_neg (not_not.mpr noFallback), dif_pos pending, noFallback]
      rfl
    · simp only [V5Outgoing.root, carries.pending, List.map_cons, List.head_cons]
      rfl

/-- Whatever was written to a stream that stayed in the segment, and however the
other users of the segment interfered: no write stops half way, the message can be
taken out, and a reader over the same segment that is handed its root adds exactly
the bytes written and can read exactly these, in order. -/
theorem message_round_trip {kind : AllocatorKind} {pinned : Option Nat} {s : MessageState}
    (mgr : RemoteManager) (reachable : (messageSystem kind pinned).Reachable s)
    (mapped : mgr.size = s.segment.manager.size) (isOpen : mgr.closed = false) :
    (forall shared now data, 0 < now ->
      (s.writer.writeBytes shared s.segment now data).isSome = true) /\
    (s.writer.fallback = [] -> s.written ≠ [] -> Exists fun outgoing =>
      s.writer.takeShm = (.ok (some outgoing), .new) /\
      forall (reader : V5ReadBuffer) (rq : List Int), reader.inbox = [.shm outgoing.root] ->
        Exists fun reader' =>
          reader.drainPending mgr s.segment.manager.mem rq =
            (.ok s.written.length, reader', mgr, rq) /\
          reader'.len = reader.len + s.written.length /\
          reader'.readable s.segment.manager.mem =
            reader.readable s.segment.manager.mem ++ s.written) := by
  have inv := MessageState.inv_of_reachable reachable
  refine ⟨fun shared now data positive => ?_, fun onSegment nonempty => ?_⟩
  · by_cases empty : data = []
    · rw [V5WriteBuffer.writeBytes, if_pos empty]
      rfl
    · rcases inv.writeBytes shared positive empty with ⟨_, _, _, result, _⟩ | ⟨_, result⟩
      · rw [result]
        rfl
      · rw [result]
        rfl
  · rcases inv.message onSegment with ⟨blocks, carries⟩
    have sized : s.segment.Inv minBlockSize mgr.size := by
      rw [mapped, inv.segment.size]
      exact inv.segment
    rcases carries.takeShm onSegment nonempty with ⟨outgoing, taken, root⟩
    refine ⟨outgoing, taken, fun reader rq delivered => ?_⟩
    rw [root] at delivered
    rcases V5ReadBuffer.drainPending_chain rq
      sized isOpen carries.chain (carries.chain.length_le inv.segment)
      (by rw [carries.bytes]; exact carries.limit) delivered with ⟨reader', drained, len, readable⟩
    rw [carries.bytes] at drained len readable
    exact ⟨reader', drained, len, readable⟩

/-- Two writes share a block while another stream allocates in between, and the
peer, which mapped the segment at its default size, reads the five bytes. -/
theorem message_round_trip_interleaved :
    Exists fun s => Exists fun mgr => (messageSystem .buddy none).Reachable s /\
      RemoteManager.map s.segment.manager.size 0 = some mgr /\
      s.written = [1, 2, 3, 4, 5] /\ s.writer.pending.length = 1 /\
      Exists fun outgoing => s.writer.takeShm = (.ok (some outgoing), .new) /\
        Exists fun reader =>
          V5ReadBuffer.drainPending ⟨[.shm outgoing.root], [], 0⟩ mgr s.segment.manager.mem [] =
            (.ok 5, reader, mgr, []) /\
          reader.readable s.segment.manager.mem = [1, 2, 3, 4, 5] := by
  let start : MessageState :=
    ⟨⟨(LocalManager.new .buddy none).toOption.get (by decide +kernel), []⟩, .new, []⟩
  have built : (messageSystem .buddy none).init start := ⟨rfl, rfl, rfl, rfl⟩
  have found : Exists fun s => (messageSystem .buddy none).Reachable s /\
      s.written = [1, 2, 3, 4, 5] /\ s.writer.pending.length = 1 /\ s.writer.fallback = [] /\
      s.segment.manager.size = dynshmTotalSize :=
    Transition.System.exists_reachable_of_run start
      [.write ⟨true, false⟩ 1 [1, 2, 3], .other (.alloc 2 100), .write ⟨true, false⟩ 3 [4, 5]]
      built (by decide +kernel)
  rcases found with ⟨s, reachable, written, pending, onSegment, size⟩
  have mapped : RemoteManager.map s.segment.manager.size 0 =
      some ⟨dynshmTotalSize, [], false⟩ := by
    rw [size]
    rfl
  have trip := (message_round_trip ⟨dynshmTotalSize, [], false⟩ reachable size.symm rfl).2
  rcases trip onSegment (by simp [written]) with ⟨outgoing, taken, read⟩
  rcases read ⟨[.shm outgoing.root], [], 0⟩ [] rfl with ⟨reader, drained, _, readable⟩
  rw [written] at drained readable
  exact ⟨s, _, reachable, mapped, written, pending, outgoing, taken, reader, drained, readable⟩

end BufV5
end Shmipc
