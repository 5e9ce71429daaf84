import Shmipc.V5.BuddyRelease
import Shmipc.V5.RegionSafety

namespace Shmipc
namespace V5

open ByteMemory Tiling Transition

/-!
# Releases that a region refuses

A region clears the offset in the buffer header before it asks its allocator.
If the allocator then refuses, the eight bytes stay cleared.  Whether they were
a header is not checked before: the allocator calls every block boundary valid,
and inside a larger block a boundary is followed by payload.

The bytes behind a boundary are zero until a block is handed out over them, and
again after the block that starts there was released.
-/

namespace RegionAllocator

/-- The eight bytes in front of the offset say that a live block starts there. -/
def marksLive (arena : Arena) (mem : Memory) (offset : Nat) : RegionAllocator -> Bool
  | .buddy b => b.accepts arena mem (offset - allocatorHeaderSize)
  | .fixed _ => (arena.readHeader mem (offset - allocatorHeaderSize)).any fun (marker, _) =>
    marker == magic

end RegionAllocator

namespace SharedRegion

/-- If the offset names a block boundary of the region, then the word that a
release clears is zero already, or the block there is live. -/
def Consistent (r : SharedRegion) (mem : Memory) (globalOffset : Int) : Prop :=
  0 <= globalOffset - r.offset ->
  r.allocator.isValidOffset (globalOffset - r.offset).toNat = true ->
    (DynShmBufferHeader.read mem (r.offset + (globalOffset - r.offset).toNat)).offset = 0 \/
      r.allocator.marksLive r.arena mem (globalOffset - r.offset).toNat = true

end SharedRegion

/-- A region in use.  The buffers that are live and all those that were ever
handed out are ghost records. -/
structure RegionState where
  region : SharedRegion
  mem : Memory
  live : List Block
  handed : List Block

inductive RegionAction
  | alloc (now : Int) (size : Nat)
  | free (block : Block)
  | write (block : Block) (index : Nat) (value : UInt8)
  deriving DecidableEq

namespace RegionState

def step (s : RegionState) : RegionAction -> Option RegionState
  | .alloc now size =>
    if now <= 0 then none
    else
      match s.region.alloc s.mem now size with
      | (none, region, mem) => some { s with region := region, mem := mem }
      | (some block, region, mem) =>
        some {
          region := region
          mem := mem
          live := block :: s.live
          handed := block :: s.handed }
  | .free block =>
    if block ∈ s.live then
      match s.region.freeAt s.mem block.offset with
      | (.error _, region, mem) => some { s with region := region, mem := mem }
      | (.ok (), region, mem) =>
        some { s with region := region, mem := mem, live := s.live.erase block }
    else none
  | .write block index value =>
    if block ∈ s.live /\ index < block.cap then
      some { s with
        mem := Function.update s.mem (block.offset + dynshmBufferHeaderSize + index) value }
    else none

/-- Blocks that were handed out start at the offset or stay clear of the eight
bytes there. -/
def Clear (s : RegionState) (offset : Nat) : Prop :=
  ∀ block ∈ s.handed, block.offset = offset \/
    offset + 8 + allocatorHeaderSize <= block.offset \/
    block.offset + dynshmBufferHeaderSize + block.cap <= offset

end RegionState

/-- A region over memory that holds `initial`, at an offset of a mapping whose
offsets are signed words. -/
def regionSystem (kind : AllocatorKind) (size : UInt64) (offset : Nat) (minBlock maxBlock : UInt64)
    (initial : Memory) : System RegionState RegionAction where
  init s := SharedRegion.new kind size offset minBlock maxBlock = .ok s.region /\
    s.mem = initial /\ s.live = [] /\ s.handed = [] /\ offset + size.toNat < 2 ^ 63
  step := RegionState.step

/-! ## What a refused release changes -/

namespace RegionAllocator

variable {allocator : RegionAllocator} {arena : Arena} {mem mem' : Memory}
  {outstanding : List Allocation} {offset : Nat}

theorem marksLive_congr
    (agree : AgreeOn mem mem' (arena.base + (offset - allocatorHeaderSize)) allocatorHeaderSize) :
    allocator.marksLive arena mem' offset = allocator.marksLive arena mem offset := by
  cases allocator with
  | buddy b => exact BuddyAllocator.accepts_congr rfl agree
  | fixed f => rw [marksLive, marksLive, Arena.readHeader_congr agree]

theorem header_le_of_isValidOffset (valid : allocator.isValidOffset offset = true) :
    allocatorHeaderSize <= offset := by
  cases allocator with
  | buddy b => exact (BuddyAllocator.dvd_of_isValidOffset valid).1
  | fixed f =>
    simp only [isValidOffset, FixedAllocator.isValidOffset, decide_eq_true_eq] at valid
    exact valid.1

/-- The allocator takes a valid offset back exactly if the header in front of it
is live. -/
theorem freeAt_isOk_iff (inv : allocator.Inv arena mem outstanding) (mem' : Memory)
    (valid : allocator.isValidOffset offset = true) :
    (Exists fun result => allocator.freeAt arena mem' offset = .ok result) <->
      allocator.marksLive arena mem' offset = true := by
  cases allocator with
  | buddy b =>
    have valid : b.isValidOffset offset = true := valid
    have len := BuddyInv.arena_len inv
    rw [freeAt, marksLive, BuddyAllocator.freeAt, if_neg (fun differs => differs len),
      if_neg (by rw [valid]; decide), BuddyAllocator.accepts]
    cases b.liveOrder arena mem' (offset - allocatorHeaderSize) with
    | error err => simp [Except.map, Except.isOk, Except.toBool]
    | ok order => exact ⟨fun _ => rfl, fun _ => ⟨_, rfl⟩⟩
  | fixed f =>
    have long := header_le_of_isValidOffset valid
    simp only [isValidOffset, FixedAllocator.isValidOffset, decide_eq_true_eq] at valid
    have len := FixedInv.arena_len inv
    rw [freeAt, marksLive, FixedAllocator.freeAt, if_neg (fun differs => differs len),
      if_neg (Nat.not_lt.mpr long)]
    dsimp only
    rcases Option.isSome_iff_exists.mp valid.2 with ⟨c, found⟩
    rw [found]
    cases arena.readHeader mem' (offset - allocatorHeaderSize) with
    | none => simp [Except.map]
    | some header =>
      dsimp only
      rw [Option.any_some, beq_iff_eq]
      by_cases marker : header.1 = magic
      · rw [if_neg (not_not.mpr marker)]
        exact ⟨fun _ => marker, fun _ => ⟨_, rfl⟩⟩
      · rw [if_pos marker]
        exact iff_of_false (by simp [Except.map]) marker

end RegionAllocator

namespace SharedRegion

variable {r : SharedRegion} {mem : Memory} {outstanding : List Allocation}

theorem setOffset_zero_ne {address : Nat}
    (busy : (DynShmBufferHeader.read mem address).offset ≠ 0) :
    DynShmBufferHeader.setOffset mem address 0 ≠ mem := by
  intro same
  have cleared := congrArg DynShmBufferHeader.offset
    (DynShmBufferHeader.read_setOffset mem address (show 0 < 2 ^ 63 by decide))
  rw [Int.natCast_zero, same] at cleared
  exact busy cleared

/-- A refused release changes nothing exactly if the word it clears was zero
already or the block is live. -/
theorem freeAt_error_keeps_iff (inv : r.Inv mem outstanding) (globalOffset : Int) :
    (forall err r' mem', r.freeAt mem globalOffset = (.error err, r', mem') ->
      r' = r /\ mem' = mem) <-> r.Consistent mem globalOffset := by
  unfold Consistent SharedRegion.freeAt
  by_cases before : globalOffset - r.offset < 0
  · rw [if_pos before]
    exact ⟨fun _ inside => absurd inside (Int.not_le.mpr before),
      fun _ _ _ _ same => by cases same; exact ⟨rfl, rfl⟩⟩
  rw [if_neg before]
  dsimp only
  generalize (globalOffset - r.offset).toNat = offset
  by_cases valid : r.allocator.isValidOffset offset = true
  swap
  · rw [if_pos (Bool.eq_false_iff.mpr valid)]
    exact ⟨fun _ _ valid' => absurd valid' valid,
      fun _ _ _ _ same => by cases same; exact ⟨rfl, rfl⟩⟩
  rw [if_neg (by rw [valid]; decide)]
  by_cases idle : (DynShmBufferHeader.read mem (r.offset + offset)).offset = 0
  · rw [if_pos idle]
    exact ⟨fun _ _ _ => .inl idle, fun _ _ _ _ same => by cases same; exact ⟨rfl, rfl⟩⟩
  rw [if_neg idle]
  have long := RegionAllocator.header_le_of_isValidOffset valid
  have cleared := DynShmBufferHeader.setOffset_agreeOutside mem (r.offset + offset) 0
  -- the word that is cleared lies behind the header the allocator looks at
  have marks : r.allocator.marksLive r.arena
      (DynShmBufferHeader.setOffset mem (r.offset + offset) 0) offset =
        r.allocator.marksLive r.arena mem offset :=
    RegionAllocator.marksLive_congr (cleared.agreeOn (.inl (by simp only [arena]; omega)))
  have accepted := RegionAllocator.freeAt_isOk_iff inv.allocator
    (DynShmBufferHeader.setOffset mem (r.offset + offset) 0) valid
  rw [marks] at accepted
  constructor
  · intro keeps _ _
    by_contra refused
    push Not at refused
    cases freed : r.allocator.freeAt r.arena
        (DynShmBufferHeader.setOffset mem (r.offset + offset) 0) offset with
    | ok result => exact refused.2 (accepted.mp ⟨result, freed⟩)
    | error err =>
      rw [freed] at keeps
      exact setOffset_zero_ne idle (keeps err _ _ rfl).2
  · intro consistent err r' mem' failed
    have live := (consistent (Int.not_lt.mp before) valid).resolve_left idle
    rcases accepted.mpr live with ⟨result, freed⟩
    rw [freed] at failed
    cases failed

end SharedRegion

/-! ## The words behind the boundaries -/

theorem readOffset_congr {mem mem' : Memory} {address : Nat}
    (agree : AgreeOn mem mem' address 8) :
    (DynShmBufferHeader.read mem' address).offset =
      (DynShmBufferHeader.read mem address).offset := by
  simp only [DynShmBufferHeader.read]
  rw [readSigned_congr agree]

theorem readOffset_eq_zero {mem : Memory} {address : Nat}
    (zero : forall x, address <= x -> x < address + 8 -> mem x = 0) :
    (DynShmBufferHeader.read mem address).offset = 0 := by
  have word : readWord mem address 8 = 0 := readWord_eq_zero zero
  simp only [DynShmBufferHeader.read, readSigned, word]
  rfl

theorem readOffset_write {offset : Nat} (mem : Memory) (address len cap : Nat)
    (fits : offset < 2 ^ 63) :
    (DynShmBufferHeader.read
      (DynShmBufferHeader.write mem address ⟨offset, 0, len, cap⟩) address).offset = offset := by
  have stamped := DynShmBufferHeader.read_setOffset mem address fits
  unfold DynShmBufferHeader.write
  rw [readOffset_congr ((DynShmBufferHeader.setNext_agreeOutside _ _ _).agreeOn (.inl (by omega))),
    readOffset_congr ((DynShmBufferHeader.setCap_agreeOutside _ _ _).agreeOn (.inl (by omega))),
    readOffset_congr ((DynShmBufferHeader.setLen_agreeOutside _ _ _).agreeOn (.inl (by omega))),
    stamped]

/-- The allocation behind a buffer. -/
structure Block.Behind (r : SharedRegion) (block : Block) (a : Allocation) : Prop where
  offset : block.offset = r.offset + a.dataOffset
  cap : block.cap + dynshmBufferHeaderSize = a.cap

namespace RegionState

variable {initial : Memory} {s t : RegionState} {block : Block}

/-- Live buffers are allocations of the region with their headers in place.  A
word that no live buffer starts at and no handed out one covers is zero, or as
it was when the region was built. -/
structure Kept (initial : Memory) (s : RegionState) : Prop where
  range : s.region.offset + s.region.size < 2 ^ 63
  inv : Exists fun outstanding => s.region.Inv s.mem outstanding /\
    ∀ block ∈ s.live, ∃ a ∈ outstanding, block.Behind s.region a
  distinct : (s.live.map Block.offset).Nodup
  listed : ∀ block ∈ s.live, block ∈ s.handed
  busy : ∀ block ∈ s.live, (DynShmBufferHeader.read s.mem block.offset).offset ≠ 0
  idle : forall offset, s.Clear offset -> (∀ block ∈ s.live, block.offset ≠ offset) ->
    (DynShmBufferHeader.read s.mem offset).offset = 0 \/ AgreeOn initial s.mem offset 8

namespace Kept

theorem idle_of_agree (kept : Kept initial s) {mem : Memory} {offset start count : Nat}
    (clear : s.Clear offset) (foreign : ∀ block ∈ s.live, block.offset ≠ offset)
    (agree : AgreeOutside s.mem mem start count)
    (apart : offset + 8 <= start \/ start + count <= offset) :
    (DynShmBufferHeader.read mem offset).offset = 0 \/ AgreeOn initial mem offset 8 := by
  have here : AgreeOn s.mem mem offset 8 := agree.agreeOn apart
  rcases kept.idle offset clear foreign with zero | same
  · exact .inl ((readOffset_congr here).trans zero)
  · exact .inr fun x lower upper => (here x lower upper).trans (same x lower upper)

theorem alloc {now : Int} {size : Nat} (kept : Kept initial s)
    (moved : s.step (.alloc now size) = some t) : Kept initial t := by
  simp only [RegionState.step] at moved
  split at moved
  · cases moved
  · next positive =>
    have positive : 0 < now := Int.not_le.mp positive
    rcases kept.inv with ⟨outstanding, inv, behind⟩
    split at moved
    · next region mem result =>
      cases moved
      rcases inv.alloc_none positive result with ⟨rfl, same, inv'⟩
      refine ⟨?_, ⟨outstanding, inv', fun block member => ?_⟩, kept.distinct, kept.listed,
        kept.busy, kept.idle⟩
      · dsimp only
        rw [same.offset, same.size]
        exact kept.range
      · rcases behind block member with ⟨a, held, start, cap⟩
        exact ⟨a, held, by rw [same.offset]; exact start, cap⟩
    · next block region mem result =>
      cases moved
      rcases inv.alloc_placed positive result with
        ⟨a, start, len, cap, room, same, inv', written, memory, stamped⟩
      have header : allocatorHeaderSize = 8 := rfl
      have size_eq : dynshmBufferHeaderSize = 24 := rfl
      have data := inv'.allocator.data_eq List.mem_cons_self
      have bound := inv'.slot_le List.mem_cons_self
      have range := kept.range
      simp only [SharedRegion.slot] at bound written
      rw [same.offset, same.size] at bound
      -- a live buffer lies apart from the new one
      have apart : ∀ other ∈ s.live,
          other.offset + dynshmBufferHeaderSize + other.cap + allocatorHeaderSize <= block.offset \/
            block.offset + dynshmBufferHeaderSize + block.cap + allocatorHeaderSize <=
              other.offset := by
        intro other member
        rcases behind other member with ⟨a', held, start', cap'⟩
        have data' := inv.allocator.data_eq held
        have differs : a' ≠ a := by
          rintro rfl
          have again : a' ∈ (a' :: outstanding).erase a' := by
            rw [List.erase_cons_head]
            exact held
          exact (inv'.allocator.mem_erase List.mem_cons_self again).2 rfl
        have spans := inv'.slot_apart List.mem_cons_self (List.mem_cons_of_mem _ held) differs
        simp only [Span.Apart, SharedRegion.slot] at spans
        rw [same.offset] at spans
        omega
      exact {
        range := by
          dsimp only
          rw [same.offset, same.size]
          exact kept.range
        inv := by
          refine ⟨a :: outstanding, inv', fun other member => ?_⟩
          rcases List.mem_cons.mp member with rfl | old
          · exact ⟨a, List.mem_cons_self, by rw [same.offset]; exact start, cap⟩
          · rcases behind other old with ⟨a', held, start', cap'⟩
            exact ⟨a', List.mem_cons_of_mem _ held, by rw [same.offset]; exact start', cap'⟩
        distinct := by
          refine List.nodup_cons.mpr ⟨fun member => ?_, kept.distinct⟩
          rcases List.mem_map.mp member with ⟨other, old, equal⟩
          have clear := apart other old
          omega
        listed := by
          intro other member
          rcases List.mem_cons.mp member with rfl | old
          · exact List.mem_cons_self
          · exact List.mem_cons_of_mem _ (kept.listed other old)
        busy := by
          intro other member
          rcases List.mem_cons.mp member with rfl | old
          · dsimp only
            rw [stamped, readOffset_write _ _ _ _ (by omega)]
            omega
          · have clear := apart other old
            dsimp only
            rw [readOffset_congr (written.agreeOn (by omega))]
            exact kept.busy other old
        idle := by
          intro offset clear foreign
          have elsewhere := (clear block List.mem_cons_self).resolve_left
            (foreign block List.mem_cons_self)
          refine kept.idle_of_agree (fun other old => clear other (List.mem_cons_of_mem _ old))
            (fun other old => foreign other (List.mem_cons_of_mem _ old)) written ?_
          omega }

theorem eq_of_offset (kept : Kept initial s) {other : Block} (member : block ∈ s.live)
    (member' : other ∈ s.live) (same : block.offset = other.offset) : block = other :=
  List.inj_on_of_nodup_map kept.distinct member member' same

theorem apart (kept : Kept initial s) {other : Block} (member : block ∈ s.live)
    (member' : other ∈ s.live) (differs : other ≠ block) :
    other.offset + dynshmBufferHeaderSize + other.cap + allocatorHeaderSize <= block.offset \/
      block.offset + dynshmBufferHeaderSize + block.cap + allocatorHeaderSize <= other.offset := by
  rcases kept.inv with ⟨outstanding, inv, behind⟩
  rcases behind block member with ⟨a, held, start, cap⟩
  rcases behind other member' with ⟨a', held', start', cap'⟩
  have data := inv.allocator.data_eq held
  have data' := inv.allocator.data_eq held'
  have different : a' ≠ a := by
    rintro rfl
    exact differs (kept.eq_of_offset member' member (by omega))
  have spans := inv.slot_apart held held' different
  simp only [Span.Apart, SharedRegion.slot] at spans
  omega

theorem free (kept : Kept initial s) (moved : s.step (.free block) = some t) :
    Kept initial t := by
  rcases Option.ite_none_right_eq_some.mp moved with ⟨member, moved⟩
  rcases kept.inv with ⟨outstanding, inv, behind⟩
  rcases behind block member with ⟨a, held, start, cap⟩
  have busy := kept.busy block member
  rw [start] at busy
  rcases inv.freeAt_ok held busy (by omega) with
    ⟨region, mem, freed, same, inv', _, cleared, written⟩
  rw [start, freed] at moved
  cases moved
  have header : allocatorHeaderSize = 8 := rfl
  have size_eq : dynshmBufferHeaderSize = 24 := rfl
  have data := inv.allocator.data_eq held
  simp only [SharedRegion.slot] at written
  have nodup : s.live.Nodup := kept.distinct.of_map
  have remaining : ∀ other ∈ s.live.erase block, other ∈ s.live /\ other ≠ block :=
    fun other remains => (nodup.mem_erase_iff.mp remains).symm
  exact {
    range := by
      dsimp only
      rw [same.offset, same.size]
      exact kept.range
    inv := by
      refine ⟨outstanding.erase a, inv', fun other remains => ?_⟩
      rcases remaining other remains with ⟨old, differs⟩
      rcases behind other old with ⟨a', held', start', cap'⟩
      refine ⟨a', (List.mem_erase_of_ne ?_).mpr held', by rw [same.offset]; exact start', cap'⟩
      rintro rfl
      exact differs (kept.eq_of_offset old member (by omega))
    distinct := kept.distinct.sublist (List.erase_sublist.map _)
    listed := fun other remains => kept.listed other (remaining other remains).1
    busy := by
      intro other remains
      rcases remaining other remains with ⟨old, differs⟩
      have clear := kept.apart member old differs
      dsimp only
      rw [readOffset_congr (written.agreeOn (by omega))]
      exact kept.busy other old
    idle := by
      intro offset clear foreign
      by_cases here : block.offset = offset
      · subst here
        dsimp only
        rw [start]
        exact .inl cleared
      · have elsewhere := (clear block (kept.listed block member)).resolve_left here
        refine kept.idle_of_agree clear (fun other old => ?_) written (by omega)
        by_cases same : other = block
        · rw [same]
          exact here
        · exact foreign other ((List.mem_erase_of_ne same).mpr old) }

theorem write {index : Nat} {value : UInt8} (kept : Kept initial s)
    (moved : s.step (.write block index value) = some t) : Kept initial t := by
  rcases of_guarded moved with ⟨⟨member, bound⟩, rfl⟩
  rcases kept.inv with ⟨outstanding, inv, behind⟩
  rcases behind block member with ⟨a, held, start, cap⟩
  have data := inv.allocator.data_eq held
  have agree : AgreeOutside s.mem
      (Function.update s.mem (block.offset + dynshmBufferHeaderSize + index) value)
      (block.offset + dynshmBufferHeaderSize + index) 1 := by
    intro x outside
    exact Function.update_of_ne (by omega) _ _
  have size : dynshmBufferHeaderSize = 24 := rfl
  exact { kept with
    inv := by
      refine ⟨outstanding, inv.of_agree fun other held' => agree.agreeOn ?_, behind⟩
      by_cases same : other = a
      · subst same
        omega
      · have spans := inv.slot_apart held held' same
        simp only [Span.Apart, SharedRegion.slot] at spans
        omega
    busy := by
      intro other old
      dsimp only
      rw [readOffset_congr (agree.agreeOn ?_)]
      · exact kept.busy other old
      · by_cases same : other = block
        · subst same
          omega
        · have clear := kept.apart member old same
          omega
    idle := by
      intro offset clear foreign
      have elsewhere := (clear block (kept.listed block member)).resolve_left
        (foreign block member)
      exact kept.idle_of_agree clear foreign agree (by omega) }

theorem step {action : RegionAction} (kept : Kept initial s)
    (moved : s.step action = some t) : Kept initial t := by
  cases action with
  | alloc now size => exact kept.alloc moved
  | free block => exact kept.free moved
  | write block index value => exact kept.write moved

/-- Where no block was handed out over the bytes of an offset, a release finds
zeroes or a live block there. -/
theorem consistent (kept : Kept initial s) {offset : Nat} (clear : s.Clear offset)
    (zeroed : forall x, offset <= x -> x < offset + 8 -> initial x = 0) :
    s.region.Consistent s.mem offset := by
  intro inside valid
  have place : s.region.offset + ((offset : Int) - s.region.offset).toNat = offset := by omega
  rw [place]
  by_cases foreign : ∀ block ∈ s.live, block.offset ≠ offset
  · refine .inl ?_
    rcases kept.idle offset clear foreign with zero | same
    · exact zero
    · exact readOffset_eq_zero fun x lower upper =>
        (same x lower upper).trans (zeroed x lower upper)
  · push Not at foreign
    rcases foreign with ⟨block, member, rfl⟩
    rcases kept.inv with ⟨outstanding, inv, behind⟩
    rcases behind block member with ⟨a, held, start, _⟩
    have data : ((block.offset : Int) - s.region.offset).toNat = a.dataOffset := by omega
    rw [data] at valid ⊢
    rcases inv.allocator.freeAt_ok held with ⟨allocator, mem, freed, _⟩
    exact .inr ((RegionAllocator.freeAt_isOk_iff inv.allocator s.mem valid).mp ⟨_, freed⟩)

end Kept

theorem kept_of_reachable {kind : AllocatorKind} {size minBlock maxBlock : UInt64} {offset : Nat}
    (reachable : (regionSystem kind size offset minBlock maxBlock initial).Reachable s) :
    Kept initial s := by
  refine reachable.invariant ?_ (fun _ _ _ _ _ moved kept => kept.step moved)
  rintro start ⟨built, rfl, none, never, range⟩
  rcases SharedRegion.inv_new built with ⟨sameOffset, sameSize, _, inv⟩
  have nobody : ∀ block ∈ start.live, False := by
    intro block member
    rw [none] at member
    cases member
  exact {
    range := by rw [sameOffset, sameSize]; exact range
    inv := ⟨[], inv start.mem, fun block member => (nobody block member).elim⟩
    distinct := by rw [none]; exact List.nodup_nil
    listed := fun block member => (nobody block member).elim
    busy := fun block member => (nobody block member).elim
    idle := fun _ _ _ => .inr fun _ _ _ => rfl }

end RegionState

/-- In every state of a region in use and for every offset: a release that is
refused leaves the region and every byte as they were exactly if the word it
clears was zero or belongs to a live block.  In zeroed memory that is so for
every offset over whose eight bytes no block was handed out, unless the block
starts there. -/
theorem refused_release_keeps_iff {kind : AllocatorKind} {size minBlock maxBlock : UInt64}
    {offset : Nat} {initial : Memory} {s : RegionState}
    (reachable : (regionSystem kind size offset minBlock maxBlock initial).Reachable s) :
    (forall globalOffset : Int,
      (forall err region mem, s.region.freeAt s.mem globalOffset = (.error err, region, mem) ->
        region = s.region /\ mem = s.mem) <-> s.region.Consistent s.mem globalOffset) /\
    forall globalOffset : Nat, s.Clear globalOffset ->
      (forall x, globalOffset <= x -> x < globalOffset + 8 -> initial x = 0) ->
      s.region.Consistent s.mem globalOffset := by
  have kept := RegionState.kept_of_reachable reachable
  rcases kept.inv with ⟨outstanding, inv, _⟩
  exact ⟨SharedRegion.freeAt_error_keeps_iff inv, fun globalOffset => kept.consistent⟩

/-- A block of two units is live and its payload is written; the offset of
another, never used block is refused and nothing changes. -/
theorem refused_release_keeps_iff_unused :
    Exists fun s => (regionSystem .buddy 256 4096 64 128 (fun _ => 0)).Reachable s /\
      s.live = [⟨4232, 90, 96⟩] /\
      (forall err region mem, s.region.freeAt s.mem 4104 = (.error err, region, mem) ->
        region = s.region /\ mem = s.mem) := by
  have found : Exists fun s => (regionSystem .buddy 256 4096 64 128 (fun _ => 0)).Reachable s /\
      (s.live = [⟨4232, 90, 96⟩] /\ s.handed = [⟨4232, 90, 96⟩]) :=
    System.exists_reachable_of_run
      ⟨(SharedRegion.new .buddy 256 4096 64 128).toOption.get (by decide), fun _ => 0, [], []⟩
      [.alloc 1 90, .write ⟨4232, 90, 96⟩ 40 7] ⟨rfl, rfl, rfl, rfl, by decide⟩ (by decide +kernel)
  rcases found with ⟨s, reachable, live, handed⟩
  have facts := refused_release_keeps_iff reachable
  refine ⟨s, reachable, live, (facts.1 4104).mpr (facts.2 4104 ?_ fun _ _ _ => rfl)⟩
  rw [RegionState.Clear, handed]
  decide

/-- The payload of a live block of two units is not zero behind the boundary
inside it.  The release of that boundary is refused, and eight bytes of the
payload are cleared. -/
theorem refused_release_clears_payload :
    Exists fun s => (regionSystem .buddy 256 4096 64 128 (fun _ => 0)).Reachable s /\
      s.live = [⟨4232, 90, 96⟩] /\ s.mem 4296 = 7 /\
      (s.region.freeAt s.mem 4296).1 = .error .notAllocated /\
      (s.region.freeAt s.mem 4296).2.2 4296 = 0 :=
  System.exists_reachable_of_run
    ⟨(SharedRegion.new .buddy 256 4096 64 128).toOption.get (by decide), fun _ => 0, [], []⟩
    [.alloc 1 90, .write ⟨4232, 90, 96⟩ 40 7] ⟨rfl, rfl, rfl, rfl, by decide⟩ (by decide +kernel)

end V5
end Shmipc
