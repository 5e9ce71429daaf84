import Shmipc.V5.Region

namespace Shmipc
namespace V5

open ByteMemory Tiling

/-!
# What a region guarantees

Both allocators keep the same contract: outstanding blocks lie apart from each
other inside the arena, only their eight-byte headers matter, an allocation
writes its own header only, and an outstanding block can be freed by the offset
of its data.  A region adds the buffer header, whose bytes lie in the block that
the allocator handed out.
-/

namespace RegionAllocator

/-- The invariant of whichever allocator the region runs. -/
def Inv (arena : Arena) (mem : Memory) (outstanding : List Allocation) : RegionAllocator -> Prop
  | .buddy b => BuddyInv b arena mem outstanding
  | .fixed f => FixedInv f arena mem outstanding

/-- Bytes of the smallest block the allocator carves. -/
def smallest : RegionAllocator -> Nat
  | .buddy b => b.minBlock
  | .fixed f => f.usable .small + allocatorHeaderSize

namespace Inv

variable {allocator allocator' : RegionAllocator} {arena : Arena} {mem mem' : Memory}
  {outstanding : List Allocation} {a other : Allocation}

theorem data_eq (inv : allocator.Inv arena mem outstanding) (inside : a ∈ outstanding) :
    a.dataOffset = a.blockOffset + allocatorHeaderSize := by
  cases allocator with
  | buddy b =>
    rcases BuddyInv.live inv a inside with ⟨_, placed, _⟩
    exact placed.data_eq
  | fixed f =>
    rcases FixedInv.live inv a inside with ⟨_, placed⟩
    exact placed.data_eq

theorem end_le (inv : allocator.Inv arena mem outstanding) (inside : a ∈ outstanding) :
    a.blockOffset + (a.cap + allocatorHeaderSize) <= arena.len := by
  cases allocator with
  | buddy b => exact (BuddyInv.end_le inv inside).trans (Nat.le_of_eq (BuddyInv.arena_len inv).symm)
  | fixed f => exact (FixedInv.end_le inv inside).trans (Nat.le_of_eq (FixedInv.arena_len inv).symm)

theorem apart (inv : allocator.Inv arena mem outstanding) (inside : a ∈ outstanding)
    (member : other ∈ outstanding) (differs : other ≠ a) : a.span.Apart other.span := by
  cases allocator with
  | buddy b => exact BuddyInv.apart inv inside ((List.mem_erase_of_ne differs).mpr member)
  | fixed f => exact FixedInv.apart inv inside member differs

theorem mem_erase (inv : allocator.Inv arena mem outstanding) (inside : a ∈ outstanding)
    (remains : other ∈ outstanding.erase a) : other ∈ outstanding /\ other ≠ a := by
  refine ⟨List.mem_of_mem_erase remains, ?_⟩
  rintro rfl
  cases allocator with
  | buddy b =>
    have apart := BuddyInv.apart inv inside remains
    have positive := BuddyInv.span_pos other
    simp only [Span.Apart] at apart
    omega
  | fixed f =>
    have nodup : outstanding.Nodup := (FixedInv.live_nodup inv).of_map
    exact (nodup.mem_erase_iff.mp remains).1 rfl

theorem smallest_le (inv : allocator.Inv arena mem outstanding) (inside : a ∈ outstanding) :
    allocator.smallest <= a.cap + allocatorHeaderSize := by
  cases allocator with
  | buddy b =>
    rcases BuddyInv.live inv a inside with ⟨order, placed, _⟩
    rw [placed.cap_eq, BuddyGeometry.blockSize_eq, Nat.pow_add, <- b.minBlock_eq]
    exact Nat.le_mul_of_pos_right _ (Nat.two_pow_pos order)
  | fixed f =>
    rcases FixedInv.live inv a inside with ⟨c, placed⟩
    rcases (FixedInv.layout inv).ascending with ⟨lower, upper⟩
    rw [placed.cap_eq, smallest]
    cases c <;> omega

theorem of_agree (inv : allocator.Inv arena mem outstanding)
    (agree : ∀ a ∈ outstanding,
      AgreeOn mem mem' (arena.base + a.blockOffset) allocatorHeaderSize) :
    allocator.Inv arena mem' outstanding := by
  cases allocator with
  | buddy b => exact BuddyInv.of_agree inv agree
  | fixed f => exact FixedInv.of_agree inv agree

theorem alloc_none {size : Nat} (inv : allocator.Inv arena mem outstanding)
    (result : allocator.alloc arena mem size = (none, allocator', mem')) :
    mem' = mem /\ allocator'.smallest = allocator.smallest /\
      allocator'.Inv arena mem outstanding := by
  cases allocator with
  | buddy b =>
    rcases found : b.alloc arena mem size with ⟨allocation, b', memory⟩
    simp only [alloc, found] at result
    cases result
    rcases BuddyInv.alloc_none inv found with ⟨same, kept, rfl⟩
    exact ⟨rfl, congrArg BuddyGeometry.minBlock same, kept⟩
  | fixed f =>
    rcases found : f.alloc arena mem size with ⟨allocation, f', memory⟩
    simp only [alloc, found] at result
    cases result
    rcases FixedInv.alloc_none found with ⟨rfl, rfl⟩
    exact ⟨rfl, rfl, inv⟩

theorem alloc_some {size : Nat} (inv : allocator.Inv arena mem outstanding)
    (result : allocator.alloc arena mem size = (some a, allocator', mem')) :
    a.dataOffset = a.blockOffset + allocatorHeaderSize /\ size <= a.cap /\
      allocator'.smallest = allocator.smallest /\
      allocator'.Inv arena mem' (a :: outstanding) /\
      AgreeOutside mem mem' (arena.base + a.blockOffset) allocatorHeaderSize := by
  cases allocator with
  | buddy b =>
    rcases found : b.alloc arena mem size with ⟨allocation, b', memory⟩
    simp only [alloc, found] at result
    cases result
    rcases BuddyInv.alloc_some inv found with ⟨same, placed, len, kept, written⟩
    exact ⟨placed.data_eq, len ▸ placed.len_le, congrArg BuddyGeometry.minBlock same, kept,
      written⟩
  | fixed f =>
    rcases found : f.alloc arena mem size with ⟨allocation, f', memory⟩
    simp only [alloc, found] at result
    cases result
    rcases FixedInv.alloc_some inv found with ⟨data, _, fits, same, kept, written⟩
    exact ⟨data, fits, congrArg (· .small + allocatorHeaderSize) same, kept, written⟩

theorem isValidOffset_of_mem (inv : allocator.Inv arena mem outstanding)
    (inside : a ∈ outstanding) : allocator.isValidOffset a.dataOffset = true := by
  cases allocator with
  | buddy b => exact BuddyInv.isValidOffset_of_mem inv inside
  | fixed f => exact FixedInv.isValidOffset_of_mem inv inside

theorem freeAt_ok (inv : allocator.Inv arena mem outstanding) (inside : a ∈ outstanding) :
    Exists fun allocator' => Exists fun mem' =>
      allocator.freeAt arena mem a.dataOffset = .ok (allocator', mem') /\
      allocator'.smallest = allocator.smallest /\
      allocator'.Inv arena mem' (outstanding.erase a) /\
      AgreeOutside mem mem' (arena.base + a.blockOffset) allocatorHeaderSize := by
  cases allocator with
  | buddy b =>
    rcases BuddyInv.freeAt_ok inv inside with ⟨b', mem', freed, same, kept, written⟩
    exact ⟨.buddy b', mem', by rw [freeAt, freed]; rfl, congrArg BuddyGeometry.minBlock same,
      kept, written⟩
  | fixed f =>
    rcases FixedInv.freeAt_ok inv inside with ⟨f', mem', freed, same, kept, written⟩
    exact ⟨.fixed f', mem', by rw [freeAt, freed]; rfl,
      congrArg (· .small + allocatorHeaderSize) same, kept, written⟩

theorem reset_ok (inv : allocator.Inv arena mem []) :
    Exists fun allocator' => allocator.reset arena = .ok allocator' /\
      allocator'.smallest = allocator.smallest /\ allocator'.Inv arena mem [] := by
  cases allocator with
  | buddy b =>
    rcases BuddyInv.reset_ok inv with ⟨b', done, same, kept⟩
    exact ⟨.buddy b', by rw [reset, done]; rfl, congrArg BuddyGeometry.minBlock same, kept mem⟩
  | fixed f =>
    rcases FixedInv.reset_ok inv with ⟨f', done, same, kept⟩
    exact ⟨.fixed f', by rw [reset, done]; rfl,
      congrArg (· .small + allocatorHeaderSize) same, kept mem⟩

end Inv

end RegionAllocator

/-! ## Shared regions -/

namespace SharedRegion

/-- The allocator's invariant over the region's arena, with the count of what is
outstanding; a region that was never used or was punched has nothing out. -/
structure Inv (r : SharedRegion) (mem : Memory) (outstanding : List Allocation) : Prop where
  allocator : r.allocator.Inv r.arena mem outstanding
  allocs : r.allocs = outstanding.length
  idle : r.activatedAt = 0 -> outstanding = []

/-- The two regions are the same range, carved into the same smallest blocks. -/
structure SameRange (r r' : SharedRegion) : Prop where
  offset : r'.offset = r.offset
  size : r'.size = r.size
  smallest : r'.allocator.smallest = r.allocator.smallest

/-- The whole block behind an allocation, in offsets of the mapping. -/
def slot (r : SharedRegion) (a : Allocation) : Span :=
  ⟨r.offset + a.blockOffset, a.cap + allocatorHeaderSize⟩

theorem SameRange.trans {r r' r'' : SharedRegion} (first : SameRange r r')
    (second : SameRange r' r'') : SameRange r r'' :=
  ⟨second.offset.trans first.offset, second.size.trans first.size,
    second.smallest.trans first.smallest⟩

namespace Inv

variable {r r' : SharedRegion} {mem mem' : Memory} {outstanding : List Allocation}
  {a other : Allocation} {now : Int}

theorem of_agree (inv : r.Inv mem outstanding)
    (agree : ∀ a ∈ outstanding,
      AgreeOn mem mem' (r.offset + a.blockOffset) allocatorHeaderSize) :
    r.Inv mem' outstanding :=
  ⟨inv.allocator.of_agree agree, inv.allocs, inv.idle⟩

theorem slot_apart (inv : r.Inv mem outstanding) (inside : a ∈ outstanding)
    (member : other ∈ outstanding) (differs : other ≠ a) : (r.slot a).Apart (r.slot other) := by
  have apart := inv.allocator.apart inside member differs
  simp only [Span.Apart, Allocation.span, slot] at apart ⊢
  omega

theorem slot_le (inv : r.Inv mem outstanding) (inside : a ∈ outstanding) :
    (r.slot a).start + (r.slot a).size <= r.offset + r.size := by
  have bound := inv.allocator.end_le inside
  simp only [slot, arena] at bound ⊢
  omega

theorem activate (inv : r.Inv mem outstanding) (positive : 0 < now) :
    Exists fun r' => r.activate now = some r' /\ SameRange r r' /\ r'.Inv mem outstanding /\
      r'.activatedAt ≠ 0 := by
  have awake : now ≠ 0 := Int.ne_of_gt positive
  unfold SharedRegion.activate
  split
  · next unused =>
    have empty := inv.idle unused
    subst empty
    split
    · rcases inv.allocator.reset_ok with ⟨allocator, done, same, kept⟩
      rw [done]
      exact ⟨_, rfl, ⟨rfl, rfl, same⟩, ⟨kept, rfl, fun _ => rfl⟩, awake⟩
    · exact ⟨_, rfl, ⟨rfl, rfl, rfl⟩, ⟨inv.allocator, rfl, fun _ => rfl⟩, awake⟩
  · next used => exact ⟨r, rfl, ⟨rfl, rfl, rfl⟩, inv, used⟩

variable {size : Nat} {block : Block}

theorem alloc_none (inv : r.Inv mem outstanding) (positive : 0 < now)
    (result : r.alloc mem now size = (none, r', mem')) :
    mem' = mem /\ SameRange r r' /\ r'.Inv mem outstanding := by
  rcases inv.activate positive with ⟨active, activated, same, kept, awake⟩
  simp only [SharedRegion.alloc, activated] at result
  rcases found : active.allocator.alloc active.arena mem (dynshmBufferHeaderSize + size) with
    ⟨allocation, allocator, memory⟩
  rw [found] at result
  cases allocation with
  | none =>
    cases result
    rcases kept.allocator.alloc_none found with ⟨rfl, smallest, inv'⟩
    exact ⟨rfl, same.trans ⟨rfl, rfl, smallest⟩,
      ⟨inv', kept.allocs, fun unused => absurd unused awake⟩⟩
  | some allocation => cases result

/-- A buffer handed out by a region: its header stands eight bytes into a fresh
block, the block holds it, and nothing outside the block is written. -/
theorem alloc_placed (inv : r.Inv mem outstanding) (positive : 0 < now)
    (result : r.alloc mem now size = (some block, r', mem')) :
    Exists fun a => block.offset = r.offset + a.dataOffset /\ block.len = size /\
      block.cap + dynshmBufferHeaderSize = a.cap /\ size <= block.cap /\
      SameRange r r' /\ r'.Inv mem' (a :: outstanding) /\
      AgreeOutside mem mem' (r.slot a).start (r.slot a).size /\
      Exists fun memory => mem' = DynShmBufferHeader.write memory block.offset
        ⟨block.offset, 0, block.len, block.cap⟩ := by
  rcases inv.activate positive with ⟨active, activated, same, kept, awake⟩
  simp only [SharedRegion.alloc, activated] at result
  rcases found : active.allocator.alloc active.arena mem (dynshmBufferHeaderSize + size) with
    ⟨allocation, allocator, memory⟩
  rw [found] at result
  cases allocation with
  | none => cases result
  | some a =>
    cases result
    rcases kept.allocator.alloc_some found with ⟨data, room, smallest, inv', written⟩
    simp only [arena] at written
    have start : active.offset + a.dataOffset =
        active.offset + a.blockOffset + allocatorHeaderSize := by rw [data, Nat.add_assoc]
    have cap_eq : a.cap - dynshmBufferHeaderSize + dynshmBufferHeaderSize = a.cap :=
      Nat.sub_add_cancel (by omega)
    have room' : size <= a.cap - dynshmBufferHeaderSize := by omega
    have stamped := DynShmBufferHeader.write_agreeOutside memory (active.offset + a.dataOffset)
      ⟨(active.offset + a.dataOffset : Nat), 0, size, a.cap - dynshmBufferHeaderSize⟩
    refine ⟨a, by rw [same.offset], rfl, cap_eq, room', ?_, ?_, ?_, memory, rfl⟩
    · exact same.trans ⟨rfl, rfl, smallest⟩
    · refine ⟨inv'.of_agree fun other member => stamped.agreeOn ?_, ?_,
        fun unused => absurd unused awake⟩
      · -- the buffer header lies in the new block, above its own eight bytes
        by_cases same : other = a
        · subst same
          exact Or.inl (Nat.le_of_eq start.symm)
        · have apart := inv'.apart List.mem_cons_self member same
          simp only [Span.Apart, Allocation.span] at apart
          simp only [arena]
          omega
      · rw [List.length_cons, <- kept.allocs]
    · simp only [slot]
      rw [<- same.offset]
      exact (written.mono (Nat.le_refl _) (by omega)).trans
        (stamped.mono (by omega) (by omega))

theorem alloc_some (inv : r.Inv mem outstanding) (positive : 0 < now)
    (fits : r.offset + r.size < 2 ^ 63) (small : r.size < 2 ^ 32)
    (result : r.alloc mem now size = (some block, r', mem')) :
    Exists fun a => block.offset = r.offset + a.dataOffset /\ block.len = size /\
      block.cap + dynshmBufferHeaderSize = a.cap /\ size <= block.cap /\ block.cap < 2 ^ 32 /\
      SameRange r r' /\ r'.Inv mem' (a :: outstanding) /\
      AgreeOutside mem mem' (r.slot a).start (r.slot a).size /\
      DynShmBufferHeader.read mem' block.offset = ⟨block.offset, 0, block.len, block.cap⟩ := by
  rcases inv.alloc_placed positive result with
    ⟨a, start, len, cap_eq, room, same, inv', written, memory, stamped⟩
  have bound := inv'.slot_le List.mem_cons_self
  have data := inv'.allocator.data_eq List.mem_cons_self
  simp only [slot] at bound
  rw [same.offset, same.size] at bound
  have capFits : block.cap < 2 ^ 32 := by omega
  refine ⟨a, start, len, cap_eq, room, capFits, same, inv', written, ?_⟩
  rw [stamped]
  exact DynShmBufferHeader.read_write memory _ (by omega) (by decide) (by omega) capFits

/-- Releasing an outstanding buffer frees its block, marks its header and writes
nothing outside the block. -/
theorem freeAt_ok (inv : r.Inv mem outstanding) (inside : a ∈ outstanding)
    (busy : (DynShmBufferHeader.read mem (r.offset + a.dataOffset)).offset ≠ 0)
    (room : dynshmBufferHeaderSize <= a.cap) :
    Exists fun r' => Exists fun mem' =>
      r.freeAt mem ((r.offset + a.dataOffset : Nat) : Int) = (.ok (), r', mem') /\
      SameRange r r' /\ r'.Inv mem' (outstanding.erase a) /\ r'.allocs + 1 = r.allocs /\
      (DynShmBufferHeader.read mem' (r.offset + a.dataOffset)).offset = 0 /\
      AgreeOutside mem mem' (r.slot a).start (r.slot a).size := by
  have data := inv.allocator.data_eq inside
  have header : 8 <= dynshmBufferHeaderSize := by decide
  have cleared := DynShmBufferHeader.setOffset_agreeOutside mem (r.offset + a.dataOffset) 0
  have kept : r.allocator.Inv r.arena
      (DynShmBufferHeader.setOffset mem (r.offset + a.dataOffset) 0) outstanding := by
    refine inv.allocator.of_agree fun other member => cleared.agreeOn ?_
    by_cases same : other = a
    · subst same
      simp only [arena]
      omega
    · have apart := inv.allocator.apart inside member same
      simp only [Span.Apart, Allocation.span] at apart
      simp only [arena]
      omega
  rcases kept.freeAt_ok inside with ⟨allocator, mem', freed, smallest, inv', written⟩
  have localOffset : (((r.offset + a.dataOffset : Nat) : Int) - r.offset) = a.dataOffset := by
    omega
  simp only [arena] at written
  refine ⟨{ r with allocator := allocator, allocs := r.allocs - 1 }, mem', ?_, ⟨rfl, rfl, smallest⟩,
    ⟨inv', ?_, ?_⟩, ?_, ?_, ?_⟩
  · unfold SharedRegion.freeAt
    rw [localOffset, if_neg (by omega), Int.toNat_natCast]
    dsimp only
    rw [if_neg (by simp [inv.allocator.isValidOffset_of_mem inside]), if_neg busy, freed]
  · rw [List.length_erase_of_mem inside, <- inv.allocs]
  · intro unused
    rw [inv.idle unused] at inside
    cases inside
  · have positive := List.length_pos_of_mem inside
    rw [<- inv.allocs] at positive
    exact Nat.sub_add_cancel positive
  · have marked := DynShmBufferHeader.read_setOffset mem (r.offset + a.dataOffset)
      (show 0 < 2 ^ 63 by decide)
    have same : DynShmBufferHeader.read mem' (r.offset + a.dataOffset) =
        DynShmBufferHeader.read
          (DynShmBufferHeader.setOffset mem (r.offset + a.dataOffset) 0)
          (r.offset + a.dataOffset) :=
      DynShmBufferHeader.read_congr (written.agreeOn (Or.inr (by omega)))
    rw [same]
    exact congrArg DynShmBufferHeader.offset marked
  · simp only [slot]
    exact (cleared.mono (by omega) (by omega)).trans (written.mono (Nat.le_refl _) (by omega))

theorem punchIfIdle (inv : r.Inv mem outstanding) (now maxAge : Int) :
    SameRange r (r.punchIfIdle now maxAge).2 /\
      (r.punchIfIdle now maxAge).2.Inv mem outstanding /\
      ((r.punchIfIdle now maxAge).1 = true -> outstanding = []) := by
  unfold SharedRegion.punchIfIdle
  split
  · exact ⟨⟨rfl, rfl, rfl⟩, inv, fun wrong => by cases wrong⟩
  · next idle =>
    have empty : outstanding = [] := by
      rw [<- List.length_eq_zero_iff, <- inv.allocs]
      omega
    exact ⟨⟨rfl, rfl, rfl⟩, ⟨inv.allocator, inv.allocs, fun _ => empty⟩, fun _ => empty⟩

end Inv

/-- A region as it is built over any bytes: nothing is outstanding, and its
smallest block is the configured one. -/
theorem inv_new {kind : AllocatorKind} {size : UInt64} {offset : Nat} {minBlock maxBlock : UInt64}
    {r : SharedRegion} (built : SharedRegion.new kind size offset minBlock maxBlock = .ok r) :
    r.offset = offset /\ r.size = size.toNat /\ minBlock.toNat % 2 ^ 32 <= r.allocator.smallest /\
      forall mem, r.Inv mem [] := by
  cases kind with
  | buddy =>
    cases result : BuddyAllocator.newWithBlockSize size minBlock maxBlock with
    | error err =>
      simp only [SharedRegion.new, result] at built
      cases built
    | ok b =>
      simp only [SharedRegion.new, result] at built
      cases built
      refine ⟨rfl, rfl, ?_, fun mem => ⟨(buddyInv_new result offset mem).2, rfl, fun _ => rfl⟩⟩
      rcases (buddyInv_new result offset fun _ => 0).1 with ⟨_, minEq, _⟩
      exact (Nat.mod_le _ _).trans (Nat.le_of_eq minEq.symm)
  | fixed =>
    cases result : FixedAllocator.newFromConfig size.toNat (fixedClasses minBlock maxBlock) with
    | error err =>
      simp only [SharedRegion.new, result] at built
      cases built
    | ok f =>
      simp only [SharedRegion.new, result] at built
      cases built
      refine ⟨rfl, rfl, ?_, fun mem => ⟨(fixedInv_new result offset mem).2, rfl, fun _ => rfl⟩⟩
      exact Nat.le_of_eq (fixedInv_new result offset fun _ => 0).1.symm

end SharedRegion

end V5
end Shmipc
