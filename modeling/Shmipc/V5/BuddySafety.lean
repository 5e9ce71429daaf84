import Shmipc.V5.BuddyTiling

namespace Shmipc
namespace V5

open ByteMemory Tiling Transition

/-!
# Runs of the buddy allocator

The invariant ties the stacks to the outstanding allocations and to the headers
in the arena.  It holds from construction on through any sequence of
allocations, frees of outstanding blocks, resets of an empty arena, and writes
of the callers into the data of their own blocks.
-/

/-- An allocation is a whole block of the given order. -/
structure Placed (geometry : BuddyGeometry) (a : Allocation) (order : Nat) : Prop where
  order_le : order <= geometry.maxOrder
  data_eq : a.dataOffset = a.blockOffset + allocatorHeaderSize
  cap_eq : a.cap + allocatorHeaderSize = geometry.blockSize order
  len_le : a.len <= a.cap
  aligned : geometry.blockSize order ∣ a.blockOffset

/-- The stacks and the outstanding blocks partition the arena, and the header of
every outstanding block is stamped with its order. -/
structure BuddyInv (b : BuddyAllocator) (arena : Arena) (mem : Memory)
    (outstanding : List Allocation) : Prop where
  arena_len : arena.len = b.arenaSize
  carved : Carved b.toBuddyGeometry b.free [] outstanding
  live : ∀ a ∈ outstanding, Exists fun order => Placed b.toBuddyGeometry a order /\
    arena.readHeader mem a.blockOffset = some (magic, order)

theorem BuddyGeometry.maxOrder_lt (geometry : BuddyGeometry) : geometry.maxOrder < 2 ^ 32 := by
  have whole : 2 ^ (geometry.minShift + geometry.maxOrder) < 2 ^ 64 :=
    (geometry.maxBlock_eq ▸ geometry.maxBlock_le).trans_lt geometry.arena_lt
  have small := (Nat.pow_lt_pow_iff_right (by decide)).mp whole
  omega

namespace BuddyAllocator

variable {b : BuddyAllocator} {arena : Arena} {mem : Memory}

variable {result : BuddyAllocator × Memory}

theorem freeAt_eq_ok {dataOffset : Nat} (freed : b.freeAt arena mem dataOffset = .ok result) :
    Exists fun order => result = b.release arena mem (dataOffset - allocatorHeaderSize) order := by
  unfold freeAt at freed
  repeat' split at freed
  all_goals cases freed
  exact ⟨_, rfl⟩

theorem freeAllocation_eq_ok {a : Allocation} (freed : b.freeAllocation arena mem a = .ok result) :
    Exists fun order => result = b.release arena mem a.blockOffset order := by
  unfold freeAllocation at freed
  repeat' split at freed
  all_goals cases freed
  exact ⟨_, rfl⟩

end BuddyAllocator

theorem Placed.minBlock_dvd {geometry : BuddyGeometry} {a : Allocation} {order : Nat}
    (placed : Placed geometry a order) : geometry.minBlock ∣ a.blockOffset := by
  have whole : geometry.blockSize 0 ∣ a.blockOffset :=
    (geometry.blockSize_dvd (Nat.zero_le order)).trans placed.aligned
  rw [geometry.blockSize_eq, Nat.add_zero, <- geometry.minBlock_eq] at whole
  exact whole

namespace BuddyInv

variable {b : BuddyAllocator} {arena : Arena} {mem mem' : Memory}
  {outstanding : List Allocation} {a : Allocation}

theorem span_pos (a : Allocation) : 0 < a.span.size :=
  Nat.add_pos_right _ (by decide)

theorem end_le (inv : BuddyInv b arena mem outstanding) (inside : a ∈ outstanding) :
    a.blockOffset + (a.cap + allocatorHeaderSize) <= b.arenaSize := by
  have listed : a.span ∈ outstanding.map Allocation.span := List.mem_map_of_mem inside
  exact inv.carved.tiles.end_le
    (List.mem_append_right _ (List.mem_append_right _ listed)) (span_pos a)

theorem apart (inv : BuddyInv b arena mem outstanding) (inside : a ∈ outstanding)
    {other : Allocation} (rest : other ∈ outstanding.erase a) : a.span.Apart other.span :=
  (inv.carved.take inside).tiles.apart
    (List.mem_append_right _ (List.mem_append_right _ (List.mem_map_of_mem rest)))
    (span_pos a) (span_pos other)

theorem of_agree (inv : BuddyInv b arena mem outstanding)
    (agree : ∀ a ∈ outstanding,
      AgreeOn mem mem' (arena.base + a.blockOffset) allocatorHeaderSize) :
    BuddyInv b arena mem' outstanding := {
  inv with
  live := by
    intro a inside
    rcases inv.live a inside with ⟨order, placed, header⟩
    exact ⟨order, placed, (Arena.readHeader_congr (agree a inside)).trans header⟩ }

variable {size order : Nat} {b' : BuddyAllocator}

/-- A change inside a block that is not outstanding, or in the data of one that
is, touches no header. -/
theorem of_agreeOutside {start : Nat} (inv : BuddyInv b arena mem outstanding)
    (agree : AgreeOutside mem mem' (arena.base + start) size)
    (clear : ∀ a ∈ outstanding, a.blockOffset + allocatorHeaderSize <= start \/
      start + size <= a.blockOffset) :
    BuddyInv b arena mem' outstanding := by
  apply inv.of_agree
  intro a inside
  apply agree.agreeOn
  rcases clear a inside with before | after
  · left
    omega
  · right
    omega

/-- A request the allocator does not refuse outright has an order it can serve. -/
theorem orderFor_le_maxOrder (fits : ¬ size > b.maxBlock - allocatorHeaderSize) :
    b.orderFor (size + allocatorHeaderSize) <= b.maxOrder := by
  have header := b.header_lt_blockSize b.maxOrder
  rw [b.orderFor_le_iff, b.blockSize_maxOrder]
  rw [b.blockSize_maxOrder] at header
  omega

theorem of_carved (inv : BuddyInv b arena mem outstanding)
    (same : b'.toBuddyGeometry = b.toBuddyGeometry)
    (carved : Carved b.toBuddyGeometry b'.free [] outstanding) :
    BuddyInv b' arena mem outstanding where
  arena_len := by
    rw [same]
    exact inv.arena_len
  carved := by
    rw [same]
    exact carved
  live := by
    rw [same]
    exact inv.live

theorem alloc_none (inv : BuddyInv b arena mem outstanding)
    (result : b.alloc arena mem size = (none, b', mem')) :
    b'.toBuddyGeometry = b.toBuddyGeometry /\ BuddyInv b' arena mem' outstanding /\
      mem' = mem := by
  unfold BuddyAllocator.alloc at result
  split at result
  · cases result
    exact ⟨rfl, inv, rfl⟩
  · next accepted =>
    have bounded := orderFor_le_maxOrder (fun large => accepted (Or.inr (Or.inr large)))
    rcases BuddyAllocator.searchOrder_carved inv.carved bounded with ⟨same, carved, _⟩
    have searched := inv.of_carved same carved
    dsimp only at result
    split at result
    · next search =>
      rw [search] at searched same
      cases result
      exact ⟨same, searched, rfl⟩
    · next search =>
      rw [search] at searched same
      split at result
      · cases result
        exact ⟨same, searched, rfl⟩
      · cases result

theorem hand_out {free : Nat -> List Nat} {needsCoalesce : Bool} {offset : Nat}
    (inv : BuddyInv b arena mem outstanding)
    (carved : Carved b.toBuddyGeometry free [⟨offset, b.blockSize order⟩] outstanding)
    (bounded : order <= b.maxOrder) (fits : size + allocatorHeaderSize <= b.blockSize order)
    (aligned : b.blockSize order ∣ offset) :
    let a : Allocation := ⟨offset, offset + allocatorHeaderSize, size,
      b.blockSize order - allocatorHeaderSize⟩
    Placed b.toBuddyGeometry a order /\ a.len = size /\
    BuddyInv ⟨b.toBuddyGeometry, free, needsCoalesce⟩ arena (arena.writeHeader mem offset order)
      (a :: outstanding) /\
    AgreeOutside mem (arena.writeHeader mem offset order) (arena.base + offset)
      allocatorHeaderSize := by
  intro a
  have start : a.blockOffset = offset := rfl
  have header := b.header_lt_blockSize order
  have whole : a.cap + allocatorHeaderSize = b.blockSize order :=
    Nat.sub_add_cancel (Nat.le_of_lt header)
  have spanEq : a.span = ⟨offset, b.blockSize order⟩ := by
    rw [Allocation.span, whole]
  have placed : Placed b.toBuddyGeometry a order := {
    order_le := bounded
    data_eq := rfl
    cap_eq := whole
    len_le := Nat.le_sub_of_add_le fits
    aligned := aligned }
  rw [<- spanEq] at carved
  have written := arena.writeHeader_agreeOutside mem offset order
  have inside : a.blockOffset + (a.cap + allocatorHeaderSize) <= b.arenaSize :=
    carved.tiles.end_le List.mem_cons_self (span_pos a)
  refine ⟨placed, rfl, ⟨inv.arena_len, carved.give, ?_⟩, written⟩
  intro other listed
  rcases List.mem_cons.mp listed with same | before
  · subst same
    refine ⟨order, placed, ?_⟩
    rw [Arena.readHeader_writeHeader mem order (by rw [inv.arena_len]; omega),
      Nat.mod_eq_of_lt (bounded.trans_lt b.maxOrder_lt)]
  · rcases inv.live other before with ⟨otherOrder, otherPlaced, otherHeader⟩
    refine ⟨otherOrder, otherPlaced, (Arena.readHeader_congr (written.agreeOn ?_)).trans otherHeader⟩
    have listed : other.span ∈ outstanding.map Allocation.span := List.mem_map_of_mem before
    have apart : a.span.Apart other.span := carved.tiles.apart
      (List.mem_append_right _ (List.mem_append_right _ listed)) (span_pos a) (span_pos other)
    simp only [Span.Apart, Allocation.span] at apart
    omega

/-- A successful allocation hands out a whole block of the least order that
holds the request, stamps its header and writes nothing else. -/
theorem alloc_some (inv : BuddyInv b arena mem outstanding)
    (result : b.alloc arena mem size = (some a, b', mem')) :
    b'.toBuddyGeometry = b.toBuddyGeometry /\
    Placed b.toBuddyGeometry a (b.orderFor (size + allocatorHeaderSize)) /\ a.len = size /\
    BuddyInv b' arena mem' (a :: outstanding) /\
    AgreeOutside mem mem' (arena.base + a.blockOffset) allocatorHeaderSize := by
  unfold BuddyAllocator.alloc at result
  split at result
  · cases result
  · next accepted =>
    have bounded := orderFor_le_maxOrder (fun large => accepted (Or.inr (Or.inr large)))
    have least := (b.orderFor_le_iff _ _).mp
      (Nat.le_refl (b.orderFor (size + allocatorHeaderSize)))
    rcases BuddyAllocator.searchOrder_carved inv.carved bounded with ⟨same, carved, nonempty⟩
    generalize b.orderFor (size + allocatorHeaderSize) = order at *
    dsimp only at result
    split at result
    · cases result
    · next found searched search =>
      rw [search] at same carved nonempty
      rcases searched with ⟨geometry, free, needsCoalesce⟩
      dsimp only at same carved nonempty
      subst same
      rcases nonempty found rfl with ⟨le, foundBounded, _⟩
      split at result
      · cases result
      · next offset top =>
        rcases carved.pop foundBounded top with ⟨popped, aligned⟩
        rcases BuddyAllocator.splitDown_carved
          (b := ⟨b.toBuddyGeometry, Function.update free found (free found).dropLast,
            needsCoalesce⟩) popped aligned le foundBounded with ⟨sameSplit, split⟩
        generalize BuddyAllocator.splitDown offset order found _ = cut at sameSplit split result
        rcases cut with ⟨geometry, free', needsCoalesce'⟩
        dsimp only at sameSplit split
        subst sameSplit
        cases result
        exact ⟨rfl, inv.hand_out split bounded least ((b.blockSize_dvd le).trans aligned)⟩

theorem liveOrder_eq (placed : Placed b.toBuddyGeometry a order)
    (header : arena.readHeader mem a.blockOffset = some (magic, order)) :
    b.liveOrder arena mem a.blockOffset = .ok order := by
  have mask : a.blockOffset &&& (b.blockSize order - 1) = 0 := by
    rw [b.blockSize_eq, Nat.and_two_pow_sub_one_eq_mod, <- b.blockSize_eq]
    exact Nat.mod_eq_zero_of_dvd placed.aligned
  rw [BuddyAllocator.liveOrder, header]
  dsimp only
  rw [if_neg (fun different => different rfl), if_neg (Nat.not_lt_of_le placed.order_le),
    if_neg (fun different => different mask)]

/-- Releasing an outstanding block puts it on the stack of its order and clears
its magic number. -/
theorem release (inv : BuddyInv b arena mem outstanding) (inside : a ∈ outstanding)
    (placed : Placed b.toBuddyGeometry a order) :
    BuddyInv (b.release arena mem a.blockOffset order).1 arena
        (b.release arena mem a.blockOffset order).2 (outstanding.erase a) /\
      AgreeOutside mem (b.release arena mem a.blockOffset order).2
        (arena.base + a.blockOffset) allocatorHeaderSize := by
  have cleared := arena.clearMagic_agreeOutside mem a.blockOffset
  have taken := inv.carved.take inside
  have spanEq : a.span = ⟨a.blockOffset, b.blockSize order⟩ := by
    rw [Allocation.span, placed.cap_eq]
  rw [spanEq] at taken
  have pushed : BuddyInv (b.release arena mem a.blockOffset order).1 arena mem
      (outstanding.erase a) := {
    arena_len := inv.arena_len
    carved := taken.push placed.order_le placed.aligned
    live := fun other rest => inv.live other (List.mem_of_mem_erase rest) }
  refine ⟨pushed.of_agreeOutside cleared ?_, cleared⟩
  intro other rest
  have apart := inv.apart inside rest
  simp only [Span.Apart, Allocation.span] at apart
  omega

theorem isValidOffset_of_mem (inv : BuddyInv b arena mem outstanding) (inside : a ∈ outstanding) :
    b.isValidOffset a.dataOffset = true := by
  rcases inv.live a inside with ⟨order, placed, _⟩
  have bound := inv.end_le inside
  have start : a.dataOffset - allocatorHeaderSize = a.blockOffset := by
    rw [placed.data_eq, Nat.add_sub_cancel]
  have mask : a.blockOffset &&& (b.minBlock - 1) = 0 := by
    rw [b.minBlock_eq, Nat.and_two_pow_sub_one_eq_mod, <- b.minBlock_eq]
    exact Nat.mod_eq_zero_of_dvd placed.minBlock_dvd
  have positive : 0 < allocatorHeaderSize := by decide
  have data := placed.data_eq
  simp only [BuddyAllocator.isValidOffset, start, mask, Bool.and_eq_true, decide_eq_true_eq,
    beq_self_eq_true, and_true]
  omega

theorem freeAt_ok (inv : BuddyInv b arena mem outstanding) (inside : a ∈ outstanding) :
    Exists fun b' => Exists fun mem' => b.freeAt arena mem a.dataOffset = .ok (b', mem') /\
      b'.toBuddyGeometry = b.toBuddyGeometry /\
      BuddyInv b' arena mem' (outstanding.erase a) /\
      AgreeOutside mem mem' (arena.base + a.blockOffset) allocatorHeaderSize := by
  rcases inv.live a inside with ⟨order, placed, header⟩
  have start : a.dataOffset - allocatorHeaderSize = a.blockOffset := by
    rw [placed.data_eq, Nat.add_sub_cancel]
  refine ⟨(b.release arena mem a.blockOffset order).1, (b.release arena mem a.blockOffset order).2,
    ?_, rfl, inv.release inside placed⟩
  rw [BuddyAllocator.freeAt, if_neg (fun different => different inv.arena_len),
    if_neg (by simp [inv.isValidOffset_of_mem inside]), start, liveOrder_eq placed header]

theorem freeAllocation_ok (inv : BuddyInv b arena mem outstanding) (inside : a ∈ outstanding) :
    Exists fun b' => Exists fun mem' => b.freeAllocation arena mem a = .ok (b', mem') /\
      b'.toBuddyGeometry = b.toBuddyGeometry /\ BuddyInv b' arena mem' (outstanding.erase a) := by
  rcases inv.live a inside with ⟨order, placed, header⟩
  have bound := inv.end_le inside
  have smallest := b.header_lt_blockSize order
  have data := placed.data_eq
  have whole := placed.cap_eq
  have named : ¬ (a.blockOffset ≥ b.arenaSize \/
      a.dataOffset ≠ a.blockOffset + allocatorHeaderSize \/ a.dataOffset ≥ b.arenaSize) := by
    rw [data]
    omega
  refine ⟨(b.release arena mem a.blockOffset order).1, (b.release arena mem a.blockOffset order).2,
    ?_, rfl, (inv.release inside placed).1⟩
  rw [BuddyAllocator.freeAllocation, if_neg (fun different => different inv.arena_len),
    if_neg named, if_neg (Nat.not_lt_of_le placed.len_le),
    b.orderForCapacity_of_blockSize placed.order_le placed.cap_eq]
  dsimp only
  rw [liveOrder_eq placed header]
  dsimp only
  rw [if_neg (fun different => different rfl)]

theorem reset_ok (inv : BuddyInv b arena mem []) :
    Exists fun b' => b.reset arena = .ok b' /\ b'.toBuddyGeometry = b.toBuddyGeometry /\
      forall mem', BuddyInv b' arena mem' [] := by
  refine ⟨{ b with free := b.initialFree, needsCoalesce := false }, ?_, rfl, fun mem' => ?_⟩
  · rw [BuddyAllocator.reset, if_neg (fun different => different inv.arena_len)]
  · exact ⟨inv.arena_len, carved_initialFree b.toBuddyGeometry, fun _ none => by cases none⟩

end BuddyInv

theorem buddyInv_new {arenaSize minBlock maxBlock : UInt64} {b : BuddyAllocator}
    (built : BuddyAllocator.newWithBlockSize arenaSize minBlock maxBlock = .ok b)
    (base : Nat) (mem : Memory) :
    (b.arenaSize = arenaSize.toNat /\ b.minBlock = minBlock.toNat /\
      b.maxBlock = maxBlock.toNat) /\
    BuddyInv b ⟨base, arenaSize.toNat⟩ mem [] := by
  unfold BuddyAllocator.newWithBlockSize at built
  dsimp only at built
  repeat' split at built
  all_goals cases built
  exact ⟨⟨rfl, rfl, rfl⟩, rfl, carved_initialFree _, fun _ none => by cases none⟩

namespace BuddyState

/-- The invariant of an arena in use, with the sizes it was built with. -/
structure Inv (base arenaSize minBlock : Nat) (s : BuddyState) : Prop where
  arena_eq : s.allocator.arenaSize = arenaSize
  min_eq : s.allocator.minBlock = minBlock
  buddy : BuddyInv s.allocator ⟨base, arenaSize⟩ s.mem s.outstanding

namespace Inv

variable {base arenaSize minBlock : Nat} {s t : BuddyState} {a : Allocation}

theorem of_geometry (inv : Inv base arenaSize minBlock s)
    (same : t.allocator.toBuddyGeometry = s.allocator.toBuddyGeometry)
    (buddy : BuddyInv t.allocator ⟨base, arenaSize⟩ t.mem t.outstanding) :
    Inv base arenaSize minBlock t where
  arena_eq := same ▸ inv.arena_eq
  min_eq := same ▸ inv.min_eq
  buddy := buddy

/-- A user's write leaves every header alone: its own lies below the data, and
the other blocks lie elsewhere. -/
theorem write (inv : Inv base arenaSize minBlock s) (held : a ∈ s.outstanding) {index : Nat}
    (bound : index < a.cap) (value : UInt8) :
    BuddyInv s.allocator ⟨base, arenaSize⟩
      (Function.update s.mem (base + a.dataOffset + index) value) s.outstanding := by
  rcases inv.buddy.live a held with ⟨order, placed, _⟩
  have data := placed.data_eq
  have agree : AgreeOutside s.mem (Function.update s.mem (base + a.dataOffset + index) value)
      (base + (a.dataOffset + index)) 1 := by
    intro x outside
    apply Function.update_of_ne
    omega
  refine inv.buddy.of_agreeOutside agree fun other member => ?_
  by_cases same : other = a
  · subst same
    left
    omega
  · have apart := inv.buddy.apart held ((List.mem_erase_of_ne same).mpr member)
    simp only [Span.Apart, Allocation.span] at apart
    omega

theorem step {action : BuddyAction} (inv : Inv base arenaSize minBlock s)
    (moved : s.step ⟨base, arenaSize⟩ action = some t) : Inv base arenaSize minBlock t := by
  cases action with
  | alloc size =>
    simp only [BuddyState.step] at moved
    split at moved
    · next allocator mem result =>
      cases moved
      rcases inv.buddy.alloc_none result with ⟨same, buddy, _⟩
      exact inv.of_geometry same buddy
    · next a allocator mem result =>
      cases moved
      rcases inv.buddy.alloc_some result with ⟨same, _, _, buddy, _⟩
      exact inv.of_geometry same buddy
  | free a =>
    rcases Option.ite_none_right_eq_some.mp moved with ⟨held, result⟩
    rcases inv.buddy.freeAllocation_ok held with ⟨allocator, mem, freed, same, buddy⟩
    rw [freed] at result
    cases result
    exact inv.of_geometry same buddy
  | freeAt a =>
    rcases Option.ite_none_right_eq_some.mp moved with ⟨held, result⟩
    rcases inv.buddy.freeAt_ok held with ⟨allocator, mem, freed, same, buddy, _⟩
    rw [freed] at result
    cases result
    exact inv.of_geometry same buddy
  | reset =>
    rcases Option.ite_none_right_eq_some.mp moved with ⟨empty, result⟩
    have vacant := inv.buddy
    rw [empty] at vacant
    rcases vacant.reset_ok with ⟨allocator, done, same, buddy⟩
    rw [done] at result
    cases result
    refine inv.of_geometry same ?_
    rw [empty]
    exact buddy s.mem
  | write a index value =>
    simp only [BuddyState.step, Option.ite_none_right_eq_some, Option.some.injEq] at moved
    rcases moved with ⟨⟨held, bound⟩, result⟩
    cases result
    exact inv.of_geometry rfl (inv.write held bound value)

end Inv

theorem inv_of_reachable {base : Nat} {arenaSize minBlock maxBlock : UInt64} {s : BuddyState}
    (reachable : (buddySystem base arenaSize minBlock maxBlock).Reachable s) :
    Inv base arenaSize.toNat minBlock.toNat s := by
  refine reachable.invariant ?_ (fun _ _ _ _ _ moved inv => inv.step moved)
  rintro start ⟨built, empty⟩
  rcases buddyInv_new built base start.mem with ⟨⟨arenaEq, minEq, _⟩, buddy⟩
  exact ⟨arenaEq, minEq, empty ▸ buddy⟩

end BuddyState

/-- In every state of an arena in use the free and the outstanding blocks tile
the arena, every block is aligned to its size, and every outstanding block's
header carries the magic number and its order.  What `alloc` hands out is the
smallest block that holds the request and the header. -/
theorem buddy_partition {base : Nat} {arenaSize minBlock maxBlock : UInt64} {s : BuddyState}
    (reachable : (buddySystem base arenaSize minBlock maxBlock).Reachable s) :
    Tiles (s.allocator.freeSpans s.allocator.free (s.allocator.maxOrder + 1) ++
      s.outstanding.map Allocation.span) arenaSize.toNat /\
    (forall order, ∀ offset ∈ s.allocator.free order, minBlock.toNat <<< order ∣ offset) /\
    (∀ a ∈ s.outstanding, Exists fun order => order <= s.allocator.maxOrder /\
      a.span = ⟨a.blockOffset, minBlock.toNat <<< order⟩ /\
      minBlock.toNat <<< order ∣ a.blockOffset /\
      Arena.readHeader ⟨base, arenaSize.toNat⟩ s.mem a.blockOffset = some (magic, order)) /\
    forall size a allocator mem,
      s.allocator.alloc ⟨base, arenaSize.toNat⟩ s.mem size = (some a, allocator, mem) ->
      a.len = size /\ a.dataOffset = a.blockOffset + 8 /\
      Exists fun order => a.cap = (minBlock.toNat <<< order) - 8 /\
        size + 8 <= minBlock.toNat <<< order /\
        forall smaller, size + 8 <= minBlock.toNat <<< smaller -> order <= smaller := by
  have inv := BuddyState.inv_of_reachable reachable
  have sizes : forall order, s.allocator.blockSize order = minBlock.toNat <<< order :=
    fun order => by rw [BuddyGeometry.blockSize, inv.min_eq]
  have buddy := inv.buddy
  refine ⟨?_, ?_, ?_, ?_⟩
  · rw [<- inv.arena_eq]
    exact buddy.carved.tiles
  · intro order offset member
    rw [<- sizes]
    exact buddy.carved.aligned order offset member
  · intro a held
    rcases buddy.live a held with ⟨order, placed, header⟩
    refine ⟨order, placed.order_le, ?_, ?_, header⟩
    · rw [Allocation.span, placed.cap_eq, sizes]
    · rw [<- sizes]
      exact placed.aligned
  · intro size a allocator mem result
    rcases buddy.alloc_some result with ⟨_, placed, len, _, _⟩
    refine ⟨len, placed.data_eq, s.allocator.orderFor (size + allocatorHeaderSize), ?_, ?_, ?_⟩
    · rw [<- sizes, <- placed.cap_eq]
      rfl
    · rw [<- sizes]
      exact (s.allocator.orderFor_le_iff _ _).mp (Nat.le_refl _)
    · intro smaller fits
      rw [<- sizes] at fits
      exact (s.allocator.orderFor_le_iff _ _).mpr fits

/-- Four blocks' worth of arena after a split, a write into the first block, a
free by offset and a request that the freed block does not fit. -/
theorem buddy_partition_after_split :
    Exists fun s => (buddySystem 0 64 16 64).Reachable s /\
      s.outstanding.map Allocation.span = [⟨32, 32⟩, ⟨16, 16⟩] /\ s.allocator.free 0 = [0] /\
      Tiles (s.allocator.freeSpans s.allocator.free (s.allocator.maxOrder + 1) ++
        s.outstanding.map Allocation.span) 64 := by
  have found : Exists fun s => (buddySystem 0 64 16 64).Reachable s /\
      (s.outstanding.map Allocation.span = [⟨32, 32⟩, ⟨16, 16⟩] /\ s.allocator.free 0 = [0]) :=
    System.exists_reachable_of_run
      ⟨(BuddyAllocator.newWithBlockSize 64 16 64).toOption.get (by decide), fun _ => 0, []⟩
      [.alloc 8, .alloc 5, .write ⟨0, 8, 8, 8⟩ 7 255, .freeAt ⟨0, 8, 8, 8⟩, .alloc 20]
      ⟨rfl, rfl⟩ (by decide +kernel)
  rcases found with ⟨s, reachable, shape, free⟩
  exact ⟨s, reachable, shape, free, (buddy_partition reachable).1⟩

end V5
end Shmipc
