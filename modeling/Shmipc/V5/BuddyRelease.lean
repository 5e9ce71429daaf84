import Shmipc.V5.BuddySafety

namespace Shmipc
namespace V5

open ByteMemory Tiling Transition

/-!
# Releases by offset

A peer names the block it gives back by the offset of its data, and nothing but
the header in front of that offset says whether the block is live.  The header
of a block is out of its holder's reach, but a block of a larger order contains
further block boundaries, and the bytes there are payload.  A holder that writes
the magic number and a small order at such a boundary makes `free_at` accept it.

If no payload spells an acceptable header at a block boundary, and the arena
held none to begin with, a release succeeds exactly for the live blocks.
-/

/-- What the holders of blocks and the peer do to an arena: any offset may be
presented for release. -/
inductive ReleaseAction
  | alloc (size : Nat)
  | freeAt (dataOffset : Nat)
  | write (allocation : Allocation) (index : Nat) (value : UInt8)
  deriving DecidableEq

namespace BuddyState

def releaseStep (arena : Arena) (s : BuddyState) : ReleaseAction -> Option BuddyState
  | .alloc size => s.step arena (.alloc size)
  | .freeAt dataOffset =>
    match s.allocator.freeAt arena s.mem dataOffset with
    | .error _ => some s
    | .ok (allocator, mem) =>
      some { allocator := allocator, mem := mem, outstanding := forget s.outstanding dataOffset }
  | .write a index value => s.step arena (.write a index value)

end BuddyState

/-- An arena of `arenaSize` bytes at `base` that holds `initial` when the
allocator is built. -/
def releaseSystem (base : Nat) (arenaSize minBlock maxBlock : UInt64) (initial : Memory) :
    System BuddyState ReleaseAction where
  init s := BuddyAllocator.newWithBlockSize arenaSize minBlock maxBlock = .ok s.allocator /\
    s.mem = initial /\ s.outstanding = []
  step := BuddyState.releaseStep ⟨base, arenaSize.toNat⟩

namespace BuddyAllocator

/-- The bytes at an offset are a header that `live_order` accepts. -/
def accepts (b : BuddyAllocator) (arena : Arena) (mem : Memory) (blockOffset : Nat) : Bool :=
  (b.liveOrder arena mem blockOffset).isOk

/-- No block boundary strictly inside the block looks like the header of a live
block. -/
def unforged (b : BuddyAllocator) (arena : Arena) (mem : Memory) (a : Allocation) : Bool :=
  (List.range ((a.cap + allocatorHeaderSize) / b.minBlock)).all
    (fun k => k == 0 || !b.accepts arena mem (a.blockOffset + k * b.minBlock))

end BuddyAllocator

/-- The memory a write leaves has no forged header inside the written block. -/
def BuddyState.honestWrite (arena : Arena) (s : BuddyState) : ReleaseAction -> Bool
  | .write a index value =>
    s.allocator.unforged arena (Function.update s.mem (arena.base + a.dataOffset + index) value) a
  | _ => true

/-! ## Boundaries -/

namespace BuddyAllocator

variable {b : BuddyAllocator} {arena : Arena} {mem mem' : Memory} {o : Nat}

/-- What `live_order` says depends on the sizes and the eight bytes it reads. -/
theorem accepts_congr {b' : BuddyAllocator} (same : b'.toBuddyGeometry = b.toBuddyGeometry)
    (agree : AgreeOn mem mem' (arena.base + o) allocatorHeaderSize) :
    b'.accepts arena mem' o = b.accepts arena mem o := by
  rw [accepts, accepts, liveOrder, liveOrder, Arena.readHeader_congr agree, same]

theorem accepts_clearMagic (mem : Memory) (inside : o + allocatorHeaderSize <= arena.len) :
    b.accepts arena (arena.clearMagic mem o) o = false := by
  have cleared : readWord (arena.clearMagic mem o) (arena.base + o) magicSize = 0 :=
    readWord_writeWord_of_lt _ _ (by decide)
  rw [accepts, liveOrder, Arena.readHeader, if_pos inside, cleared]
  rfl

theorem freeAt_isOk_iff {dataOffset : Nat} (len : arena.len = b.arenaSize) :
    (Exists fun result => b.freeAt arena mem dataOffset = .ok result) <->
      b.isValidOffset dataOffset = true /\
        b.accepts arena mem (dataOffset - allocatorHeaderSize) = true := by
  rw [freeAt, if_neg (fun different => different len), accepts]
  cases valid : b.isValidOffset dataOffset with
  | false => simp
  | true =>
    cases header : b.liveOrder arena mem (dataOffset - allocatorHeaderSize) with
    | error err | ok order => simp [Except.isOk, Except.toBool]

theorem dvd_of_isValidOffset {dataOffset : Nat} (valid : b.isValidOffset dataOffset = true) :
    allocatorHeaderSize <= dataOffset /\ dataOffset - allocatorHeaderSize < b.arenaSize /\
      b.minBlock ∣ dataOffset - allocatorHeaderSize := by
  simp only [isValidOffset, Bool.and_eq_true, decide_eq_true_eq, beq_iff_eq] at valid
  rcases valid with ⟨⟨lower, upper⟩, mask⟩
  refine ⟨lower, upper, ?_⟩
  rw [b.minBlock_eq, Nat.and_two_pow_sub_one_eq_mod] at mask
  rw [b.minBlock_eq]
  exact Nat.dvd_of_mod_eq_zero mask

end BuddyAllocator

namespace BuddyState

variable {base arenaSize minBlock : Nat} {s t : BuddyState} {a : Allocation}

theorem header_apart {unit o o' : Nat} (long : allocatorHeaderSize < unit) (first : unit ∣ o)
    (second : unit ∣ o') (different : o ≠ o') :
    o + allocatorHeaderSize <= o' \/ o' + allocatorHeaderSize <= o := by
  rcases Nat.lt_or_gt_of_ne different with less | greater
  · have far := Nat.le_of_dvd (Nat.sub_pos_of_lt less) (Nat.dvd_sub second first)
    omega
  · have far := Nat.le_of_dvd (Nat.sub_pos_of_lt greater) (Nat.dvd_sub first second)
    omega

/-- The invariant of an arena without forged headers: only the boundaries where
an outstanding block starts are accepted. -/
structure Unmarked (base arenaSize minBlock : Nat) (s : BuddyState) : Prop where
  inv : Inv base arenaSize minBlock s
  rejects : forall o, o < arenaSize -> minBlock ∣ o ->
    (∀ a ∈ s.outstanding, a.blockOffset ≠ o) ->
    s.allocator.accepts ⟨base, arenaSize⟩ s.mem o = false

namespace Unmarked

theorem placed (unmarked : Unmarked base arenaSize minBlock s) (held : a ∈ s.outstanding) :
    a.dataOffset = a.blockOffset + allocatorHeaderSize /\ minBlock ∣ a.blockOffset /\
      minBlock ∣ a.cap + allocatorHeaderSize := by
  rcases unmarked.inv.buddy.live a held with ⟨order, placed, _⟩
  have unit := unmarked.inv.min_eq
  have whole : s.allocator.blockSize 0 = minBlock := by
    rw [BuddyGeometry.blockSize_eq, Nat.add_zero, <- s.allocator.minBlock_eq, unit]
  refine ⟨placed.data_eq, unit ▸ placed.minBlock_dvd, ?_⟩
  rw [placed.cap_eq, <- whole]
  exact s.allocator.blockSize_dvd (Nat.zero_le order)

theorem header_lt (unmarked : Unmarked base arenaSize minBlock s) :
    allocatorHeaderSize < minBlock :=
  unmarked.inv.min_eq ▸ s.allocator.header_lt

theorem freeAt_isOk_iff (unmarked : Unmarked base arenaSize minBlock s) (dataOffset : Nat) :
    (Exists fun result => s.allocator.freeAt ⟨base, arenaSize⟩ s.mem dataOffset = .ok result) <->
      ∃ a ∈ s.outstanding, a.dataOffset = dataOffset := by
  have len := unmarked.inv.buddy.arena_len
  constructor
  · intro freed
    rcases (BuddyAllocator.freeAt_isOk_iff len).mp freed with ⟨valid, accepted⟩
    rcases BuddyAllocator.dvd_of_isValidOffset valid with ⟨lower, inside, aligned⟩
    by_contra dead
    have foreign : ∀ a ∈ s.outstanding, a.blockOffset ≠ dataOffset - allocatorHeaderSize := by
      intro a held same
      have data := (unmarked.placed held).1
      exact dead ⟨a, held, by omega⟩
    rw [unmarked.rejects _ (unmarked.inv.arena_eq ▸ inside) (unmarked.inv.min_eq ▸ aligned)
      foreign] at accepted
    cases accepted
  · rintro ⟨a, held, rfl⟩
    rcases unmarked.inv.buddy.freeAt_ok held with ⟨allocator, mem, freed, _⟩
    exact ⟨_, freed⟩

/-- A change confined to the header of one boundary leaves the others as they
are. -/
theorem of_header {o : Nat} (unmarked : Unmarked base arenaSize minBlock s)
    (inv : Inv base arenaSize minBlock t)
    (same : t.allocator.toBuddyGeometry = s.allocator.toBuddyGeometry) (aligned : minBlock ∣ o)
    (agree : AgreeOutside s.mem t.mem (base + o) allocatorHeaderSize)
    (kept : ∀ a ∈ s.outstanding, a.blockOffset ≠ o -> a ∈ t.outstanding)
    (here : (∀ a ∈ t.outstanding, a.blockOffset ≠ o) ->
      t.allocator.accepts ⟨base, arenaSize⟩ t.mem o = false) :
    Unmarked base arenaSize minBlock t where
  inv := inv
  rejects := by
    intro o' inside boundary foreign
    by_cases equal : o' = o
    · subst equal
      exact here foreign
    · have apart := header_apart unmarked.header_lt boundary aligned equal
      have agreeHere : AgreeOn s.mem t.mem (base + o') allocatorHeaderSize :=
        agree.agreeOn (by omega)
      rw [BuddyAllocator.accepts_congr same agreeHere]
      apply unmarked.rejects o' inside boundary
      intro a held start
      exact foreign a (kept a held (fun other => equal (start.symm.trans other))) start

theorem alloc {size : Nat} (unmarked : Unmarked base arenaSize minBlock s)
    (moved : s.step ⟨base, arenaSize⟩ (.alloc size) = some t) :
    Unmarked base arenaSize minBlock t := by
  have inv := unmarked.inv.step moved
  simp only [BuddyState.step] at moved
  split at moved
  · next allocator mem result =>
    cases moved
    rcases unmarked.inv.buddy.alloc_none result with ⟨same, _, rfl⟩
    refine ⟨inv, fun o inside boundary foreign => ?_⟩
    rw [BuddyAllocator.accepts_congr same (fun _ _ _ => rfl)]
    exact unmarked.rejects o inside boundary foreign
  · next a allocator mem result =>
    cases moved
    rcases unmarked.inv.buddy.alloc_some result with ⟨same, placed, _, _, agree⟩
    refine unmarked.of_header inv same (unmarked.inv.min_eq ▸ placed.minBlock_dvd) agree
      (fun other held _ => List.mem_cons_of_mem _ held) ?_
    intro foreign
    exact absurd rfl (foreign a List.mem_cons_self)

theorem freeAt {dataOffset : Nat} (unmarked : Unmarked base arenaSize minBlock s)
    (moved : s.releaseStep ⟨base, arenaSize⟩ (.freeAt dataOffset) = some t) :
    Unmarked base arenaSize minBlock t := by
  simp only [releaseStep] at moved
  split at moved
  · cases moved
    exact unmarked
  · next allocator mem result =>
    cases moved
    rcases (unmarked.freeAt_isOk_iff dataOffset).mp ⟨_, result⟩ with ⟨live, held, data⟩
    -- the block the ghost record forgets is the one that was released
    rcases exists_forget_eq_erase held with ⟨a, member, offset, remaining⟩
    rcases offset.trans data with rfl
    rcases unmarked.inv.buddy.freeAt_ok member with ⟨allocator', mem', freed, same, buddy, agree⟩
    rw [result] at freed
    cases freed
    rcases BuddyAllocator.freeAt_eq_ok result with ⟨order, released⟩
    rw [<- data, remaining]
    rcases unmarked.placed member with ⟨start, boundary, _⟩
    refine unmarked.of_header (unmarked.inv.of_geometry same buddy) same boundary agree ?_ ?_
    · intro other held different
      exact (List.mem_erase_of_ne (fun equal => different (by rw [equal]))).mpr held
    · intro _
      have inside := unmarked.inv.buddy.end_le member
      have len := unmarked.inv.arena_eq
      have cleared : mem = Arena.clearMagic ⟨base, arenaSize⟩ s.mem a.blockOffset := by
        have equal := congrArg Prod.snd released
        rwa [start, Nat.add_sub_cancel] at equal
      change BuddyAllocator.accepts allocator ⟨base, arenaSize⟩ mem a.blockOffset = false
      rw [cleared]
      exact BuddyAllocator.accepts_clearMagic _ (by simp only; omega)

/-- A write changes headers only at boundaries inside the written block, and the
guard says that none of those is accepted. -/
theorem write {index : Nat} {value : UInt8} (unmarked : Unmarked base arenaSize minBlock s)
    (honest : s.honestWrite ⟨base, arenaSize⟩ (.write a index value) = true)
    (moved : s.step ⟨base, arenaSize⟩ (.write a index value) = some t) :
    Unmarked base arenaSize minBlock t := by
  have inv := unmarked.inv.step moved
  rcases of_guarded moved with ⟨⟨held, bound⟩, rfl⟩
  rcases unmarked.placed held with ⟨data, boundary, whole⟩
  refine ⟨inv, fun o inside aligned foreign => ?_⟩
  have elsewhere := foreign a held
  by_cases within : a.blockOffset < o /\ o < a.blockOffset + (a.cap + allocatorHeaderSize)
  · rcases Nat.dvd_sub aligned boundary with ⟨k, distance⟩
    simp only [honestWrite, BuddyAllocator.unforged, List.all_eq_true, List.mem_range] at honest
    have positive : 0 < minBlock := Nat.zero_lt_of_lt unmarked.header_lt
    have few : k < (a.cap + allocatorHeaderSize) / s.allocator.minBlock := by
      rw [unmarked.inv.min_eq]
      rcases whole with ⟨blocks, size⟩
      rw [size, Nat.mul_div_cancel_left _ positive]
      rw [size] at within
      exact Nat.lt_of_mul_lt_mul_left (a := minBlock) (by omega)
    have nonzero : k ≠ 0 := by
      intro zero
      subst zero
      omega
    have spot : a.blockOffset + k * s.allocator.minBlock = o := by
      rw [unmarked.inv.min_eq, Nat.mul_comm]
      omega
    have verdict := honest k few
    rw [spot] at verdict
    simpa [nonzero] using verdict
  · have agree : AgreeOn s.mem (Function.update s.mem (base + a.dataOffset + index) value)
        (base + o) allocatorHeaderSize := by
      intro x lower upper
      apply Function.update_of_ne
      intro same
      have below : o < a.blockOffset -> o + minBlock <= a.blockOffset := by
        intro less
        have far := Nat.le_of_dvd (Nat.sub_pos_of_lt less) (Nat.dvd_sub boundary aligned)
        omega
      have long := unmarked.header_lt
      omega
    rw [BuddyAllocator.accepts_congr rfl agree]
    exact unmarked.rejects o inside aligned foreign

theorem step {action : ReleaseAction} (unmarked : Unmarked base arenaSize minBlock s)
    (honest : s.honestWrite ⟨base, arenaSize⟩ action = true)
    (moved : s.releaseStep ⟨base, arenaSize⟩ action = some t) :
    Unmarked base arenaSize minBlock t := by
  cases action with
  | alloc size => exact unmarked.alloc moved
  | freeAt dataOffset => exact unmarked.freeAt moved
  | write a index value => exact unmarked.write honest moved

end Unmarked

/-- No block boundary of the arena is accepted before the first allocation.
Zeroed memory is such an arena. -/
def Fresh (base : Nat) (arenaSize minBlock maxBlock : UInt64) (initial : Memory) : Prop :=
  forall b, BuddyAllocator.newWithBlockSize arenaSize minBlock maxBlock = .ok b ->
    forall o, o < arenaSize.toNat -> minBlock.toNat ∣ o ->
      b.accepts ⟨base, arenaSize.toNat⟩ initial o = false

theorem fresh_zeroed (base : Nat) (arenaSize minBlock maxBlock : UInt64) :
    Fresh base arenaSize minBlock maxBlock (fun _ => 0) := by
  intro b built o _ _
  rw [BuddyAllocator.accepts, BuddyAllocator.liveOrder, Arena.readHeader]
  have zero : readWord (fun _ => 0) (base + o) magicSize = 0 :=
    readWord_eq_zero fun _ _ _ => rfl
  split_ifs
  · rw [zero]
    rfl
  · rfl

theorem unmarked_of_reachable {base : Nat} {arenaSize minBlock maxBlock : UInt64}
    {initial : Memory} {s : BuddyState} (fresh : Fresh base arenaSize minBlock maxBlock initial)
    (reachable : (releaseSystem base arenaSize minBlock maxBlock initial).ReachableUnder
      (fun s action => s.honestWrite ⟨base, arenaSize.toNat⟩ action = true) s) :
    Unmarked base arenaSize.toNat minBlock.toNat s := by
  refine reachable.invariant ?_ (fun _ _ _ _ honest moved unmarked => unmarked.step honest moved)
  rintro start ⟨built, rfl, empty⟩
  rcases buddyInv_new built base start.mem with ⟨⟨arenaEq, minEq, _⟩, buddy⟩
  exact ⟨⟨arenaEq, minEq, empty ▸ buddy⟩, fun o inside boundary _ =>
    fresh start.allocator built o inside boundary⟩

end BuddyState

/-- In an arena that starts without headers and whose holders never write one at
a block boundary, `free_at` succeeds exactly for the outstanding blocks.  Every
other offset is refused without an effect, and what is allocated overlaps
nothing outstanding. -/
theorem freeAt_only_live {base : Nat} {arenaSize minBlock maxBlock : UInt64} {initial : Memory}
    {s : BuddyState} (fresh : BuddyState.Fresh base arenaSize minBlock maxBlock initial)
    (reachable : (releaseSystem base arenaSize minBlock maxBlock initial).ReachableUnder
      (fun s action => s.honestWrite ⟨base, arenaSize.toNat⟩ action = true) s) :
    (forall d, (Exists fun result =>
        s.allocator.freeAt ⟨base, arenaSize.toNat⟩ s.mem d = .ok result) <->
      ∃ a ∈ s.outstanding, a.dataOffset = d) /\
    (forall d, (∀ a ∈ s.outstanding, a.dataOffset ≠ d) ->
      (Exists fun err => s.allocator.freeAt ⟨base, arenaSize.toNat⟩ s.mem d = .error err) /\
      s.releaseStep ⟨base, arenaSize.toNat⟩ (.freeAt d) = some s) /\
    forall size a allocator mem,
      s.allocator.alloc ⟨base, arenaSize.toNat⟩ s.mem size = (some a, allocator, mem) ->
      ∀ other ∈ s.outstanding, a.span.Apart other.span := by
  have unmarked := BuddyState.unmarked_of_reachable fresh reachable
  refine ⟨unmarked.freeAt_isOk_iff, ?_, ?_⟩
  · intro d dead
    have refused : Exists fun err =>
        s.allocator.freeAt ⟨base, arenaSize.toNat⟩ s.mem d = .error err := by
      cases result : s.allocator.freeAt ⟨base, arenaSize.toNat⟩ s.mem d with
      | error err => exact ⟨err, rfl⟩
      | ok pair =>
        rcases (unmarked.freeAt_isOk_iff d).mp ⟨pair, result⟩ with ⟨a, held, data⟩
        exact absurd data (dead a held)
    rcases refused with ⟨err, result⟩
    refine ⟨⟨err, result⟩, ?_⟩
    rw [BuddyState.releaseStep, result]
  · intro size a allocator mem result other held
    rcases unmarked.inv.buddy.alloc_some result with ⟨_, _, _, buddy, _⟩
    have later : other ∈ (a :: s.outstanding).erase a := by
      rw [List.erase_cons_head]
      exact held
    exact buddy.apart List.mem_cons_self later

/-- A block of two units whose payload stays clear of the boundary inside it: the
boundary cannot be released, the block itself can. -/
theorem freeAt_only_live_two_units :
    Exists fun s => (releaseSystem 0 64 16 64 (fun _ => 0)).ReachableUnder
        (fun s action => s.honestWrite ⟨0, 64⟩ action = true) s /\
      s.outstanding.map Allocation.dataOffset = [8] /\
      (Exists fun result => s.allocator.freeAt ⟨0, 64⟩ s.mem 8 = .ok result) /\
      Exists fun err => s.allocator.freeAt ⟨0, 64⟩ s.mem 24 = .error err := by
  have found : Exists fun s => (releaseSystem 0 64 16 64 (fun _ => 0)).ReachableUnder
        (fun s action => s.honestWrite ⟨0, 64⟩ action = true) s /\
      s.outstanding = [⟨0, 8, 20, 24⟩] :=
    System.exists_reachable_of_run
      ⟨(BuddyAllocator.newWithBlockSize 64 16 64).toOption.get (by decide), fun _ => 0, []⟩
      [.alloc 20, .freeAt 24, .write ⟨0, 8, 20, 24⟩ 8 0x0D, .write ⟨0, 8, 20, 24⟩ 0 255]
      ⟨rfl, rfl, rfl⟩ (by decide +kernel)
  rcases found with ⟨s, reachable, held⟩
  have facts := freeAt_only_live (BuddyState.fresh_zeroed 0 64 16 64) reachable
  refine ⟨s, reachable, by rw [held]; rfl, ?_, ?_⟩
  · exact (facts.1 8).mpr (by rw [held]; exact ⟨_, List.mem_cons_self, rfl⟩)
  · exact (facts.2.1 24 (by rw [held]; decide)).1

/-- The payload of a block of two units spells a live header at the boundary
inside it.  `free_at` accepts the offset behind that boundary, and the next
allocation lies inside the block that is still held. -/
theorem freeAt_accepts_payload :
    Exists fun s => (releaseSystem 0 64 16 64 (fun _ => 0)).Reachable s /\
      s.outstanding = [⟨0, 8, 20, 24⟩] /\
      (s.allocator.freeAt ⟨0, 64⟩ s.mem 24).isOk = true /\
      (((releaseSystem 0 64 16 64 (fun _ => 0)).run (fun _ _ => True) s
          [.freeAt 24, .alloc 8]).any
        (fun t => t.outstanding = [⟨16, 24, 8, 8⟩, ⟨0, 8, 20, 24⟩])) = true :=
  System.exists_reachable_of_run
    ⟨(BuddyAllocator.newWithBlockSize 64 16 64).toOption.get (by decide), fun _ => 0, []⟩
    [.alloc 20, .write ⟨0, 8, 20, 24⟩ 8 0x0D, .write ⟨0, 8, 20, 24⟩ 9 0xF0,
      .write ⟨0, 8, 20, 24⟩ 10 0xAD, .write ⟨0, 8, 20, 24⟩ 11 0x0B]
    ⟨rfl, rfl, rfl⟩ (by decide +kernel)

end V5
end Shmipc
