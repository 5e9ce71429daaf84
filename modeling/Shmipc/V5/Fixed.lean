import Mathlib.Data.List.Nodup
import Shmipc.V5.Allocator

namespace Shmipc
namespace V5

open ByteMemory Tiling

/-!
# The fixed-size allocator

The alternative to the buddy allocator splits the arena once into three areas
of equally sized blocks.  A request is served from the smallest class that
holds it and still has a free block.  A block is found again from the offset of
its data by asking which area the offset lies in.
-/

/-- A size class of a configuration with its share of the arena. -/
structure SizePercentPair where
  size : Nat
  percent : Nat
  deriving DecidableEq

/-- The three classes, in ascending order of their blocks. -/
inductive SizeClass
  | small
  | medium
  | large
  deriving DecidableEq

/-- One entry a class. -/
def SizeClass.table (small medium large : Nat) : SizeClass -> Nat
  | .small => small
  | .medium => medium
  | .large => large

structure FixedAllocator where
  arenaSize : Nat
  sizes : SizeClass -> Nat
  usable : SizeClass -> Nat
  freeLists : SizeClass -> List Nat
  starts : SizeClass -> Nat
  counts : SizeClass -> Nat

namespace FixedAllocator

/-- Put every block of every class back on its free list. -/
def initializeFreeLists (f : FixedAllocator) : FixedAllocator :=
  { f with
    freeLists := fun c => (List.range (f.counts c)).map fun index =>
      f.starts c + index * f.sizes c }

/-- Lay the class areas out over the arena back to back. -/
def build (arenaLen small medium large smallPercent mediumPercent : Nat) :
    Except RegionError FixedAllocator :=
  if small <= allocatorHeaderSize \/ medium <= allocatorHeaderSize \/ large <= allocatorHeaderSize then
    .error .blockTooSmallForHeader
  else if medium < small \/ large < medium then .error .invalidBlockSizeOrder
  else
    let smallRegion := arenaLen * smallPercent / 100 / small * small
    let mediumRegion := arenaLen * mediumPercent / 100 / medium * medium
    let remaining := arenaLen - smallRegion - mediumRegion
    let largeRegion := remaining / large * large
    if smallRegion = 0 \/ mediumRegion = 0 \/ largeRegion = 0 then .error .invalidArenaSize
    else
      let allocator : FixedAllocator := {
        arenaSize := arenaLen
        sizes := SizeClass.table small medium large
        usable := SizeClass.table (small - allocatorHeaderSize) (medium - allocatorHeaderSize)
          (large - allocatorHeaderSize)
        freeLists := fun _ => []
        starts := SizeClass.table 0 smallRegion (smallRegion + mediumRegion)
        counts := SizeClass.table (smallRegion / small) (mediumRegion / medium) (largeRegion / large) }
      .ok allocator.initializeFreeLists

/-- Build an allocator from exactly three classes that share out the arena. -/
def newFromConfig (arenaLen : Nat) (classes : List SizePercentPair) :
    Except RegionError FixedAllocator :=
  match classes with
  | [small, medium, large] =>
    if small.percent + medium.percent + large.percent ≠ 100 then
      .error .invalidSizeClassConfiguration
    else build arenaLen small.size medium.size large.size small.percent medium.percent
  | _ => .error .invalidSizeClassConfiguration

/-- Take a block off the first of the given classes that has one. -/
def allocFromClasses (f : FixedAllocator) : List (SizeClass) -> Option (SizeClass × Nat × FixedAllocator)
  | [] => none
  | c :: rest =>
    match (f.freeLists c).getLast? with
    | none => f.allocFromClasses rest
    | some offset =>
      some (c, offset,
        { f with freeLists := Function.update f.freeLists c (f.freeLists c).dropLast })

/-- The classes that hold a request, smallest first. -/
def classesFor (f : FixedAllocator) (size : Nat) : List (SizeClass) :=
  if size <= f.usable .small then [.small, .medium, .large]
  else if size <= f.usable .medium then [.medium, .large]
  else if size <= f.usable .large then [.large]
  else []

/-- Hand out a block of the smallest suitable class and stamp its header. -/
def alloc (f : FixedAllocator) (arena : Arena) (mem : Memory) (size : Nat) :
    Option Allocation × FixedAllocator × Memory :=
  if arena.len ≠ f.arenaSize \/ size = 0 then (none, f, mem)
  else
    match f.allocFromClasses (f.classesFor size) with
    | none => (none, f, mem)
    | some (c, blockOffset, f) =>
      (some {
        blockOffset := blockOffset
        dataOffset := blockOffset + allocatorHeaderSize
        len := size
        cap := f.usable c },
      f, arena.writeHeader mem blockOffset size)

/-- Largest request the arena can ever serve. -/
def maxAllocation (f : FixedAllocator) : Nat :=
  f.usable .large

/-- The class whose area a block offset lies in, unless it points into a block. -/
def classForOffset (f : FixedAllocator) (offset : Nat) : Option (SizeClass) :=
  match [.large, .medium, .small].find? fun c : SizeClass =>
      f.starts c <= offset /\ offset < f.starts c + f.counts c * f.sizes c with
  | none => none
  | some c => if (offset - f.starts c) % f.sizes c = 0 then some c else none

def isValidOffset (f : FixedAllocator) (dataOffset : Nat) : Bool :=
  allocatorHeaderSize <= dataOffset /\ (f.classForOffset (dataOffset - allocatorHeaderSize)).isSome

/-- Return a block named by the offset of its data. -/
def freeAt (f : FixedAllocator) (arena : Arena) (mem : Memory) (dataOffset : Nat) :
    Except RegionError (FixedAllocator × Memory) :=
  if arena.len ≠ f.arenaSize then .error .invalidArenaSize
  else if dataOffset < allocatorHeaderSize then .error .invalidOffset
  else
    let blockOffset := dataOffset - allocatorHeaderSize
    match f.classForOffset blockOffset with
    | none => .error .invalidOffset
    | some c =>
      match arena.readHeader mem blockOffset with
      | none => .error .invalidOffset
      | some (marker, _) =>
        if marker ≠ magic then .error .notAllocated
        else
          .ok ({ f with
            freeLists := Function.update f.freeLists c (f.freeLists c ++ [blockOffset]) },
            arena.clearMagic mem blockOffset)

/-- Hand the whole arena back; the arena itself is not written. -/
def reset (f : FixedAllocator) (arena : Arena) : Except RegionError FixedAllocator :=
  if arena.len ≠ f.arenaSize then .error .invalidArenaSize else .ok f.initializeFreeLists

end FixedAllocator

/-! ## Where the blocks lie -/

/-- What building an allocator establishes about its areas. -/
structure FixedLayout (f : FixedAllocator) : Prop where
  header_lt : forall c, allocatorHeaderSize < f.sizes c
  usable_eq : forall c, f.usable c = f.sizes c - allocatorHeaderSize
  ascending : f.usable .small <= f.usable .medium /\ f.usable .medium <= f.usable .large
  first : f.starts .small + f.counts .small * f.sizes .small <= f.starts .medium
  second : f.starts .medium + f.counts .medium * f.sizes .medium <= f.starts .large
  third : f.starts .large + f.counts .large * f.sizes .large <= f.arenaSize

namespace FixedAllocator

/-- The offset of a whole block of a class. -/
def IsBlock (f : FixedAllocator) (c : SizeClass) (offset : Nat) : Prop :=
  Exists fun index => index < f.counts c /\ offset = f.starts c + index * f.sizes c

variable {f : FixedAllocator} {c c' : SizeClass} {offset offset' : Nat}

theorem mem_initializeFreeLists :
    offset ∈ f.initializeFreeLists.freeLists c <-> f.IsBlock c offset := by
  simp only [initializeFreeLists, List.mem_map, List.mem_range, IsBlock]
  constructor
  · rintro ⟨index, bound, rfl⟩
    exact ⟨index, bound, rfl⟩
  · rintro ⟨index, bound, rfl⟩
    exact ⟨index, bound, rfl⟩

theorem IsBlock.bounds (block : f.IsBlock c offset) :
    f.starts c <= offset /\ offset + f.sizes c <= f.starts c + f.counts c * f.sizes c := by
  rcases block with ⟨index, bound, rfl⟩
  have next : (index + 1) * f.sizes c <= f.counts c * f.sizes c := Nat.mul_le_mul_right _ bound
  rw [Nat.succ_mul] at next
  omega

theorem IsBlock.end_le (layout : FixedLayout f) (block : f.IsBlock c offset) :
    offset + f.sizes c <= f.arenaSize := by
  have bounds := block.bounds
  have first := layout.first
  have second := layout.second
  have third := layout.third
  cases c <;> omega

theorem areas_apart (layout : FixedLayout f) (differs : c ≠ c') :
    f.starts c + f.counts c * f.sizes c <= f.starts c' \/
      f.starts c' + f.counts c' * f.sizes c' <= f.starts c := by
  have first := layout.first
  have second := layout.second
  cases c <;> cases c' <;> first | exact absurd rfl differs | omega

theorem IsBlock.apart (layout : FixedLayout f) (block : f.IsBlock c offset)
    (block' : f.IsBlock c' offset') (differs : offset ≠ offset') :
    Span.Apart ⟨offset, f.sizes c⟩ ⟨offset', f.sizes c'⟩ := by
  have bounds := block.bounds
  have bounds' := block'.bounds
  simp only [Span.Apart]
  by_cases same : c = c'
  · subst same
    rcases block with ⟨index, _, rfl⟩
    rcases block' with ⟨index', _, rfl⟩
    rcases Nat.lt_trichotomy index index' with before | equal | after
    · have step : (index + 1) * f.sizes c <= index' * f.sizes c := Nat.mul_le_mul_right _ before
      rw [Nat.succ_mul] at step
      omega
    · exact absurd (by rw [equal]) differs
    · have step : (index' + 1) * f.sizes c <= index * f.sizes c := Nat.mul_le_mul_right _ after
      rw [Nat.succ_mul] at step
      omega
  · rcases areas_apart layout same with before | after
    · omega
    · omega

theorem IsBlock.classForOffset_eq (layout : FixedLayout f) (block : f.IsBlock c offset) :
    f.classForOffset offset = some c := by
  have bounds := block.bounds
  have positive := layout.header_lt c
  have inside : f.starts c <= offset /\ offset < f.starts c + f.counts c * f.sizes c := by omega
  have found : ([.large, .medium, .small].find? fun c : SizeClass =>
      f.starts c <= offset /\ offset < f.starts c + f.counts c * f.sizes c) = some c := by
    have only : forall c', f.starts c' <= offset /\ offset < f.starts c' + f.counts c' * f.sizes c' ->
        c' = c := by
      intro c' inside'
      by_contra differs
      rcases areas_apart layout differs with before | after <;> omega
    cases search : [.large, .medium, .small].find? fun c : SizeClass =>
        f.starts c <= offset /\ offset < f.starts c + f.counts c * f.sizes c with
    | none =>
      have all := List.find?_eq_none.mp search c (by cases c <;> simp)
      simp only [decide_eq_true_eq] at all
      exact absurd inside all
    | some c' =>
      have holds := List.find?_some search
      simp only [decide_eq_true_eq] at holds
      rw [only c' holds]
  rcases block with ⟨index, _, rfl⟩
  rw [classForOffset, found]
  simp

end FixedAllocator

/-! ## Runs of the fixed allocator -/

/-- An allocation is a whole block of the given class. -/
structure FixedPlaced (f : FixedAllocator) (a : Allocation) (c : SizeClass) : Prop where
  block : f.IsBlock c a.blockOffset
  data_eq : a.dataOffset = a.blockOffset + allocatorHeaderSize
  cap_eq : a.cap = f.usable c
  len_le : a.len <= a.cap

/-- Every free and every outstanding block is a block of its class, none is
there twice, and the outstanding ones are marked live in the arena. -/
structure FixedInv (f : FixedAllocator) (arena : Arena) (mem : Memory)
    (outstanding : List Allocation) : Prop where
  arena_len : arena.len = f.arenaSize
  layout : FixedLayout f
  free_block : forall c, ∀ offset ∈ f.freeLists c, f.IsBlock c offset
  free_nodup : forall c, (f.freeLists c).Nodup
  live_nodup : (outstanding.map Allocation.blockOffset).Nodup
  free_live : forall c, ∀ offset ∈ f.freeLists c, ∀ a ∈ outstanding, a.blockOffset ≠ offset
  live : ∀ a ∈ outstanding, Exists fun c => FixedPlaced f a c
  marked : ∀ a ∈ outstanding, Exists fun value =>
    arena.readHeader mem a.blockOffset = some (magic, value)

namespace FixedInv

variable {f f' : FixedAllocator} {arena : Arena} {mem mem' : Memory}
  {outstanding : List Allocation} {a other : Allocation}

variable {c : SizeClass} {size : Nat}

theorem span_eq (inv : FixedInv f arena mem outstanding) (placed : FixedPlaced f a c) :
    a.span = ⟨a.blockOffset, f.sizes c⟩ := by
  have header := inv.layout.header_lt c
  rw [Allocation.span, placed.cap_eq, inv.layout.usable_eq,
    Nat.sub_add_cancel (Nat.le_of_lt header)]

theorem end_le (inv : FixedInv f arena mem outstanding) (inside : a ∈ outstanding) :
    a.blockOffset + (a.cap + allocatorHeaderSize) <= f.arenaSize := by
  rcases inv.live a inside with ⟨c, placed⟩
  have size : a.cap + allocatorHeaderSize = f.sizes c :=
    congrArg Span.size (inv.span_eq placed)
  rw [size]
  exact placed.block.end_le inv.layout

theorem eq_of_blockOffset (inv : FixedInv f arena mem outstanding) (inside : a ∈ outstanding)
    (member : other ∈ outstanding) (same : a.blockOffset = other.blockOffset) : a = other :=
  List.inj_on_of_nodup_map inv.live_nodup inside member same

theorem apart (inv : FixedInv f arena mem outstanding) (inside : a ∈ outstanding)
    (member : other ∈ outstanding) (differs : other ≠ a) : a.span.Apart other.span := by
  rcases inv.live a inside with ⟨c, placed⟩
  rcases inv.live other member with ⟨c', placed'⟩
  rw [inv.span_eq placed, inv.span_eq placed']
  refine placed.block.apart inv.layout placed'.block fun same => differs ?_
  exact (inv.eq_of_blockOffset inside member same).symm

theorem of_agree (inv : FixedInv f arena mem outstanding)
    (agree : ∀ a ∈ outstanding,
      AgreeOn mem mem' (arena.base + a.blockOffset) allocatorHeaderSize) :
    FixedInv f arena mem' outstanding := {
  inv with
  marked := by
    intro a inside
    rcases inv.marked a inside with ⟨value, header⟩
    exact ⟨value, (Arena.readHeader_congr (agree a inside)).trans header⟩ }

/-- What a class search returns was on top of the list of a class that was
asked for. -/
theorem allocFromClasses_some {classes : List SizeClass} {offset : Nat}
    (found : f.allocFromClasses classes = some (c, offset, f')) :
    c ∈ classes /\ (f.freeLists c).getLast? = some offset /\
      f' = { f with freeLists := Function.update f.freeLists c (f.freeLists c).dropLast } := by
  induction classes with
  | nil => cases found
  | cons first rest ih =>
    rw [FixedAllocator.allocFromClasses] at found
    split at found
    · rcases ih found with ⟨member, top⟩
      exact ⟨List.mem_cons_of_mem _ member, top⟩
    · next top =>
      cases found
      exact ⟨List.mem_cons_self, top, rfl⟩

theorem le_usable_of_mem_classesFor (layout : FixedLayout f) (member : c ∈ f.classesFor size) :
    size <= f.usable c := by
  rcases layout.ascending with ⟨lower, upper⟩
  unfold FixedAllocator.classesFor at member
  split at member
  · cases c <;> omega
  · split at member
    · cases c with
      | small => simp at member
      | medium => omega
      | large => omega
    · split at member
      · cases c with
        | large => assumption
        | small => simp at member
        | medium => simp at member
      · cases member

theorem alloc_none (result : f.alloc arena mem size = (none, f', mem')) :
    f' = f /\ mem' = mem := by
  unfold FixedAllocator.alloc at result
  split at result
  · cases result
    exact ⟨rfl, rfl⟩
  · split at result
    · cases result
      exact ⟨rfl, rfl⟩
    · cases result

/-- A block taken off the top of a free list becomes an allocation once its
header is stamped. -/
theorem hand_out {offset : Nat} (inv : FixedInv f arena mem outstanding)
    (top : (f.freeLists c).getLast? = some offset) (fits : size <= f.usable c) :
    FixedInv { f with freeLists := Function.update f.freeLists c (f.freeLists c).dropLast } arena
      (arena.writeHeader mem offset size)
      (⟨offset, offset + allocatorHeaderSize, size, f.usable c⟩ :: outstanding) := by
  rcases List.getLast?_eq_some_iff.mp top with ⟨before, list⟩
  have kept : (f.freeLists c).dropLast = before := by rw [list, List.dropLast_concat]
  have listed : offset ∈ f.freeLists c := by simp [list]
  have nodup := inv.free_nodup c
  rw [list] at nodup
  have block := inv.free_block c offset listed
  have remaining : forall c', ∀ other ∈ Function.update f.freeLists c (f.freeLists c).dropLast c',
      other ∈ f.freeLists c' := by
    intro c' other member
    by_cases same : c' = c
    · subst same
      rw [Function.update_self] at member
      exact (List.dropLast_sublist _).subset member
    · rwa [Function.update_of_ne same] at member
  have gone : forall c', offset ∉ Function.update f.freeLists c (f.freeLists c).dropLast c' := by
    intro c' member
    by_cases same : c' = c
    · subst same
      rw [Function.update_self, kept] at member
      exact (List.nodup_append.mp nodup).2.2 offset member offset List.mem_cons_self rfl
    · have found := (inv.free_block c' offset (remaining c' offset member)).classForOffset_eq
        inv.layout
      rw [block.classForOffset_eq inv.layout] at found
      exact same (Option.some.inj found).symm
  have placed : FixedPlaced f ⟨offset, offset + allocatorHeaderSize, size, f.usable c⟩ c :=
    ⟨block, rfl, rfl, fits⟩
  have whole := block.end_le inv.layout
  have header := inv.layout.header_lt c
  exact {
    arena_len := inv.arena_len
    layout := ⟨inv.layout.header_lt, inv.layout.usable_eq, inv.layout.ascending,
      inv.layout.first, inv.layout.second, inv.layout.third⟩
    free_block := fun c' other member => inv.free_block c' other (remaining c' other member)
    free_nodup := by
      intro c'
      by_cases same : c' = c
      · subst same
        simpa using (inv.free_nodup c').sublist (List.dropLast_sublist _)
      · simpa [same] using inv.free_nodup c'
    live_nodup := by
      refine List.nodup_cons.mpr ⟨fun member => ?_, inv.live_nodup⟩
      rcases List.mem_map.mp member with ⟨old, inside, same⟩
      exact inv.free_live c offset listed old inside same
    free_live := by
      intro c' other member a inside
      rcases List.mem_cons.mp inside with rfl | old
      · rintro rfl
        exact gone c' member
      · exact inv.free_live c' other (remaining c' other member) a old
    live := by
      intro a inside
      rcases List.mem_cons.mp inside with rfl | old
      · exact ⟨c, placed.block, placed.data_eq, placed.cap_eq, placed.len_le⟩
      · rcases inv.live a old with ⟨c', block', data, cap, len⟩
        exact ⟨c', block', data, cap, len⟩
    marked := by
      intro a inside
      rcases List.mem_cons.mp inside with rfl | old
      · refine ⟨_, Arena.readHeader_writeHeader mem size ?_⟩
        rw [inv.arena_len]
        omega
      · rcases inv.marked a old with ⟨value, found⟩
        rcases inv.live a old with ⟨c', placed'⟩
        have differs := inv.free_live c offset listed a old
        have apart := block.apart inv.layout placed'.block (Ne.symm differs)
        have header' := inv.layout.header_lt c'
        simp only [Span.Apart] at apart
        refine ⟨value, (Arena.readHeader_congr
          ((arena.writeHeader_agreeOutside mem offset size).agreeOn ?_)).trans found⟩
        omega }

theorem alloc_some (inv : FixedInv f arena mem outstanding)
    (result : f.alloc arena mem size = (some a, f', mem')) :
    a.dataOffset = a.blockOffset + allocatorHeaderSize /\ a.len = size /\ size <= a.cap /\
    f'.usable = f.usable /\ FixedInv f' arena mem' (a :: outstanding) /\
    AgreeOutside mem mem' (arena.base + a.blockOffset) allocatorHeaderSize := by
  unfold FixedAllocator.alloc at result
  split at result
  · cases result
  · split at result
    · cases result
    · next c offset taken found =>
      rcases allocFromClasses_some found with ⟨suits, top, rfl⟩
      have fits := le_usable_of_mem_classesFor inv.layout suits
      cases result
      exact ⟨rfl, rfl, fits, rfl, inv.hand_out top fits,
        arena.writeHeader_agreeOutside mem _ _⟩

theorem isValidOffset_of_mem (inv : FixedInv f arena mem outstanding) (inside : a ∈ outstanding) :
    f.isValidOffset a.dataOffset = true := by
  rcases inv.live a inside with ⟨c, placed⟩
  rw [FixedAllocator.isValidOffset, placed.data_eq, Nat.add_sub_cancel,
    placed.block.classForOffset_eq inv.layout]
  simp

/-- Freeing an outstanding block by the offset of its data puts it back on the
list of its class and clears its magic number. -/
theorem freeAt_ok (inv : FixedInv f arena mem outstanding) (inside : a ∈ outstanding) :
    Exists fun f' => Exists fun mem' => f.freeAt arena mem a.dataOffset = .ok (f', mem') /\
      f'.usable = f.usable /\ FixedInv f' arena mem' (outstanding.erase a) /\
      AgreeOutside mem mem' (arena.base + a.blockOffset) allocatorHeaderSize := by
  rcases inv.live a inside with ⟨c, placed⟩
  rcases inv.marked a inside with ⟨value, header⟩
  have cleared := arena.clearMagic_agreeOutside mem a.blockOffset
  have freed : f.freeAt arena mem a.dataOffset =
      .ok ({ f with
        freeLists := Function.update f.freeLists c (f.freeLists c ++ [a.blockOffset]) },
        arena.clearMagic mem a.blockOffset) := by
    rw [FixedAllocator.freeAt, if_neg (fun differs => differs inv.arena_len), placed.data_eq,
      if_neg (Nat.not_lt_of_le (Nat.le_add_left ..)), Nat.add_sub_cancel]
    dsimp only
    rw [placed.block.classForOffset_eq inv.layout]
    dsimp only
    rw [header]
    dsimp only
    rw [if_neg (fun differs => differs rfl)]
  have others : ∀ other ∈ outstanding.erase a, other ∈ outstanding /\ other ≠ a := by
    intro other member
    have nodup : outstanding.Nodup := inv.live_nodup.of_map
    exact ((nodup.mem_erase_iff).mp member).symm
  have listed : forall c', ∀ offset ∈
      Function.update f.freeLists c (f.freeLists c ++ [a.blockOffset]) c',
      offset ∈ f.freeLists c' \/ (c' = c /\ offset = a.blockOffset) := by
    intro c' offset member
    by_cases same : c' = c
    · subst same
      simpa using member
    · exact Or.inl (by simpa [same] using member)
  refine ⟨_, _, freed, rfl, ?_, cleared⟩
  exact {
    arena_len := inv.arena_len
    layout := ⟨inv.layout.header_lt, inv.layout.usable_eq, inv.layout.ascending,
      inv.layout.first, inv.layout.second, inv.layout.third⟩
    free_block := by
      intro c' offset member
      rcases listed c' offset member with old | ⟨rfl, rfl⟩
      · exact inv.free_block c' offset old
      · exact placed.block
    free_nodup := by
      intro c'
      by_cases same : c' = c
      · subst same
        have fresh : a.blockOffset ∉ f.freeLists c' := fun member =>
          inv.free_live c' _ member a inside rfl
        simpa using (inv.free_nodup c').append (List.nodup_singleton _) (by simpa using fresh)
      · simpa [same] using inv.free_nodup c'
    live_nodup := inv.live_nodup.sublist (List.erase_sublist.map _)
    free_live := by
      intro c' offset member other remains
      rcases others other remains with ⟨before, differs⟩
      rcases listed c' offset member with old | ⟨rfl, rfl⟩
      · exact inv.free_live c' offset old other before
      · exact fun same => differs (inv.eq_of_blockOffset before inside same)
    live := by
      intro other remains
      rcases inv.live other (others other remains).1 with ⟨c', block', data, cap, len⟩
      exact ⟨c', block', data, cap, len⟩
    marked := by
      intro other remains
      rcases others other remains with ⟨before, differs⟩
      rcases inv.marked other before with ⟨value', found⟩
      have apart := inv.apart inside before differs
      simp only [Span.Apart, Allocation.span] at apart
      refine ⟨value', (Arena.readHeader_congr (cleared.agreeOn ?_)).trans found⟩
      omega }

theorem of_initialize (layout : FixedLayout f) (len : arena.len = f.arenaSize) (mem : Memory) :
    FixedInv f.initializeFreeLists arena mem [] where
  arena_len := len
  layout := ⟨layout.header_lt, layout.usable_eq, layout.ascending, layout.first, layout.second,
    layout.third⟩
  free_block := fun _ _ member => FixedAllocator.mem_initializeFreeLists.mp member
  free_nodup := by
    intro c
    refine List.Nodup.map (fun index index' same => ?_) List.nodup_range
    have positive : 0 < f.sizes c := Nat.lt_of_le_of_lt (Nat.zero_le _) (layout.header_lt c)
    exact Nat.eq_of_mul_eq_mul_right positive (Nat.add_left_cancel same)
  live_nodup := List.nodup_nil
  free_live := fun _ _ _ _ member => by cases member
  live := fun _ member => by cases member
  marked := fun _ member => by cases member

theorem reset_ok (inv : FixedInv f arena mem []) :
    Exists fun f' => f.reset arena = .ok f' /\ f'.usable = f.usable /\
      forall mem', FixedInv f' arena mem' [] := by
  refine ⟨f.initializeFreeLists, ?_, rfl, fun mem' => of_initialize inv.layout inv.arena_len mem'⟩
  rw [FixedAllocator.reset, if_neg (fun differs => differs inv.arena_len)]

end FixedInv

variable {arenaLen : Nat} {f : FixedAllocator}

theorem fixedInv_build {small medium large smallPercent mediumPercent : Nat}
    (built : FixedAllocator.build arenaLen small medium large smallPercent mediumPercent = .ok f)
    (base : Nat) (mem : Memory) :
    f.usable .small + allocatorHeaderSize = small /\
      FixedInv f ⟨base, arenaLen⟩ mem [] := by
  unfold FixedAllocator.build at built
  split at built
  · cases built
  · next roomy =>
    split at built
    · cases built
    · next ascending =>
      dsimp only at built
      split at built
      · cases built
      · next nonempty =>
        cases built
        refine ⟨Nat.sub_add_cancel (by omega), FixedInv.of_initialize ?_ rfl mem⟩
        generalize arenaLen * smallPercent / 100 / small * small = smallRegion at *
        generalize arenaLen * mediumPercent / 100 / medium * medium = mediumRegion at *
        have remaining := Nat.div_mul_le_self (arenaLen - smallRegion - mediumRegion) large
        generalize (arenaLen - smallRegion - mediumRegion) / large * large = largeRegion at *
        have first := Nat.div_mul_le_self smallRegion small
        have second := Nat.div_mul_le_self mediumRegion medium
        have third := Nat.div_mul_le_self largeRegion large
        exact {
          header_lt := by
            intro c
            cases c <;> simp only [SizeClass.table] <;> omega
          usable_eq := by
            intro c
            cases c <;> rfl
          ascending := by
            simp only [SizeClass.table]
            omega
          first := by
            simp only [SizeClass.table]
            omega
          second := by
            simp only [SizeClass.table]
            omega
          third := by
            simp only [SizeClass.table]
            omega }

theorem fixedInv_new {small : SizePercentPair} {classes : List SizePercentPair}
    (built : FixedAllocator.newFromConfig arenaLen (small :: classes) = .ok f) (base : Nat)
    (mem : Memory) :
    f.usable .small + allocatorHeaderSize = small.size /\
      FixedInv f ⟨base, arenaLen⟩ mem [] := by
  unfold FixedAllocator.newFromConfig at built
  split at built
  · next first medium large shape =>
    cases shape
    split at built
    · cases built
    · exact fixedInv_build built base mem
  · cases built

end V5
end Shmipc
