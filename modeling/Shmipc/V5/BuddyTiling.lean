import Mathlib.Data.Nat.Bitwise
import Shmipc.V5.Buddy

namespace Shmipc
namespace V5

open ByteMemory Tiling

/-!
# The blocks of a buddy allocator tile its arena

Free and outstanding blocks together cover every byte of the arena once.
Cutting a block in two, merging two buddies and moving a block between a stack
and its holder all keep the count of blocks over each byte, so each operation
is followed with the block it works on set aside in `hand`.
-/

namespace BuddyGeometry

variable (geometry : BuddyGeometry)

theorem blockSize_eq (order : Nat) :
    geometry.blockSize order = 2 ^ (geometry.minShift + order) := by
  rw [blockSize, Nat.shiftLeft_eq, geometry.minBlock_eq, <- Nat.pow_add]

theorem blockSize_pos (order : Nat) : 0 < geometry.blockSize order := by
  rw [blockSize_eq]
  exact Nat.two_pow_pos _

theorem blockSize_succ (order : Nat) :
    geometry.blockSize (order + 1) = geometry.blockSize order + geometry.blockSize order := by
  rw [blockSize_eq, blockSize_eq, <- Nat.add_assoc, Nat.pow_succ]
  omega

theorem blockSize_maxOrder : geometry.blockSize geometry.maxOrder = geometry.maxBlock := by
  rw [blockSize_eq, geometry.maxBlock_eq]

theorem blockSize_dvd {low high : Nat} (le : low <= high) :
    geometry.blockSize low ∣ geometry.blockSize high := by
  rw [blockSize_eq, blockSize_eq]
  exact Nat.pow_dvd_pow 2 (Nat.add_le_add_left le _)

theorem header_lt_blockSize (order : Nat) : allocatorHeaderSize < geometry.blockSize order := by
  have least : geometry.minBlock <= geometry.blockSize order := by
    rw [blockSize_eq, geometry.minBlock_eq]
    exact Nat.pow_le_pow_right (by decide) (Nat.le_add_right _ _)
  exact geometry.header_lt.trans_le least

theorem orderFor_le_iff (bytes order : Nat) :
    geometry.orderFor bytes <= order <-> bytes <= geometry.blockSize order := by
  have positive : 0 < 2 ^ geometry.minShift := Nat.two_pow_pos _
  have smallest : 2 ^ geometry.minShift <= 2 ^ (geometry.minShift + order) :=
    Nat.pow_le_pow_right (by decide) (Nat.le_add_right _ _)
  rw [blockSize_eq, orderFor, geometry.minBlock_eq]
  split
  · omega
  · next larger =>
    have nonzero : bytes - 1 ≠ 0 := by omega
    have fits := Nat.log2_lt (n := bytes - 1) (k := geometry.minShift + order) nonzero
    have above : geometry.minShift <= (bytes - 1).log2 :=
      (Nat.le_log2 nonzero).mpr (by omega)
    constructor
    · intro le
      have below := fits.mp (by omega)
      omega
    · intro le
      have below := fits.mpr (by omega)
      omega

variable {order limit : Nat}

theorem orderForCapacity_of_blockSize {cap : Nat} (bounded : order <= geometry.maxOrder)
    (whole : cap + allocatorHeaderSize = geometry.blockSize order) :
    geometry.orderForCapacity cap = some order := by
  have power : isPowerOfTwo (cap + allocatorHeaderSize) = true := by
    rw [isPowerOfTwo, whole, blockSize_eq, Nat.log2_two_pow, beq_self_eq_true]
  have lower : geometry.minBlock <= cap + allocatorHeaderSize := by
    rw [whole, blockSize_eq, geometry.minBlock_eq]
    exact Nat.pow_le_pow_right (by decide) (Nat.le_add_right _ _)
  have upper : cap + allocatorHeaderSize <= geometry.maxBlock := by
    rw [whole, blockSize_eq, geometry.maxBlock_eq]
    exact Nat.pow_le_pow_right (by decide) (Nat.add_le_add_left bounded _)
  have accepted : ¬ (isPowerOfTwo (cap + allocatorHeaderSize) = false \/
      cap + allocatorHeaderSize < geometry.minBlock \/
      cap + allocatorHeaderSize > geometry.maxBlock) := by
    rw [power]
    simp only [Bool.true_eq_false, false_or]
    omega
  rw [orderForCapacity, if_neg accepted, whole, blockSize_eq, Nat.log2_two_pow,
    Nat.add_sub_cancel_left]

/-- A left neighbour that differs from the next free block in the bit of its
size is the lower buddy of it. -/
theorem buddy_of_xor {left right : Nat} (aligned : geometry.blockSize order ∣ left)
    (le : left <= right) (buddy : left ^^^ geometry.blockSize order = right) :
    right = left + geometry.blockSize order /\ geometry.blockSize (order + 1) ∣ left := by
  rcases aligned with ⟨q, rfl⟩
  have flipped : geometry.blockSize order * q ^^^ geometry.blockSize order =
      geometry.blockSize order * (q ^^^ 1) := by
    rw [blockSize_eq]
    have shifted := Nat.shiftLeft_xor_distrib (i := geometry.minShift + order) (a := q) (b := 1)
    simp only [Nat.shiftLeft_eq, Nat.one_mul] at shifted
    rw [Nat.mul_comm, <- shifted, Nat.mul_comm]
  have positive := geometry.blockSize_pos order
  rw [flipped] at buddy
  rcases Nat.even_or_odd q with even | odd
  · rw [Nat.xor_one_of_even even] at buddy
    rcases even with ⟨half, rfl⟩
    refine ⟨by rw [<- buddy, Nat.mul_succ], ⟨half, ?_⟩⟩
    rw [blockSize_succ, Nat.mul_add, Nat.add_mul]
  · rw [Nat.xor_one_of_odd odd] at buddy
    rcases odd with ⟨half, rfl⟩
    have smaller : geometry.blockSize order * (2 * half + 1 - 1) <
        geometry.blockSize order * (2 * half + 1) :=
      Nat.mul_lt_mul_of_pos_left (by omega) positive
    omega

/-! ## Spans of the stacks -/

/-- The ranges of the blocks on the stack of one order. -/
def blockSpans (order : Nat) (offsets : List Nat) : List Span :=
  offsets.map (fun offset => ⟨offset, geometry.blockSize order⟩)

/-- The ranges of all blocks on the stacks below an order. -/
def freeSpans (free : Nat -> List Nat) : Nat -> List Span
  | 0 => []
  | order + 1 => freeSpans free order ++ geometry.blockSpans order (free order)

theorem blockSpans_append (order : Nat) (first second : List Nat) :
    geometry.blockSpans order (first ++ second) =
      geometry.blockSpans order first ++ geometry.blockSpans order second :=
  List.map_append

theorem cover_blockSpans_perm {x : Nat} {first second : List Nat} (perm : first.Perm second) :
    cover (geometry.blockSpans order first) x = cover (geometry.blockSpans order second) x :=
  cover_perm (perm.map _) x

theorem freeSpans_update_of_le (free : Nat -> List Nat) (le : limit <= order) (offsets : List Nat) :
    geometry.freeSpans (Function.update free order offsets) limit =
      geometry.freeSpans free limit := by
  induction limit with
  | zero => rfl
  | succ limit ih =>
    have different : limit ≠ order := by omega
    rw [freeSpans, freeSpans, ih (by omega), Function.update_of_ne different]

theorem cover_freeSpans_update (free : Nat -> List Nat) (lt : order < limit) (offsets : List Nat)
    (x : Nat) :
    cover (geometry.freeSpans (Function.update free order offsets) limit) x +
        cover (geometry.blockSpans order (free order)) x =
      cover (geometry.freeSpans free limit) x + cover (geometry.blockSpans order offsets) x := by
  induction limit with
  | zero => omega
  | succ limit ih =>
    rw [freeSpans, freeSpans, cover_append, cover_append]
    by_cases last : limit = order
    · subst last
      rw [geometry.freeSpans_update_of_le free (Nat.le_refl _), Function.update_self]
      omega
    · have earlier := ih (by omega)
      rw [Function.update_of_ne last]
      omega

end BuddyGeometry

/-! ## The compaction loop -/

namespace BuddyAllocator

/-- What the compaction of a sorted stack computes: the blocks it keeps, and
the left halves of the pairs it merges. -/
def mergePairs (blockSize : Nat) : List Nat -> List Nat × List Nat
  | [] => ([], [])
  | [last] => ([last], [])
  | left :: right :: rest =>
    if left ^^^ blockSize = right then
      ((mergePairs blockSize rest).1, left :: (mergePairs blockSize rest).2)
    else
      (left :: (mergePairs blockSize (right :: rest)).1, (mergePairs blockSize (right :: rest)).2)

variable {list : List Nat} {kept i value : Nat}

theorem drop_set_of_le (le : kept <= i) :
    (list.set kept value).drop (i + 1) = list.drop (i + 1) := by
  rw [List.drop_set, if_pos (by omega)]

theorem take_set_succ (lt : kept < list.length) :
    (list.set kept value).take (kept + 1) = list.take kept ++ [value] := by
  rw [List.take_succ_eq_append_getElem (by simpa using lt), List.getElem_set_self,
    List.take_set_of_le (Nat.le_refl _)]

/-- The in-place loop with its two indices refines the plain recursion, and its
fuel never runs out. -/
theorem compact_eq (blockSize : Nat) {fuel : Nat} (list nextList : List Nat) (below : kept <= i)
    (enough : list.length <= i + fuel) :
    compact blockSize fuel list nextList kept i =
      (list.take kept ++ (mergePairs blockSize (list.drop i)).1,
        nextList ++ (mergePairs blockSize (list.drop i)).2) := by
  induction fuel generalizing list nextList kept i with
  | zero =>
    rw [List.drop_eq_nil_of_le (show list.length <= i from enough)]
    simp [compact, mergePairs]
  | succ fuel ih =>
    cases current : list[i]? with
    | none =>
      have done : list.length <= i := List.getElem?_eq_none_iff.mp current
      rw [List.drop_eq_nil_of_le done]
      simp [compact, current, mergePairs]
    | some left =>
      rcases List.getElem?_eq_some_iff.mp current with ⟨within, leftEq⟩
      have todo : list.drop i = left :: list.drop (i + 1) := by
        rw [List.drop_eq_getElem_cons within, leftEq]
      have keep : compact blockSize fuel (list.set kept left) nextList (kept + 1) (i + 1) =
          (list.take kept ++ left :: (mergePairs blockSize (list.drop (i + 1))).1,
            nextList ++ (mergePairs blockSize (list.drop (i + 1))).2) := by
        rw [ih _ _ (by omega) (by rw [List.length_set]; omega), drop_set_of_le below,
          take_set_succ (by omega)]
        simp
      cases following : list[i + 1]? with
      | none =>
        have last : list.drop (i + 1) = [] :=
          List.drop_eq_nil_of_le (List.getElem?_eq_none_iff.mp following)
        rw [last] at keep
        simp only [compact, current, following, keep, todo, last, mergePairs]
      | some right =>
        rcases List.getElem?_eq_some_iff.mp following with ⟨nextWithin, rightEq⟩
        have rest : list.drop (i + 1) = right :: list.drop (i + 2) := by
          rw [List.drop_eq_getElem_cons nextWithin, rightEq]
        by_cases pair : left ^^^ blockSize = right
        · simp only [compact, current, following, if_pos pair, todo, rest, mergePairs]
          rw [ih _ _ (by omega) (by omega)]
          simp
        · rw [rest] at keep
          simp only [compact, current, following, if_neg pair, keep, todo, rest, mergePairs]

variable (geometry : BuddyGeometry) {order : Nat}

/-- Merging buddies moves ranges between two orders and covers the same bytes. -/
theorem mergePairs_cover (list : List Nat) (sorted : list.Pairwise (· <= ·))
    (aligned : ∀ o ∈ list, geometry.blockSize order ∣ o) (x : Nat) :
    cover (geometry.blockSpans order (mergePairs (geometry.blockSize order) list).1) x +
        cover (geometry.blockSpans (order + 1) (mergePairs (geometry.blockSize order) list).2) x =
      cover (geometry.blockSpans order list) x := by
  induction list using mergePairs.induct (geometry.blockSize order) with
  | case1 => rfl
  | case2 last => rfl
  | case3 left rest ih =>
    have ih := ih (sorted.of_cons.of_cons)
      (fun o inside => aligned o (List.mem_cons_of_mem _ (List.mem_cons_of_mem _ inside)))
    have le := (List.pairwise_cons.mp sorted).1 _ List.mem_cons_self
    rcases geometry.buddy_of_xor (aligned left List.mem_cons_self) le rfl with ⟨rightEq, _⟩
    have merged := cover_split left (geometry.blockSize order) (geometry.blockSize order) x
    rw [<- rightEq, <- geometry.blockSize_succ] at merged
    simp only [BuddyGeometry.blockSpans] at ih
    simp only [mergePairs, if_true, BuddyGeometry.blockSpans, List.map_cons]
    simp only [cover_cons] at merged ⊢
    omega
  | case4 left right rest apart ih =>
    have ih := ih sorted.of_cons (fun o inside => aligned o (List.mem_cons_of_mem _ inside))
    simp only [BuddyGeometry.blockSpans] at ih
    simp only [mergePairs, if_neg apart, BuddyGeometry.blockSpans, List.map_cons]
    rw [cover_cons, cover_cons]
    rw [List.map_cons] at ih
    omega

theorem mergePairs_aligned (list : List Nat) (sorted : list.Pairwise (· <= ·))
    (aligned : ∀ o ∈ list, geometry.blockSize order ∣ o) :
    (∀ o ∈ (mergePairs (geometry.blockSize order) list).1, geometry.blockSize order ∣ o) /\
    (∀ o ∈ (mergePairs (geometry.blockSize order) list).2,
      geometry.blockSize (order + 1) ∣ o) := by
  induction list using mergePairs.induct (geometry.blockSize order) with
  | case1 => simp [mergePairs]
  | case2 last => simpa [mergePairs] using aligned
  | case3 left rest ih =>
    have ih := ih (sorted.of_cons.of_cons)
      (fun o inside => aligned o (List.mem_cons_of_mem _ (List.mem_cons_of_mem _ inside)))
    have le := (List.pairwise_cons.mp sorted).1 _ List.mem_cons_self
    rcases geometry.buddy_of_xor (aligned left List.mem_cons_self) le rfl with ⟨_, leftAligned⟩
    simp only [mergePairs, if_true]
    refine ⟨ih.1, ?_⟩
    intro o inside
    rcases List.mem_cons.mp inside with same | later
    · exact same ▸ leftAligned
    · exact ih.2 o later
  | case4 left right rest apart ih =>
    have ih := ih sorted.of_cons (fun o inside => aligned o (List.mem_cons_of_mem _ inside))
    simp only [mergePairs, if_neg apart]
    refine ⟨?_, ih.2⟩
    intro o inside
    rcases List.mem_cons.mp inside with same | later
    · exact same ▸ aligned left List.mem_cons_self
    · exact ih.1 o later

end BuddyAllocator

/-! ## The partition -/

/-- The blocks in hand, on the stacks and outstanding tile the arena, and every
block on a stack starts at a multiple of its size. -/
structure Carved (geometry : BuddyGeometry) (free : Nat -> List Nat) (hand : List Span)
    (outstanding : List Allocation) : Prop where
  tiles : Tiles (hand ++ (geometry.freeSpans free (geometry.maxOrder + 1) ++
    outstanding.map Allocation.span)) geometry.arenaSize
  aligned : forall order, ∀ o ∈ free order, geometry.blockSize order ∣ o

namespace Carved

variable {geometry : BuddyGeometry} {free : Nat -> List Nat} {hand : List Span}
  {outstanding : List Allocation} {order offset : Nat}

/-- Replacing stacks and blocks in hand keeps the partition when it keeps the
count over every byte. -/
theorem exchange {free' : Nat -> List Nat} {hand' : List Span} {outstanding' : List Allocation}
    (inv : Carved geometry free hand outstanding)
    (aligned : forall order, ∀ o ∈ free' order, geometry.blockSize order ∣ o)
    (same : forall x, cover hand' x + (cover (geometry.freeSpans free' (geometry.maxOrder + 1)) x +
        cover (outstanding'.map Allocation.span) x) =
      cover hand x + (cover (geometry.freeSpans free (geometry.maxOrder + 1)) x +
        cover (outstanding.map Allocation.span) x)) :
    Carved geometry free' hand' outstanding' where
  tiles := inv.tiles.of_cover_eq (by
    intro x
    simp only [cover_append]
    exact same x)
  aligned := aligned

theorem aligned_update {offsets : List Nat} (inv : Carved geometry free hand outstanding)
    (aligned : ∀ o ∈ offsets, geometry.blockSize order ∣ o) (other : Nat) :
    ∀ o ∈ Function.update free order offsets other, geometry.blockSize other ∣ o := by
  by_cases same : other = order
  · subst same
    rw [Function.update_self]
    exact aligned
  · rw [Function.update_of_ne same]
    exact inv.aligned other

theorem push (inv : Carved geometry free (⟨offset, geometry.blockSize order⟩ :: hand) outstanding)
    (bounded : order <= geometry.maxOrder) (start : geometry.blockSize order ∣ offset) :
    Carved geometry (Function.update free order (free order ++ [offset])) hand outstanding := by
  refine inv.exchange (inv.aligned_update ?_) ?_
  · exact Transition.forall_mem_snoc (inv.aligned order) start
  · intro x
    have swapped := geometry.cover_freeSpans_update free
      (by omega : order < geometry.maxOrder + 1)
      (free order ++ [offset]) x
    rw [geometry.blockSpans_append, cover_append] at swapped
    change _ = cover _ x + (cover _ x + cover [⟨offset, geometry.blockSize order⟩] x) at swapped
    simp only [cover_cons] at swapped ⊢
    have nothing : cover [] x = 0 := rfl
    omega

theorem pop (inv : Carved geometry free hand outstanding) (bounded : order <= geometry.maxOrder)
    (top : (free order).getLast? = some offset) :
    Carved geometry (Function.update free order (free order).dropLast)
        (⟨offset, geometry.blockSize order⟩ :: hand) outstanding /\
      geometry.blockSize order ∣ offset := by
  have stack : free order = (free order).dropLast ++ [offset] :=
    (List.dropLast_append_getLast? offset top).symm
  constructor
  · refine inv.exchange (inv.aligned_update ?_) ?_
    · intro o inside
      exact inv.aligned order o (List.dropLast_subset _ inside)
    · intro x
      have swapped := geometry.cover_freeSpans_update free
        (by omega : order < geometry.maxOrder + 1) (free order).dropLast x
      have whole := congrArg (fun l => cover (geometry.blockSpans order l) x) stack
      simp only [geometry.blockSpans_append, cover_append] at whole
      change _ = cover _ x + cover [⟨offset, geometry.blockSize order⟩] x at whole
      simp only [cover_cons] at whole ⊢
      have nothing : cover [] x = 0 := rfl
      omega
  · exact inv.aligned order offset (List.mem_of_getLast? top)

theorem cut (inv : Carved geometry free (⟨offset, geometry.blockSize (order + 1)⟩ :: hand)
      outstanding) :
    Carved geometry free (⟨offset + geometry.blockSize order, geometry.blockSize order⟩ ::
      ⟨offset, geometry.blockSize order⟩ :: hand) outstanding := by
  refine inv.exchange inv.aligned ?_
  intro x
  have halves := cover_split offset (geometry.blockSize order) (geometry.blockSize order) x
  rw [<- geometry.blockSize_succ] at halves
  simp only [cover_cons] at halves ⊢
  omega

theorem give {allocation : Allocation}
    (inv : Carved geometry free (allocation.span :: hand) outstanding) :
    Carved geometry free hand (allocation :: outstanding) := by
  refine inv.exchange inv.aligned ?_
  intro x
  rw [List.map_cons, cover_cons, cover_cons]
  omega

theorem take {allocation : Allocation} (inv : Carved geometry free hand outstanding)
    (inside : allocation ∈ outstanding) :
    Carved geometry free (allocation.span :: hand) (outstanding.erase allocation) := by
  refine inv.exchange inv.aligned ?_
  intro x
  have split := cover_perm ((List.perm_cons_erase inside).map Allocation.span) x
  rw [List.map_cons, cover_cons] at split
  rw [cover_cons]
  omega

end Carved

namespace BuddyAllocator

variable {geometry : BuddyGeometry} {hand : List Span} {outstanding : List Allocation}

variable {b : BuddyAllocator} {order : Nat}

theorem coalesceOrder_carved (inv : Carved b.toBuddyGeometry b.free hand outstanding)
    (bounded : order < b.maxOrder) :
    (b.coalesceOrder order).toBuddyGeometry = b.toBuddyGeometry /\
    Carved b.toBuddyGeometry (b.coalesceOrder order).free hand outstanding := by
  by_cases few : (b.free order).length < 2
  · simp only [coalesceOrder, if_pos few]
    exact ⟨trivial, inv⟩
  · have perm : ((b.free order).insertionSort (· <= ·)).Perm (b.free order) :=
      List.perm_insertionSort _ _
    have sorted : ((b.free order).insertionSort (· <= ·)).Pairwise (· <= ·) :=
      List.pairwise_insertionSort _ _
    have aligned : ∀ o ∈ (b.free order).insertionSort (· <= ·), b.blockSize order ∣ o :=
      fun o inside => inv.aligned order o (perm.mem_iff.mp inside)
    have loop := compact_eq (b.blockSize order) ((b.free order).insertionSort (· <= ·))
      (b.free (order + 1)) (Nat.le_refl 0) (Nat.le_of_eq (Nat.zero_add _).symm)
    simp only [coalesceOrder, if_neg few, loop, List.take_zero, List.nil_append, List.drop_zero]
    refine ⟨trivial, ?_⟩
    generalize (b.free order).insertionSort (· <= ·) = list at perm sorted aligned
    rcases mergePairs_aligned b.toBuddyGeometry list sorted aligned with
      ⟨keptAligned, mergedAligned⟩
    have same := fun x => mergePairs_cover b.toBuddyGeometry list sorted aligned x
    generalize mergePairs (b.blockSize order) list = merged at keptAligned mergedAligned same
    refine inv.exchange ?_ ?_
    · intro other o inside
      by_cases upper : other = order + 1
      · subst upper
        rw [Function.update_self] at inside
        rcases List.mem_append.mp inside with before | joined
        · exact inv.aligned _ o before
        · exact mergedAligned o joined
      · rw [Function.update_of_ne upper] at inside
        exact inv.aligned_update keptAligned other o inside
    · intro x
      have moved := same x
      rw [b.cover_blockSpans_perm perm] at moved
      have lower := b.cover_freeSpans_update b.free (by omega : order < b.maxOrder + 1) merged.1 x
      have upper := b.cover_freeSpans_update (Function.update b.free order merged.1)
        (by omega : order + 1 < b.maxOrder + 1) (b.free (order + 1) ++ merged.2) x
      rw [Function.update_of_ne (by omega), b.blockSpans_append, cover_append] at upper
      omega

theorem coalesceAll_carved (orders : List Nat)
    (inv : Carved b.toBuddyGeometry b.free hand outstanding)
    (bounded : ∀ order ∈ orders, order < b.maxOrder) :
    (orders.foldl coalesceOrder b).toBuddyGeometry = b.toBuddyGeometry /\
    Carved b.toBuddyGeometry (orders.foldl coalesceOrder b).free hand outstanding := by
  induction orders generalizing b with
  | nil => exact ⟨rfl, inv⟩
  | cons first rest ih =>
    rcases coalesceOrder_carved inv (bounded first List.mem_cons_self) with ⟨sameFirst, merged⟩
    rw [<- sameFirst] at merged
    have restBounded : ∀ order ∈ rest, order < (b.coalesceOrder first).maxOrder := by
      intro order inside
      rw [sameFirst]
      exact bounded order (List.mem_cons_of_mem _ inside)
    rcases ih merged restBounded with ⟨sameRest, carved⟩
    rw [sameFirst] at sameRest carved
    exact ⟨sameRest, carved⟩

theorem coalesceUntil_carved {target : Nat} (inv : Carved b.toBuddyGeometry b.free hand outstanding)
    (bounded : target <= b.maxOrder) :
    (b.coalesceUntil target).toBuddyGeometry = b.toBuddyGeometry /\
    Carved b.toBuddyGeometry (b.coalesceUntil target).free hand outstanding :=
  coalesceAll_carved _ inv (fun _ inside => (List.mem_range.mp inside).trans_le bounded)

theorem findOrder_spec {found : Nat} (result : b.findOrder order = some found) :
    order <= found /\ found <= b.maxOrder /\ b.free found ≠ [] := by
  have inside := List.mem_of_find?_eq_some result
  have test := List.find?_some result
  rw [List.mem_range'_1] at inside
  exact ⟨inside.1, by omega, by simpa using test⟩

/-- The search leaves the partition alone, and an order it finds has a block. -/
theorem searchOrder_carved (inv : Carved b.toBuddyGeometry b.free hand outstanding)
    (bounded : order <= b.maxOrder) :
    (b.searchOrder order).2.toBuddyGeometry = b.toBuddyGeometry /\
    Carved b.toBuddyGeometry (b.searchOrder order).2.free hand outstanding /\
    (∀ found ∈ (b.searchOrder order).1, order <= found /\ found <= b.maxOrder /\
      (b.searchOrder order).2.free found ≠ []) := by
  unfold searchOrder
  split
  · next found result =>
    refine ⟨rfl, inv, ?_⟩
    intro other same
    cases same
    exact findOrder_spec result
  · split
    · rcases coalesceUntil_carved inv bounded with ⟨same, carved⟩
      dsimp only
      split
      · next found result =>
        refine ⟨same, carved, ?_⟩
        intro other equal
        cases equal
        have spec := findOrder_spec result
        rw [same] at spec
        exact spec
      · exact ⟨same, carved, fun _ none => by cases none⟩
    · exact ⟨rfl, inv, fun _ none => by cases none⟩

theorem splitDown_carved {offset found : Nat}
    (inv : Carved b.toBuddyGeometry b.free (⟨offset, b.blockSize found⟩ :: hand) outstanding)
    (aligned : b.blockSize found ∣ offset) (le : order <= found) (bounded : found <= b.maxOrder) :
    (splitDown offset order found b).toBuddyGeometry = b.toBuddyGeometry /\
    Carved b.toBuddyGeometry (splitDown offset order found b).free
      (⟨offset, b.blockSize order⟩ :: hand) outstanding := by
  induction found generalizing b with
  | zero =>
    have same : order = 0 := by omega
    subst same
    exact ⟨rfl, inv⟩
  | succ found ih =>
    unfold splitDown
    by_cases larger : order < found + 1
    · rw [if_pos larger]
      have half : b.blockSize found ∣ offset :=
        (b.blockSize_dvd (Nat.le_succ found)).trans aligned
      have upper : b.blockSize found ∣ offset + b.blockSize found :=
        (Nat.dvd_add_left (Nat.dvd_refl _)).mpr half
      have pushed := inv.cut.push (by omega) upper
      exact ih (b := b.push found (offset + b.blockSize found)) pushed half (by omega)
        (Nat.le_of_succ_le bounded)
    · rw [if_neg larger]
      have same : order = found + 1 := by omega
      subst same
      exact ⟨rfl, inv⟩

end BuddyAllocator

theorem carved_initialFree (geometry : BuddyGeometry) :
    Carved geometry geometry.initialFree [] [] where
  tiles := by
    refine (tiles_whole geometry.arenaSize).of_cover_eq ?_
    intro x
    have swapped := geometry.cover_freeSpans_update (fun _ => [])
      (Nat.lt_succ_self geometry.maxOrder)
      ((List.range (geometry.arenaSize / geometry.maxBlock)).map (· * geometry.maxBlock)) x
    have empty : forall limit, geometry.freeSpans (fun _ => []) limit = [] := by
      intro limit
      induction limit with
      | zero => rfl
      | succ limit ih =>
        rw [BuddyGeometry.freeSpans, ih]
        rfl
    have row := cover_row 0 geometry.maxBlock (geometry.arenaSize / geometry.maxBlock) x
    rw [Nat.div_mul_cancel geometry.maxBlock_dvd] at row
    simp only [Nat.zero_add] at row
    simp only [BuddyGeometry.blockSpans, geometry.blockSize_maxOrder, List.map_map,
      Function.comp_def, List.map_nil] at swapped
    have nothing : cover [] x = 0 := rfl
    rw [empty, row, nothing, Nat.add_zero, Nat.zero_add] at swapped
    rw [List.nil_append, List.map_nil, List.append_nil]
    exact swapped
  aligned := by
    intro order o inside
    by_cases top : order = geometry.maxOrder
    · subst top
      rw [BuddyGeometry.initialFree, Function.update_self] at inside
      rcases List.mem_map.mp inside with ⟨index, _, rfl⟩
      rw [geometry.blockSize_maxOrder]
      exact Nat.dvd_mul_left _ _
    · rw [BuddyGeometry.initialFree, Function.update_of_ne top] at inside
      cases inside

end V5
end Shmipc
