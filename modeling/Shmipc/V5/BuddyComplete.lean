import Mathlib.Data.List.Duplicate
import Shmipc.V5.BuddySafety

namespace Shmipc
namespace V5

open ByteMemory Tiling Transition

/-!
# The buddy allocator finds every free block

Merging is put off until a request cannot be served, skipped when the flag says
that nothing was freed since, and stopped at the order of the request.  None of
this hides a free range: while the flag is clear no order below the largest has
two free buddies, and where no order below the request has two free buddies, a
free range of the request's size lies inside one free block.
-/

theorem add_le_of_dvd_of_lt {unit a b : Nat} (first : unit ∣ a) (second : unit ∣ b) (lt : a < b) :
    a + unit <= b := by
  rcases first with ⟨i, rfl⟩
  rcases second with ⟨j, rfl⟩
  have less : i < j := Nat.lt_of_mul_lt_mul_left lt
  calc
    unit * i + unit = unit * (i + 1) := (Nat.mul_succ unit i).symm
    _ <= unit * j := Nat.mul_le_mul_left unit less

namespace BuddyGeometry

variable (geometry : BuddyGeometry)

/-- The lower of two buddies finds the upper one by flipping the bit of its size. -/
theorem xor_of_dvd {order left : Nat} (aligned : geometry.blockSize (order + 1) ∣ left) :
    left ^^^ geometry.blockSize order = left + geometry.blockSize order := by
  rcases aligned with ⟨q, rfl⟩
  rw [blockSize_succ, blockSize_eq]
  have shifted := Nat.shiftLeft_xor_distrib (i := geometry.minShift + order) (a := 2 * q) (b := 1)
  have even : 2 * q ^^^ 1 = 2 * q + 1 := Nat.xor_one_of_even (even_two_mul q)
  rw [even] at shifted
  simp only [Nat.shiftLeft_eq, Nat.one_mul] at shifted
  have double : (2 ^ (geometry.minShift + order) + 2 ^ (geometry.minShift + order)) * q =
      2 * q * 2 ^ (geometry.minShift + order) := by
    rw [<- Nat.two_mul]
    ac_rfl
  rw [double, <- shifted, Nat.add_mul, Nat.one_mul]

/-- No two buddies of an order are both on its stack. -/
def Unpaired (order : Nat) (offsets : List Nat) : Prop :=
  ∀ left ∈ offsets, geometry.blockSize (order + 1) ∣ left ->
    left + geometry.blockSize order ∉ offsets

variable {geometry} {order : Nat} {offsets kept : List Nat}

theorem Unpaired.of_subset (unpaired : geometry.Unpaired order offsets) (subset : kept ⊆ offsets) :
    geometry.Unpaired order kept :=
  fun left inside aligned upper => unpaired left (subset inside) aligned (subset upper)

theorem unpaired_nil : geometry.Unpaired order [] :=
  fun _ inside => by cases inside

theorem unpaired_of_length_lt (few : offsets.length < 2) : geometry.Unpaired order offsets := by
  intro left inside _ upper
  have positive := geometry.blockSize_pos order
  match offsets, few with
  | [only], _ =>
    have first := List.mem_singleton.mp inside
    have second := List.mem_singleton.mp upper
    omega

variable {free : Nat -> List Nat} {limit : Nat}

theorem mem_freeSpans {span : Span} (inside : span ∈ geometry.freeSpans free limit) :
    Exists fun order => order < limit /\ ∃ offset ∈ free order,
      span = ⟨offset, geometry.blockSize order⟩ := by
  induction limit with
  | zero => cases inside
  | succ limit ih =>
    rcases List.mem_append.mp inside with below | last
    · rcases ih below with ⟨order, lt, rest⟩
      exact ⟨order, Nat.lt_succ_of_lt lt, rest⟩
    · rcases List.mem_map.mp last with ⟨offset, listed, rfl⟩
      exact ⟨limit, Nat.lt_succ_self limit, offset, listed, rfl⟩

theorem mem_freeSpans_of_mem {offset : Nat} (lt : order < limit) (listed : offset ∈ free order) :
    ⟨offset, geometry.blockSize order⟩ ∈ geometry.freeSpans free limit := by
  induction limit with
  | zero => cases lt
  | succ limit ih =>
    by_cases last : order = limit
    · subst last
      exact List.mem_append_right _ (List.mem_map.mpr ⟨offset, listed, rfl⟩)
    · exact List.mem_append_left _ (ih (by omega))

end BuddyGeometry

namespace Carved

variable {geometry : BuddyGeometry} {free : Nat -> List Nat} {hand : List Span}
  {outstanding : List Allocation} {order offset : Nat}

theorem nodup_free (inv : Carved geometry free hand outstanding)
    (bounded : order <= geometry.maxOrder) : (free order).Nodup := by
  by_contra repeated
  rcases List.exists_duplicate_iff_not_nodup.mpr repeated with ⟨o, twice⟩
  have spans : [⟨o, geometry.blockSize order⟩, ⟨o, geometry.blockSize order⟩].Sublist
      (geometry.blockSpans order (free order)) :=
    (List.duplicate_iff_sublist.mp twice).map
      (fun offset => Span.mk offset (geometry.blockSize order))
  have both : 2 <= cover (geometry.blockSpans order (free order)) o := by
    refine Nat.le_trans ?_ spans.countP_le
    have inside : (Span.mk o (geometry.blockSize order)).Contains o :=
      ⟨Nat.le_refl o, Nat.lt_add_of_pos_right (geometry.blockSize_pos order)⟩
    simp [inside]
  have part := geometry.cover_freeSpans_update free
    (by omega : order < geometry.maxOrder + 1) [] o
  have once := inv.tiles o
  rw [cover_append, cover_append] at once
  have none : cover (geometry.blockSpans order []) o = 0 := rfl
  split at once <;> omega

theorem not_mem_free {size : Nat} (inv : Carved geometry free (⟨offset, size⟩ :: hand) outstanding)
    (positive : 0 < size) (bounded : order <= geometry.maxOrder) : offset ∉ free order := by
  intro listed
  have blockPositive := geometry.blockSize_pos order
  have apart : (Span.mk offset size).Apart ⟨offset, geometry.blockSize order⟩ :=
    inv.tiles.apart (List.mem_append_right _ (List.mem_append_left _
      (BuddyGeometry.mem_freeSpans_of_mem (Nat.lt_succ_of_le bounded) listed)))
      positive blockPositive
  simp only [Span.Apart] at apart
  omega

theorem exists_free (inv : Carved geometry free [] outstanding) {x : Nat}
    (inside : x < geometry.arenaSize) (clear : ∀ a ∈ outstanding, ¬ a.span.Contains x) :
    Exists fun order => order <= geometry.maxOrder /\ ∃ offset ∈ free order,
      (Span.mk offset (geometry.blockSize order)).Contains x := by
  have covered := inv.tiles x
  rw [if_pos inside] at covered
  rcases List.countP_pos_iff.mp (covered ▸ Nat.zero_lt_one) with ⟨span, listed, contains⟩
  have contains := of_decide_eq_true contains
  rcases List.mem_append.mp (List.nil_append _ ▸ listed) with free | held
  · rcases BuddyGeometry.mem_freeSpans free with ⟨order, lt, offset, member, rfl⟩
    exact ⟨order, Nat.le_of_lt_succ lt, offset, member, contains⟩
  · rcases List.mem_map.mp held with ⟨a, member, rfl⟩
    exact absurd contains (clear a member)

/-- Where no order below `order` has two free buddies, an aligned range of that
order without outstanding bytes lies inside one free block.  The induction is on
the order: of two halves that lie in blocks of their own size, the blocks would
be free buddies. -/
theorem exists_block (inv : Carved geometry free [] outstanding)
    (bounded : order <= geometry.maxOrder)
    (unpaired : forall o, o < order -> geometry.Unpaired o (free o)) {start : Nat}
    (aligned : geometry.blockSize order ∣ start)
    (inside : start + geometry.blockSize order <= geometry.arenaSize)
    (clear : ∀ a ∈ outstanding, forall x, a.span.Contains x ->
      ¬ (Span.mk start (geometry.blockSize order)).Contains x) :
    Exists fun o => order <= o /\ o <= geometry.maxOrder /\ ∃ offset ∈ free o,
      offset <= start /\ start + geometry.blockSize order <= offset + geometry.blockSize o := by
  induction order generalizing start with
  | zero =>
    have positive := geometry.blockSize_pos 0
    rcases inv.exists_free (x := start) (by omega)
      (fun a held contains => clear a held start contains ⟨Nat.le_refl _, by simpa using positive⟩)
      with ⟨o, le, offset, listed, lower, upper⟩
    have blockAligned : geometry.blockSize 0 ∣ offset + geometry.blockSize o :=
      Nat.dvd_add ((geometry.blockSize_dvd (Nat.zero_le o)).trans (inv.aligned o offset listed))
        (geometry.blockSize_dvd (Nat.zero_le o))
    exact ⟨o, Nat.zero_le o, le, offset, listed, lower,
      add_le_of_dvd_of_lt aligned blockAligned upper⟩
  | succ order ih =>
    have double := geometry.blockSize_succ order
    have positive := geometry.blockSize_pos order
    have half : geometry.blockSize order ∣ start :=
      (geometry.blockSize_dvd (Nat.le_succ order)).trans aligned
    have below : forall o, o < order -> geometry.Unpaired o (free o) :=
      fun o less => unpaired o (Nat.lt_succ_of_lt less)
    have ih := @ih (Nat.le_of_succ_le bounded) below
    rcases ih half (by omega) (by
      intro a held x contains within
      exact clear a held x contains ⟨within.1, within.2.trans_le (by simp only; omega)⟩) with
      ⟨o, le, top, offset, listed, lower, upper⟩
    rcases ih
      (Nat.dvd_add half (Nat.dvd_refl _)) (by omega) (by
      intro a held x contains within
      have first := within.1
      have second := within.2
      simp only at first second
      exact clear a held x contains ⟨by simp only; omega, by simp only; omega⟩) with
      ⟨o', le', top', offset', listed', lower', upper'⟩
    -- a larger block around either half contains both
    have larger : forall {o offset : Nat}, order < o -> offset ∈ free o ->
        offset <= start + geometry.blockSize order ->
        start < offset + geometry.blockSize o ->
        offset <= start /\ start + geometry.blockSize (order + 1) <=
          offset + geometry.blockSize o := by
      intro o offset greater listed below reaches
      have blockAligned := (geometry.blockSize_dvd greater).trans (inv.aligned o offset listed)
      refine ⟨?_, add_le_of_dvd_of_lt aligned
        (Nat.dvd_add blockAligned (geometry.blockSize_dvd greater)) reaches⟩
      by_contra beyond
      have far := add_le_of_dvd_of_lt aligned blockAligned (Nat.lt_of_not_le beyond)
      omega
    rcases Nat.lt_or_ge order o with greater | same
    · exact ⟨o, greater, top, offset, listed, larger greater listed (by omega) (by omega)⟩
    · rcases Nat.lt_or_ge order o' with greater | same'
      · exact ⟨o', greater, top', offset', listed', larger greater listed' lower' (by omega)⟩
      · have sameOrder : o = order := Nat.le_antisymm same le
        have sameOrder' : o' = order := Nat.le_antisymm same' le'
        subst sameOrder sameOrder'
        have left : offset = start := by omega
        have right : offset' = start + geometry.blockSize o' := by omega
        subst left right
        exact absurd listed' (unpaired o' (Nat.lt_succ_self o') offset listed aligned)

end Carved

/-! ## What the merge leaves -/

namespace BuddyAllocator

variable {geometry : BuddyGeometry} {order : Nat}

theorem mergePairs_subset (blockSize : Nat) (list : List Nat) :
    (mergePairs blockSize list).1 ⊆ list := by
  induction list using mergePairs.induct blockSize with
  | case1 | case2 last => exact List.Subset.refl _
  | case3 left rest ih =>
    simp only [mergePairs, if_true]
    exact fun o inside => List.mem_cons_of_mem _ (List.mem_cons_of_mem _ (ih inside))
  | case4 left right rest apart ih =>
    simp only [mergePairs, if_neg apart]
    exact List.cons_subset_cons _ ih

/-- In a strictly sorted stack an upper buddy stands right behind its lower one,
so the scan misses no pair. -/
theorem mergePairs_unpaired (list : List Nat) (sorted : list.Pairwise (· < ·))
    (aligned : ∀ o ∈ list, geometry.blockSize order ∣ o) :
    geometry.Unpaired order (mergePairs (geometry.blockSize order) list).1 := by
  induction list using mergePairs.induct (geometry.blockSize order) with
  | case1 => exact BuddyGeometry.unpaired_nil
  | case2 last => exact BuddyGeometry.unpaired_of_length_lt Nat.one_lt_two
  | case3 left rest ih =>
    simp only [mergePairs, if_true]
    exact ih sorted.of_cons.of_cons
      (fun o inside => aligned o (List.mem_cons_of_mem _ (List.mem_cons_of_mem _ inside)))
  | case4 left right rest apart ih =>
    have ih := ih sorted.of_cons (fun o inside => aligned o (List.mem_cons_of_mem _ inside))
    have subset := mergePairs_subset (geometry.blockSize order) (right :: rest)
    have above : ∀ o ∈ right :: rest, left < o := (List.pairwise_cons.mp sorted).1
    have positive := geometry.blockSize_pos order
    simp only [mergePairs, if_neg apart]
    intro o inside lower upper
    rcases List.mem_cons.mp inside with rfl | later
    · rcases List.mem_cons.mp upper with same | found
      · omega
      · -- the upper buddy would have to be `right`
        have close : right <= o + geometry.blockSize order := by
          rcases List.mem_cons.mp (subset found) with same | beyond
          · exact Nat.le_of_eq same.symm
          · exact Nat.le_of_lt ((List.pairwise_cons.mp sorted.of_cons).1 _ beyond)
        have far := add_le_of_dvd_of_lt (aligned o List.mem_cons_self)
          (aligned right (List.mem_cons_of_mem _ List.mem_cons_self))
          (above right List.mem_cons_self)
        exact apart ((geometry.xor_of_dvd lower).trans (Nat.le_antisymm far close))
    · rcases List.mem_cons.mp upper with same | found
      · have less := above o (subset later)
        omega
      · exact ih o later lower found

variable {b : BuddyAllocator} {hand : List Span} {outstanding : List Allocation}

/-- One round of the merge leaves no pair at its order and touches only the
order above besides. -/
theorem coalesceOrder_unpaired (inv : Carved b.toBuddyGeometry b.free hand outstanding)
    (order : Nat) (bounded : order < b.maxOrder) :
    b.Unpaired order ((b.coalesceOrder order).free order) /\
    (forall o, o ≠ order -> o ≠ order + 1 -> (b.coalesceOrder order).free o = b.free o) /\
    (b.coalesceOrder order).needsCoalesce = b.needsCoalesce := by
  by_cases few : (b.free order).length < 2
  · simp only [coalesceOrder, if_pos few]
    exact ⟨BuddyGeometry.unpaired_of_length_lt few, fun _ _ _ => trivial, trivial⟩
  · have perm : ((b.free order).insertionSort (· <= ·)).Perm (b.free order) :=
      List.perm_insertionSort _ _
    have nodup : ((b.free order).insertionSort (· <= ·)).Nodup :=
      perm.nodup_iff.mpr (inv.nodup_free (Nat.le_of_lt bounded))
    have sorted : ((b.free order).insertionSort (· <= ·)).Pairwise (· < ·) :=
      (List.pairwise_insertionSort (· <= ·) _).imp₂ (fun _ _ => Nat.lt_of_le_of_ne) nodup
    have loop := compact_eq (b.blockSize order) ((b.free order).insertionSort (· <= ·))
      (b.free (order + 1)) (Nat.le_refl 0) (Nat.le_of_eq (Nat.zero_add _).symm)
    simp only [coalesceOrder, if_neg few, loop, List.take_zero, List.nil_append, List.drop_zero]
    refine ⟨?_, ?_, trivial⟩
    · rw [Function.update_of_ne (Nat.ne_of_lt (Nat.lt_succ_self order)), Function.update_self]
      exact mergePairs_unpaired _ sorted
        (fun o inside => inv.aligned order o (perm.mem_iff.mp inside))
    · intro o other above
      rw [Function.update_of_ne above, Function.update_of_ne other]

theorem coalesceUntil_unpaired {target : Nat}
    (inv : Carved b.toBuddyGeometry b.free hand outstanding) (bounded : target <= b.maxOrder) :
    (forall o, o < target -> b.Unpaired o ((b.coalesceUntil target).free o)) /\
    (b.coalesceUntil target).needsCoalesce = b.needsCoalesce := by
  induction target with
  | zero => exact ⟨fun _ less => absurd less (Nat.not_lt_zero _), rfl⟩
  | succ target ih =>
    rcases ih (Nat.le_of_succ_le bounded) with ⟨unpaired, flag⟩
    rcases coalesceUntil_carved inv (Nat.le_of_succ_le bounded) with ⟨same, carved⟩
    have last : b.coalesceUntil (target + 1) = (b.coalesceUntil target).coalesceOrder target := by
      rw [coalesceUntil, List.range_succ, List.foldl_append]
      rfl
    rw [<- same] at carved
    rcases coalesceOrder_unpaired carved target (by
      rw [same]
      exact bounded) with ⟨here, elsewhere, kept⟩
    rw [same] at here
    rw [last]
    refine ⟨fun o less => ?_, kept.trans flag⟩
    by_cases top : o = target
    · subst top
      exact here
    · rw [elsewhere o top (by omega)]
      exact unpaired o (by omega)

theorem findOrder_none {order o : Nat} (result : b.findOrder order = none) (le : order <= o)
    (bounded : o <= b.maxOrder) : b.free o = [] := by
  have test := List.find?_eq_none.mp result o (List.mem_range'_1.mpr ⟨le, by omega⟩)
  simpa using test

/-- A clear flag means that no order below the largest has two free buddies. -/
def Settled (b : BuddyAllocator) : Prop :=
  b.needsCoalesce = false -> forall o, o < b.maxOrder -> b.Unpaired o (b.free o)

theorem settled_of_initialFree (initial : b.free = b.initialFree) :
    b.Settled := by
  intro _ o less
  rw [initial, BuddyGeometry.initialFree, Function.update_of_ne (Nat.ne_of_lt less)]
  exact BuddyGeometry.unpaired_nil

/-- The search clears the flag only where the merge has left no pair, and when it
finds nothing there is neither a block of the order nor a pair below it. -/
theorem searchOrder_settled (inv : Carved b.toBuddyGeometry b.free [] outstanding)
    (settled : b.Settled) (bounded : order <= b.maxOrder) :
    (b.searchOrder order).2.Settled /\
    ((b.searchOrder order).1 = none ->
      (forall o, order <= o -> o <= b.maxOrder -> (b.searchOrder order).2.free o = []) /\
      forall o, o < order -> b.Unpaired o ((b.searchOrder order).2.free o)) := by
  unfold searchOrder
  split
  · exact ⟨settled, fun nothing => by cases nothing⟩
  · next first =>
    split
    · next flag =>
      rcases coalesceUntil_carved inv bounded with ⟨same, _⟩
      rcases coalesceUntil_unpaired inv bounded with ⟨unpaired, kept⟩
      dsimp only
      split
      · refine ⟨fun cleared => ?_, fun nothing => by cases nothing⟩
        rw [kept, flag] at cleared
        cases cleared
      · next second =>
        have empty : forall o, order <= o -> o <= b.maxOrder ->
            (b.coalesceUntil order).free o = [] :=
          fun o le top => findOrder_none second le (same ▸ top)
        refine ⟨fun _ o less => ?_, fun _ => ⟨empty, unpaired⟩⟩
        change (b.coalesceUntil order).toBuddyGeometry.Unpaired o ((b.coalesceUntil order).free o)
        change o < (b.coalesceUntil order).maxOrder at less
        rw [same] at less ⊢
        rcases Nat.lt_or_ge o order with below | above
        · exact unpaired o below
        · rw [empty o above (Nat.le_of_lt less)]
          exact BuddyGeometry.unpaired_nil
    · next flag =>
      refine ⟨settled, fun _ => ⟨fun o le top => findOrder_none first le top, fun o less => ?_⟩⟩
      exact settled (Bool.not_eq_true _ ▸ flag) o (less.trans_le bounded)

/-- The upper half of a block in hand has no free buddy: the lower half is in
hand, and an upper half is not the lower half of anything. -/
theorem unpaired_concat {free : Nat -> List Nat} {offset : Nat}
    (inv : Carved geometry free (⟨offset, geometry.blockSize (order + 1)⟩ :: hand) outstanding)
    (aligned : geometry.blockSize (order + 1) ∣ offset) (bounded : order <= geometry.maxOrder)
    (unpaired : geometry.Unpaired order (free order)) :
    geometry.Unpaired order (free order ++ [offset + geometry.blockSize order]) := by
  have positive := geometry.blockSize_pos order
  have absent := inv.not_mem_free (geometry.blockSize_pos _) bounded
  intro left inside lower upper
  rcases List.mem_append.mp inside with old | new
  · rcases List.mem_append.mp upper with old' | new'
    · exact unpaired left old lower old'
    · have same : left = offset := by
        have equal := List.mem_singleton.mp new'
        omega
      exact absent (same ▸ old)
  · rw [List.mem_singleton.mp new] at lower
    have halves := Nat.le_of_dvd positive ((Nat.dvd_add_right aligned).mp lower)
    rw [geometry.blockSize_succ] at halves
    omega

theorem splitDown_unpaired {offset found : Nat}
    (inv : Carved b.toBuddyGeometry b.free (⟨offset, b.blockSize found⟩ :: hand) outstanding)
    (aligned : b.blockSize found ∣ offset) (bounded : found <= b.maxOrder)
    (unpaired : forall o, o < b.maxOrder -> b.Unpaired o (b.free o)) (order : Nat) :
    forall o, o < b.maxOrder -> b.Unpaired o ((splitDown offset order found b).free o) := by
  induction found generalizing b with
  | zero => exact unpaired
  | succ found ih =>
    unfold splitDown
    by_cases larger : order < found + 1
    · rw [if_pos larger]
      have half : b.blockSize found ∣ offset :=
        (b.blockSize_dvd (Nat.le_succ found)).trans aligned
      have upper : b.blockSize found ∣ offset + b.blockSize found :=
        (Nat.dvd_add_left (Nat.dvd_refl _)).mpr half
      refine ih (b := b.push found (offset + b.blockSize found))
        (inv.cut.push (Nat.le_of_succ_le bounded) upper) half (Nat.le_of_succ_le bounded) ?_
      intro o less
      change b.Unpaired o (Function.update b.free found (b.free found ++ _) o)
      by_cases same : o = found
      · subst same
        rw [Function.update_self]
        exact unpaired_concat inv aligned (Nat.le_of_succ_le bounded) (unpaired o less)
      · rw [Function.update_of_ne same]
        exact unpaired o less
    · rw [if_neg larger]
      exact unpaired

theorem needsCoalesce_splitDown (b : BuddyAllocator) (offset order found : Nat) :
    (splitDown offset order found b).needsCoalesce = b.needsCoalesce := by
  induction found generalizing b with
  | zero => rfl
  | succ found ih =>
    unfold splitDown
    split
    · exact ih (b.push found (offset + b.blockSize found))
    · rfl

end BuddyAllocator

/-! ## Requests -/

namespace BuddyInv

variable {b : BuddyAllocator} {arena : Arena} {mem : Memory} {outstanding : List Allocation}
  {size : Nat}

/-- A request within the limits fails exactly when the search does: a stack that
the search found is not empty. -/
theorem alloc_none_iff_search (inv : BuddyInv b arena mem outstanding) (positive : 1 <= size)
    (fits : size + allocatorHeaderSize <= b.maxBlock) :
    (b.alloc arena mem size).1 = none <->
      (b.searchOrder (b.orderFor (size + allocatorHeaderSize))).1 = none := by
  have accepted : ¬ (arena.len ≠ b.arenaSize \/ size = 0 \/
      size > b.maxBlock - allocatorHeaderSize) := by
    have same := inv.arena_len
    omega
  have bounded := orderFor_le_maxOrder (fun large => accepted (Or.inr (Or.inr large)))
  rcases BuddyAllocator.searchOrder_carved inv.carved bounded with ⟨_, _, nonempty⟩
  rw [BuddyAllocator.alloc, if_neg accepted]
  dsimp only
  generalize b.searchOrder (b.orderFor (size + allocatorHeaderSize)) = search at nonempty ⊢
  rcases search with ⟨found, searched⟩
  cases found with
  | none => simp
  | some found =>
    rcases nonempty found rfl with ⟨_, _, some⟩
    dsimp only at some ⊢
    split
    · next top => exact absurd (List.getLast?_eq_none_iff.mp top) some
    · simp

/-- A range inside the arena that no outstanding block touches. -/
def Vacant (outstanding : List Allocation) (span : Span) : Prop :=
  ∀ a ∈ outstanding, forall x, a.span.Contains x -> ¬ span.Contains x

theorem search_none_iff {order : Nat} (inv : BuddyInv b arena mem outstanding)
    (settled : b.Settled) (bounded : order <= b.maxOrder) :
    (b.searchOrder order).1 = none <-> forall start, b.blockSize order ∣ start ->
      start + b.blockSize order <= b.arenaSize ->
      ¬ Vacant outstanding ⟨start, b.blockSize order⟩ := by
  rcases BuddyAllocator.searchOrder_carved inv.carved bounded with ⟨same, carved, nonempty⟩
  rcases BuddyAllocator.searchOrder_settled inv.carved settled bounded with ⟨_, exhausted⟩
  constructor
  · intro nothing start aligned inside vacant
    rcases exhausted nothing with ⟨empty, unpaired⟩
    rcases carved.exists_block bounded unpaired aligned inside vacant with
      ⟨o, le, top, offset, listed, _⟩
    rw [empty o le top] at listed
    cases listed
  · intro occupied
    cases result : (b.searchOrder order).1 with
    | none => rfl
    | some found =>
      rcases nonempty found result with ⟨le, top, some⟩
      rcases carved.pop top (List.getLast?_eq_some_getLast some) with ⟨popped, aligned⟩
      have positive := b.blockSize_pos found
      have smaller := Nat.le_of_dvd positive (b.blockSize_dvd le)
      have inside := popped.tiles.end_le List.mem_cons_self positive
      refine absurd ?_ (occupied _ ((b.blockSize_dvd le).trans aligned)
        (Nat.le_trans (Nat.add_le_add_left smaller _) inside))
      intro a held x contains within
      have apart := popped.tiles.apart (List.mem_append_right _ (List.mem_append_right _
        (List.mem_map_of_mem held))) positive (span_pos a)
      simp only [Span.Apart, Span.Contains] at apart contains within
      omega

theorem alloc_none_iff (inv : BuddyInv b arena mem outstanding) (settled : b.Settled)
    (positive : 1 <= size) (fits : size + allocatorHeaderSize <= b.maxBlock) :
    (b.alloc arena mem size).1 = none <-> forall start,
      b.blockSize (b.orderFor (size + allocatorHeaderSize)) ∣ start ->
      start + b.blockSize (b.orderFor (size + allocatorHeaderSize)) <= b.arenaSize ->
      ¬ Vacant outstanding ⟨start, b.blockSize (b.orderFor (size + allocatorHeaderSize))⟩ := by
  rw [inv.alloc_none_iff_search positive fits]
  refine inv.search_none_iff settled ?_
  rw [b.orderFor_le_iff, b.blockSize_maxOrder]
  exact fits

theorem alloc_settled (inv : BuddyInv b arena mem outstanding) (settled : b.Settled) (size : Nat) :
    (b.alloc arena mem size).2.1.Settled := by
  unfold BuddyAllocator.alloc
  split
  · exact settled
  · next accepted =>
    have bounded := orderFor_le_maxOrder (fun large => accepted (Or.inr (Or.inr large)))
    rcases BuddyAllocator.searchOrder_carved inv.carved bounded with ⟨same, carved, nonempty⟩
    rcases BuddyAllocator.searchOrder_settled inv.carved settled bounded with ⟨searched, _⟩
    dsimp only
    generalize b.orderFor (size + allocatorHeaderSize) = order at *
    generalize b.searchOrder order = search at *
    rcases search with ⟨found, after⟩
    cases found with
    | none => exact searched
    | some found =>
      rcases nonempty found rfl with ⟨le, top, _⟩
      dsimp only at same carved searched ⊢
      split
      · exact searched
      · next offset last =>
        rcases after with ⟨geometry, free, needsCoalesce⟩
        dsimp only at same carved searched last
        subst same
        rcases carved.pop top last with ⟨popped, aligned⟩
        intro cleared
        rw [BuddyAllocator.needsCoalesce_splitDown] at cleared
        have unpaired := searched cleared
        have splitSame := (BuddyAllocator.splitDown_carved
          (b := ⟨b.toBuddyGeometry, Function.update free found (free found).dropLast,
            needsCoalesce⟩) popped aligned le top).1
        have popUnpaired : forall o, o < b.maxOrder ->
            b.Unpaired o (Function.update free found (free found).dropLast o) := by
          intro o less
          by_cases here : o = found
          · subst here
            rw [Function.update_self]
            exact (unpaired o less).of_subset (List.dropLast_subset _)
          · rw [Function.update_of_ne here]
            exact unpaired o less
        rw [splitSame]
        exact BuddyAllocator.splitDown_unpaired
          (b := ⟨b.toBuddyGeometry, Function.update free found (free found).dropLast,
            needsCoalesce⟩) popped aligned top popUnpaired order

end BuddyInv

namespace BuddyAllocator

variable {b : BuddyAllocator} {arena : Arena} {mem : Memory}

/-- A freed block may have a free buddy, which is what the flag is raised for;
a block of the largest order has none. -/
theorem release_settled (settled : b.Settled) (arena : Arena) (mem : Memory)
    (blockOffset order : Nat) :
    (b.release arena mem blockOffset order).1.Settled := by
  intro cleared o less
  change (b.needsCoalesce || decide (order < b.maxOrder)) = false at cleared
  rw [Bool.or_eq_false_iff, decide_eq_false_iff_not] at cleared
  change o < b.maxOrder at less
  change b.Unpaired o (Function.update b.free order (b.free order ++ [blockOffset]) o)
  rw [Function.update_of_ne (by omega)]
  exact settled cleared.1 o less

theorem free_newWithBlockSize {arenaSize minBlock maxBlock : UInt64}
    (built : newWithBlockSize arenaSize minBlock maxBlock = .ok b) : b.free = b.initialFree := by
  unfold newWithBlockSize at built
  dsimp only at built
  split_ifs at built
  cases built
  rfl

end BuddyAllocator

/-! ## Runs -/

namespace BuddyState

/-- The largest block size is the one the allocator was built with, and the flag
keeps its promise. -/
structure Complete (maxBlock : Nat) (s : BuddyState) : Prop where
  max_eq : s.allocator.maxBlock = maxBlock
  settled : s.allocator.Settled

variable {base arenaSize minBlock maxBlock : Nat} {s t : BuddyState}

theorem Complete.step {action : BuddyAction} (complete : Complete maxBlock s)
    (inv : Inv base arenaSize minBlock s)
    (moved : s.step ⟨base, arenaSize⟩ action = some t) : Complete maxBlock t := by
  cases action with
  | alloc size =>
    have settled := inv.buddy.alloc_settled complete.settled size
    simp only [BuddyState.step] at moved
    split at moved
    · next allocator mem result =>
      cases moved
      rcases inv.buddy.alloc_none result with ⟨same, _⟩
      rw [result] at settled
      exact ⟨same ▸ complete.max_eq, settled⟩
    · next a allocator mem result =>
      cases moved
      rcases inv.buddy.alloc_some result with ⟨same, _⟩
      rw [result] at settled
      exact ⟨same ▸ complete.max_eq, settled⟩
  | free a =>
    rcases of_guarded moved with ⟨_, rfl⟩
    cases result : s.allocator.freeAllocation ⟨base, arenaSize⟩ s.mem a with
    | error err => exact complete
    | ok freed =>
      rcases BuddyAllocator.freeAllocation_eq_ok result with ⟨order, rfl⟩
      exact ⟨complete.max_eq,
        BuddyAllocator.release_settled complete.settled ⟨base, arenaSize⟩ s.mem _ order⟩
  | freeAt a =>
    rcases of_guarded moved with ⟨_, rfl⟩
    cases result : s.allocator.freeAt ⟨base, arenaSize⟩ s.mem a.dataOffset with
    | error err => exact complete
    | ok freed =>
      rcases BuddyAllocator.freeAt_eq_ok result with ⟨order, rfl⟩
      exact ⟨complete.max_eq,
        BuddyAllocator.release_settled complete.settled ⟨base, arenaSize⟩ s.mem _ order⟩
  | reset =>
    simp only [BuddyState.step, BuddyAllocator.reset, Option.ite_none_right_eq_some] at moved
    rcases moved with ⟨_, result⟩
    split at result
    · cases result
      exact complete
    · next allocator done =>
      cases result
      split at done
      · cases done
      · cases done
        exact ⟨complete.max_eq, BuddyAllocator.settled_of_initialFree rfl⟩
  | write a index value =>
    rcases of_guarded moved with ⟨_, rfl⟩
    exact ⟨complete.max_eq, complete.settled⟩

theorem complete_of_reachable {arenaSize minBlock maxBlock : UInt64}
    (reachable : (buddySystem base arenaSize minBlock maxBlock).Reachable s) :
    Complete maxBlock.toNat s := by
  refine reachable.invariant ?_ ?_
  · rintro start ⟨built, _⟩
    rcases buddyInv_new built base start.mem with ⟨⟨_, _, maxEq⟩, _⟩
    exact ⟨maxEq, BuddyAllocator.settled_of_initialFree
      (BuddyAllocator.free_newWithBlockSize built)⟩
  · intro s a t earlier _ moved complete
    exact complete.step (inv_of_reachable earlier) moved

/-! ## Taking every largest block -/

/-- Everything outstanding is a whole root, and no root is out twice. -/
structure Rooted (maxBlock : Nat) (s : BuddyState) : Prop where
  whole : ∀ a ∈ s.outstanding, a.span = ⟨a.blockOffset / maxBlock * maxBlock, maxBlock⟩
  distinct : (s.outstanding.map (fun a => a.blockOffset / maxBlock)).Nodup

theorem Rooted.root_lt (rooted : Rooted maxBlock s) (inv : Inv base arenaSize minBlock s)
    (positive : 0 < maxBlock) {a : Allocation} (held : a ∈ s.outstanding) :
    a.blockOffset / maxBlock < arenaSize / maxBlock := by
  have inside := inv.buddy.end_le held
  have size := congrArg Span.size (rooted.whole a held)
  simp only [Allocation.span] at size
  rw [size, inv.arena_eq] at inside
  have step := Nat.div_le_div_right (c := maxBlock) inside
  rw [Nat.add_div_right _ positive] at step
  exact step

theorem Rooted.alloc (rooted : Rooted maxBlock s) (inv : Inv base arenaSize minBlock s)
    (complete : Complete maxBlock s)
    (left : s.outstanding.length < arenaSize / maxBlock) :
    Exists fun t => s.step ⟨base, arenaSize⟩ (.alloc (maxBlock - allocatorHeaderSize)) = some t /\
      Rooted maxBlock t /\ t.outstanding.length = s.outstanding.length + 1 := by
  have geometry := complete.max_eq
  have header := s.allocator.header_lt_blockSize s.allocator.maxOrder
  rw [s.allocator.blockSize_maxOrder, geometry] at header
  have positive : 0 < maxBlock := Nat.zero_lt_of_lt header
  have request : maxBlock - allocatorHeaderSize + allocatorHeaderSize = s.allocator.maxBlock := by
    omega
  have order : s.allocator.blockSize (s.allocator.orderFor s.allocator.maxBlock) = maxBlock := by
    have least := (s.allocator.orderFor_le_iff s.allocator.maxBlock _).mp (Nat.le_refl _)
    have most : s.allocator.orderFor s.allocator.maxBlock <= s.allocator.maxOrder := by
      rw [s.allocator.orderFor_le_iff, s.allocator.blockSize_maxOrder]
    have smaller := Nat.le_of_dvd (s.allocator.blockSize_pos _) (s.allocator.blockSize_dvd most)
    rw [s.allocator.blockSize_maxOrder] at smaller
    omega
  -- some root is not among those that are out
  have free : Exists fun root => root < arenaSize / maxBlock /\
      root ∉ s.outstanding.map (fun a => a.blockOffset / maxBlock) := by
    by_contra none
    have all : List.range (arenaSize / maxBlock) ⊆
        s.outstanding.map (fun a => a.blockOffset / maxBlock) := by
      intro root listed
      by_contra missing
      exact none ⟨root, List.mem_range.mp listed, missing⟩
    have count := (List.subperm_of_subset List.nodup_range all).length_le
    rw [List.length_range, List.length_map] at count
    omega
  rcases free with ⟨root, below, missing⟩
  have succeeds : (s.allocator.alloc ⟨base, arenaSize⟩ s.mem
      (maxBlock - allocatorHeaderSize)).1 ≠ none := by
    intro failed
    have occupied := (inv.buddy.alloc_none_iff complete.settled (by omega)
      (Nat.le_of_eq request)).mp failed (root * maxBlock)
    rw [request, order] at occupied
    have inside : root * maxBlock + maxBlock <= s.allocator.arenaSize := by
      have rows := Nat.mul_le_mul_right maxBlock below
      have rest := Nat.div_mul_le_self arenaSize maxBlock
      rw [inv.arena_eq]
      rw [Nat.succ_mul] at rows
      omega
    apply occupied (Nat.dvd_mul_left _ _) inside
    intro a held x contains within
    rw [rooted.whole a held] at contains
    apply missing
    rw [List.mem_map]
    refine ⟨a, held, ?_⟩
    have first := Nat.div_eq_of_lt_le contains.1 (by
      have upper := contains.2
      simp only at upper
      rw [Nat.succ_mul]
      exact upper)
    have second := Nat.div_eq_of_lt_le within.1 (by
      have upper := within.2
      simp only at upper
      rw [Nat.succ_mul]
      exact upper)
    exact first.symm.trans second
  cases result : s.allocator.alloc ⟨base, arenaSize⟩ s.mem (maxBlock - allocatorHeaderSize) with
  | mk allocation rest =>
    rcases rest with ⟨allocator, mem⟩
    cases allocation with
    | none =>
      rw [result] at succeeds
      exact absurd rfl succeeds
    | some a =>
      rcases inv.buddy.alloc_some result with ⟨_, placed, _, buddy, _⟩
      have size : a.cap + allocatorHeaderSize = maxBlock := by
        rw [placed.cap_eq, request, order]
      have aligned : maxBlock ∣ a.blockOffset := by
        have dvd := placed.aligned
        rwa [request, order] at dvd
      have whole : a.span = ⟨a.blockOffset / maxBlock * maxBlock, maxBlock⟩ := by
        rw [Allocation.span, size, Nat.div_mul_cancel aligned]
      refine ⟨_, by simp only [BuddyState.step, result]; rfl, ⟨?_, ?_⟩, rfl⟩
      · intro other member
        rcases List.mem_cons.mp member with rfl | old
        · exact whole
        · exact rooted.whole other old
      · rw [List.map_cons, List.nodup_cons]
        refine ⟨?_, rooted.distinct⟩
        intro listed
        rcases List.mem_map.mp listed with ⟨other, old, same⟩
        have listed : other ∈ (a :: s.outstanding).erase a := by simpa using old
        have apart := buddy.apart List.mem_cons_self listed
        rw [whole, rooted.whole other old, same] at apart
        simp only [Span.Apart] at apart
        omega

/-- From a state with some roots out, the remaining ones can be taken one after
the other. -/
theorem Rooted.run {arenaSize minBlock maxBlock : UInt64} (count : Nat)
    (reachable : (buddySystem base arenaSize minBlock maxBlock).Reachable s)
    (rooted : Rooted maxBlock.toNat s)
    (left : s.outstanding.length + count = arenaSize.toNat / maxBlock.toNat) :
    Exists fun t => (buddySystem base arenaSize minBlock maxBlock).run (fun _ _ => True) s
        (List.replicate count (.alloc (maxBlock.toNat - allocatorHeaderSize))) = some t /\
      (buddySystem base arenaSize minBlock maxBlock).Reachable t /\ Rooted maxBlock.toNat t /\
      t.outstanding.length = arenaSize.toNat / maxBlock.toNat := by
  induction count generalizing s with
  | zero => exact ⟨s, rfl, reachable, rooted, left⟩
  | succ count ih =>
    rcases rooted.alloc (inv_of_reachable reachable)
      (complete_of_reachable reachable) (by omega) with ⟨t, moved, next, longer⟩
    rcases ih
      (.next (a := .alloc (maxBlock.toNat - allocatorHeaderSize)) reachable trivial moved)
      next (by omega) with ⟨u, ran, rest⟩
    refine ⟨u, ?_, rest⟩
    rw [List.replicate_succ, System.run, if_pos trivial]
    exact Option.bind_eq_some_iff.mpr ⟨t, moved, ran⟩

end BuddyState

/-- In every state of an arena in use, a request within the limits fails exactly
when every aligned range of its block size holds a byte of an outstanding block.
When nothing is outstanding, as many largest blocks as there are roots can be
taken, one from each root. -/
theorem buddy_complete {base : Nat} {arenaSize minBlock maxBlock : UInt64} {s : BuddyState}
    (reachable : (buddySystem base arenaSize minBlock maxBlock).Reachable s) :
    (forall size order, 1 <= size -> size + 8 <= maxBlock.toNat ->
      size + 8 <= minBlock.toNat <<< order ->
      (forall smaller, size + 8 <= minBlock.toNat <<< smaller -> order <= smaller) ->
      ((s.allocator.alloc ⟨base, arenaSize.toNat⟩ s.mem size).1 = none <->
        forall start, minBlock.toNat <<< order ∣ start ->
          start + (minBlock.toNat <<< order) <= arenaSize.toNat ->
          ∃ a ∈ s.outstanding, Exists fun x => a.span.Contains x /\
            (Span.mk start (minBlock.toNat <<< order)).Contains x)) /\
    (s.outstanding = [] -> Exists fun t =>
      (buddySystem base arenaSize minBlock maxBlock).run (fun _ _ => True) s
        (List.replicate (arenaSize.toNat / maxBlock.toNat) (.alloc (maxBlock.toNat - 8))) =
          some t /\
      forall root, root < arenaSize.toNat / maxBlock.toNat ->
        ∃ a ∈ t.outstanding, a.span = ⟨root * maxBlock.toNat, maxBlock.toNat⟩) := by
  have inv := BuddyState.inv_of_reachable reachable
  have complete := BuddyState.complete_of_reachable reachable
  have sizes : forall order, s.allocator.blockSize order = minBlock.toNat <<< order :=
    fun order => by rw [BuddyGeometry.blockSize, inv.min_eq]
  refine ⟨?_, ?_⟩
  · intro size order positive fits holds least
    have sameOrder : s.allocator.orderFor (size + allocatorHeaderSize) = order := by
      apply Nat.le_antisymm
      · rw [s.allocator.orderFor_le_iff, sizes]
        exact holds
      · apply least
        rw [<- sizes]
        exact (s.allocator.orderFor_le_iff _ _).mp (Nat.le_refl _)
    rw [inv.buddy.alloc_none_iff complete.settled positive (complete.max_eq ▸ fits), sameOrder,
      sizes, inv.arena_eq]
    refine forall_congr' fun start => forall_congr' fun _ => forall_congr' fun _ => ?_
    rw [BuddyInv.Vacant]
    push Not
    exact Iff.rfl
  · intro empty
    have rooted : BuddyState.Rooted maxBlock.toNat s := by
      constructor <;> rw [empty]
      · exact fun _ none => by cases none
      · exact List.nodup_nil
    rcases rooted.run
      (arenaSize.toNat / maxBlock.toNat) reachable (by rw [empty]; exact Nat.zero_add _) with
      ⟨t, ran, reached, rooted, full⟩
    refine ⟨t, ran, fun root below => ?_⟩
    have positive : 0 < maxBlock.toNat := by
      by_contra zero
      rw [Nat.eq_zero_of_not_pos zero, Nat.div_zero] at below
      cases below
    have subset : t.outstanding.map (fun a => a.blockOffset / maxBlock.toNat) ⊆
        List.range (arenaSize.toNat / maxBlock.toNat) := by
      intro index member
      rcases List.mem_map.mp member with ⟨a, held, rfl⟩
      exact List.mem_range.mpr
        (rooted.root_lt (BuddyState.inv_of_reachable reached) positive held)
    have perm := (List.subperm_of_subset rooted.distinct subset).perm_of_length_le (by
      rw [List.length_range, List.length_map, full])
    rcases List.mem_map.mp (perm.mem_iff.mpr (List.mem_range.mpr below)) with ⟨a, held, same⟩
    exact ⟨a, held, by rw [rooted.whole a held, same]⟩

/-- Four small blocks are taken from a four-block arena and two that are not
buddies are given back: a request for two blocks fails.  Once all four are back,
the whole arena can be taken. -/
theorem buddy_complete_fragmented :
    (Exists fun s => (buddySystem 0 64 16 64).Reachable s /\
      s.outstanding.map Allocation.span = [⟨48, 16⟩, ⟨16, 16⟩] /\
      (s.allocator.alloc ⟨0, 64⟩ s.mem 20).1 = none /\
      forall start, 32 ∣ start -> start + 32 <= 64 ->
        ∃ a ∈ s.outstanding, Exists fun x => a.span.Contains x /\ (Span.mk start 32).Contains x) /\
    Exists fun s => (buddySystem 0 64 16 64).Reachable s /\ s.outstanding = [] /\
      s.allocator.free 0 = [0, 32, 16, 48] /\
      Exists fun t => (buddySystem 0 64 16 64).run (fun _ _ => True) s [.alloc 56] = some t /\
        ∃ a ∈ t.outstanding, a.span = ⟨0, 64⟩ := by
  let start : BuddyState :=
    ⟨(BuddyAllocator.newWithBlockSize 64 16 64).toOption.get (by decide), fun _ => 0, []⟩
  refine ⟨?_, ?_⟩
  · have found : Exists fun s => (buddySystem 0 64 16 64).Reachable s /\
        (s.outstanding.map Allocation.span = [⟨48, 16⟩, ⟨16, 16⟩] /\
          (s.allocator.alloc ⟨0, 64⟩ s.mem 20).1 = none) :=
      System.exists_reachable_of_run start
        [.alloc 8, .alloc 8, .alloc 8, .alloc 8, .freeAt ⟨0, 8, 8, 8⟩, .free ⟨32, 40, 8, 8⟩]
        ⟨rfl, rfl⟩ (by decide +kernel)
    rcases found with ⟨s, reachable, shape, failed⟩
    exact ⟨s, reachable, shape, failed, ((buddy_complete reachable).1 20 1 (by decide) (by decide)
      (by decide) (by intro smaller holds; cases smaller with
        | zero => exact absurd holds (by decide)
        | succ smaller => exact Nat.succ_le_succ (Nat.zero_le _))).mp failed⟩
  · have found : Exists fun s => (buddySystem 0 64 16 64).Reachable s /\
        (s.outstanding = [] /\ s.allocator.free 0 = [0, 32, 16, 48]) :=
      System.exists_reachable_of_run start
        [.alloc 8, .alloc 8, .alloc 8, .alloc 8, .freeAt ⟨0, 8, 8, 8⟩, .free ⟨32, 40, 8, 8⟩,
          .freeAt ⟨16, 24, 8, 8⟩, .free ⟨48, 56, 8, 8⟩] ⟨rfl, rfl⟩ (by decide +kernel)
    rcases found with ⟨s, reachable, empty, free⟩
    rcases (buddy_complete reachable).2 empty with ⟨t, ran, roots⟩
    exact ⟨s, reachable, empty, free, t, ran, roots 0 (by decide)⟩

end V5
end Shmipc
