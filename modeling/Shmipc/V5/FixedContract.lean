import Shmipc.Base.Transition
import Shmipc.V5.Fixed

namespace Shmipc
namespace V5

open ByteMemory Tiling Transition

/-!
# The contract of the fixed-size allocator

Whether a block may be given back is read off its header.  In a zeroed arena
the magic number stands at the blocks that are out and at no others: a holder
reaches the payload of its block only, and no block boundary lies inside a
block.  So any offset may be presented for release, whatever the payloads hold.
-/

/-- An arena with its allocator.  The outstanding blocks are a ghost record. -/
structure FixedState where
  allocator : FixedAllocator
  mem : Memory
  outstanding : List Allocation

inductive FixedAction
  | alloc (size : Nat)
  | freeAt (dataOffset : Nat)
  | write (allocation : Allocation) (index : Nat) (value : UInt8)
  | reset
  deriving DecidableEq

namespace FixedState

def step (arena : Arena) (s : FixedState) : FixedAction -> Option FixedState
  | .alloc size =>
    match s.allocator.alloc arena s.mem size with
    | (none, allocator, mem) => some { s with allocator := allocator, mem := mem }
    | (some a, allocator, mem) =>
      some { allocator := allocator, mem := mem, outstanding := a :: s.outstanding }
  | .freeAt dataOffset =>
    match s.allocator.freeAt arena s.mem dataOffset with
    | .error _ => some s
    | .ok (allocator, mem) =>
      some { allocator := allocator, mem := mem, outstanding := forget s.outstanding dataOffset }
  | .write a index value =>
    -- a holder reaches the payload of its block, and nothing else
    if a ∈ s.outstanding /\ index < a.cap then
      some { s with mem := Function.update s.mem (arena.base + a.dataOffset + index) value }
    else none
  | .reset =>
    if s.outstanding = [] then
      match s.allocator.reset arena with
      | .error _ => some s
      | .ok allocator => some { s with allocator := allocator }
    else none

end FixedState

/-- An arena of `arenaLen` zeroed bytes at `base`, split into the given classes. -/
def fixedSystem (base arenaLen : Nat) (classes : List SizePercentPair) :
    System FixedState FixedAction where
  init s := FixedAllocator.newFromConfig arenaLen classes = .ok s.allocator /\
    (forall x, base <= x -> x < base + arenaLen -> s.mem x = 0) /\ s.outstanding = []
  step := FixedState.step ⟨base, arenaLen⟩

/-! ## The choice of a class -/

/-- The classes in the order in which they are tried. -/
def SizeClass.rank : SizeClass -> Nat
  | .small => 0
  | .medium => 1
  | .large => 2

namespace FixedAllocator

variable {f f' : FixedAllocator} {arena : Arena} {mem mem' : Memory} {c c' : SizeClass}
  {offset size : Nat} {classes : List SizeClass}

theorem allocFromClasses_eq_none :
    f.allocFromClasses classes = none <-> ∀ c ∈ classes, f.freeLists c = [] := by
  induction classes with
  | nil => exact ⟨fun _ _ member => absurd member List.not_mem_nil, fun _ => rfl⟩
  | cons c rest ih =>
    rw [allocFromClasses, List.forall_mem_cons]
    cases top : (f.freeLists c).getLast? with
    | none =>
      rw [List.getLast?_eq_none_iff] at top
      exact ih.trans ⟨fun later => ⟨top, later⟩, fun both => both.2⟩
    | some offset =>
      constructor
      · intro found
        cases found
      · rintro ⟨empty, _⟩
        rw [empty] at top
        cases top

/-- The class that serves a request comes before every other asked one with a
free block. -/
theorem allocFromClasses_least (ordered : classes.Pairwise fun c c' => c.rank < c'.rank)
    (found : f.allocFromClasses classes = some (c, offset, f')) :
    ∀ c' ∈ classes, f.freeLists c' ≠ [] -> c.rank <= c'.rank := by
  induction classes with
  | nil => cases found
  | cons first rest ih =>
    rw [List.pairwise_cons] at ordered
    intro c' member filled
    rw [allocFromClasses] at found
    cases top : (f.freeLists first).getLast? with
    | none =>
      rw [top] at found
      rcases List.mem_cons.mp member with rfl | later
      · exact absurd (List.getLast?_eq_none_iff.mp top) filled
      · exact ih ordered.2 found c' later filled
    | some offset =>
      rw [top] at found
      cases found
      rcases List.mem_cons.mp member with rfl | later
      · exact Nat.le_refl _
      · exact Nat.le_of_lt (ordered.1 c' later)

theorem mem_classesFor (layout : FixedLayout f) : c ∈ f.classesFor size <-> size <= f.usable c := by
  constructor
  · exact FixedInv.le_usable_of_mem_classesFor layout
  · intro fits
    rcases layout.ascending with ⟨lower, upper⟩
    unfold classesFor
    split
    case isTrue => cases c <;> simp
    case isFalse small =>
      split
      case isTrue => cases c <;> first | exact absurd fits small | simp
      case isFalse medium =>
        have large : c = .large := by
          cases c with
          | small => exact absurd fits small
          | medium => exact absurd fits medium
          | large => rfl
        subst large
        rw [if_pos fits]
        exact List.mem_singleton_self _

theorem classesFor_ordered (f : FixedAllocator) (size : Nat) :
    (f.classesFor size).Pairwise fun c c' => c.rank < c'.rank := by
  unfold classesFor
  split_ifs <;> decide

/-- A served request takes the top block of a class that fits, the first such
class with a free block. -/
theorem alloc_eq_some {a : Allocation} (layout : FixedLayout f)
    (result : f.alloc arena mem size = (some a, f', mem')) :
    Exists fun c => size <= f.usable c /\ (f.freeLists c).getLast? = some a.blockOffset /\
      (forall c', size <= f.usable c' -> f.freeLists c' ≠ [] -> c.rank <= c'.rank) /\
      a = ⟨a.blockOffset, a.blockOffset + allocatorHeaderSize, size, f.usable c⟩ /\
      f' = { f with freeLists := Function.update f.freeLists c (f.freeLists c).dropLast } /\
      mem' = arena.writeHeader mem a.blockOffset size := by
  unfold alloc at result
  split at result
  · cases result
  · split at result
    · cases result
    · next c offset taken found =>
      rcases FixedInv.allocFromClasses_some found with ⟨suits, top, rfl⟩
      have least := allocFromClasses_least (f.classesFor_ordered size) found
      cases result
      exact ⟨c, (mem_classesFor layout).mp suits, top,
        fun c' fits => least c' ((mem_classesFor layout).mpr fits), rfl, rfl, rfl⟩

theorem alloc_eq_none_iff (layout : FixedLayout f) (len : arena.len = f.arenaSize)
    (positive : 1 <= size) :
    (f.alloc arena mem size).1 = none <-> forall c, size <= f.usable c -> f.freeLists c = [] := by
  have drained : f.allocFromClasses (f.classesFor size) = none <->
      forall c, size <= f.usable c -> f.freeLists c = [] := by
    rw [allocFromClasses_eq_none]
    exact forall_congr' fun c => imp_congr_left (mem_classesFor layout)
  rw [<- drained, alloc, if_neg (by omega)]
  cases f.allocFromClasses (f.classesFor size) with
  | none => exact ⟨fun _ => rfl, fun _ => rfl⟩
  | some taken => exact ⟨nofun, nofun⟩

theorem isBlock_of_classForOffset (layout : FixedLayout f)
    (found : f.classForOffset offset = some c) : f.IsBlock c offset := by
  unfold classForOffset at found
  split at found
  · cases found
  · next area search =>
    split at found
    case isFalse => cases found
    case isTrue whole =>
      cases found
      have inside := List.find?_some search
      simp only [decide_eq_true_eq] at inside
      rcases Nat.dvd_of_mod_eq_zero whole with ⟨index, distance⟩
      rw [Nat.mul_comm] at distance
      have positive : 0 < f.sizes c := Nat.zero_lt_of_lt (layout.header_lt c)
      refine ⟨index, ?_, by omega⟩
      exact Nat.lt_of_mul_lt_mul_right (show index * f.sizes c < f.counts c * f.sizes c by omega)

theorem freeAt_eq_ok {dataOffset : Nat} {result : FixedAllocator × Memory}
    (freed : f.freeAt arena mem dataOffset = .ok result) :
    Exists fun c => f.classForOffset (dataOffset - allocatorHeaderSize) = some c /\
      allocatorHeaderSize <= dataOffset /\
      readWord mem (arena.base + (dataOffset - allocatorHeaderSize)) magicSize = magic /\
      result = ({ f with
        freeLists := Function.update f.freeLists c
          (f.freeLists c ++ [dataOffset - allocatorHeaderSize]) },
        arena.clearMagic mem (dataOffset - allocatorHeaderSize)) := by
  unfold freeAt at freed
  split at freed
  · cases freed
  · split at freed
    · cases freed
    · next long =>
      dsimp only at freed
      split at freed
      · cases freed
      · next c found =>
        split at freed
        · cases freed
        · next marker value header =>
          split at freed
          · cases freed
          · next live =>
            cases freed
            have read : readWord mem (arena.base + (dataOffset - allocatorHeaderSize)) magicSize =
                marker := by
              unfold Arena.readHeader at header
              split at header
              · cases header
                rfl
              · cases header
            exact ⟨c, found, Nat.not_lt.mp long, read.trans (not_not.mp live), rfl⟩

/-- A new allocator has the configured sizes and every block on its free list. -/
theorem newFromConfig_eq_ok {arenaLen : Nat} {pairs : List SizePercentPair}
    (built : newFromConfig arenaLen pairs = .ok f) :
    pairs.map SizePercentPair.size = [f.sizes .small, f.sizes .medium, f.sizes .large] /\
      f.initializeFreeLists = f := by
  unfold newFromConfig build at built
  dsimp only at built
  split at built
  · split_ifs at built
    cases built
    exact ⟨rfl, rfl⟩
  · cases built

end FixedAllocator

/-! ## Every block is in one place -/

namespace FixedState

open FixedAllocator

variable {base arenaLen : Nat} {classes : List SizePercentPair} {s t : FixedState}
  {a : Allocation} {c : SizeClass} {offset : Nat}

/-- Besides the invariant of the allocator: a block is free or outstanding, and
only the outstanding ones carry the magic number. -/
structure Contract (base arenaLen : Nat) (classes : List SizePercentPair) (s : FixedState) :
    Prop where
  configured : classes.map SizePercentPair.size =
    [s.allocator.sizes .small, s.allocator.sizes .medium, s.allocator.sizes .large]
  inv : FixedInv s.allocator ⟨base, arenaLen⟩ s.mem s.outstanding
  covered : forall c offset, s.allocator.IsBlock c offset ->
    offset ∈ s.allocator.freeLists c \/ ∃ a ∈ s.outstanding, a.blockOffset = offset
  unmarked : forall c offset, s.allocator.IsBlock c offset ->
    (∀ a ∈ s.outstanding, a.blockOffset ≠ offset) ->
    readWord s.mem (base + offset) magicSize = 0

namespace Contract

theorem freeAt_isOk_iff (contract : Contract base arenaLen classes s) (dataOffset : Nat) :
    (Exists fun result => s.allocator.freeAt ⟨base, arenaLen⟩ s.mem dataOffset = .ok result) <->
      ∃ a ∈ s.outstanding, a.dataOffset = dataOffset := by
  constructor
  · rintro ⟨result, freed⟩
    rcases freeAt_eq_ok freed with ⟨c, found, long, marker, _⟩
    have block := isBlock_of_classForOffset contract.inv.layout found
    by_contra foreign
    have dead : ∀ a ∈ s.outstanding, a.blockOffset ≠ dataOffset - allocatorHeaderSize := by
      intro a held same
      rcases contract.inv.live a held with ⟨_, placed⟩
      have data := placed.data_eq
      exact foreign ⟨a, held, by omega⟩
    rw [contract.unmarked c _ block dead] at marker
    exact absurd marker (by decide)
  · rintro ⟨a, held, rfl⟩
    rcases contract.inv.freeAt_ok held with ⟨allocator, mem, freed, _⟩
    exact ⟨_, freed⟩

/-- A change inside one block leaves the magic number of every other one alone. -/
theorem magic_kept (layout : FixedLayout s.allocator) {c' : SizeClass} {offset' start count : Nat}
    {mem : Memory} (block : s.allocator.IsBlock c offset) (block' : s.allocator.IsBlock c' offset')
    (differs : offset ≠ offset') (agree : AgreeOutside s.mem mem (base + start) count)
    (inside : offset <= start /\ start + count <= offset + s.allocator.sizes c) :
    readWord mem (base + offset') magicSize = readWord s.mem (base + offset') magicSize := by
  have apart := block.apart layout block' differs
  have header := layout.header_lt c'
  have size : allocatorHeaderSize = 8 := rfl
  have word : magicSize = 4 := rfl
  simp only [Span.Apart] at apart
  exact readWord_congr (agree.agreeOn (by omega))

theorem alloc {size : Nat} (contract : Contract base arenaLen classes s)
    (moved : s.step ⟨base, arenaLen⟩ (.alloc size) = some t) :
    Contract base arenaLen classes t := by
  simp only [FixedState.step] at moved
  split at moved
  · next allocator mem result =>
    cases moved
    rcases FixedInv.alloc_none result with ⟨rfl, rfl⟩
    exact contract
  · next a allocator mem result =>
    cases moved
    rcases contract.inv.alloc_some result with ⟨_, _, _, _, inv, agree⟩
    rcases alloc_eq_some contract.inv.layout result with ⟨c, _, top, _, _, rfl, _⟩
    have listed := List.mem_of_getLast? top
    have block := contract.inv.free_block c _ listed
    refine ⟨contract.configured, inv, fun c' offset' block' => ?_, fun c' offset' block' dead => ?_⟩
    · rcases contract.covered c' offset' block' with free | ⟨other, held, same⟩
      · by_cases taken : offset' = a.blockOffset
        · exact .inr ⟨a, List.mem_cons_self, taken.symm⟩
        · refine .inl ?_
          by_cases same : c' = c
          · subst same
            rcases List.getLast?_eq_some_iff.mp top with ⟨before, list⟩
            rw [list] at free
            dsimp only
            rw [Function.update_self, list, List.dropLast_concat]
            exact (List.mem_append.mp free).resolve_right fun last =>
              taken (List.mem_singleton.mp last)
          · dsimp only
            rwa [Function.update_of_ne same]
      · exact .inr ⟨other, List.mem_cons_of_mem _ held, same⟩
    · have differs := dead a List.mem_cons_self
      have header := contract.inv.layout.header_lt c
      rw [magic_kept contract.inv.layout block block' differs agree ⟨Nat.le_refl _, by omega⟩]
      exact contract.unmarked c' offset' block' fun other held =>
        dead other (List.mem_cons_of_mem _ held)

theorem forget_eq (contract : Contract base arenaLen classes s) (held : a ∈ s.outstanding) :
    forget s.outstanding a.dataOffset = s.outstanding.erase a := by
  rcases exists_forget_eq_erase held with ⟨first, member, offset, remaining⟩
  rcases contract.inv.live first member with ⟨_, placed⟩
  rcases contract.inv.live a held with ⟨_, placed'⟩
  have data := placed.data_eq
  have data' := placed'.data_eq
  have same : first = a := contract.inv.eq_of_blockOffset member held (by omega)
  rw [remaining, same]

theorem freeAt {dataOffset : Nat} (contract : Contract base arenaLen classes s)
    (moved : s.step ⟨base, arenaLen⟩ (.freeAt dataOffset) = some t) :
    Contract base arenaLen classes t := by
  simp only [FixedState.step] at moved
  split at moved
  · cases moved
    exact contract
  · next allocator mem result =>
    cases moved
    rcases (contract.freeAt_isOk_iff dataOffset).mp ⟨_, result⟩ with ⟨a, held, rfl⟩
    rcases contract.inv.freeAt_ok held with ⟨allocator', mem', freed, _, inv, agree⟩
    rw [result] at freed
    cases freed
    rw [contract.forget_eq held]
    rcases freeAt_eq_ok result with ⟨c, found, long, _, same⟩
    rcases contract.inv.live a held with ⟨_, placed⟩
    have start : a.dataOffset - allocatorHeaderSize = a.blockOffset := by
      have data := placed.data_eq
      omega
    rw [start] at found same
    have block := isBlock_of_classForOffset contract.inv.layout found
    rcases Prod.mk.inj same with ⟨rfl, rfl⟩
    refine ⟨contract.configured, inv, fun c' offset' block' => ?_, fun c' offset' block' dead => ?_⟩
    · rcases contract.covered c' offset' block' with free | ⟨other, live, rfl⟩
      · refine .inl ?_
        by_cases equal : c' = c
        · subst equal
          dsimp only
          rw [Function.update_self]
          exact List.mem_append_left _ free
        · dsimp only
          rwa [Function.update_of_ne equal]
      · by_cases equal : other = a
        · subst equal
          have class_eq := block'.classForOffset_eq contract.inv.layout
          rw [found] at class_eq
          cases class_eq
          refine .inl ?_
          dsimp only
          rw [Function.update_self]
          exact List.mem_append_right _ (List.mem_singleton_self _)
        · exact .inr ⟨other, (List.mem_erase_of_ne equal).mpr live, rfl⟩
    · by_cases here : a.blockOffset = offset'
      · subst here
        exact readWord_writeWord_of_lt _ _ (by decide)
      · have header := contract.inv.layout.header_lt c
        rw [magic_kept contract.inv.layout block block' here agree ⟨Nat.le_refl _, by omega⟩]
        refine contract.unmarked c' offset' block' fun other live same => ?_
        refine dead other ((List.mem_erase_of_ne fun equal => ?_).mpr live) same
        exact here (equal ▸ same)

theorem write {index : Nat} {value : UInt8} (contract : Contract base arenaLen classes s)
    (moved : s.step ⟨base, arenaLen⟩ (.write a index value) = some t) :
    Contract base arenaLen classes t := by
  rcases of_guarded moved with ⟨⟨held, bound⟩, rfl⟩
  rcases contract.inv.live a held with ⟨c, placed⟩
  have data := placed.data_eq
  have cap := placed.cap_eq
  have usable := contract.inv.layout.usable_eq c
  have header := contract.inv.layout.header_lt c
  have agree : AgreeOutside s.mem (Function.update s.mem (base + a.dataOffset + index) value)
      (base + (a.dataOffset + index)) 1 := by
    intro x outside
    exact Function.update_of_ne (by omega) _ _
  have inside : a.blockOffset <= a.dataOffset + index /\
      a.dataOffset + index + 1 <= a.blockOffset + s.allocator.sizes c := by omega
  refine ⟨contract.configured, contract.inv.of_agree fun other live => ?_, contract.covered,
    fun c' offset' block' dead => ?_⟩
  · by_cases same : other = a
    · subst same
      exact agree.agreeOn (.inl (by dsimp only; omega))
    · have apart := contract.inv.apart held live same
      simp only [Span.Apart, Allocation.span] at apart
      exact agree.agreeOn (by dsimp only; omega)
  · rw [magic_kept contract.inv.layout placed.block block' (dead a held) agree inside]
    exact contract.unmarked c' offset' block' dead

theorem reset (contract : Contract base arenaLen classes s)
    (moved : s.step ⟨base, arenaLen⟩ .reset = some t) : Contract base arenaLen classes t := by
  rcases Option.ite_none_right_eq_some.mp moved with ⟨empty, moved⟩
  have len : arenaLen = s.allocator.arenaSize := contract.inv.arena_len
  rw [FixedAllocator.reset, if_neg (fun differs => differs len)] at moved
  cases moved
  refine ⟨contract.configured, ?_,
    fun c offset block => .inl (mem_initializeFreeLists.mpr block), contract.unmarked⟩
  dsimp only
  rw [empty]
  exact FixedInv.of_initialize contract.inv.layout len s.mem

theorem step {action : FixedAction} (contract : Contract base arenaLen classes s)
    (moved : s.step ⟨base, arenaLen⟩ action = some t) : Contract base arenaLen classes t := by
  cases action with
  | alloc size => exact contract.alloc moved
  | freeAt dataOffset => exact contract.freeAt moved
  | write a index value => exact contract.write moved
  | reset => exact contract.reset moved

end Contract

theorem contract_of_reachable
    (reachable : (fixedSystem base arenaLen classes).Reachable s) :
    Contract base arenaLen classes s := by
  refine reachable.invariant ?_ (fun _ _ _ _ _ moved contract => contract.step moved)
  rintro start ⟨built, zeroed, empty⟩
  cases classes with
  | nil => cases built
  | cons small rest =>
    have inv := (fixedInv_new built base start.mem).2
    rw [<- empty] at inv
    refine ⟨(newFromConfig_eq_ok built).1, inv, fun c offset block => .inl ?_,
      fun c offset block _ => ?_⟩
    · rw [<- (newFromConfig_eq_ok built).2]
      exact mem_initializeFreeLists.mpr block
    · have header := inv.layout.header_lt c
      have bound := block.end_le inv.layout
      have len : arenaLen = start.allocator.arenaSize := inv.arena_len
      have word : magicSize = 4 := rfl
      have size : allocatorHeaderSize = 8 := rfl
      exact readWord_eq_zero fun x lower upper => zeroed x (by omega) (by omega)

namespace Contract

/-- A block stands once on its free list or once among the outstanding ones. -/
theorem count_eq_one (contract : Contract base arenaLen classes s)
    (block : s.allocator.IsBlock c offset) :
    (s.allocator.freeLists c).count offset +
      (s.outstanding.map Allocation.blockOffset).count offset = 1 := by
  have once := contract.inv.free_nodup c
  have once' := contract.inv.live_nodup
  rcases contract.covered c offset block with free | ⟨a, held, rfl⟩
  · have absent : offset ∉ s.outstanding.map Allocation.blockOffset := by
      intro live
      rcases List.mem_map.mp live with ⟨a, held, same⟩
      exact contract.inv.free_live c offset free a held same
    rw [List.count_eq_one_of_mem once free, List.count_eq_zero_of_not_mem absent]
  · have absent : a.blockOffset ∉ s.allocator.freeLists c :=
      fun free => contract.inv.free_live c _ free a held rfl
    rw [List.count_eq_zero_of_not_mem absent,
      List.count_eq_one_of_mem once' (List.mem_map_of_mem held)]

end Contract

end FixedState

/-- In every state of a zeroed arena in use, with the classes of an accepted
configuration: the areas of the classes are disjoint and inside the arena; the
free lists and the outstanding blocks are blocks of the classes, and every block
is in one of the two, once.  A request is served from the smallest class that
fits and has a free block, and fails exactly if there is none.  A release
succeeds exactly for the outstanding blocks and otherwise changes nothing. -/
theorem fixed_contract {base arenaLen : Nat} {classes : List SizePercentPair} {s : FixedState}
    (reachable : (fixedSystem base arenaLen classes).Reachable s) :
    classes.map SizePercentPair.size =
      [s.allocator.sizes .small, s.allocator.sizes .medium, s.allocator.sizes .large] /\
    (forall c, s.allocator.starts c + s.allocator.counts c * s.allocator.sizes c <= arenaLen /\
      forall c', c ≠ c' ->
        Span.Apart ⟨s.allocator.starts c, s.allocator.counts c * s.allocator.sizes c⟩
          ⟨s.allocator.starts c', s.allocator.counts c' * s.allocator.sizes c'⟩) /\
    ((forall c, ∀ offset ∈ s.allocator.freeLists c, s.allocator.IsBlock c offset) /\
      (∀ a ∈ s.outstanding, Exists fun c => s.allocator.IsBlock c a.blockOffset /\
        a.dataOffset = a.blockOffset + allocatorHeaderSize /\
        a.cap + allocatorHeaderSize = s.allocator.sizes c) /\
      forall c offset, s.allocator.IsBlock c offset ->
        (s.allocator.freeLists c).count offset +
          (s.outstanding.map Allocation.blockOffset).count offset = 1) /\
    (forall size, 1 <= size ->
      ((s.allocator.alloc ⟨base, arenaLen⟩ s.mem size).1 = none <->
        forall c, size + allocatorHeaderSize <= s.allocator.sizes c ->
          s.allocator.freeLists c = []) /\
      forall a allocator mem,
        s.allocator.alloc ⟨base, arenaLen⟩ s.mem size = (some a, allocator, mem) ->
        Exists fun c => size + allocatorHeaderSize <= s.allocator.sizes c /\
          a.blockOffset ∈ s.allocator.freeLists c /\
          forall c', size + allocatorHeaderSize <= s.allocator.sizes c' ->
            s.allocator.freeLists c' ≠ [] -> s.allocator.sizes c <= s.allocator.sizes c') /\
    forall d,
      ((Exists fun result => s.allocator.freeAt ⟨base, arenaLen⟩ s.mem d = .ok result) <->
        ∃ a ∈ s.outstanding, a.dataOffset = d) /\
      ((∀ a ∈ s.outstanding, a.dataOffset ≠ d) ->
        (fixedSystem base arenaLen classes).step s (.freeAt d) = some s) := by
  have contract := FixedState.contract_of_reachable reachable
  have layout := contract.inv.layout
  have len : arenaLen = s.allocator.arenaSize := contract.inv.arena_len
  have first := layout.first
  have second := layout.second
  have third := layout.third
  have fits : forall c size, size + allocatorHeaderSize <= s.allocator.sizes c <->
      size <= s.allocator.usable c := by
    intro c size
    have header := layout.header_lt c
    rw [layout.usable_eq c]
    omega
  have ascending : forall c c' : SizeClass, c.rank <= c'.rank ->
      s.allocator.sizes c <= s.allocator.sizes c' := by
    intro c c' below
    have small := layout.header_lt .small
    have medium := layout.header_lt .medium
    rcases layout.ascending with ⟨lower, upper⟩
    rw [layout.usable_eq, layout.usable_eq] at lower upper
    cases c <;> cases c' <;> simp only [SizeClass.rank] at below <;> omega
  refine ⟨contract.configured, fun c => ⟨?_, fun c' differs => ?_⟩,
    ⟨contract.inv.free_block, fun a held => ?_, fun c offset => contract.count_eq_one⟩,
    fun size positive => ⟨?_, fun a allocator mem result => ?_⟩, fun d => ⟨?_, fun foreign => ?_⟩⟩
  · cases c <;> omega
  · exact FixedAllocator.areas_apart layout differs
  · rcases contract.inv.live a held with ⟨c, placed⟩
    have header := layout.header_lt c
    exact ⟨c, placed.block, placed.data_eq, by rw [placed.cap_eq, layout.usable_eq]; omega⟩
  · simp only [fits]
    exact FixedAllocator.alloc_eq_none_iff layout contract.inv.arena_len positive
  · rcases FixedAllocator.alloc_eq_some layout result with ⟨c, suits, top, least, _⟩
    refine ⟨c, (fits c size).mpr suits, List.mem_of_getLast? top, fun c' suits' filled => ?_⟩
    exact ascending c c' (least c' ((fits c' size).mp suits') filled)
  · exact contract.freeAt_isOk_iff d
  · have step : (fixedSystem base arenaLen classes).step s (.freeAt d) =
        s.step ⟨base, arenaLen⟩ (.freeAt d) := rfl
    rw [step, FixedState.step]
    cases result : s.allocator.freeAt ⟨base, arenaLen⟩ s.mem d with
    | error err => rfl
    | ok pair =>
      rcases (contract.freeAt_isOk_iff d).mp ⟨pair, result⟩ with ⟨a, held, data⟩
      exact absurd data (foreign a held)

/-- Classes of 16, 32 and 32 bytes in an arena of 128, from which two small
blocks are taken: a third request goes to the next class, and the offset of the
payload inside that block is refused although its payload spells a header. -/
theorem fixed_contract_drained :
    Exists fun s => (fixedSystem 0 128 [⟨16, 25⟩, ⟨32, 50⟩, ⟨32, 25⟩]).Reachable s /\
      s.outstanding.map Allocation.blockOffset = [64, 0, 16] /\
      (s.allocator.freeLists .small).count 16 +
        (s.outstanding.map Allocation.blockOffset).count 16 = 1 /\
      (fixedSystem 0 128 [⟨16, 25⟩, ⟨32, 50⟩, ⟨32, 25⟩]).step s (.freeAt 88) = some s := by
  have found : Exists fun s =>
      (fixedSystem 0 128 [⟨16, 25⟩, ⟨32, 50⟩, ⟨32, 25⟩]).Reachable s /\
      (s.outstanding.map Allocation.blockOffset = [64, 0, 16] /\
        s.allocator.starts .small = 0 /\ s.allocator.counts .small = 2 /\
        s.allocator.sizes .small = 16 /\ ∀ a ∈ s.outstanding, a.dataOffset ≠ 88) :=
    System.exists_reachable_of_run
      ⟨(FixedAllocator.newFromConfig 128 [⟨16, 25⟩, ⟨32, 50⟩, ⟨32, 25⟩]).toOption.get (by decide),
        fun _ => 0, []⟩
      [.alloc 8, .alloc 5, .alloc 8, .write ⟨64, 72, 8, 24⟩ 8 0x0D, .write ⟨64, 72, 8, 24⟩ 9 0xF0,
        .write ⟨64, 72, 8, 24⟩ 10 0xAD, .write ⟨64, 72, 8, 24⟩ 11 0x0B]
      ⟨rfl, fun _ _ _ => rfl, rfl⟩ (by decide +kernel)
  rcases found with ⟨s, reachable, held, start, count, size, foreign⟩
  rcases fixed_contract reachable with ⟨_, _, ⟨_, _, once⟩, _, release⟩
  refine ⟨s, reachable, held, once .small 16 ⟨1, ?_, ?_⟩, (release 88).2 foreign⟩
  · rw [count]
    decide
  · rw [start, size]

end V5
end Shmipc
