import Mathlib.Data.List.Nodup
import Mathlib.Data.List.Pairwise
import Shmipc.Pool.Manager

namespace Shmipc
namespace Pool

open ByteMemory
open Buffer (bufferHeaderSize bufferListHeaderSize)

/-!
# The layout of a pool

Both processes see the same row of lists.  A list takes up a header and a row of
buffers of one capacity behind it; the lists follow each other without a gap.
The layout carries the facts that make offsets unambiguous: different headers
and buffers never overlap, and all of them lie inside the segment.
-/

/-- The process that laid the pool out, and the one that mapped it. -/
inductive Side
  | creator
  | mapper
  deriving DecidableEq

/-- Where `create` and `mapping` put the counter of a list. -/
def Side.counterOffset : Side -> Nat
  | .creator => 20
  | .mapper => 24

/-- Where a list lies and the buffers it was laid out with. -/
structure ListLayout where
  offset : Nat
  count : Nat
  cap : Nat
  deriving DecidableEq

namespace ListLayout

def stride (g : ListLayout) : Nat := g.cap + bufferHeaderSize

def region (g : ListLayout) : Nat := g.offset + bufferListHeaderSize

def regionLen (g : ListLayout) : Nat := g.count * g.stride

/-- The first byte behind the list. -/
def stop (g : ListLayout) : Nat := g.region + g.regionLen

def buffers (g : ListLayout) : List Nat :=
  (List.range g.count).map fun k => g.region + k * g.stride

/-- The view that one of the processes has of the list. -/
def view (g : ListLayout) (side : Side) : BufferList where
  size := g.offset
  cap := g.offset + 4
  head := g.offset + 8
  tail := g.offset + 12
  capPerBuffer := g.offset + 16
  counter := g.offset + side.counterOffset
  bufferRegion := g.region
  bufferRegionLen := g.regionLen
  bufferRegionOffsetInShm := g.region
  offsetInShm := g.offset

variable {g g' : ListLayout} {b b' : Nat}

theorem view_inj {side side' : Side} (same : g.view side = g'.view side') :
    g.offset = g'.offset /\ side = side' := by
  have offset : g.offset = g'.offset := congrArg BufferList.offsetInShm same
  have counter : g.offset + side.counterOffset = g'.offset + side'.counterOffset :=
    congrArg BufferList.counter same
  refine ⟨offset, ?_⟩
  cases side <;> cases side' <;> simp_all [Side.counterOffset]

theorem mem_buffers : b ∈ g.buffers <-> Exists fun k => k < g.count /\ g.region + k * g.stride = b := by
  simp [buffers]

theorem stride_pos (g : ListLayout) : bufferHeaderSize <= g.stride :=
  Nat.le_add_left ..

theorem bounds_of_mem (inside : b ∈ g.buffers) : g.region <= b /\ b + g.stride <= g.stop := by
  rcases mem_buffers.mp inside with ⟨k, below, rfl⟩
  refine ⟨Nat.le_add_right .., ?_⟩
  have whole : (k + 1) * g.stride <= g.count * g.stride := Nat.mul_le_mul_right _ below
  rw [Nat.succ_mul] at whole
  simp only [stop, regionLen]
  omega

theorem buffers_apart (inside : b ∈ g.buffers) (inside' : b' ∈ g.buffers) (different : b ≠ b') :
    b + g.stride <= b' \/ b' + g.stride <= b := by
  rcases mem_buffers.mp inside with ⟨k, _, rfl⟩
  rcases mem_buffers.mp inside' with ⟨k', _, rfl⟩
  rcases Nat.lt_trichotomy k k' with less | rfl | greater
  · have gap : (k + 1) * g.stride <= k' * g.stride := Nat.mul_le_mul_right _ less
    rw [Nat.succ_mul] at gap
    omega
  · exact absurd rfl different
  · have gap : (k' + 1) * g.stride <= k * g.stride := Nat.mul_le_mul_right _ greater
    rw [Nat.succ_mul] at gap
    omega

theorem nodup_buffers (g : ListLayout) : g.buffers.Nodup := by
  refine List.Nodup.map_on (fun k _ k' _ same => ?_) List.nodup_range
  have positive : 0 < g.stride := Nat.lt_of_lt_of_le (by decide) g.stride_pos
  exact Nat.eq_of_mul_eq_mul_right positive (Nat.add_left_cancel same)

end ListLayout

/-- The lists follow each other from `start` to `stop`. -/
def Follow : Nat -> List ListLayout -> Nat -> Prop
  | start, [], stop => stop = start
  | start, g :: rest, stop => g.offset = start /\ Follow g.stop rest stop

namespace Follow

variable {start stop : Nat} {lists : List ListLayout} {g : ListLayout}

theorem start_le (follow : Follow start lists stop) : start <= stop := by
  induction lists generalizing start with
  | nil => exact Nat.le_of_eq follow.symm
  | cons g rest ih =>
    have below := ih follow.2
    have here := follow.1
    simp only [ListLayout.stop, ListLayout.region] at below
    omega

theorem bounds (follow : Follow start lists stop) (inside : g ∈ lists) :
    start <= g.offset /\ g.stop <= stop := by
  induction lists generalizing start with
  | nil => cases inside
  | cons first rest ih =>
    rcases follow with ⟨here, behind⟩
    rcases List.mem_cons.mp inside with rfl | later
    · exact ⟨Nat.le_of_eq here.symm, behind.start_le⟩
    · rcases ih behind later with ⟨lower, upper⟩
      simp only [ListLayout.stop, ListLayout.region] at lower
      exact ⟨by omega, upper⟩

theorem pairwise (follow : Follow start lists stop) :
    lists.Pairwise fun g g' => g.stop <= g'.offset := by
  induction lists generalizing start with
  | nil => exact List.Pairwise.nil
  | cons first rest ih =>
    exact List.pairwise_cons.mpr ⟨fun g later => (follow.2.bounds later).1, ih follow.2⟩

theorem length_buffers_le (follow : Follow start lists stop) :
    start + 20 * (lists.flatMap ListLayout.buffers).length <= stop := by
  induction lists generalizing start with
  | nil => exact Nat.le_of_eq follow.symm
  | cons g rest ih =>
    have behind := ih follow.2
    have here := follow.1
    have room : g.count * bufferHeaderSize <= g.count * g.stride :=
      Nat.mul_le_mul_left _ g.stride_pos
    simp only [ListLayout.stop, ListLayout.region, ListLayout.regionLen] at behind
    rw [List.flatMap_cons, List.length_append, ListLayout.buffers, List.length_map,
      List.length_range]
    simp only [bufferHeaderSize] at room
    omega

end Follow

/-- A pool of `memLen` bytes whose header is at `start`. -/
structure PoolLayout where
  start : Nat
  stop : Nat
  memLen : Nat
  lists : List ListLayout
  nonempty : lists ≠ []
  follow : Follow (start + bufferManagerHeaderSize) lists stop
  stop_le : stop <= memLen
  memLen_lt : memLen < 2 ^ 32
  positive : ∀ g ∈ lists, 0 < g.count /\ 0 < g.cap

namespace PoolLayout

variable {layout : PoolLayout} {g g' : ListLayout} {b b' : Nat}

/-- The view that one of the processes has of the pool. -/
def view (layout : PoolLayout) (side : Side) : BufferManager where
  lists := layout.lists.map fun g => g.view side
  memLen := layout.memLen
  minSliceSize := (layout.lists.head?.map ListLayout.cap).getD 0
  maxSliceSize := (layout.lists.getLast?.map ListLayout.cap).getD 0

def buffers (layout : PoolLayout) : List Nat :=
  layout.lists.flatMap ListLayout.buffers

theorem bounds (inside : g ∈ layout.lists) :
    layout.start + bufferManagerHeaderSize <= g.offset /\ g.stop <= layout.memLen := by
  rcases layout.follow.bounds inside with ⟨lower, upper⟩
  exact ⟨lower, upper.trans layout.stop_le⟩

theorem lists_apart (inside : g ∈ layout.lists) (inside' : g' ∈ layout.lists)
    (different : g ≠ g') : g.stop <= g'.offset \/ g'.stop <= g.offset := by
  have either : layout.lists.Pairwise fun g g' => g.stop <= g'.offset \/ g'.stop <= g.offset :=
    layout.follow.pairwise.imp Or.inl
  have : Std.Symm fun g g' : ListLayout => g.stop <= g'.offset \/ g'.stop <= g.offset :=
    ⟨fun _ _ => Or.symm⟩
  exact either.forall inside inside' different

theorem eq_of_offset (inside : g ∈ layout.lists) (inside' : g' ∈ layout.lists)
    (same : g.offset = g'.offset) : g = g' := by
  by_contra different
  have apart := lists_apart inside inside' different
  simp only [ListLayout.stop, ListLayout.region, bufferListHeaderSize] at apart
  omega

theorem header_apart (inside : g ∈ layout.lists) (home : g' ∈ layout.lists)
    (buffer : b ∈ g'.buffers) :
    g.offset + bufferListHeaderSize <= b \/ b + g'.stride <= g.offset := by
  rcases ListLayout.bounds_of_mem buffer with ⟨lower, upper⟩
  by_cases same : g = g'
  · subst same
    exact Or.inl lower
  · have apart := lists_apart inside home same
    simp only [ListLayout.stop, ListLayout.region] at *
    omega

theorem buffers_apart (home : g ∈ layout.lists) (buffer : b ∈ g.buffers)
    (home' : g' ∈ layout.lists) (buffer' : b' ∈ g'.buffers) (different : b ≠ b') :
    b + g.stride <= b' \/ b' + g'.stride <= b := by
  by_cases same : g = g'
  · subst same
    exact ListLayout.buffers_apart buffer buffer' different
  · have apart := lists_apart home home' same
    have here := ListLayout.bounds_of_mem buffer
    have there := ListLayout.bounds_of_mem buffer'
    simp only [ListLayout.region] at here there
    omega

theorem home_unique (home : g ∈ layout.lists) (buffer : b ∈ g.buffers)
    (home' : g' ∈ layout.lists) (buffer' : b ∈ g'.buffers) : g = g' := by
  by_contra different
  have apart := lists_apart home home' different
  have here := ListLayout.bounds_of_mem buffer
  have there := ListLayout.bounds_of_mem buffer'
  have long := g.stride_pos
  simp only [ListLayout.region, bufferListHeaderSize] at here there
  omega

theorem mem_buffers : b ∈ layout.buffers <-> ∃ g ∈ layout.lists, b ∈ g.buffers :=
  List.mem_flatMap

theorem nodup_buffers (layout : PoolLayout) : layout.buffers.Nodup := by
  refine List.nodup_flatMap.mpr ⟨fun g _ => g.nodup_buffers, ?_⟩
  refine layout.follow.pairwise.imp fun {g g'} before b inside inside' => ?_
  have here := ListLayout.bounds_of_mem inside
  have there := ListLayout.bounds_of_mem inside'
  have long := g.stride_pos
  simp only [ListLayout.region, bufferHeaderSize] at here there long
  omega

theorem length_buffers_lt (layout : PoolLayout) : layout.buffers.length < 2 ^ 31 := by
  have room := layout.follow.length_buffers_le
  have inside := layout.stop_le
  have small := layout.memLen_lt
  rw [buffers]
  omega

end PoolLayout

end Pool
end Shmipc
