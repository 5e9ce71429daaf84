import Mathlib.Data.List.Pairwise
import Shmipc.V5.DynShm
import Shmipc.V5.RegionSafety

namespace Shmipc
namespace V5

open ByteMemory Tiling

/-!
# The invariant of a segment

Every live buffer has a slot: the block that a shared region's allocator handed
out for it, or the whole of a dedicated region.  Slots of different buffers lie
apart, because blocks of one region do, the regions are ranges of their own, and
the dedicated regions are stacked down from the end without reaching the shared
ones.  Every operation writes inside one slot only, so what holds in the others
is carried over.
-/

def DedicatedRegion.span (r : DedicatedRegion) : Span :=
  ⟨r.offset, r.size⟩

/-- The header of a live buffer says what was handed out. -/
structure Block.Stamped (b : Block) (mem : Memory) : Prop where
  offset : (DynShmBufferHeader.read mem b.offset).offset = b.offset
  len : (DynShmBufferHeader.read mem b.offset).len = b.len
  cap : (DynShmBufferHeader.read mem b.offset).cap = b.cap
  len_le : b.len <= b.cap
  cap_lt : b.cap < 2 ^ 32

variable {b : Block} {mem mem' : Memory} {m : LocalManager} {k : Nat} {r r' : SharedRegion}

theorem Block.Stamped.of_agree (stamped : b.Stamped mem)
    (agree : AgreeOn mem mem' b.offset (dynshmBufferHeaderSize + b.cap)) : b.Stamped mem' := by
  have header : DynShmBufferHeader.read mem' b.offset = DynShmBufferHeader.read mem b.offset :=
    DynShmBufferHeader.read_congr (agree.mono (Nat.le_refl _) (by omega))
  exact {
    offset := by rw [header]; exact stamped.offset
    len := by rw [header]; exact stamped.len
    cap := by rw [header]; exact stamped.cap
    len_le := stamped.len_le
    cap_lt := stamped.cap_lt }

theorem Block.Stamped.data_eq (stamped : b.Stamped mem) :
    DynShmBufferHeader.data mem b.offset =
      readBytes mem (b.offset + dynshmBufferHeaderSize) b.len := by
  rw [DynShmBufferHeader.data, stamped.len]

theorem Block.Stamped.data_congr (stamped : b.Stamped mem)
    (agree : AgreeOn mem mem' b.offset (dynshmBufferHeaderSize + b.cap)) :
    DynShmBufferHeader.data mem' b.offset = DynShmBufferHeader.data mem b.offset := by
  have room := stamped.len_le
  rw [stamped.data_eq, (stamped.of_agree agree).data_eq]
  exact readBytes_congr (agree.mono (Nat.le_add_right ..) (by omega))

/-- A buffer as an allocation hands it out: it has the length that was asked for
and is linked to nothing. -/
structure Block.Fresh (b : Block) (size : Nat) (mem : Memory) : Prop where
  len : b.len = size
  next : (DynShmBufferHeader.read mem b.offset).next = 0

/-- The change left every byte of these buffers alone. -/
def Untouched (live : List Block) (mem mem' : Memory) : Prop :=
  ∀ b ∈ live, AgreeOn mem mem' b.offset (dynshmBufferHeaderSize + b.cap)

/-- The bytes of a buffer, header included. -/
def Block.span (b : Block) : Span :=
  ⟨b.offset, dynshmBufferHeaderSize + b.cap⟩

/-- Where the regions of a segment lie, and that no block of a shared region is
smaller than `unit`. -/
structure Layout (unit : Nat) (m : LocalManager) : Prop where
  size_lt : m.size < 2 ^ 63
  placed : forall k r, m.sharedRegions[k]? = some r ->
    r.offset = rqSize + k * sharedRegionSize /\ r.size = sharedRegionSize
  smallest : forall (k : Nat) (r : SharedRegion), m.sharedRegions[k]? = some r ->
    unit <= r.allocator.smallest
  end_eq : m.maxSharedOffset = rqSize + m.sharedRegions.length * sharedRegionSize
  pinned : m.minSharedCount <= m.sharedRegions.length
  stacked : Stacked m.size (m.dedicated.regions.map DedicatedRegion.span) m.dedicated.offset
  boundary : m.maxSharedOffset <= m.dedicated.offset
  dedicated_size : ∀ d ∈ m.dedicated.regions, maxBlockSize <= d.size /\ d.size < 2 ^ 32

/-- The slot behind the buffer with the given offset and room. -/
inductive Slot (m : LocalManager) (outs : Nat -> List Allocation) : Nat -> Nat -> Span -> Prop
  | shared {k : Nat} {r : SharedRegion} {a : Allocation} {offset cap : Nat} :
      m.sharedRegions[k]? = some r -> a ∈ outs k -> offset = r.offset + a.dataOffset ->
      cap + dynshmBufferHeaderSize = a.cap -> Slot m outs offset cap (r.slot a)
  | dedicated {d : DedicatedRegion} {offset cap : Nat} :
      d ∈ m.dedicated.regions -> offset = d.offset -> cap + dynshmBufferHeaderSize = d.size ->
      Slot m outs offset cap d.span

theorem Slot.of_regions {m' : LocalManager} {outs : Nat -> List Allocation} {offset cap : Nat}
    {span : Span} (slot : Slot m outs offset cap span) (shared : m'.sharedRegions = m.sharedRegions)
    (dedicated : m'.dedicated.regions = m.dedicated.regions) : Slot m' outs offset cap span := by
  cases slot with
  | shared found out offset cap => exact .shared (shared ▸ found) out offset cap
  | dedicated listed offset cap => exact .dedicated (dedicated ▸ listed) offset cap

structure SegmentInv (unit : Nat) (m : LocalManager) (live : List Block)
    (outs : Nat -> List Allocation) : Prop where
  layout : Layout unit m
  region : forall (k : Nat) (r : SharedRegion), m.sharedRegions[k]? = some r -> r.Inv m.mem (outs k)
  punched : ∀ d ∈ m.dedicated.regions, d.updated = dedicatedRegionPunched ->
    d.isFreed m.mem = true
  slot : ∀ b ∈ live, Exists fun span => Slot m outs b.offset b.cap span
  distinct : (live.map Block.offset).Nodup
  stamped : ∀ b ∈ live, b.Stamped m.mem

/-! ## Ranges that do not meet -/

namespace Layout

variable {unit : Nat} {m : LocalManager} {k j : Nat} {r r' : SharedRegion} {d d' : DedicatedRegion}

/-- A shared region lies between the release queue and the dedicated regions. -/
theorem region_bounds (layout : Layout unit m) (found : m.sharedRegions[k]? = some r) :
    rqSize <= r.offset /\ r.offset + r.size <= m.maxSharedOffset := by
  rcases layout.placed k r found with ⟨offset, size⟩
  have index := (List.getElem?_eq_some_iff.mp found).1
  have next : (k + 1) * sharedRegionSize <= m.sharedRegions.length * sharedRegionSize :=
    Nat.mul_le_mul_right _ index
  rw [Nat.succ_mul] at next
  rw [layout.end_eq, offset, size]
  omega

theorem regions_apart (layout : Layout unit m) (found : m.sharedRegions[k]? = some r)
    (found' : m.sharedRegions[j]? = some r') (differs : k ≠ j) :
    Span.Apart ⟨r.offset, r.size⟩ ⟨r'.offset, r'.size⟩ := by
  rcases layout.placed k r found with ⟨offset, size⟩
  rcases layout.placed j r' found' with ⟨offset', size'⟩
  simp only [Span.Apart, offset, size, offset', size']
  rcases Nat.lt_or_gt_of_ne differs with before | after
  · have next : (k + 1) * sharedRegionSize <= j * sharedRegionSize :=
      Nat.mul_le_mul_right _ before
    rw [Nat.succ_mul] at next
    omega
  · have next : (j + 1) * sharedRegionSize <= k * sharedRegionSize :=
      Nat.mul_le_mul_right _ after
    rw [Nat.succ_mul] at next
    omega

theorem dedicated_bounds (layout : Layout unit m) (inside : d ∈ m.dedicated.regions) :
    m.maxSharedOffset <= d.offset /\ d.offset + d.size <= m.size := by
  rcases layout.stacked.bounds (List.mem_map_of_mem inside) with ⟨lower, upper⟩
  exact ⟨layout.boundary.trans lower, upper⟩

theorem dedicated_apart (layout : Layout unit m) (inside : d ∈ m.dedicated.regions)
    (inside' : d' ∈ m.dedicated.regions) (differs : d ≠ d') : d.span.Apart d'.span := by
  have symmetric : Std.Symm fun d d' : DedicatedRegion => d.span.Apart d'.span :=
    ⟨fun _ _ apart => Span.Apart.symm apart⟩
  exact (List.pairwise_map.mp layout.stacked.pairwise).forall inside inside' differs

end Layout

namespace SegmentInv

variable {unit : Nat} {m : LocalManager} {live : List Block} {outs : Nat -> List Allocation}
  {k j : Nat} {r r' : SharedRegion} {a a' : Allocation} {d : DedicatedRegion}
  {offset offset' cap cap' : Nat} {span span' touched : Span} {b c : Block}
  {mem' : Memory}

theorem slot_inside (inv : SegmentInv unit m live outs) (found : m.sharedRegions[k]? = some r)
    (out : a ∈ outs k) :
    r.offset <= (r.slot a).start /\ (r.slot a).start + (r.slot a).size <= r.offset + r.size :=
  ⟨Nat.le_add_right _ _, (inv.region k r found).slot_le out⟩

theorem apart_of_region (inv : SegmentInv unit m live outs) (found : m.sharedRegions[k]? = some r)
    (lower : r.offset <= touched.start)
    (upper : touched.start + touched.size <= r.offset + r.size)
    (found' : m.sharedRegions[j]? = some r') (out : a ∈ outs j) (differs : k ≠ j) :
    (r'.slot a).Apart touched := by
  have apart := inv.layout.regions_apart found found' differs
  have inside := inv.slot_inside found' out
  simp only [Span.Apart] at apart ⊢
  omega

theorem apart_of_dedicated (inv : SegmentInv unit m live outs)
    (above : m.maxSharedOffset <= touched.start) (found : m.sharedRegions[k]? = some r)
    (out : a ∈ outs k) : (r.slot a).Apart touched := by
  have inside := inv.slot_inside found out
  have bounds := inv.layout.region_bounds found
  simp only [Span.Apart]
  omega

theorem slot_header (inv : SegmentInv unit m live outs) (slot : Slot m outs offset cap span) :
    span.start <= offset /\
      offset + (dynshmBufferHeaderSize + cap) = span.start + span.size := by
  cases slot with
  | shared found out offset_eq cap_eq =>
    have data := (inv.region _ _ found).allocator.data_eq out
    simp only [SharedRegion.slot]
    omega
  | dedicated inside offset_eq cap_eq =>
    simp only [DedicatedRegion.span]
    omega

theorem slot_bounds (inv : SegmentInv unit m live outs) (slot : Slot m outs offset cap span) :
    rqSize <= span.start /\ span.start + span.size <= m.size := by
  have boundary := inv.layout.boundary
  have whole := inv.layout.stacked.bottom_le
  have shared := inv.layout.end_eq
  cases slot with
  | shared found out _ _ =>
    have inside := inv.slot_inside found out
    have bounds := inv.layout.region_bounds found
    omega
  | dedicated inside _ _ =>
    have bounds := inv.layout.dedicated_bounds inside
    simp only [DedicatedRegion.span]
    omega

theorem slot_apart (inv : SegmentInv unit m live outs) (slot : Slot m outs offset cap span)
    (slot' : Slot m outs offset' cap' span') : offset = offset' \/ span.Apart span' := by
  cases slot with
  | @shared k r a _ _ found out offset_eq _ =>
    cases slot' with
    | @shared j r' a' _ _ found' out' offset_eq' _ =>
      by_cases same : k = j
      · subst same
        cases found.symm.trans found'
        by_cases equal : a' = a
        · exact Or.inl (by rw [offset_eq, offset_eq', equal])
        · exact Or.inr ((inv.region k r found).slot_apart out out' equal)
      · rcases inv.slot_inside found' out' with ⟨lower, upper⟩
        exact Or.inr (inv.apart_of_region found' lower upper found out (Ne.symm same))
    | dedicated inside _ _ =>
      exact Or.inr (inv.apart_of_dedicated (inv.layout.dedicated_bounds inside).1 found out)
  | @dedicated d _ _ inside offset_eq _ =>
    cases slot' with
    | shared found' out' _ _ =>
      exact Or.inr
        (inv.apart_of_dedicated (inv.layout.dedicated_bounds inside).1 found' out').symm
    | @dedicated d' _ _ inside' offset_eq' _ =>
      by_cases equal : d = d'
      · exact Or.inl (by rw [offset_eq, offset_eq', equal])
      · exact Or.inr (inv.layout.dedicated_apart inside inside' equal)

/-! ## Writes that miss a slot -/

theorem region_frame (inv : SegmentInv unit m live outs)
    (agree : AgreeOutside m.mem mem' touched.start touched.size)
    (found : m.sharedRegions[k]? = some r) (miss : ∀ a ∈ outs k, (r.slot a).Apart touched) :
    r.Inv mem' (outs k) := by
  refine (inv.region k r found).of_agree fun a out => agree.agreeOn ?_
  have apart := miss a out
  simp only [Span.Apart, SharedRegion.slot] at apart
  omega

theorem buffer_frame (inv : SegmentInv unit m live outs)
    (agree : AgreeOutside m.mem mem' touched.start touched.size)
    (slot : Slot m outs offset cap span) (miss : span.Apart touched) :
    AgreeOn m.mem mem' offset (dynshmBufferHeaderSize + cap) := by
  have inside := inv.slot_header slot
  refine agree.agreeOn ?_
  simp only [Span.Apart] at miss
  omega

theorem isFreed_frame (inv : SegmentInv unit m live outs)
    (agree : AgreeOutside m.mem mem' touched.start touched.size)
    (inside : d ∈ m.dedicated.regions) (miss : d.span.Apart touched) :
    d.isFreed mem' = d.isFreed m.mem := by
  have size := (inv.layout.dedicated_size d inside).1
  have header : dynshmBufferHeaderSize <= maxBlockSize := by decide
  have same : DynShmBufferHeader.read mem' d.offset = DynShmBufferHeader.read m.mem d.offset := by
    refine DynShmBufferHeader.read_congr (agree.agreeOn ?_)
    simp only [Span.Apart, DedicatedRegion.span] at miss
    omega
  rw [DedicatedRegion.isFreed, DedicatedRegion.isFreed, same]

theorem span_bounds (inv : SegmentInv unit m live outs) (inside : b ∈ live) :
    rqSize <= b.span.start /\ b.span.start + b.span.size <= m.size := by
  rcases inv.slot b inside with ⟨span, slot⟩
  have header := inv.slot_header slot
  have bounds := inv.slot_bounds slot
  simp only [Block.span]
  omega

theorem offset_lt (inv : SegmentInv unit m live outs) (inside : b ∈ live) : b.offset < 2 ^ 63 := by
  have bounds := (inv.span_bounds inside).2
  have small := inv.layout.size_lt
  simp only [Block.span] at bounds
  omega

theorem span_apart (inv : SegmentInv unit m live outs) (inside : b ∈ live) (inside' : c ∈ live)
    (differs : b.offset ≠ c.offset) : b.span.Apart c.span := by
  rcases inv.slot b inside with ⟨span, slot⟩
  rcases inv.slot c inside' with ⟨span', slot'⟩
  have header := inv.slot_header slot
  have header' := inv.slot_header slot'
  have apart := (inv.slot_apart slot slot').resolve_left differs
  simp only [Span.Apart, Block.span] at apart ⊢
  omega

theorem slot_size (inv : SegmentInv unit m live outs) (small : unit <= maxBlockSize)
    (slot : Slot m outs offset cap span) : unit <= span.size := by
  cases slot with
  | shared found out _ _ =>
    exact (inv.layout.smallest _ _ found).trans
      ((inv.region _ _ found).allocator.smallest_le out)
  | dedicated listed _ _ => exact small.trans (inv.layout.dedicated_size _ listed).1

theorem live_length_le (inv : SegmentInv unit m live outs) (positive : 0 < unit)
    (small : unit <= maxBlockSize) : live.length <= m.size / unit := by
  have chosen : forall b, Exists fun span => b ∈ live -> Slot m outs b.offset b.cap span := by
    intro b
    by_cases inside : b ∈ live
    · exact (inv.slot b inside).imp fun _ slot _ => slot
    · exact ⟨⟨0, 0⟩, fun member => absurd member inside⟩
  choose slotOf own using chosen
  have apart : (live.map slotOf).Pairwise Span.Apart := by
    refine List.pairwise_map.mpr ((List.pairwise_map.mp inv.distinct).imp_of_mem ?_)
    intro b c inside inside' differs
    exact (inv.slot_apart (own b inside) (own c inside')).resolve_left differs
  have bounds : ∀ span ∈ live.map slotOf, unit <= span.size /\ span.start + span.size <= m.size := by
    intro span member
    rcases List.mem_map.mp member with ⟨b, inside, rfl⟩
    exact ⟨inv.slot_size small (own b inside), (inv.slot_bounds (own b inside)).2⟩
  have count := length_le_of_apart positive apart bounds
  rwa [List.length_map] at count

theorem eq_of_offset (inv : SegmentInv unit m live outs) (inside : b ∈ live) (inside' : c ∈ live)
    (same : b.offset = c.offset) : b = c :=
  List.inj_on_of_nodup_map inv.distinct inside inside' same

theorem header_ne_zero (inv : SegmentInv unit m live outs) (inside : b ∈ live) :
    (DynShmBufferHeader.read m.mem b.offset).offset ≠ 0 := by
  rcases inv.slot b inside with ⟨span, slot⟩
  have header := (inv.slot_header slot).1
  have bounds := (inv.slot_bounds slot).1
  have positive : 0 < rqSize := by decide
  rw [(inv.stamped b inside).offset]
  omega

theorem live_apart_of_isFreed (inv : SegmentInv unit m live outs) (inside : d ∈ m.dedicated.regions)
    (freed : d.isFreed m.mem = true) (member : b ∈ live) (slot : Slot m outs b.offset b.cap span) :
    span.Apart d.span := by
  have cap_eq := (inv.layout.dedicated_size d inside).1
  have header : dynshmBufferHeaderSize <= maxBlockSize := by decide
  have own : Slot m outs d.offset (d.size - dynshmBufferHeaderSize) d.span :=
    .dedicated inside rfl (Nat.sub_add_cancel (by omega))
  rcases inv.slot_apart slot own with same | apart
  · simp only [DedicatedRegion.isFreed, <- same, decide_eq_true_eq] at freed
    exact absurd freed (inv.header_ne_zero member)
  · exact apart

end SegmentInv

/-! ## Shared regions -/

theorem getElem_set_cases {regions : List SharedRegion} {j : Nat} {x : SharedRegion}
    (found : regions[k]? = some r) (member : (regions.set k r')[j]? = some x) :
    (j = k /\ x = r') \/ (j ≠ k /\ regions[j]? = some x) := by
  rw [List.getElem?_set] at member
  split at member
  · next same =>
    rw [if_pos (List.getElem?_eq_some_iff.mp found).1] at member
    exact Or.inl ⟨same.symm, (Option.some.inj member).symm⟩
  · next differs => exact Or.inr ⟨Ne.symm differs, member⟩

theorem Layout.setRegion {unit : Nat} (layout : Layout unit m)
    (found : m.sharedRegions[k]? = some r) (same : SharedRegion.SameRange r r') (mem' : Memory) :
    Layout unit { m with sharedRegions := m.sharedRegions.set k r', mem := mem' } := { layout with
  placed := by
    intro j x member
    rcases getElem_set_cases found member with ⟨rfl, rfl⟩ | ⟨_, other⟩
    · rw [same.offset, same.size]
      exact layout.placed j r found
    · exact layout.placed j x other
  smallest := by
    intro j x member
    rcases getElem_set_cases found member with ⟨rfl, rfl⟩ | ⟨_, other⟩
    · rw [same.smallest]
      exact layout.smallest j r found
    · exact layout.smallest j x other
  end_eq := by
    rw [List.length_set]
    exact layout.end_eq
  pinned := by
    rw [List.length_set]
    exact layout.pinned }

namespace SegmentInv

variable {unit : Nat} {m : LocalManager} {live : List Block} {outs outs' : Nat -> List Allocation}
  {k : Nat} {r r' : SharedRegion} {a : Allocation} {offset cap : Nat} {span touched : Span}
  {b block : Block} {mem' : Memory} {now : Int}

/-- A slot survives when its region is replaced by one over the same range, as
long as its allocation stays out. -/
theorem slot_setRegion (found : m.sharedRegions[k]? = some r)
    (same : SharedRegion.SameRange r r') (slot : Slot m outs offset cap span)
    (stays : forall j, ∀ a ∈ outs j, forall r, m.sharedRegions[j]? = some r ->
      offset = r.offset + a.dataOffset -> a ∈ outs' j) :
    Exists fun span => Slot { m with sharedRegions := m.sharedRegions.set k r', mem := mem' }
      outs' offset cap span := by
  cases slot with
  | @shared j x a _ _ at_ out offset_eq cap_eq =>
    have out' := stays j a out x at_ offset_eq
    by_cases equal : j = k
    · subst equal
      cases found.symm.trans at_
      refine ⟨_, Slot.shared (k := j) (r := r') (a := a) ?_ out' ?_ cap_eq⟩
      · simp [(List.getElem?_eq_some_iff.mp found).1]
      · rw [same.offset]
        exact offset_eq
    · refine ⟨_, Slot.shared (k := j) (r := x) (a := a) ?_ out' offset_eq cap_eq⟩
      simpa [List.getElem?_set, Ne.symm equal] using at_
  | dedicated inside offset_eq cap_eq => exact ⟨_, Slot.dedicated inside offset_eq cap_eq⟩

/-- One shared region works on a block of its own: the region is replaced, the
allocations that are out change in that region only, and every buffer that stays
live lies outside the block. -/
theorem replaceRegion {live' : List Block} (inv : SegmentInv unit m live outs)
    (found : m.sharedRegions[k]? = some r) (same : SharedRegion.SameRange r r')
    (lower : r.offset <= touched.start)
    (upper : touched.start + touched.size <= r.offset + r.size)
    (agree : AgreeOutside m.mem mem' touched.start touched.size)
    (own : r'.Inv mem' (outs' k)) (others : forall j, j ≠ k -> outs' j = outs j)
    (slot : ∀ b ∈ live', Exists fun span =>
      Slot { m with sharedRegions := m.sharedRegions.set k r', mem := mem' } outs' b.offset b.cap
        span)
    (distinct : (live'.map Block.offset).Nodup) (stamped : ∀ b ∈ live', b.Stamped mem') :
    SegmentInv unit { m with sharedRegions := m.sharedRegions.set k r', mem := mem' } live'
      outs' where
  layout := inv.layout.setRegion found same mem'
  region := by
    intro j x member
    rcases getElem_set_cases found member with ⟨rfl, rfl⟩ | ⟨differs, other⟩
    · exact own
    · rw [others j differs]
      exact inv.region_frame agree other fun a out =>
        inv.apart_of_region found lower upper other out (Ne.symm differs)
  punched := by
    intro d inside punched
    have above := (inv.layout.dedicated_bounds inside).1
    have below := (inv.layout.region_bounds found).2
    rw [inv.isFreed_frame agree inside (Or.inr (by simp only [DedicatedRegion.span]; omega))]
    exact inv.punched d inside punched
  slot := slot
  distinct := distinct
  stamped := stamped

theorem shared_refuse {size : Nat} (inv : SegmentInv unit m live outs)
    (found : m.sharedRegions[k]? = some r) (positive : 0 < now)
    (result : r.alloc m.mem now size = (none, r', mem')) :
    SegmentInv unit { m with sharedRegions := m.sharedRegions.set k r', mem := mem' } live outs /\
      mem' = m.mem := by
  rcases (inv.region k r found).alloc_none positive result with ⟨rfl, same, own⟩
  have nothing : AgreeOutside m.mem m.mem (Span.mk r.offset 0).start (Span.mk r.offset 0).size :=
    AgreeOutside.refl _ _ _
  refine ⟨inv.replaceRegion found same (Nat.le_refl _) (Nat.add_le_add_left (Nat.zero_le _) _)
    nothing own (fun _ _ => rfl) ?_ inv.distinct inv.stamped, rfl⟩
  intro b member
  rcases inv.slot b member with ⟨span, slot⟩
  exact slot_setRegion found same slot fun _ _ out _ _ _ => out

theorem shared_alloc {size : Nat} (inv : SegmentInv unit m live outs)
    (found : m.sharedRegions[k]? = some r) (positive : 0 < now)
    (result : r.alloc m.mem now size = (some block, r', mem')) :
    (Exists fun outs' => SegmentInv unit
      { m with sharedRegions := m.sharedRegions.set k r', mem := mem' } (block :: live) outs') /\
      Untouched live m.mem mem' /\ block.Fresh size mem' := by
  have range := inv.layout.region_bounds found
  have size_eq := (inv.layout.placed k r found).2
  have boundary := inv.layout.boundary
  have whole := inv.layout.stacked.bottom_le
  have size_lt := inv.layout.size_lt
  have small : sharedRegionSize < 2 ^ 32 := by decide
  rcases (inv.region k r found).alloc_some positive (by omega) (size_eq ▸ small) result with
    ⟨a, offset_eq, len, cap_eq, fits, cap_lt, same, own, agree, header⟩
  have slot_eq : forall a, r'.slot a = r.slot a := fun a => by
    simp only [SharedRegion.slot, same.offset]
  have upper := own.slot_le List.mem_cons_self
  rw [slot_eq, same.offset, same.size] at upper
  have data := own.allocator.data_eq List.mem_cons_self
  have fresh : ∀ a' ∈ outs k, a' ≠ a := by
    intro a' out
    exact (own.allocator.mem_erase List.mem_cons_self (by simpa using out)).2
  have miss : forall {offset cap span}, Slot m outs offset cap span -> span.Apart (r.slot a) := by
    intro offset cap span slot
    cases slot with
    | @shared j x a' _ _ at_ out _ _ =>
      by_cases equal : j = k
      · subst equal
        cases found.symm.trans at_
        have apart := own.slot_apart List.mem_cons_self (List.mem_cons_of_mem _ out)
          (fresh a' out)
        rw [slot_eq, slot_eq] at apart
        exact apart.symm
      · exact inv.apart_of_region found (Nat.le_add_right ..) upper at_ out (Ne.symm equal)
    | dedicated inside _ _ =>
      have above := (inv.layout.dedicated_bounds inside).1
      exact Or.inr (by simp only [DedicatedRegion.span]; omega)
  have untouched : Untouched live m.mem mem' := by
    intro b member
    rcases inv.slot b member with ⟨span, slot⟩
    exact inv.buffer_frame agree slot (miss slot)
  refine ⟨⟨Function.update outs k (a :: outs k), ?_⟩, untouched, ⟨len, by rw [header]⟩⟩
  refine inv.replaceRegion found same (Nat.le_add_right ..) upper agree ?_ ?_ ?_ ?_ ?_
  · rw [Function.update_self]
    exact own
  · intro j differs
    exact Function.update_of_ne differs ..
  · intro b member
    rcases List.mem_cons.mp member with rfl | old
    · refine ⟨_, Slot.shared (k := k) (r := r') (a := a) ?_ ?_ ?_ cap_eq⟩
      · simp [(List.getElem?_eq_some_iff.mp found).1]
      · simp
      · rw [same.offset]
        exact offset_eq
    · rcases inv.slot b old with ⟨span, slot⟩
      refine slot_setRegion found same slot fun j a' out _ _ _ => ?_
      by_cases equal : j = k
      · subst equal
        rw [Function.update_self]
        exact List.mem_cons_of_mem _ out
      · rw [Function.update_of_ne equal]
        exact out
  · refine List.nodup_cons.mpr ⟨fun member => ?_, inv.distinct⟩
    rcases List.mem_map.mp member with ⟨b, old, equal⟩
    rcases inv.slot b old with ⟨span, slot⟩
    have apart := miss slot
    have inside := inv.slot_header slot
    have positive : 0 < dynshmBufferHeaderSize := by decide
    simp only [Span.Apart, SharedRegion.slot] at apart
    omega
  · intro b member
    rcases List.mem_cons.mp member with rfl | old
    · exact {
        offset := by rw [header]
        len := by rw [header]
        cap := by rw [header]
        len_le := len ▸ fits
        cap_lt := cap_lt }
    · exact (inv.stamped b old).of_agree (untouched b old)

theorem untouched_of_free (inv : SegmentInv unit m live outs)
    (slot : Slot m outs b.offset b.cap span)
    (agree : AgreeOutside m.mem mem' span.start span.size) :
    Untouched (live.filter fun c => c.offset ≠ b.offset) m.mem mem' := by
  intro c member
  rcases List.mem_filter.mp member with ⟨inside, differs⟩
  rcases inv.slot c inside with ⟨span', slot'⟩
  rcases inv.slot_apart slot' slot with same | apart
  · exact absurd same (of_decide_eq_true differs)
  · exact inv.buffer_frame agree slot' apart

theorem shared_free (inv : SegmentInv unit m live outs) (inside : b ∈ live)
    (found : m.sharedRegions[k]? = some r) (out : a ∈ outs k)
    (offset_eq : b.offset = r.offset + a.dataOffset)
    (cap_eq : b.cap + dynshmBufferHeaderSize = a.cap) :
    Exists fun r' => Exists fun mem' =>
      r.freeAt m.mem (b.offset : Int) = (.ok (), r', mem') /\ r'.allocs + 1 = r.allocs /\
      (DynShmBufferHeader.read mem' b.offset).offset = 0 /\
      (Exists fun outs' => SegmentInv unit
        { m with sharedRegions := m.sharedRegions.set k r', mem := mem' }
        (live.filter fun c => c.offset ≠ b.offset) outs') /\
      Untouched (live.filter fun c => c.offset ≠ b.offset) m.mem mem' := by
  have busy := inv.header_ne_zero inside
  rw [offset_eq] at busy
  rcases (inv.region k r found).freeAt_ok out busy (by omega) with
    ⟨r', mem', freed, same, own, fewer, marked, agree⟩
  rw [<- offset_eq] at freed marked
  have slot : Slot m outs b.offset b.cap (r.slot a) := .shared found out offset_eq cap_eq
  have untouched := inv.untouched_of_free slot agree
  have bounds := inv.slot_inside found out
  refine ⟨r', mem', freed, fewer, marked, ⟨Function.update outs k ((outs k).erase a), ?_⟩,
    untouched⟩
  refine inv.replaceRegion found same bounds.1 bounds.2 agree ?_ ?_ ?_ ?_ ?_
  · rw [Function.update_self]
    exact own
  · intro j differs
    exact Function.update_of_ne differs ..
  · intro c member
    rcases List.mem_filter.mp member with ⟨old, differs⟩
    rcases inv.slot c old with ⟨span, slot'⟩
    refine slot_setRegion found same slot' fun j a' out' x at_ place => ?_
    by_cases equal : j = k
    · subst equal
      rw [Function.update_self]
      refine (List.mem_erase_of_ne ?_).mpr out'
      rintro rfl
      cases found.symm.trans at_
      exact of_decide_eq_true differs (place.trans offset_eq.symm)
    · rw [Function.update_of_ne equal]
      exact out'
  · exact inv.distinct.sublist (List.filter_sublist.map _)
  · intro c member
    exact (inv.stamped c (List.mem_of_mem_filter member)).of_agree (untouched c member)

end SegmentInv

end V5
end Shmipc
