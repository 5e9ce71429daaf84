import Shmipc.V5.DynShmSafety

namespace Shmipc
namespace V5

open Tiling Transition

/-!
# Segments that hold their layout

The shared regions are laid out behind the release queue for as many as the shared capacity
has room for.  The capacity is compared with the pinned bytes and the segment with one
region, but the capacity is not compared with the segment.
-/

/-- The release queue and the shared regions lie in the segment, apart from each other, and
the pinned regions are among them. -/
structure LocalManager.HoldsLayout (m : LocalManager) (total : Nat) : Prop where
  queue : rqSize <= total
  inside : ∀ r ∈ m.sharedRegions, rqSize <= r.offset /\ r.offset + r.size <= total
  apart : m.sharedRegions.Pairwise fun r r' =>
    Span.Apart ⟨r.offset, r.size⟩ ⟨r'.offset, r'.size⟩
  pinned : m.minSharedCount <= m.sharedRegions.length
  boundary : m.maxSharedOffset <= total

theorem Layout.holdsLayout {unit : Nat} {m : LocalManager} (layout : Layout unit m) :
    m.HoldsLayout m.size := by
  have boundary : m.maxSharedOffset <= m.size :=
    layout.boundary.trans layout.stacked.bottom_le
  refine ⟨?_, fun r member => ?_, ?_, layout.pinned, boundary⟩
  · rw [layout.end_eq] at boundary
    exact Nat.le_of_add_right_le boundary
  · rcases List.mem_iff_getElem?.mp member with ⟨k, found⟩
    rcases layout.region_bounds found with ⟨lower, upper⟩
    exact ⟨lower, upper.trans boundary⟩
  · refine List.pairwise_iff_getElem.mpr fun k j low high before => ?_
    exact layout.regions_apart (List.getElem?_eq_getElem low) (List.getElem?_eq_getElem high)
      (Nat.ne_of_lt before)

theorem newWithSize_maxSharedOffset {kind : AllocatorKind} {total pinnedShared sharedCap : Nat}
    {minBlock maxBlock : UInt64} {m : LocalManager}
    (built : LocalManager.newWithSize kind total pinnedShared sharedCap minBlock maxBlock =
      .ok m) :
    m.maxSharedOffset = rqSize + sharedCap / sharedRegionSize * sharedRegionSize := by
  unfold LocalManager.newWithSize at built
  iterate 6
    split at built
    · cases built
  next regions last laid =>
  cases built
  exact (buildRegions_ok laid).1

theorem SegmentState.mem_live_of_alloc {s : SegmentState} {now : Int} {size : Nat} {block : Block}
    (handed : (s.alloc now size).1 = .ok block) : block ∈ (s.alloc now size).2.live := by
  unfold SegmentState.alloc at handed ⊢
  split at handed
  · cases handed
  · cases handed
  · next result =>
    cases handed
    exact List.mem_cons_self

/-- A segment that is accepted holds its layout, and every later allocation lies behind the
release queue inside the segment, exactly if the shared regions fit. -/
theorem segment_holds_layout_iff {kind : AllocatorKind} {total pinnedShared sharedCap : Nat}
    {minBlock maxBlock : UInt64} {m : LocalManager}
    (built : LocalManager.newWithSize kind total pinnedShared sharedCap minBlock maxBlock =
      .ok m) :
    (m.HoldsLayout total /\
      forall s, (segmentSystem kind total pinnedShared sharedCap minBlock maxBlock).Reachable s ->
        forall now size block, 0 < now -> (s.alloc now size).1 = .ok block ->
          rqSize <= block.offset /\
            block.offset + (dynshmBufferHeaderSize + block.cap) <= total) <->
    rqSize + sharedCap / sharedRegionSize * sharedRegionSize <= total := by
  constructor
  · rintro ⟨holds, _⟩
    rw [<- newWithSize_maxSharedOffset built]
    exact holds.boundary
  · intro fits
    rcases segmentInv_new built fits (Nat.zero_le _) with ⟨fresh, size, _⟩
    refine ⟨size ▸ fresh.layout.holdsLayout, fun s reachable now length block time handed => ?_⟩
    have after : (segmentSystem kind total pinnedShared sharedCap minBlock maxBlock).Reachable
        (s.alloc now length).2 :=
      .next reachable trivial (a := .alloc now length) (if_pos time)
    have inv := SegmentState.inv_of_reachable fits (Nat.zero_le _) after
    rcases inv.segment with ⟨outs, segment⟩
    have bounds := segment.span_bounds (SegmentState.mem_live_of_alloc handed)
    rw [inv.size] at bounds
    exact bounds

/-- A segment with room for one shared region, which it has. -/
theorem segment_holds_layout_iff_one :
    Exists fun m => LocalManager.newWithSize .buddy (rqSize + sharedRegionSize) 0 sharedRegionSize
      1048576 1048576 = .ok m /\ m.HoldsLayout (rqSize + sharedRegionSize) := by
  let m := (LocalManager.newWithSize .buddy (rqSize + sharedRegionSize) 0 sharedRegionSize
    1048576 1048576).toOption.get (by decide +kernel)
  have built : LocalManager.newWithSize .buddy (rqSize + sharedRegionSize) 0 sharedRegionSize
      1048576 1048576 = .ok m := rfl
  exact ⟨m, built, ((segment_holds_layout_iff built).mpr (by decide)).1⟩

/-- A segment with room for one shared region is given two.  The second lies behind its end,
and so does the second block that is allocated. -/
theorem segment_accepts_regions_past_end :
    Exists fun s => (segmentSystem .buddy (rqSize + sharedRegionSize) 0 (2 * sharedRegionSize)
        16777216 16777216).Reachable s /\
      (s.manager.sharedRegions.map SharedRegion.offset = [rqSize, rqSize + sharedRegionSize] /\
        s.manager.size = rqSize + sharedRegionSize /\
        ∃ block ∈ s.live, s.manager.size <= block.offset) :=
  System.exists_reachable_of_run
    ⟨(LocalManager.newWithSize .buddy (rqSize + sharedRegionSize) 0 (2 * sharedRegionSize)
      16777216 16777216).toOption.get (by decide +kernel), []⟩
    [.alloc 1 4096, .alloc 2 4096] ⟨rfl, rfl⟩ (by decide +kernel)

end V5
end Shmipc
