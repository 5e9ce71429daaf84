import Shmipc.V5.DynShmSteps

namespace Shmipc
namespace V5

open ByteMemory Tiling Transition

/-!
# A segment in use

A manager whose shared regions fit its segment starts out with nothing live, and
every operation keeps the invariant, so it holds along every run.  The release
queue adds that it names live buffers only, each of them once: a buffer is
released by the party that holds it.
-/

/-! ## A new segment -/

variable {kind : AllocatorKind} {minBlock maxBlock : UInt64}

theorem buildRegions_ok {count start last : Nat} {regions : List SharedRegion}
    (built : LocalManager.buildRegions kind minBlock maxBlock count start = .ok (regions, last)) :
    last = start + count * sharedRegionSize /\ regions.length = count /\
      forall (k : Nat) (r : SharedRegion), regions[k]? = some r ->
        r.offset = start + k * sharedRegionSize /\ r.size = sharedRegionSize /\
        minBlock.toNat % 2 ^ 32 <= r.allocator.smallest /\ forall mem, r.Inv mem [] := by
  induction count generalizing start regions with
  | zero =>
    cases built
    refine ⟨by omega, rfl, fun k r found => ?_⟩
    cases found
  | succ count ih =>
    rw [LocalManager.buildRegions] at built
    split at built
    · cases built
    · next region new =>
      cases later : LocalManager.buildRegions kind minBlock maxBlock count
          (start + sharedRegionSize) with
      | error err =>
        rw [later] at built
        cases built
      | ok result =>
        rcases result with ⟨rest, final⟩
        rw [later] at built
        cases built
        rcases ih later with ⟨last_eq, length_eq, placed⟩
        refine ⟨by rw [last_eq, Nat.succ_mul]; omega, by rw [List.length_cons, length_eq], ?_⟩
        intro k r found
        cases k with
        | zero =>
          cases found
          rcases SharedRegion.inv_new new with ⟨offset, size, smallest, fresh⟩
          exact ⟨by rw [offset]; omega, size, smallest, fresh⟩
        | succ k =>
          rcases placed k r found with ⟨offset, size, smallest, fresh⟩
          exact ⟨by rw [offset, Nat.succ_mul]; omega, size, smallest, fresh⟩

theorem segmentInv_new {unit : Nat} {total pinnedShared sharedCap : Nat} {m : LocalManager}
    (built : LocalManager.newWithSize kind total pinnedShared sharedCap minBlock maxBlock = .ok m)
    (fits : rqSize + sharedCap / sharedRegionSize * sharedRegionSize <= total)
    (unit_le : unit <= minBlock.toNat % 2 ^ 32) :
    SegmentInv unit m [] (fun _ => []) /\ m.size = total /\ m.rq = [] /\ m.closed = false := by
  unfold LocalManager.newWithSize at built
  split at built
  · cases built
  split at built
  · cases built
  next pinned =>
  split at built
  · cases built
  split at built
  · cases built
  split at built
  · cases built
  next small =>
  split at built
  · cases built
  next regions last laid =>
  cases built
  rcases buildRegions_ok laid with ⟨last_eq, length_eq, placed⟩
  refine ⟨{
    layout := {
      size_lt := Nat.lt_of_not_le small
      placed := fun k r found => ⟨(placed k r found).1, (placed k r found).2.1⟩
      smallest := fun k r found => unit_le.trans (placed k r found).2.2.1
      end_eq := by rw [last_eq, length_eq]
      pinned := by
        rw [length_eq]
        exact Nat.div_le_div_right (Nat.le_of_not_lt pinned)
      stacked := rfl
      boundary := by
        rw [last_eq]
        exact fits
      dedicated_size := fun d none => by cases none }
    region := fun k r found => (placed k r found).2.2.2 _
    punched := fun d none => by cases none
    slot := fun b none => by cases none
    distinct := List.nodup_nil
    stamped := fun b none => by cases none }, rfl, rfl, rfl⟩

/-! ## Every run -/

namespace SegmentState

/-- The segment's invariant, and a release queue that names live buffers. -/
structure Inv (unit total : Nat) (s : SegmentState) : Prop where
  segment : Exists fun outs => SegmentInv unit s.manager s.live outs
  size : s.manager.size = total
  isOpen : s.manager.closed = false
  queued : ∀ offset ∈ s.manager.rq, Exists fun b => b ∈ s.live /\ (b.offset : Int) = offset
  once : s.manager.rq.Nodup

namespace Inv

variable {unit total : Nat} {s t : SegmentState} {m m' : LocalManager} {stay live : List Block}

theorem of_kept (kept : Kept unit m m' stay live) (size : m.size = total)
    (isOpen : m.closed = false)
    (queued : ∀ offset ∈ m.rq, Exists fun b => b ∈ live /\ (b.offset : Int) = offset)
    (once : m.rq.Nodup) : Inv unit total ⟨m', live⟩ where
  segment := kept.inv
  size := kept.same.size.trans size
  isOpen := kept.same.closed.trans isOpen
  queued := fun offset member => queued offset (kept.same.rq ▸ member)
  once := by
    show m'.rq.Nodup
    rw [kept.same.rq]
    exact once

theorem of_drained (inv : Inv unit total s) (kept : Kept unit { s.manager with rq := [] } m' stay live) :
    Inv unit total ⟨m', live⟩ :=
  of_kept kept inv.size inv.isOpen (fun _ none => by cases none) List.nodup_nil

theorem alloc_zero (inv : Inv unit total s) (now : Int) :
    s.alloc now 0 = (.error .noSpace, s) := by
  have refused : s.manager.alloc now 0 = (.error .noSpace, s.manager) := by
    rw [LocalManager.alloc, if_neg (by simp [inv.isOpen]), if_pos rfl]
  simp only [SegmentState.alloc, refused, if_true]

variable {now : Int} {b : Block}

/-- An allocation frees what the queue named, leaves every other buffer alone and
hands out a fresh one unless there is no room. -/
theorem alloc {size : Nat} (inv : Inv unit total s) (positive : 0 < now) (nonempty : size ≠ 0) :
    Inv unit total (s.alloc now size).2 /\ (s.alloc now size).2.manager.rq = [] /\
      Untouched s.unreleased s.manager.mem (s.alloc now size).2.manager.mem /\
      ((Exists fun block => (s.alloc now size).1 = .ok block /\
          block.Fresh size (s.alloc now size).2.manager.mem /\
          (s.alloc now size).2.live = block :: s.unreleased) \/
        ((s.alloc now size).1 = .error .noSpace /\
          (s.alloc now size).2.live = s.unreleased)) := by
  rcases inv.segment with ⟨outs, segment⟩
  have result := segment.alloc positive inv.queued inv.once inv.isOpen nonempty
  unfold SegmentState.alloc
  generalize s.manager.alloc now size = answer at result ⊢
  rcases answer with ⟨answer, manager⟩
  dsimp only at result
  rcases result with ⟨block, rfl, fresh, kept⟩ | ⟨rfl, kept⟩
  · exact ⟨inv.of_drained kept, kept.same.rq, kept.untouched, Or.inl ⟨block, rfl, fresh, rfl⟩⟩
  · dsimp only
    rw [if_neg nonempty]
    exact ⟨inv.of_drained kept, kept.same.rq, kept.untouched, Or.inr ⟨rfl, rfl⟩⟩

theorem freeAt (inv : Inv unit total s) (positive : 0 < now) (member : b ∈ s.live)
    (held : (b.offset : Int) ∉ s.manager.rq) :
    Inv unit total
        ⟨s.manager.freeAt now b.offset, s.live.filter fun c => c.offset ≠ b.offset⟩ /\
      (s.manager.freeAt now b.offset).rq = s.manager.rq /\
      Untouched (s.live.filter fun c => c.offset ≠ b.offset) s.manager.mem
        (s.manager.freeAt now b.offset).mem := by
  rcases inv.segment with ⟨outs, segment⟩
  have kept := (segment.freeAtInner positive member).2
  rw [LocalManager.freeAt, if_neg (by simp [inv.isOpen])]
  refine ⟨of_kept kept inv.size inv.isOpen ?_ inv.once, kept.same.rq, kept.untouched⟩
  intro other queued
  rcases inv.queued other queued with ⟨c, listed, rfl⟩
  refine ⟨c, List.mem_filter.mpr ⟨listed, decide_eq_true fun same => held ?_⟩, rfl⟩
  rw [<- same]
  exact queued

theorem release (inv : Inv unit total s) (member : b ∈ s.live)
    (held : (b.offset : Int) ∉ s.manager.rq) :
    Inv unit total
      { s with manager := { s.manager with rq := s.manager.rq ++ [(b.offset : Int)] } } := by
  rcases inv.segment with ⟨outs, segment⟩
  refine ⟨⟨outs, segment.setQueue _ _⟩, inv.size, inv.isOpen, ?_, ?_⟩
  · intro other queued
    rcases List.mem_append.mp queued with old | added
    · exact inv.queued other old
    · exact ⟨b, member, (List.mem_singleton.mp added).symm⟩
  · exact List.nodup_append.mpr ⟨inv.once, List.nodup_singleton _, fun x old y added same =>
      held (List.mem_singleton.mp added ▸ same ▸ old)⟩

theorem drain (inv : Inv unit total s) (positive : 0 < now) :
    Inv unit total ⟨s.manager.drainRq now, s.unreleased⟩ /\ (s.manager.drainRq now).rq = [] /\
      Untouched s.unreleased s.manager.mem (s.manager.drainRq now).mem := by
  rcases inv.segment with ⟨outs, segment⟩
  have kept := segment.drainRqInner positive inv.queued inv.once
  rw [LocalManager.drainRq, if_neg (by simp [inv.isOpen])]
  exact ⟨inv.of_drained kept, kept.same.rq, kept.untouched⟩

theorem prune (inv : Inv unit total s) (now : Int) :
    Inv unit total { s with manager := (s.manager.pruneIdleRegions now).1 } /\
      (s.manager.pruneIdleRegions now).1.rq = s.manager.rq /\
      Untouched s.live s.manager.mem (s.manager.pruneIdleRegions now).1.mem := by
  rcases inv.segment with ⟨outs, segment⟩
  have kept := (segment.pruneIdleRegions now).1
  exact ⟨of_kept kept inv.size inv.isOpen inv.queued inv.once, kept.same.rq, kept.untouched⟩

theorem of_written (inv : Inv unit total s) (kept : Kept unit s.manager m' stay live)
    (offsets : live.map Block.offset = s.live.map Block.offset) : Inv unit total ⟨m', live⟩ := by
  refine of_kept kept inv.size inv.isOpen ?_ inv.once
  intro offset queued
  rcases inv.queued offset queued with ⟨b, member, rfl⟩
  have listed : b.offset ∈ live.map Block.offset := by
    rw [offsets]
    exact List.mem_map_of_mem member
  rcases List.mem_map.mp listed with ⟨c, inside, same⟩
  exact ⟨c, inside, by rw [same]⟩

theorem reserve {size room : Nat} (inv : Inv unit total s) (member : b ∈ s.live)
    (result : s.reserve b.offset size = some (room, t)) :
    Inv unit total t /\ room = b.offset + dynshmBufferHeaderSize + b.len /\
      b.len + size <= b.cap /\
      Untouched (s.live.filter fun c => c.offset ≠ b.offset) s.manager.mem t.manager.mem /\
      t.live = s.live.map (Block.grow b.offset size) /\ t.manager.rq = s.manager.rq /\
      t.manager.mem = DynShmBufferHeader.setLen s.manager.mem b.offset (b.len + size) := by
  rcases inv.segment with ⟨outs, segment⟩
  rcases Option.map_eq_some_iff.mp result with ⟨⟨start, mem'⟩, extended, same⟩
  cases same
  rcases segment.reserve member extended with ⟨room_eq, fits, mem_eq, kept⟩
  exact ⟨inv.of_written kept (SegmentInv.map_offset_grow ..), room_eq, fits, kept.untouched, rfl,
    rfl, mem_eq⟩

theorem setNext {c : Block} (inv : Inv unit total s) (member : b ∈ s.live) (member' : c ∈ s.live) :
    Inv unit total (s.setNext b.offset c.offset) /\
      Untouched (s.live.filter fun c => c.offset ≠ b.offset) s.manager.mem
        (s.setNext b.offset c.offset).manager.mem := by
  rcases inv.segment with ⟨outs, segment⟩
  have kept := segment.setNext member (segment.offset_lt member')
  exact ⟨inv.of_written kept rfl, kept.untouched⟩

theorem store {index : Nat} {bytes : List UInt8} (inv : Inv unit total s) (member : b ∈ s.live)
    (fits : index + bytes.length <= b.cap) :
    Inv unit total (s.store (b.offset + dynshmBufferHeaderSize + index) bytes) /\
      Untouched (s.live.filter fun c => c.offset ≠ b.offset) s.manager.mem
        (s.store (b.offset + dynshmBufferHeaderSize + index) bytes).manager.mem := by
  rcases inv.segment with ⟨outs, segment⟩
  have kept := segment.store member fits
  exact ⟨inv.of_written kept rfl, kept.untouched⟩

/-- Every operation keeps the invariant.  A held buffer that it is not aimed at
stays held and keeps all its bytes. -/
theorem step {action : SegmentAction} (inv : Inv unit total s) (moved : s.step action = some t) :
    Inv unit total t /\
      ∀ b ∈ s.live, (b.offset : Int) ∉ s.manager.rq -> action.target ≠ some b.offset ->
        b ∈ t.live /\ (b.offset : Int) ∉ t.manager.rq /\
        AgreeOn s.manager.mem t.manager.mem b.offset (dynshmBufferHeaderSize + b.cap) := by
  have stays : ∀ b ∈ s.live, (b.offset : Int) ∉ s.manager.rq -> b ∈ s.unreleased :=
    fun b member held => List.mem_filter.mpr ⟨member, decide_eq_true held⟩
  have others : forall (offset : Nat), ∀ b ∈ s.live, some offset ≠ some b.offset ->
      b ∈ s.live.filter fun c => c.offset ≠ offset := fun offset b member foreign =>
    List.mem_filter.mpr ⟨member, decide_eq_true fun same => foreign (congrArg some same.symm)⟩
  cases action with
  | alloc now size =>
    rcases of_guarded moved with ⟨positive, rfl⟩
    by_cases empty : size = 0
    · rw [empty, inv.alloc_zero]
      exact ⟨inv, fun b member held _ => ⟨member, held, fun _ _ _ => rfl⟩⟩
    · rcases inv.alloc positive empty with ⟨inv', queue, untouched, answer⟩
      refine ⟨inv', fun b member held _ =>
        ⟨?_, by simp [queue], untouched b (stays b member held)⟩⟩
      rcases answer with ⟨block, _, _, live⟩ | ⟨_, live⟩
      · exact live ▸ List.mem_cons_of_mem _ (stays b member held)
      · exact live ▸ stays b member held
  | freeAt now offset =>
    rcases of_guarded moved with ⟨⟨positive, listed, held⟩, rfl⟩
    rcases List.mem_map.mp listed with ⟨c, member, rfl⟩
    rcases inv.freeAt positive member held with ⟨inv', queue, untouched⟩
    exact ⟨inv', fun b member held foreign => ⟨others c.offset b member foreign,
      by simpa [queue] using held, untouched b (others c.offset b member foreign)⟩⟩
  | release offset =>
    rcases of_guarded moved with ⟨⟨listed, held⟩, rfl⟩
    rcases List.mem_map.mp listed with ⟨c, member, rfl⟩
    refine ⟨inv.release member held, fun b member held foreign =>
      ⟨member, fun queued => ?_, fun _ _ _ => rfl⟩⟩
    rcases List.mem_append.mp queued with old | added
    · exact held old
    · have same : (b.offset : Int) = c.offset := List.mem_singleton.mp added
      exact foreign (congrArg some (by omega))
  | drain now =>
    rcases of_guarded moved with ⟨positive, rfl⟩
    rcases inv.drain positive with ⟨inv', queue, untouched⟩
    exact ⟨inv', fun b member held _ => ⟨stays b member held, by simp [queue],
      untouched b (stays b member held)⟩⟩
  | prune now =>
    rcases of_guarded moved with ⟨positive, rfl⟩
    rcases inv.prune now with ⟨inv', queue, untouched⟩
    exact ⟨inv', fun b member held _ => ⟨member, by simpa [queue] using held,
      untouched b member⟩⟩
  | reserve offset size =>
    rcases of_guarded moved with ⟨⟨listed, _⟩, rfl⟩
    rcases List.mem_map.mp listed with ⟨c, member, rfl⟩
    cases result : s.reserve c.offset size with
    | none => exact ⟨inv, fun b member held _ => ⟨member, held, fun _ _ _ => rfl⟩⟩
    | some answer =>
      rcases inv.reserve member result with ⟨inv', _, _, untouched, live, queue, _⟩
      refine ⟨inv', fun b member held foreign => ⟨?_, by simpa [queue] using held,
        untouched b (others c.offset b member foreign)⟩⟩
      show b ∈ answer.2.live
      rw [live]
      exact List.mem_map.mpr ⟨b, member, if_neg fun same => foreign (congrArg some same.symm)⟩
  | setNext offset next =>
    rcases of_guarded moved with ⟨⟨⟨listed, _⟩, ⟨listed', _⟩⟩, rfl⟩
    rcases List.mem_map.mp listed with ⟨c, member, rfl⟩
    rcases List.mem_map.mp listed' with ⟨d, member', rfl⟩
    rcases inv.setNext member member' with ⟨inv', untouched⟩
    exact ⟨inv', fun b member held foreign => ⟨member, held,
      untouched b (others c.offset b member foreign)⟩⟩
  | store offset index bytes =>
    rcases of_guarded moved with ⟨⟨⟨listed, _⟩, fits⟩, rfl⟩
    rcases List.mem_map.mp listed with ⟨c, member, rfl⟩
    rcases inv.segment with ⟨outs, segment⟩
    rw [(segment.stamped c member).cap] at fits
    rcases inv.store member fits with ⟨inv', untouched⟩
    exact ⟨inv', fun b member held foreign => ⟨member, held,
      untouched b (others c.offset b member foreign)⟩⟩

end Inv

variable {unit total pinnedShared sharedCap : Nat} {kind : AllocatorKind}
  {minBlock maxBlock : UInt64} {s : SegmentState}

theorem inv_new
    (built : LocalManager.newWithSize kind total pinnedShared sharedCap minBlock maxBlock =
      .ok s.manager) (empty : s.live = [])
    (fits : rqSize + sharedCap / sharedRegionSize * sharedRegionSize <= total)
    (unit_le : unit <= minBlock.toNat % 2 ^ 32) : s.Inv unit total := by
  rcases segmentInv_new built fits unit_le with ⟨segment, size, queue, isOpen⟩
  refine ⟨⟨_, empty ▸ segment⟩, size, isOpen, ?_, ?_⟩
  · intro offset member
    rw [queue] at member
    cases member
  · rw [queue]
    exact List.nodup_nil

theorem inv_of_reachable (fits : rqSize + sharedCap / sharedRegionSize * sharedRegionSize <= total)
    (unit_le : unit <= minBlock.toNat % 2 ^ 32)
    (reachable : (segmentSystem kind total pinnedShared sharedCap minBlock maxBlock).Reachable s) :
    s.Inv unit total := by
  refine reachable.invariant ?_ fun _ _ _ _ _ moved inv => (inv.step moved).1
  intro s start
  exact inv_new start.1 start.2 fits unit_le

end SegmentState

/-- In every state of a segment whose regions fit it, the live buffers share no
byte and lie between the release queue and the end, and their headers say exactly
what was handed out.  The dedicated regions are stacked down from the end and stop
above the shared ones.  Pruning punches and trims only what no live buffer is in,
an allocation hands out the length it was asked for, and releasing a live buffer
frees that buffer and leaves every byte of the others alone. -/
theorem segment_allocation_safe {kind : AllocatorKind} {total pinnedShared sharedCap : Nat}
    {minBlock maxBlock : UInt64} {s : SegmentState} (fits : rqSize + sharedCap <= total)
    (reachable : (segmentSystem kind total pinnedShared sharedCap minBlock maxBlock).Reachable s) :
    (s.live.Pairwise fun b c => b.span.Apart c.span) /\
    (∀ b ∈ s.live, rqSize <= b.span.start /\ b.span.start + b.span.size <= total) /\
    (∀ b ∈ s.live, b.Stamped s.manager.mem) /\
    (Stacked total (s.manager.dedicated.regions.map DedicatedRegion.span)
        s.manager.dedicated.offset /\
      s.manager.maxSharedOffset <= s.manager.dedicated.offset) /\
    (forall now, ∀ b ∈ s.live,
      (∀ span ∈ (s.manager.pruneIdleRegions now).2, b.span.Apart span) /\
      (∀ d ∈ s.manager.dedicated.regions,
        d.span ∉ (s.manager.pruneIdleRegions now).1.dedicated.regions.map DedicatedRegion.span ->
        b.span.Apart d.span)) /\
    (forall now size block, 0 < now -> (s.manager.alloc now size).1 = .ok block ->
      block.len = size) /\
    (forall now, 0 < now -> ∀ b ∈ s.live,
      Frees now s.manager (s.manager.freeAt now b.offset) b.offset /\
      Untouched (s.live.filter fun c => c.offset ≠ b.offset) s.manager.mem
        (s.manager.freeAt now b.offset).mem) := by
  have whole := Nat.div_mul_le_self sharedCap sharedRegionSize
  have inv := SegmentState.inv_of_reachable ((Nat.add_le_add_left whole _).trans fits)
    (Nat.zero_le _) reachable
  rcases inv.segment with ⟨outs, segment⟩
  refine ⟨?_, ?_, segment.stamped, ⟨?_, segment.layout.boundary⟩, ?_, ?_, ?_⟩
  · exact (List.pairwise_map.mp segment.distinct).imp_of_mem fun inside inside' differs =>
      segment.span_apart inside inside' differs
  · intro b member
    rw [<- inv.size]
    exact segment.span_bounds member
  · rw [<- inv.size]
    exact segment.layout.stacked
  · intro now b member
    rcases segment.pruneIdleRegions now with ⟨_, punched, trimmed⟩
    exact ⟨punched b member, trimmed b member⟩
  · intro now size block positive served
    by_cases empty : size = 0
    · rw [LocalManager.alloc, if_neg (by simp [inv.isOpen]), if_pos empty] at served
      cases served
    · rcases segment.alloc positive inv.queued inv.once inv.isOpen empty with
        ⟨block', served', fresh, _⟩ | ⟨refused, _⟩
      · cases served.symm.trans served'
        exact fresh.len
      · cases served.symm.trans refused
  · intro now positive b member
    rcases segment.freeAtInner positive member with ⟨frees, kept⟩
    rw [LocalManager.freeAt, if_neg (by simp [inv.isOpen])]
    exact ⟨frees, kept.untouched⟩

/-- A segment with one shared region of sixteen blocks: a small payload is
served from it and a large one from a dedicated region, the small one is released
through the queue, and the next allocation takes its block again. -/
theorem segment_allocation_safe_reused :
    Exists fun s => (segmentSystem .buddy (rqSize + 2 * sharedRegionSize) 0 sharedRegionSize
      1048576 1048576).Reachable s /\
    s.live.map Block.offset =
      [rqSize + 15 * 1048576 + 8, rqSize + 2 * sharedRegionSize - 1310720] /\
    (s.live.Pairwise fun b c => b.span.Apart c.span) := by
  let start : SegmentState :=
    ⟨(LocalManager.newWithSize .buddy (rqSize + 2 * sharedRegionSize) 0 sharedRegionSize
      1048576 1048576).toOption.get (by decide +kernel), []⟩
  have built : (segmentSystem .buddy (rqSize + 2 * sharedRegionSize) 0 sharedRegionSize
      1048576 1048576).init start := ⟨rfl, rfl⟩
  have found : Exists fun s => (segmentSystem .buddy (rqSize + 2 * sharedRegionSize) 0
      sharedRegionSize 1048576 1048576).Reachable s /\
      s.live.map Block.offset =
        [rqSize + 15 * 1048576 + 8, rqSize + 2 * sharedRegionSize - 1310720] :=
    System.exists_reachable_of_run start
      [.alloc 1 100, .alloc 2 1048576, .release (rqSize + 15 * 1048576 + 8), .alloc 3 5000]
      built (by decide +kernel)
  rcases found with ⟨s, reachable, offsets⟩
  exact ⟨s, reachable, offsets, (segment_allocation_safe (by decide) reachable).1⟩

end V5
end Shmipc
