import Shmipc.V5.DynShmInvariant

namespace Shmipc
namespace V5

open ByteMemory Tiling
open LocalManager (markIdle trimPunched freeDedicated reuseDedicated)

/-!
# The operations of a segment

Each operation of the manager keeps the invariant and leaves every byte of the
buffers that stay live alone.
-/

namespace SegmentInv

variable {unit : Nat} {m : LocalManager} {live live' : List Block}
  {outs : Nat -> List Allocation} {span touched : Span} {b block : Block} {mem' : Memory}
  {now : Int}

/-! ## Dedicated regions -/

theorem replaceDedicated {dedicated : Dedicated} (inv : SegmentInv unit m live outs)
    (stacked : Stacked m.size (dedicated.regions.map DedicatedRegion.span) dedicated.offset)
    (boundary : m.maxSharedOffset <= dedicated.offset)
    (sizes : ∀ d ∈ dedicated.regions, maxBlockSize <= d.size /\ d.size < 2 ^ 32)
    (above : m.maxSharedOffset <= touched.start)
    (agree : AgreeOutside m.mem mem' touched.start touched.size)
    (punched : ∀ d ∈ dedicated.regions, d.updated = dedicatedRegionPunched ->
      d.isFreed mem' = true)
    (slot : ∀ b ∈ live', Exists fun span =>
      Slot { m with dedicated := dedicated, mem := mem' } outs b.offset b.cap span)
    (distinct : (live'.map Block.offset).Nodup) (stamped : ∀ b ∈ live', b.Stamped mem') :
    SegmentInv unit { m with dedicated := dedicated, mem := mem' } live' outs where
  layout := ⟨inv.layout.size_lt, inv.layout.placed, inv.layout.smallest, inv.layout.end_eq,
    inv.layout.pinned, stacked, boundary, sizes⟩
  region := fun _ _ found => inv.region_frame agree found fun _ out =>
    inv.apart_of_dedicated above found out
  punched := punched
  slot := slot
  distinct := distinct
  stamped := stamped

variable {d : DedicatedRegion} {regions : List DedicatedRegion} {mem : Memory}
  {size regionSize : Nat}

theorem swapDedicated {before after : List DedicatedRegion} {d' : DedicatedRegion}
    (inv : SegmentInv unit m live outs) (split : m.dedicated.regions = before ++ d :: after)
    (same : d'.span = d.span) (awake : d'.updated ≠ dedicatedRegionPunched)
    (agree : AgreeOutside m.mem mem' d.span.start d.span.size)
    (slot : ∀ b ∈ live', Exists fun span => Slot m outs b.offset b.cap span)
    (distinct : (live'.map Block.offset).Nodup) (stamped : ∀ b ∈ live', b.Stamped mem') :
    SegmentInv unit { m with
      dedicated := { m.dedicated with regions := before ++ d' :: after }, mem := mem' } live'
      outs := by
  have offset_eq : d'.offset = d.offset := congrArg Span.start same
  have size_eq : d'.size = d.size := congrArg Span.size same
  have inside : d ∈ m.dedicated.regions := by simp [split]
  have kept : forall x, x ∈ before ++ d' :: after ->
      x = d' \/ (x ∈ m.dedicated.regions /\ x.span.Apart d.span) := by
    have pairwise := List.pairwise_map.mp inv.layout.stacked.pairwise
    rw [split, List.pairwise_append] at pairwise
    rcases pairwise with ⟨_, below, across⟩
    intro x member
    rcases List.mem_append.mp member with early | rest
    · exact Or.inr ⟨by simp [split, early], across x early d List.mem_cons_self⟩
    · rcases List.mem_cons.mp rest with rfl | late
      · exact Or.inl rfl
      · refine Or.inr ⟨by simp [split, late], Span.Apart.symm ?_⟩
        exact (List.pairwise_cons.mp below).1 x late
  refine inv.replaceDedicated ?_ inv.layout.boundary ?_
    (inv.layout.dedicated_bounds inside).1 agree ?_ ?_ distinct stamped
  · have stacked := inv.layout.stacked
    simp only [split, List.map_append, List.map_cons] at stacked ⊢
    rw [same]
    exact stacked
  · intro x member
    rcases kept x member with rfl | ⟨old, _⟩
    · rw [size_eq]
      exact inv.layout.dedicated_size d inside
    · exact inv.layout.dedicated_size x old
  · intro x member punched
    rcases kept x member with rfl | ⟨old, apart⟩
    · exact absurd punched awake
    · rw [inv.isFreed_frame agree old apart]
      exact inv.punched x old punched
  · intro b member
    rcases slot b member with ⟨span, slot⟩
    cases slot with
    | shared found out offset cap => exact ⟨_, Slot.shared found out offset cap⟩
    | @dedicated x _ _ old offset cap =>
      by_cases equal : x = d
      · subst equal
        refine ⟨_, Slot.dedicated (d := d') (by simp) ?_ ?_⟩
        · rw [offset_eq]
          exact offset
        · rw [size_eq]
          exact cap
      · refine ⟨_, Slot.dedicated (d := x) ?_ offset cap⟩
        rw [split] at old
        simp only [List.mem_append, List.mem_cons, equal, false_or] at old ⊢
        exact old.imp_right Or.inr

theorem freeDedicated_eq {offset : Nat} (now : Int)
    (member : offset ∈ regions.map DedicatedRegion.offset)
    (busy : (DynShmBufferHeader.read mem offset).offset ≠ 0) :
    Exists fun before => Exists fun d => Exists fun after =>
      regions = before ++ d :: after /\ d.offset = offset /\
      freeDedicated now offset regions mem =
        (before ++ { d with updated := now } :: after,
          DynShmBufferHeader.setOffset mem offset 0) := by
  induction regions with
  | nil => cases member
  | cons first rest ih =>
    by_cases here : first.offset = offset
    · refine ⟨[], first, rest, rfl, here, ?_⟩
      rw [freeDedicated, if_pos (by rw [here]), DedicatedRegion.markFreed, here,
        if_neg busy]
      rfl
    · have later : offset ∈ rest.map DedicatedRegion.offset := by
        rw [List.map_cons, List.mem_cons] at member
        exact member.resolve_left (Ne.symm here)
      rcases ih later with ⟨before, d, after, split, at_, result⟩
      refine ⟨first :: before, d, after, by rw [split]; rfl, at_, ?_⟩
      rw [freeDedicated, if_neg (by omega), result]
      rfl

theorem dedicated_free (inv : SegmentInv unit m live outs) (positive : 0 < now) (inside : b ∈ live)
    (listed : d ∈ m.dedicated.regions) (offset_eq : b.offset = d.offset)
    (cap_eq : b.cap + dynshmBufferHeaderSize = d.size) :
    Exists fun before => Exists fun after => Exists fun mem' =>
      m.dedicated.regions = before ++ d :: after /\
      freeDedicated now b.offset m.dedicated.regions m.mem =
        (before ++ { d with updated := now } :: after, mem') /\
      (DynShmBufferHeader.read mem' b.offset).offset = 0 /\
      SegmentInv unit { m with
        dedicated := { m.dedicated with
          regions := before ++ { d with updated := now } :: after }
        mem := mem' }
        (live.filter fun c => c.offset ≠ b.offset) outs /\
      Untouched (live.filter fun c => c.offset ≠ b.offset) m.mem mem' := by
  have member : b.offset ∈ m.dedicated.regions.map DedicatedRegion.offset :=
    List.mem_map.mpr ⟨d, listed, offset_eq.symm⟩
  rcases freeDedicated_eq now member (inv.header_ne_zero inside) with
    ⟨before, x, after, split, at_, result⟩
  have slot : Slot m outs b.offset b.cap d.span := .dedicated listed offset_eq cap_eq
  have found : x = d := by
    by_contra differs
    have member : x ∈ m.dedicated.regions := by simp [split]
    have apart := inv.layout.dedicated_apart member listed differs
    have size := (inv.layout.dedicated_size d listed).1
    have size' := (inv.layout.dedicated_size x member).1
    have block : 0 < maxBlockSize := by decide
    simp only [Span.Apart, DedicatedRegion.span] at apart
    omega
  subst found
  have agree : AgreeOutside m.mem (DynShmBufferHeader.setOffset m.mem b.offset 0) x.span.start
      x.span.size := by
    have header : 8 <= dynshmBufferHeaderSize := by decide
    refine (DynShmBufferHeader.setOffset_agreeOutside m.mem b.offset 0).mono ?_ ?_
    · exact Nat.le_of_eq offset_eq.symm
    · simp only [DedicatedRegion.span]
      omega
  have untouched := inv.untouched_of_free slot agree
  have marked := DynShmBufferHeader.read_setOffset m.mem b.offset (show 0 < 2 ^ 63 by decide)
  refine ⟨before, after, _, split, result, congrArg DynShmBufferHeader.offset marked, ?_, untouched⟩
  refine inv.swapDedicated split rfl ?_ agree ?_ ?_ ?_
  · simp only [dedicatedRegionPunched]
    omega
  · intro c member
    exact inv.slot c (List.mem_of_mem_filter member)
  · exact inv.distinct.sublist (List.filter_sublist.map _)
  · intro c member
    exact (inv.stamped c (List.mem_of_mem_filter member)).of_agree (untouched c member)

/-- What a dedicated region hands out: its whole range behind a fresh header. -/
theorem dedicated_alloc {d' : DedicatedRegion} (fits : d.offset < 2 ^ 63) (small : d.size < 2 ^ 32)
    (result : d.alloc mem now size = some (block, d', mem')) :
    block.offset = d.offset /\ block.Fresh size mem' /\
      block.cap + dynshmBufferHeaderSize = d.size /\ block.Stamped mem' /\
      d'.span = d.span /\ d'.updated = now /\ d.isFreed mem = true /\
      AgreeOutside mem mem' d.span.start d.span.size := by
  unfold DedicatedRegion.alloc at result
  split at result
  · cases result
  · next accepted =>
    rcases not_or.mp accepted with ⟨freed, room⟩
    cases result
    have cap_eq : d.size - dynshmBufferHeaderSize + dynshmBufferHeaderSize = d.size :=
      Nat.sub_add_cancel (by omega)
    have header : DynShmBufferHeader.read (DynShmBufferHeader.write mem d.offset
        ⟨d.offset, 0, size, d.size - dynshmBufferHeaderSize⟩) d.offset =
        ⟨d.offset, 0, size, d.size - dynshmBufferHeaderSize⟩ :=
      DynShmBufferHeader.read_write mem d.offset fits (by decide) (by omega) (by omega)
    refine ⟨rfl, ⟨rfl, congrArg DynShmBufferHeader.next header⟩, cap_eq, ?_, rfl, rfl,
      by simpa using freed, ?_⟩
    · exact {
        offset := congrArg DynShmBufferHeader.offset header
        len := congrArg DynShmBufferHeader.len header
        cap := congrArg DynShmBufferHeader.cap header
        len_le := by show size <= d.size - dynshmBufferHeaderSize; omega
        cap_lt := by show d.size - dynshmBufferHeaderSize < 2 ^ 32; omega }
    · refine (DynShmBufferHeader.write_agreeOutside mem _ _).mono (Nat.le_refl _) ?_
      simp only [DedicatedRegion.span]
      omega

theorem reuseDedicated_some {regions' : List DedicatedRegion}
    (result : reuseDedicated now size regionSize mem regions =
      some (block, regions', mem')) :
    Exists fun before => Exists fun d => Exists fun d' => Exists fun after =>
      regions = before ++ d :: after /\ regions' = before ++ d' :: after /\
      d.alloc mem now size = some (block, d', mem') := by
  induction regions generalizing regions' with
  | nil => cases result
  | cons first rest ih =>
    have passed : (reuseDedicated now size regionSize mem rest).map
        (fun found => (found.1, first :: found.2.1, found.2.2)) = some (block, regions', mem') ->
        Exists fun before => Exists fun d => Exists fun d' => Exists fun after =>
          first :: rest = before ++ d :: after /\ regions' = before ++ d' :: after /\
          d.alloc mem now size = some (block, d', mem') := by
      intro later
      rcases Option.map_eq_some_iff.mp later with ⟨⟨found, rest', memory⟩, reused, same⟩
      cases same
      rcases ih reused with ⟨before, d, d', after, split, split', taken⟩
      exact ⟨first :: before, d, d', after, by rw [split]; rfl, by rw [split']; rfl, taken⟩
    rw [reuseDedicated] at result
    dsimp only at result
    split at result
    · split at result
      · next taken =>
        cases result
        exact ⟨[], first, _, rest, rfl, rfl, taken⟩
      · exact passed result
    · exact passed result

/-- A region that is carved holds the payload and its header, and its room fits
four bytes. -/
theorem calcDedicatedRegionSize_bounds (accepted : calcDedicatedRegionSize size ≠ 0) :
    size + dynshmBufferHeaderSize <= calcDedicatedRegionSize size /\
      maxBlockSize <= calcDedicatedRegionSize size /\ calcDedicatedRegionSize size < 2 ^ 32 := by
  unfold calcDedicatedRegionSize at accepted ⊢
  split at accepted
  · exact absurd rfl accepted
  · next small =>
    rw [if_neg small]
    have lower := Nat.div_mul_le_self (size + dynshmBufferHeaderSize + maxBlockSize - 1)
      maxBlockSize
    have upper := Nat.lt_div_mul_add (a := size + dynshmBufferHeaderSize + maxBlockSize - 1)
      (show 0 < maxBlockSize by decide)
    have whole : maxBlockSize <=
        (size + dynshmBufferHeaderSize + maxBlockSize - 1) / maxBlockSize * maxBlockSize := by
      refine Nat.le_mul_of_pos_left _ (Nat.div_pos ?_ (by decide))
      have : 0 < dynshmBufferHeaderSize := by decide
      omega
    have header : dynshmBufferHeaderSize = 24 := rfl
    have block : maxBlockSize = 262144 := rfl
    omega

theorem reuse (inv : SegmentInv unit m live outs) (positive : 0 < now)
    (result : reuseDedicated now size regionSize m.mem m.dedicated.regions =
      some (block, regions, mem')) :
    SegmentInv unit { m with dedicated := { m.dedicated with regions := regions }, mem := mem' }
      (block :: live) outs /\ Untouched live m.mem mem' /\ block.Fresh size mem' := by
  rcases reuseDedicated_some result with ⟨before, d, d', after, split, rfl, taken⟩
  have listed : d ∈ m.dedicated.regions := by simp [split]
  have bounds := inv.layout.dedicated_bounds listed
  have size_lt := inv.layout.size_lt
  rcases dedicated_alloc (by omega) (inv.layout.dedicated_size d listed).2 taken with
    ⟨offset_eq, fresh, cap_eq, stamped, same, updated, freed, agree⟩
  have untouched : Untouched live m.mem mem' := by
    intro b member
    rcases inv.slot b member with ⟨span, slot⟩
    exact inv.buffer_frame agree slot (inv.live_apart_of_isFreed listed freed member slot)
  refine ⟨inv.swapDedicated split same ?_ agree ?_ ?_ ?_, untouched, fresh⟩
  · rw [updated]
    simp only [dedicatedRegionPunched]
    omega
  · intro b member
    rcases List.mem_cons.mp member with rfl | old
    · exact ⟨_, Slot.dedicated listed offset_eq cap_eq⟩
    · exact inv.slot b old
  · refine List.nodup_cons.mpr ⟨fun member => ?_, inv.distinct⟩
    rcases List.mem_map.mp member with ⟨b, old, equal⟩
    have busy := inv.header_ne_zero old
    simp only [DedicatedRegion.isFreed, decide_eq_true_eq] at freed
    rw [equal, offset_eq] at busy
    exact busy freed
  · intro b member
    rcases List.mem_cons.mp member with rfl | old
    · exact stamped
    · exact (inv.stamped b old).of_agree (untouched b old)

theorem carve {newOffset : Nat} (inv : SegmentInv unit m live outs) (positive : 0 < now)
    (whole : maxBlockSize <= regionSize) (small : regionSize < 2 ^ 32)
    (lowest : newOffset + regionSize = m.dedicated.offset)
    (boundary : m.maxSharedOffset <= newOffset)
    (result : (DedicatedRegion.new m.mem regionSize newOffset).1.alloc
      (DedicatedRegion.new m.mem regionSize newOffset).2 now size = some (block, d, mem')) :
    SegmentInv unit { m with
      dedicated := ⟨m.dedicated.regions ++ [d], newOffset⟩, mem := mem' } (block :: live) outs /\
      Untouched live m.mem mem' /\ block.Fresh size mem' := by
  have below := inv.layout.stacked.bottom_le
  have size_lt := inv.layout.size_lt
  rcases dedicated_alloc (show newOffset < 2 ^ 63 by omega) small result with
    ⟨offset_eq, fresh, cap_eq, stamped, same, updated, _, written⟩
  have same : d.span = ⟨newOffset, regionSize⟩ := same
  have header : dynshmBufferHeaderSize <= maxBlockSize := by decide
  have agree : AgreeOutside m.mem mem' (Span.mk newOffset regionSize).start
      (Span.mk newOffset regionSize).size :=
    ((DynShmBufferHeader.write_agreeOutside m.mem newOffset _).mono (Nat.le_refl _)
      (Nat.add_le_add_left (header.trans whole) newOffset)).trans written
  have miss : forall {offset cap span}, Slot m outs offset cap span ->
      span.Apart ⟨newOffset, regionSize⟩ := by
    intro offset cap span slot
    cases slot with
    | shared found out _ _ => exact inv.apart_of_dedicated boundary found out
    | dedicated inside _ _ =>
      have lower := (inv.layout.stacked.bounds (List.mem_map_of_mem inside)).1
      exact Or.inr (by simp only; omega)
  have untouched : Untouched live m.mem mem' := by
    intro b member
    rcases inv.slot b member with ⟨span, slot⟩
    exact inv.buffer_frame agree slot (miss slot)
  refine ⟨inv.replaceDedicated ?_ boundary ?_ boundary agree ?_ ?_ ?_ ?_, untouched, fresh⟩
  · have stacked := inv.layout.stacked
    rw [<- lowest] at stacked
    rw [List.map_append, List.map_singleton, same]
    exact stacked.concat
  · intro x member
    rcases List.mem_append.mp member with old | added
    · exact inv.layout.dedicated_size x old
    · rw [List.mem_singleton.mp added, show d.size = regionSize from congrArg Span.size same]
      exact ⟨whole, small⟩
  · intro x member punched
    rcases List.mem_append.mp member with old | added
    · have lower := (inv.layout.stacked.bounds (List.mem_map_of_mem old)).1
      rw [inv.isFreed_frame agree old (Or.inr (by simp only; omega))]
      exact inv.punched x old punched
    · rw [List.mem_singleton.mp added, updated] at punched
      simp only [dedicatedRegionPunched] at punched
      omega
  · intro b member
    rcases List.mem_cons.mp member with rfl | old
    · refine ⟨_, Slot.dedicated (d := d) (by simp) ?_ ?_⟩
      · rw [show d.offset = newOffset from congrArg Span.start same]
        exact offset_eq
      · rw [show d.size = regionSize from congrArg Span.size same]
        exact cap_eq
    · rcases inv.slot b old with ⟨span, slot⟩
      cases slot with
      | shared found out offset cap => exact ⟨_, Slot.shared found out offset cap⟩
      | dedicated inside offset cap =>
        exact ⟨_, Slot.dedicated (List.mem_append_left _ inside) offset cap⟩
  · refine List.nodup_cons.mpr ⟨fun member => ?_, inv.distinct⟩
    rcases List.mem_map.mp member with ⟨b, old, equal⟩
    rcases inv.slot b old with ⟨span, slot⟩
    have apart := miss slot
    have inside := inv.slot_header slot
    have positive : 0 < dynshmBufferHeaderSize := by decide
    have start : block.offset = newOffset := offset_eq
    simp only [Span.Apart] at apart
    omega
  · intro b member
    rcases List.mem_cons.mp member with rfl | old
    · exact stamped
    · exact (inv.stamped b old).of_agree (untouched b old)

end SegmentInv

/-! ## Allocation and release -/

/-- The parts of a manager that no operation on regions changes. -/
structure SameSegment (m m' : LocalManager) : Prop where
  size : m'.size = m.size
  rq : m'.rq = m.rq
  closed : m'.closed = m.closed

theorem SameSegment.refl (m : LocalManager) : SameSegment m m :=
  ⟨rfl, rfl, rfl⟩

variable {m m' m'' : LocalManager} {live : List Block} {mem mem' : Memory}

theorem SameSegment.trans (first : SameSegment m m') (second : SameSegment m' m'') :
    SameSegment m m'' :=
  ⟨second.size.trans first.size, second.rq.trans first.rq, second.closed.trans first.closed⟩

theorem Untouched.trans {mem'' : Memory} (first : Untouched live mem mem')
    (second : Untouched live mem' mem'') :
    Untouched live mem mem'' := by
  intro b member x lower upper
  rw [second b member x lower upper, first b member x lower upper]

theorem Untouched.mono {live' : List Block} (untouched : Untouched live mem mem')
    (fewer : live' ⊆ live) : Untouched live' mem mem' :=
  fun b member => untouched b (fewer member)

/-- An operation on regions: some buffers are live afterwards, and those that
were live before and stay so keep every byte. -/
structure Kept (unit : Nat) (m m' : LocalManager) (stay live' : List Block) : Prop where
  inv : Exists fun outs => SegmentInv unit m' live' outs
  untouched : Untouched stay m.mem m'.mem
  same : SameSegment m m'

/-- One buffer went back: the allocator of its shared region took the block, or
its dedicated region is marked; no other region changed, and the header says that
the buffer is free. -/
structure Frees (now : Int) (m m' : LocalManager) (offset : Nat) : Prop where
  region :
    (Exists fun k => Exists fun r => Exists fun r' => m.sharedRegions[k]? = some r /\
      r.freeAt m.mem offset = (.ok (), r', m'.mem) /\ r'.allocs + 1 = r.allocs /\
      m'.sharedRegions = m.sharedRegions.set k r' /\ m'.dedicated = m.dedicated) \/
    (Exists fun before => Exists fun d => Exists fun after =>
      m.dedicated.regions = before ++ d :: after /\ d.offset = offset /\
      m'.dedicated = ⟨before ++ { d with updated := now } :: after, m.dedicated.offset⟩ /\
      m'.sharedRegions = m.sharedRegions)
  marked : (DynShmBufferHeader.read m'.mem offset).offset = 0

namespace SegmentInv

variable {unit : Nat} {m m' : LocalManager} {live : List Block} {outs : Nat -> List Allocation}
  {b block : Block} {now : Int} {size : Nat}

theorem kept_refl (inv : SegmentInv unit m live outs) : Kept unit m m live live :=
  ⟨⟨outs, inv⟩, fun _ _ _ _ _ => rfl, SameSegment.refl m⟩

/-- A fresh region is free, so it can be handed out for what it was carved for. -/
theorem alloc_new_isSome {regionSize : Nat} (now : Int) (mem : Memory) (offset : Nat)
    (holds : size + dynshmBufferHeaderSize <= regionSize) :
    ((DedicatedRegion.new mem regionSize offset).1.alloc
      (DedicatedRegion.new mem regionSize offset).2 now size).isSome = true := by
  have fresh : (DynShmBufferHeader.read (DedicatedRegion.new mem regionSize offset).2
      offset).offset = 0 :=
    congrArg DynShmBufferHeader.offset
      (DynShmBufferHeader.read_write mem offset (by decide) (by decide) (by decide) (by decide))
  unfold DedicatedRegion.alloc
  rw [if_neg]
  · rfl
  · refine not_or.mpr ⟨?_, Nat.not_lt_of_le holds⟩
    rw [DedicatedRegion.isFreed, Bool.not_eq_false]
    exact decide_eq_true fresh

theorem allocDedicated (inv : SegmentInv unit m live outs) (positive : 0 < now) (size : Nat) :
    (Exists fun block => (m.allocDedicated now size).1 = .ok block /\
      block.Fresh size (m.allocDedicated now size).2.mem /\
      Kept unit m (m.allocDedicated now size).2 live (block :: live)) \/
    ((m.allocDedicated now size).1 = .error .noSpace /\ (m.allocDedicated now size).2 = m) := by
  unfold LocalManager.allocDedicated
  dsimp only
  split
  · exact Or.inr ⟨rfl, rfl⟩
  · next accepted =>
    split
    · next block regions mem' reused =>
      rcases inv.reuse positive reused with ⟨inv', untouched, fresh⟩
      exact Or.inl ⟨block, rfl, fresh, ⟨⟨outs, inv'⟩, untouched, ⟨rfl, rfl, rfl⟩⟩⟩
    · split
      · exact Or.inr ⟨rfl, rfl⟩
      · next room =>
        split
        · exact Or.inr ⟨rfl, rfl⟩
        · next boundary =>
          rcases calcDedicatedRegionSize_bounds accepted with ⟨holds, whole, small⟩
          rcases Option.isSome_iff_exists.mp
            (alloc_new_isSome now m.mem (m.dedicated.offset - calcDedicatedRegionSize size) holds)
            with ⟨⟨block, d, mem'⟩, taken⟩
          rcases inv.carve positive whole small (by omega)
            (Nat.le_of_not_lt boundary) taken with ⟨inv', untouched, fresh⟩
          rw [taken]
          exact Or.inl ⟨block, rfl, fresh, ⟨⟨outs, inv'⟩, untouched, ⟨rfl, rfl, rfl⟩⟩⟩

theorem allocShared (inv : SegmentInv unit m live outs) (positive : 0 < now) (size : Nat)
    (order : List Nat) :
    (Exists fun block => (LocalManager.allocShared now size order m).1 = some block /\
      block.Fresh size (LocalManager.allocShared now size order m).2.mem /\
      Kept unit m (LocalManager.allocShared now size order m).2 live (block :: live)) \/
    ((LocalManager.allocShared now size order m).1 = none /\
      Kept unit m (LocalManager.allocShared now size order m).2 live live) := by
  induction order generalizing m with
  | nil => exact Or.inr ⟨rfl, inv.kept_refl⟩
  | cons index rest ih =>
    rw [LocalManager.allocShared]
    cases found : m.sharedRegions[index]? with
    | none => exact ih inv
    | some region =>
      dsimp only
      rcases result : region.alloc m.mem now size with ⟨answer, region', mem'⟩
      cases answer with
      | some block =>
        rcases inv.shared_alloc found positive result with ⟨inv', untouched, fresh⟩
        exact Or.inl ⟨block, rfl, fresh, ⟨inv', untouched, ⟨rfl, rfl, rfl⟩⟩⟩
      | none =>
        rcases inv.shared_refuse found positive result with ⟨inv', unchanged⟩
        subst unchanged
        rcases ih inv' with ⟨block, served, fresh, kept⟩ | ⟨refused, kept⟩
        · exact Or.inl ⟨block, served, fresh, ⟨kept.inv, kept.untouched,
            ⟨kept.same.size, kept.same.rq, kept.same.closed⟩⟩⟩
        · exact Or.inr ⟨refused, ⟨kept.inv, kept.untouched,
            ⟨kept.same.size, kept.same.rq, kept.same.closed⟩⟩⟩

variable {k : Nat} {r : SharedRegion} {offset : Int}

theorem sharedByOffset_eq {a : Allocation} (inv : SegmentInv unit m live outs)
    (found : m.sharedRegions[k]? = some r) (out : a ∈ outs k)
    (room : dynshmBufferHeaderSize <= a.cap) :
    m.sharedByOffset ((r.offset + a.dataOffset : Nat) : Int) = some k := by
  rcases inv.layout.placed k r found with ⟨offset_eq, size_eq⟩
  have bounds := inv.layout.region_bounds found
  have inside := inv.slot_inside found out
  have data := (inv.region k r found).allocator.data_eq out
  have header : 0 < dynshmBufferHeaderSize := by decide
  simp only [SharedRegion.slot] at inside
  have index : (r.offset + a.dataOffset - rqSize) / sharedRegionSize = k := by
    rw [offset_eq, Nat.add_assoc, Nat.add_sub_cancel_left, Nat.mul_comm,
      Nat.mul_add_div (by decide), Nat.div_eq_of_lt (by omega), Nat.add_zero]
  unfold LocalManager.sharedByOffset
  rw [if_neg (by omega), Int.toNat_natCast]
  dsimp only
  rw [index, if_pos (List.getElem?_eq_some_iff.mp found).1]

theorem sharedByOffset_eq_none {d : DedicatedRegion} (inv : SegmentInv unit m live outs)
    (listed : d ∈ m.dedicated.regions) : m.sharedByOffset (d.offset : Int) = none := by
  have above := (inv.layout.dedicated_bounds listed).1
  unfold LocalManager.sharedByOffset
  rw [if_pos (by omega)]

theorem freeAtInner_of_shared (region : m.sharedByOffset offset = some k)
    (found : m.sharedRegions[k]? = some r) :
    m.freeAtInner now offset = { m with
      sharedRegions := m.sharedRegions.set k (r.freeAt m.mem offset).2.1
      mem := (r.freeAt m.mem offset).2.2 } := by
  simp only [LocalManager.freeAtInner, region, found]

theorem freeAtInner_of_dedicated (region : m.sharedByOffset offset = none) :
    m.freeAtInner now offset = { m with
      dedicated := { m.dedicated with
        regions := (freeDedicated now offset m.dedicated.regions m.mem).1 }
      mem := (freeDedicated now offset m.dedicated.regions m.mem).2 } := by
  simp only [LocalManager.freeAtInner, region]

theorem freeAtInner (inv : SegmentInv unit m live outs) (positive : 0 < now)
    (inside : b ∈ live) :
    Frees now m (m.freeAtInner now b.offset) b.offset /\
      Kept unit m (m.freeAtInner now b.offset) (live.filter fun c => c.offset ≠ b.offset)
        (live.filter fun c => c.offset ≠ b.offset) := by
  rcases inv.slot b inside with ⟨span, slot⟩
  cases slot with
  | @shared k r a _ _ found out offset_eq cap_eq =>
    rcases inv.shared_free inside found out offset_eq cap_eq with
      ⟨r', mem', freed, fewer, marked, inv', untouched⟩
    have region := inv.sharedByOffset_eq found out (by omega)
    rw [<- offset_eq] at region
    rw [freeAtInner_of_shared region found, freed]
    exact ⟨⟨Or.inl ⟨k, r, r', found, freed, fewer, rfl, rfl⟩, marked⟩,
      ⟨inv', untouched, ⟨rfl, rfl, rfl⟩⟩⟩
  | @dedicated d _ _ listed offset_eq cap_eq =>
    rcases inv.dedicated_free positive inside listed offset_eq cap_eq with
      ⟨before, after, mem', split, freed, marked, inv', untouched⟩
    have region := inv.sharedByOffset_eq_none listed
    rw [<- offset_eq] at region
    rw [freeAtInner_of_dedicated region, freed]
    exact ⟨⟨Or.inr ⟨before, d, after, split, offset_eq.symm, rfl, rfl⟩, marked⟩,
      ⟨⟨outs, inv'⟩, untouched, ⟨rfl, rfl, rfl⟩⟩⟩

theorem freeAll (inv : SegmentInv unit m live outs) (positive : 0 < now) {queue : List Int}
    (queued : ∀ offset ∈ queue, Exists fun b => b ∈ live /\ (b.offset : Int) = offset)
    (once : queue.Nodup) :
    Kept unit m (queue.foldl (fun m offset => m.freeAtInner now offset) m)
      (live.filter fun c => (c.offset : Int) ∉ queue)
      (live.filter fun c => (c.offset : Int) ∉ queue) := by
  induction queue generalizing m live outs with
  | nil => simpa using inv.kept_refl
  | cons first rest ih =>
    rcases queued first List.mem_cons_self with ⟨b, inside, rfl⟩
    rcases List.nodup_cons.mp once with ⟨fresh, once⟩
    have freed := (inv.freeAtInner positive inside).2
    rcases freed.inv with ⟨outs', inv'⟩
    have remaining : ∀ offset ∈ rest, Exists fun c =>
        c ∈ (live.filter fun c => c.offset ≠ b.offset) /\ (c.offset : Int) = offset := by
      intro offset member
      rcases queued offset (List.mem_cons_of_mem _ member) with ⟨c, old, rfl⟩
      refine ⟨c, List.mem_filter.mpr ⟨old, decide_eq_true fun same => ?_⟩, rfl⟩
      rw [same] at member
      exact fresh member
    have later := ih inv' remaining once
    have both : (live.filter fun c => c.offset ≠ b.offset).filter
        (fun c => (c.offset : Int) ∉ rest) =
        live.filter fun c => (c.offset : Int) ∉ (b.offset : Int) :: rest := by
      rw [List.filter_filter]
      refine List.filter_congr fun c _ => ?_
      simp only [List.mem_cons, not_or, ne_eq, Int.natCast_inj, Bool.decide_and, Bool.and_comm]
    rw [both] at later
    rw [List.foldl_cons]
    refine ⟨later.inv, (freed.untouched.mono ?_).trans later.untouched,
      freed.same.trans later.same⟩
    intro c member
    rw [<- both] at member
    exact List.mem_of_mem_filter member

theorem setQueue (inv : SegmentInv unit m live outs) (rq : List Int) (allocIdx : Nat) :
    SegmentInv unit { m with rq := rq, allocIdx := allocIdx } live outs := { inv with
  layout := { inv.layout with }
  slot := fun b member => (inv.slot b member).imp fun _ slot => slot.of_regions rfl rfl }

end SegmentInv

theorem Kept.trans {unit : Nat} {stay : List Block} (first : Kept unit m m' stay stay)
    (second : Kept unit m' m'' stay live) :
    Kept unit m m'' stay live :=
  ⟨second.inv, first.untouched.trans second.untouched, first.same.trans second.same⟩

namespace SegmentInv

variable {unit : Nat} {m m' : LocalManager} {live : List Block} {outs : Nat -> List Allocation}
  {b block : Block} {now : Int} {size : Nat}

theorem drainRqInner (inv : SegmentInv unit m live outs) (positive : 0 < now)
    (queued : ∀ offset ∈ m.rq, Exists fun b => b ∈ live /\ (b.offset : Int) = offset)
    (once : m.rq.Nodup) :
    Kept unit { m with rq := [] } (m.drainRqInner now)
      (live.filter fun c => (c.offset : Int) ∉ m.rq)
      (live.filter fun c => (c.offset : Int) ∉ m.rq) :=
  (inv.setQueue [] m.allocIdx).freeAll positive queued once

theorem drainPending (inv : SegmentInv unit m live outs) (positive : 0 < now)
    (queued : ∀ offset ∈ m.rq, Exists fun b => b ∈ live /\ (b.offset : Int) = offset)
    (once : m.rq.Nodup) :
    Kept unit { m with rq := [] } (if 0 < m.rqPending then m.drainRqInner now else m)
      (live.filter fun c => (c.offset : Int) ∉ m.rq)
      (live.filter fun c => (c.offset : Int) ∉ m.rq) := by
  split
  · exact inv.drainRqInner positive queued once
  · next empty =>
    have none : m.rq = [] := List.length_eq_zero_iff.mp (Nat.eq_zero_of_not_pos empty)
    have whole : (live.filter fun c => (c.offset : Int) ∉ m.rq) = live := by simp [none]
    rw [whole]
    exact ⟨⟨outs, inv⟩, fun _ _ _ _ _ => rfl, ⟨rfl, none, rfl⟩⟩

/-- An allocation serves the request or refuses it; what the queue named is
freed, and every other live buffer is left alone. -/
theorem alloc (inv : SegmentInv unit m live outs) (positive : 0 < now)
    (queued : ∀ offset ∈ m.rq, Exists fun b => b ∈ live /\ (b.offset : Int) = offset)
    (once : m.rq.Nodup) (isOpen : m.closed = false) (nonempty : size ≠ 0) :
    (Exists fun block => (m.alloc now size).1 = .ok block /\
      block.Fresh size (m.alloc now size).2.mem /\
      Kept unit { m with rq := [] } (m.alloc now size).2
        (live.filter fun c => (c.offset : Int) ∉ m.rq)
        (block :: live.filter fun c => (c.offset : Int) ∉ m.rq)) \/
    ((m.alloc now size).1 = .error .noSpace /\
      Kept unit { m with rq := [] } (m.alloc now size).2
        (live.filter fun c => (c.offset : Int) ∉ m.rq)
        (live.filter fun c => (c.offset : Int) ∉ m.rq)) := by
  have drained := inv.drainPending positive queued once
  rcases drained.inv with ⟨outs', inv'⟩
  unfold LocalManager.alloc
  rw [if_neg (by simp [isOpen]), if_neg nonempty]
  dsimp only
  generalize (if 0 < m.rqPending then m.drainRqInner now else m) = ready at drained inv'
  split
  · rcases inv'.allocDedicated positive size with
      ⟨block, served, fresh, kept⟩ | ⟨refused, unchanged⟩
    · exact Or.inl ⟨block, served, fresh, drained.trans kept⟩
    · exact Or.inr ⟨refused, by rw [unchanged]; exact drained⟩
  · have ordered : Exists fun idx => ready.allocOrder.2 = { ready with allocIdx := idx } := by
      unfold LocalManager.allocOrder
      dsimp only
      split
      · exact ⟨_, rfl⟩
      · exact ⟨ready.allocIdx, rfl⟩
    generalize ready.allocOrder = ordering at ordered ⊢
    rcases ordering with ⟨order, next⟩
    have ordered : Exists fun idx => next = { ready with allocIdx := idx } := ordered
    rcases ordered with ⟨idx, rfl⟩
    dsimp only
    have moved := inv'.setQueue ready.rq idx
    have started : Kept unit ready { ready with allocIdx := idx }
        (live.filter fun c => (c.offset : Int) ∉ m.rq)
        (live.filter fun c => (c.offset : Int) ∉ m.rq) :=
      ⟨⟨outs', moved⟩, fun _ _ _ _ _ => rfl, ⟨rfl, rfl, rfl⟩⟩
    have shared := moved.allocShared positive size order
    generalize LocalManager.allocShared now size order { ready with allocIdx := idx } = result
      at shared ⊢
    rcases result with ⟨answer, last⟩
    dsimp only at shared
    rcases shared with ⟨block, rfl, fresh, kept⟩ | ⟨rfl, kept⟩
    · exact Or.inl ⟨block, rfl, fresh, (drained.trans started).trans kept⟩
    · exact Or.inr ⟨rfl, (drained.trans started).trans kept⟩

/-! ## Pruning -/

theorem apart_of_empty {k : Nat} {r : SharedRegion} (inv : SegmentInv unit m live outs)
    (found : m.sharedRegions[k]? = some r) (empty : outs k = []) (member : b ∈ live) :
    b.span.Apart ⟨r.offset, r.size⟩ := by
  rcases inv.slot b member with ⟨span, slot⟩
  have inside := inv.slot_header slot
  have apart : span.Apart ⟨r.offset, r.size⟩ := by
    cases slot with
    | @shared j x a _ _ at_ out _ _ =>
      by_cases equal : j = k
      · subst equal
        rw [empty] at out
        cases out
      · exact inv.apart_of_region found (Nat.le_refl _) (Nat.le_refl _) at_ out (Ne.symm equal)
    | dedicated listed _ _ =>
      have above := (inv.layout.dedicated_bounds listed).1
      have below := (inv.layout.region_bounds found).2
      exact Or.inr (by simp only [DedicatedRegion.span]; omega)
  simp only [Span.Apart, Block.span] at apart ⊢
  omega

theorem apart_of_freed {d : DedicatedRegion} (inv : SegmentInv unit m live outs)
    (listed : d ∈ m.dedicated.regions) (freed : d.isFreed m.mem = true) (member : b ∈ live) :
    b.span.Apart d.span := by
  rcases inv.slot b member with ⟨span, slot⟩
  have inside := inv.slot_header slot
  have apart := inv.live_apart_of_isFreed listed freed member slot
  simp only [Span.Apart, Block.span] at apart ⊢
  omega

end SegmentInv

theorem getElem_pruneShared {regions : List SharedRegion} {pinned : Nat}
    (enough : pinned <= regions.length) (now : Int) (j : Nat) :
    (regions.take pinned ++ (LocalManager.pruneShared now (regions.drop pinned)).1)[j]? =
      regions[j]?.map fun r => if j < pinned then r else (r.punchIfIdle now maxAge).2 := by
  have length_take : (regions.take pinned).length = pinned := List.length_take_of_le enough
  by_cases early : j < pinned
  · rw [List.getElem?_append_left (by omega), List.getElem?_take_of_lt early]
    simp only [if_pos early, Option.map_id_fun', id_eq]
  · rw [List.getElem?_append_right (by omega), length_take]
    simp only [LocalManager.pruneShared, if_neg early, List.getElem?_map, List.getElem?_drop]
    rw [Nat.add_sub_cancel' (Nat.le_of_not_lt early)]

theorem span_markIdle (now : Int) (mem : Memory) (d : DedicatedRegion) :
    (markIdle now mem d).span = d.span := by
  unfold markIdle
  split <;> rfl

theorem isFreed_of_markIdle {now : Int} {d : DedicatedRegion}
    (before : d.updated = dedicatedRegionPunched -> d.isFreed mem = true)
    (marked : (markIdle now mem d).updated = dedicatedRegionPunched) :
    (markIdle now mem d).isFreed mem = true := by
  unfold markIdle at marked ⊢
  split at marked
  · next idle =>
    rw [if_pos idle]
    simp only [LocalManager.idleDedicated, decide_eq_true_eq] at idle
    exact idle.2.1
  · next idle =>
    rw [if_neg idle]
    exact before marked

theorem trimPunched_append (regions : List DedicatedRegion) :
    Exists fun dropped => regions = trimPunched regions ++ dropped /\
      ∀ d ∈ dropped, d.updated = dedicatedRegionPunched := by
  refine ⟨_, List.rdropWhile_append_rtakeWhile.symm, fun d inside => ?_⟩
  have marked := List.mem_rtakeWhile_imp inside
  exact eq_of_beq marked

namespace SegmentInv

variable {unit : Nat} {m : LocalManager} {live : List Block} {outs : Nat -> List Allocation}
  {b : Block} {now : Int}

theorem pruneShared (inv : SegmentInv unit m live outs) (now : Int) :
    SegmentInv unit { m with
      sharedRegions := m.sharedRegions.take m.minSharedCount ++
        (LocalManager.pruneShared now (m.sharedRegions.drop m.minSharedCount)).1 } live outs := by
  have at_ := getElem_pruneShared inv.layout.pinned now
  have retired : forall (k : Nat) (x : SharedRegion),
      (m.sharedRegions.take m.minSharedCount ++
        (LocalManager.pruneShared now (m.sharedRegions.drop m.minSharedCount)).1)[k]? = some x ->
      Exists fun r => m.sharedRegions[k]? = some r /\ SharedRegion.SameRange r x /\
        x.Inv m.mem (outs k) := by
    intro k x found
    rw [at_, Option.map_eq_some_iff] at found
    rcases found with ⟨r, found, rfl⟩
    have own := inv.region k r found
    rcases own.punchIfIdle now maxAge with ⟨same, kept, _⟩
    split
    · exact ⟨r, found, ⟨rfl, rfl, rfl⟩, own⟩
    · exact ⟨r, found, same, kept⟩
  have length_eq : (m.sharedRegions.take m.minSharedCount ++
      (LocalManager.pruneShared now (m.sharedRegions.drop m.minSharedCount)).1).length =
      m.sharedRegions.length := by
    have enough := inv.layout.pinned
    simp only [LocalManager.pruneShared, List.length_append, List.length_take, List.length_map,
      List.length_drop]
    omega
  exact { inv with
    layout := { inv.layout with
      placed := by
        intro k x found
        rcases retired k x found with ⟨r, old, same, _⟩
        rw [same.offset, same.size]
        exact inv.layout.placed k r old
      smallest := by
        intro k x found
        rcases retired k x found with ⟨r, old, same, _⟩
        rw [same.smallest]
        exact inv.layout.smallest k r old
      end_eq := by rw [length_eq]; exact inv.layout.end_eq
      pinned := by rw [length_eq]; exact inv.layout.pinned }
    region := by
      intro k x found
      rcases retired k x found with ⟨_, _, _, own⟩
      exact own
    slot := by
      intro b member
      rcases inv.slot b member with ⟨span, slot⟩
      cases slot with
      | @shared k r a _ _ found out offset cap =>
        have now_at := at_ k
        rw [found, Option.map_some] at now_at
        rcases retired k _ now_at with ⟨r', old, same, _⟩
        cases found.symm.trans old
        refine ⟨_, Slot.shared now_at out ?_ cap⟩
        rw [same.offset]
        exact offset
      | dedicated listed offset cap => exact ⟨_, Slot.dedicated listed offset cap⟩ }

theorem mem_trimPunched {d : DedicatedRegion} (inv : SegmentInv unit m live outs) (now : Int)
    (listed : d ∈ m.dedicated.regions) (busy : d.isFreed m.mem = false) :
    d ∈ trimPunched
      (m.dedicated.regions.map (markIdle now m.mem)) := by
  have unmarked : markIdle now m.mem d = d := by
    simp [markIdle, LocalManager.idleDedicated, busy]
  have member : d ∈ m.dedicated.regions.map (markIdle now m.mem) :=
    List.mem_map.mpr ⟨d, listed, unmarked⟩
  rcases trimPunched_append (m.dedicated.regions.map (markIdle now m.mem)) with
    ⟨dropped, split, marked⟩
  rw [split, List.mem_append] at member
  refine member.resolve_right fun inside => ?_
  have freed := inv.punched d listed (marked d inside)
  rw [busy] at freed
  cases freed

/-- Marking idle dedicated regions and giving up the marked ones at the end. -/
theorem trimDedicated {offset : Nat} (inv : SegmentInv unit m live outs) (now : Int)
    (lowest : offset = (((trimPunched
      (m.dedicated.regions.map (markIdle now m.mem))).getLast?.map
        DedicatedRegion.offset).getD m.size)) :
    SegmentInv unit { m with
      dedicated := ⟨trimPunched
        (m.dedicated.regions.map (markIdle now m.mem)), offset⟩ } live outs := by
  rcases trimPunched_append (m.dedicated.regions.map (markIdle now m.mem)) with ⟨dropped, split, _⟩
  have old : forall d, d ∈ trimPunched
      (m.dedicated.regions.map (markIdle now m.mem)) ->
      Exists fun d' => d' ∈ m.dedicated.regions /\ markIdle now m.mem d' = d := by
    intro d member
    refine List.mem_map.mp ?_
    rw [split]
    exact List.mem_append_left _ member
  have spans : m.dedicated.regions.map DedicatedRegion.span =
      (trimPunched
        (m.dedicated.regions.map (markIdle now m.mem))).map DedicatedRegion.span ++
      dropped.map DedicatedRegion.span := by
    rw [<- List.map_append, <- split, List.map_map]
    exact List.map_congr_left fun d _ => (span_markIdle now m.mem d).symm
  have bounded : forall d, d ∈ trimPunched
      (m.dedicated.regions.map (markIdle now m.mem)) ->
      m.maxSharedOffset <= d.offset /\ maxBlockSize <= d.size /\ d.size < 2 ^ 32 := by
    intro d member
    rcases old d member with ⟨d', listed, rfl⟩
    have same := span_markIdle now m.mem d'
    have offset_eq : (markIdle now m.mem d').offset = d'.offset :=
      congrArg Span.start same
    have size_eq : (markIdle now m.mem d').size = d'.size :=
      congrArg Span.size same
    rw [offset_eq, size_eq]
    exact ⟨(inv.layout.dedicated_bounds listed).1, inv.layout.dedicated_size d' listed⟩
  have nothing : AgreeOutside m.mem m.mem (Span.mk m.maxSharedOffset 0).start
      (Span.mk m.maxSharedOffset 0).size :=
    AgreeOutside.refl _ _ _
  refine inv.replaceDedicated ?_ ?_ (fun d member => (bounded d member).2) (Nat.le_refl _) nothing
    ?_ ?_ inv.distinct inv.stamped
  · have stacked := inv.layout.stacked
    rw [spans] at stacked
    have upper := stacked.of_append
    rw [List.getLast?_map, Option.map_map] at upper
    rw [lowest]
    exact upper
  · rw [lowest]
    cases last : (trimPunched
        (m.dedicated.regions.map (markIdle now m.mem))).getLast? with
    | none => exact inv.layout.boundary.trans inv.layout.stacked.bottom_le
    | some d => exact (bounded d (List.mem_of_getLast? last)).1
  · intro d member marked
    rcases old d member with ⟨d', listed, rfl⟩
    exact isFreed_of_markIdle (inv.punched d' listed) marked
  · intro b member
    rcases inv.slot b member with ⟨span, slot⟩
    cases slot with
    | shared found out offset cap => exact ⟨_, Slot.shared found out offset cap⟩
    | @dedicated d _ _ listed offset cap =>
      have busy : d.isFreed m.mem = false := by
        have header := inv.header_ne_zero member
        rw [offset] at header
        exact decide_eq_false header
      exact ⟨_, Slot.dedicated (inv.mem_trimPunched now listed busy) offset cap⟩

/-- Pruning touches no buffer.  What it punches and what it trims lies apart
from every live one. -/
theorem pruneIdleRegions (inv : SegmentInv unit m live outs) (now : Int) :
    Kept unit m (m.pruneIdleRegions now).1 live live /\
      (∀ b ∈ live, ∀ span ∈ (m.pruneIdleRegions now).2, b.span.Apart span) /\
      (∀ b ∈ live, ∀ d ∈ m.dedicated.regions,
        d.span ∉ (m.pruneIdleRegions now).1.dedicated.regions.map DedicatedRegion.span ->
        b.span.Apart d.span) := by
  unfold LocalManager.pruneIdleRegions
  split
  · refine ⟨inv.kept_refl, fun _ _ _ punched => ?_, fun _ _ d listed trimmed => ?_⟩
    · cases punched
    · exact absurd (List.mem_map_of_mem listed) trimmed
  · dsimp only
    refine ⟨⟨⟨outs, (inv.pruneShared now).trimDedicated now ?_⟩, fun _ _ _ _ _ => rfl,
      ⟨rfl, rfl, rfl⟩⟩, ?_, ?_⟩
    · dsimp only
      split
      · next last => rw [last]; rfl
      · next last => rw [last]; rfl
    · intro b member span punched
      rcases List.mem_append.mp punched with shared | dedicated
      · simp only [LocalManager.pruneShared, List.mem_map, List.mem_filter] at shared
        rcases shared with ⟨r, ⟨unpinned, idle⟩, rfl⟩
        rcases List.mem_iff_getElem?.mp (List.mem_of_mem_drop unpinned) with ⟨k, found⟩
        rcases (inv.region k r found).punchIfIdle now maxAge with ⟨_, _, empty⟩
        exact inv.apart_of_empty found (empty idle) member
      · rcases List.mem_map.mp dedicated with ⟨d, idle, rfl⟩
        rcases List.mem_filter.mp idle with ⟨listed, idle⟩
        simp only [LocalManager.idleDedicated, decide_eq_true_eq] at idle
        exact inv.apart_of_freed listed idle.2.1 member
    · intro b member d listed trimmed
      refine inv.apart_of_freed listed ?_ member
      by_contra busy
      rw [Bool.not_eq_true] at busy
      exact trimmed (List.mem_map_of_mem (inv.mem_trimPunched now listed busy))

/-! ## Filling and linking buffers -/

/-- A write that stays inside one live buffer and keeps its offset and room. -/
theorem writeHeld {b' : Block} {live' : List Block} {mem' : Memory}
    (inv : SegmentInv unit m live outs) (member : b ∈ live)
    (agree : AgreeOutside m.mem mem' b.span.start b.span.size) (sameOffset : b'.offset = b.offset)
    (sameCap : b'.cap = b.cap) (stamped : b'.Stamped mem')
    (rest : ∀ c ∈ live', c = b' \/ (c ∈ live /\ c.offset ≠ b.offset))
    (distinct : (live'.map Block.offset).Nodup) :
    SegmentInv unit { m with mem := mem' } live' outs /\
      Untouched (live.filter fun c => c.offset ≠ b.offset) m.mem mem' := by
  rcases inv.slot b member with ⟨span, slot⟩
  have inside := inv.slot_header slot
  have untouched : Untouched (live.filter fun c => c.offset ≠ b.offset) m.mem mem' :=
    inv.untouched_of_free slot (agree.mono inside.1 (Nat.le_of_eq inside.2))
  refine ⟨{
    layout := ⟨inv.layout.size_lt, inv.layout.placed, inv.layout.smallest, inv.layout.end_eq,
      inv.layout.pinned, inv.layout.stacked, inv.layout.boundary, inv.layout.dedicated_size⟩
    region := ?_
    punched := ?_
    slot := ?_
    distinct := distinct
    stamped := ?_ }, untouched⟩
  · -- the allocator's own header lies below the buffer that fills the block
    intro k r found
    refine (inv.region k r found).of_agree fun a out => agree.agreeOn ?_
    have data := (inv.region k r found).allocator.data_eq out
    simp only [Block.span]
    cases slot with
    | @shared j x a' _ _ at_ out' offset_eq _ =>
      by_cases equal : k = j
      · subst equal
        cases found.symm.trans at_
        by_cases same : a' = a
        · subst same
          omega
        · have apart := (inv.region k r found).slot_apart out out' same
          simp only [Span.Apart, SharedRegion.slot] at apart inside
          omega
      · rcases inv.slot_inside at_ out' with ⟨lower, upper⟩
        have apart := inv.apart_of_region at_ lower upper found out (Ne.symm equal)
        simp only [Span.Apart, SharedRegion.slot] at apart inside
        omega
    | @dedicated d _ _ listed offset_eq _ =>
      have above : m.maxSharedOffset <= d.span.start := (inv.layout.dedicated_bounds listed).1
      have apart := inv.apart_of_dedicated above found out
      simp only [Span.Apart, SharedRegion.slot, DedicatedRegion.span] at apart inside
      omega
  · intro d listed punched
    have freed := inv.punched d listed punched
    rw [inv.isFreed_frame agree listed (inv.apart_of_freed listed freed member).symm]
    exact freed
  · intro c held
    rcases rest c held with rfl | ⟨old, _⟩
    · rw [sameOffset, sameCap]
      exact ⟨span, slot.of_regions rfl rfl⟩
    · exact (inv.slot c old).imp fun _ slot => slot.of_regions rfl rfl
  · intro c held
    rcases rest c held with rfl | ⟨old, differs⟩
    · exact stamped
    · exact (inv.stamped c old).of_agree
        (untouched c (List.mem_filter.mpr ⟨old, decide_eq_true differs⟩))

theorem eq_or_differs (inv : SegmentInv unit m live outs) (member : b ∈ live) :
    ∀ c ∈ live, c = b \/ (c ∈ live /\ c.offset ≠ b.offset) := by
  intro c held
  by_cases same : c.offset = b.offset
  · exact Or.inl (inv.eq_of_offset held member same)
  · exact Or.inr ⟨held, same⟩

theorem store (inv : SegmentInv unit m live outs) (member : b ∈ live) {index : Nat}
    {bytes : List UInt8} (fits : index + bytes.length <= b.cap) :
    Kept unit m
      { m with mem := writeBytes m.mem (b.offset + dynshmBufferHeaderSize + index) bytes }
      (live.filter fun c => c.offset ≠ b.offset) live := by
  have written := writeBytes_agreeOutside m.mem (b.offset + dynshmBufferHeaderSize + index) bytes
  have header : DynShmBufferHeader.read
      (writeBytes m.mem (b.offset + dynshmBufferHeaderSize + index) bytes) b.offset =
      DynShmBufferHeader.read m.mem b.offset :=
    DynShmBufferHeader.read_congr (written.agreeOn (Or.inl (by omega)))
  have own := inv.stamped b member
  have stamped : b.Stamped
      (writeBytes m.mem (b.offset + dynshmBufferHeaderSize + index) bytes) :=
    ⟨by rw [header]; exact own.offset, by rw [header]; exact own.len,
      by rw [header]; exact own.cap, own.len_le, own.cap_lt⟩
  have agree : AgreeOutside m.mem
      (writeBytes m.mem (b.offset + dynshmBufferHeaderSize + index) bytes) b.span.start
      b.span.size :=
    written.mono (by simp only [Block.span]; omega) (by simp only [Block.span]; omega)
  rcases inv.writeHeld member agree rfl rfl stamped
    (inv.eq_or_differs member) inv.distinct with ⟨inv', untouched⟩
  exact ⟨⟨outs, inv'⟩, untouched, ⟨rfl, rfl, rfl⟩⟩

theorem setNext {next : Nat} (inv : SegmentInv unit m live outs) (member : b ∈ live)
    (fits : next < 2 ^ 63) :
    Kept unit m { m with mem := DynShmBufferHeader.setNext m.mem b.offset next }
      (live.filter fun c => c.offset ≠ b.offset) live := by
  have header := DynShmBufferHeader.read_setNext m.mem b.offset fits
  have own := inv.stamped b member
  have stamped : b.Stamped (DynShmBufferHeader.setNext m.mem b.offset next) :=
    ⟨by simpa only [header] using own.offset, by simpa only [header] using own.len,
      by simpa only [header] using own.cap, own.len_le, own.cap_lt⟩
  have written := DynShmBufferHeader.setNext_agreeOutside m.mem b.offset next
  have inside : 8 + 8 <= dynshmBufferHeaderSize := by decide
  have agree : AgreeOutside m.mem (DynShmBufferHeader.setNext m.mem b.offset next) b.span.start
      b.span.size :=
    written.mono (Nat.le_add_right ..) (by simp only [Block.span]; omega)
  rcases inv.writeHeld member agree rfl rfl stamped
    (inv.eq_or_differs member) inv.distinct with ⟨inv', untouched⟩
  exact ⟨⟨outs, inv'⟩, untouched, ⟨rfl, rfl, rfl⟩⟩

theorem map_offset_grow (live : List Block) (offset size : Nat) :
    (live.map (Block.grow offset size)).map Block.offset = live.map Block.offset := by
  rw [List.map_map]
  refine List.map_congr_left fun c _ => ?_
  simp only [Function.comp_apply, Block.grow]
  split <;> rfl

theorem reserve {mem' : Memory} {size room : Nat} (inv : SegmentInv unit m live outs)
    (member : b ∈ live)
    (result : DynShmBufferHeader.reserve m.mem b.offset size = some (room, mem')) :
    room = b.offset + dynshmBufferHeaderSize + b.len /\ b.len + size <= b.cap /\
      mem' = DynShmBufferHeader.setLen m.mem b.offset (b.len + size) /\
      Kept unit m { m with mem := mem' } (live.filter fun c => c.offset ≠ b.offset)
        (live.map (Block.grow b.offset size)) := by
  have own := inv.stamped b member
  unfold DynShmBufferHeader.reserve at result
  dsimp only at result
  rw [own.len, own.cap] at result
  split at result
  · cases result
  · next fits =>
    have capLt := own.cap_lt
    cases result
    have header := DynShmBufferHeader.read_setLen m.mem b.offset
      (show b.len + size < 2 ^ 32 by omega)
    have stamped : (Block.grow b.offset size b).Stamped
        (DynShmBufferHeader.setLen m.mem b.offset (b.len + size)) := by
      rw [Block.grow, if_pos rfl]
      exact {
        offset := by simpa only [header] using own.offset
        len := by rw [header]
        cap := by simpa only [header] using own.cap
        len_le := Nat.le_of_not_lt fits
        cap_lt := own.cap_lt }
    have written := DynShmBufferHeader.setLen_agreeOutside m.mem b.offset (b.len + size)
    have inside : 16 + 4 <= dynshmBufferHeaderSize := by decide
    have agree : AgreeOutside m.mem (DynShmBufferHeader.setLen m.mem b.offset (b.len + size))
        b.span.start b.span.size :=
      written.mono (Nat.le_add_right ..) (by simp only [Block.span]; omega)
    have rest : ∀ c ∈ live.map (Block.grow b.offset size),
        c = Block.grow b.offset size b \/ (c ∈ live /\ c.offset ≠ b.offset) := by
      intro c held
      rcases List.mem_map.mp held with ⟨old, listed, rfl⟩
      rcases inv.eq_or_differs member old listed with rfl | ⟨_, differs⟩
      · exact Or.inl rfl
      · rw [show Block.grow b.offset size old = old from if_neg differs]
        exact Or.inr ⟨listed, differs⟩
    have same : (Block.grow b.offset size b).offset = b.offset /\
        (Block.grow b.offset size b).cap = b.cap := by
      rw [Block.grow, if_pos rfl]
      exact ⟨rfl, rfl⟩
    rcases inv.writeHeld member agree same.1 same.2 stamped rest
      (by rw [map_offset_grow]; exact inv.distinct) with ⟨inv', untouched⟩
    exact ⟨rfl, Nat.le_of_not_lt fits, rfl, ⟨⟨outs, inv'⟩, untouched, ⟨rfl, rfl, rfl⟩⟩⟩

end SegmentInv

end V5
end Shmipc
