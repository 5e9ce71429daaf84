import Shmipc.V5.RegionSafety

namespace Shmipc
namespace V5

open ByteMemory Transition

/-!
# Idle regions

A shared region is punched when it is empty and its stamp is old enough.  The stamp is
the time of its activation and no release touches it, so it tells how long the region has
been in use and not how long it has been empty.  It says the latter only of a region that
no block was released to since it came into use.

Blocks are recorded with the times of their calls.  Between the calls the memory may be
written by anyone.
-/

structure IdleState where
  region : SharedRegion
  mem : Memory
  clock : Int
  /-- Outstanding blocks and when they were allocated. -/
  live : List (Block × Int)
  /-- When the blocks that are back were allocated and released. -/
  released : List (Int × Int)

inductive IdleAction
  | alloc (now : Int) (size : Nat)
  | freeAt (now globalOffset : Int)
  | punchIfIdle (now maxAge : Int)
  | write (address : Nat) (value : UInt8)

namespace IdleState

/-- The outstanding block that an offset names. -/
def named (s : IdleState) (globalOffset : Int) : Option (Block × Int) :=
  s.live.find? fun entry => (entry.1.offset : Int) == globalOffset

def step (s : IdleState) : IdleAction -> Option IdleState
  | .alloc now size =>
    if now < s.clock \/ now <= 0 then none
    else
      match s.region.alloc s.mem now size with
      | (none, region, mem) => some { s with region := region, mem := mem, clock := now }
      | (some block, region, mem) =>
        some { s with
          region := region
          mem := mem
          clock := now
          live := (block, now) :: s.live }
  | .freeAt now globalOffset =>
    if now < s.clock then none
    else
      match s.region.freeAt s.mem globalOffset with
      | (.error _, region, mem) => some { s with region := region, mem := mem, clock := now }
      | (.ok (), region, mem) =>
        match s.named globalOffset with
        | none => some { s with region := region, mem := mem, clock := now }
        | some entry => some {
            region := region
            mem := mem
            clock := now
            live := s.live.erase entry
            released := (entry.2, now) :: s.released }
  | .punchIfIdle now maxAge =>
    if now < s.clock then none
    else some { s with region := (s.region.punchIfIdle now maxAge).2, clock := now }
  | .write address value => some { s with mem := Function.update s.mem address value }

/-- Some block was outstanding at a moment.  The moments of its calls belong to its time. -/
def OutstandingAt (s : IdleState) (moment : Int) : Prop :=
  (∃ entry ∈ s.live, entry.2 <= moment) \/
    ∃ span ∈ s.released, span.1 <= moment /\ moment <= span.2

/-- A release that the region accepts names an outstanding block. -/
def NamesLive (s : IdleState) : IdleAction -> Prop
  | .freeAt _ globalOffset => (s.region.freeAt s.mem globalOffset).1.isOk = true ->
    (s.named globalOffset).isSome = true
  | _ => True

instance : DecidableRel NamesLive
  | s, .freeAt _ globalOffset =>
    inferInstanceAs (Decidable (_ = true -> (s.named globalOffset).isSome = true))
  | _, .alloc _ _ => .isTrue trivial
  | _, .punchIfIdle _ _ => .isTrue trivial
  | _, .write _ _ => .isTrue trivial

/-- Whenever the next call of `punch_if_idle` comes and whatever age it asks for, it
retires the region only if no block was outstanding for that long. -/
def PunchedIdle (s : IdleState) : Prop :=
  forall now maxAge, s.clock <= now -> (s.region.punchIfIdle now maxAge).1 = true ->
    forall moment, now - maxAge <= moment -> moment <= now -> ¬ s.OutstandingAt moment

end IdleState

def idleSystem (kind : AllocatorKind) (size : UInt64) (offset : Nat) (minBlock maxBlock : UInt64)
    (initial : Memory) : System IdleState IdleAction where
  init s := SharedRegion.new kind size offset minBlock maxBlock = .ok s.region /\
    s.mem = initial /\ s.clock = 0 /\ s.live = [] /\ s.released = []
  step := IdleState.step

/-! ## What a call does to the counter -/

namespace SharedRegion

variable {r r' : SharedRegion} {mem mem' : Memory} {now : Int}

theorem activate_allocs (positive : 0 < now) (fresh : r.activatedAt = 0 -> r.allocs = 0)
    (active : r.activate now = some r') : r'.allocs = r.allocs /\ r'.activatedAt ≠ 0 := by
  unfold activate at active
  split at active
  · next zero =>
    split at active
    · split at active
      · cases active
      · cases active
        exact ⟨(fresh zero).symm, by dsimp only; omega⟩
    · cases active
      exact ⟨(fresh zero).symm, by dsimp only; omega⟩
  · next used =>
    cases active
    exact ⟨rfl, used⟩

theorem alloc_allocs {size : Nat} {block : Option Block} (positive : 0 < now)
    (fresh : r.activatedAt = 0 -> r.allocs = 0) (done : r.alloc mem now size = (block, r', mem')) :
    r'.allocs = r.allocs + block.toList.length /\ (r'.activatedAt = 0 -> r'.allocs = 0) := by
  unfold alloc at done
  split at done
  · cases done
    exact ⟨rfl, fresh⟩
  · next q active =>
    rcases activate_allocs positive fresh active with ⟨same, used⟩
    split at done
    · cases done
      exact ⟨same, fun zero => absurd zero used⟩
    · cases done
      exact ⟨congrArg (· + 1) same, fun zero => absurd zero used⟩

theorem freeAt_allocs {globalOffset : Int} {result : Except RegionError Unit}
    (done : r.freeAt mem globalOffset = (result, r', mem')) :
    r'.activatedAt = r.activatedAt /\
      r'.allocs = if result = .ok () then r.allocs - 1 else r.allocs := by
  unfold freeAt at done
  dsimp only at done
  repeat' split at done
  all_goals
    cases done
    exact ⟨rfl, rfl⟩

theorem punchIfIdle_true_iff {maxAge : Int} :
    (r.punchIfIdle now maxAge).1 = true <->
      r.allocs = 0 /\ r.activatedAt ≠ 0 /\ maxAge <= now - r.activatedAt := by
  unfold punchIfIdle
  split
  · next busy => exact ⟨nofun, fun idle => by omega⟩
  · next idle => exact ⟨fun _ => by omega, fun _ => rfl⟩

end SharedRegion

/-! ## Runs -/

namespace IdleState

/-- The counter counts the outstanding blocks, and releases are not ahead of the clock. -/
structure Counted (s : IdleState) : Prop where
  allocs : s.region.allocs = s.live.length
  fresh : s.region.activatedAt = 0 -> s.region.allocs = 0
  ordered : ∀ entry ∈ s.live, entry.2 <= s.clock
  past : ∀ span ∈ s.released, span.1 <= span.2 /\ span.2 <= s.clock

variable {s t : IdleState}

theorem Counted.later {now : Int} (counted : s.Counted) (time : ¬now < s.clock)
    {region : SharedRegion} {mem : Memory} (allocs : region.allocs = s.region.allocs)
    (fresh : region.activatedAt = 0 -> region.allocs = 0) :
    Counted { s with region := region, mem := mem, clock := now } where
  allocs := allocs.trans counted.allocs
  fresh := fresh
  ordered entry member := (counted.ordered entry member).trans (Int.not_lt.mp time)
  past span member := ⟨(counted.past span member).1,
    (counted.past span member).2.trans (Int.not_lt.mp time)⟩

theorem Counted.step {action : IdleAction} (counted : s.Counted) (names : s.NamesLive action)
    (moved : s.step action = some t) : t.Counted := by
  cases action with
  | alloc now size =>
    rw [IdleState.step] at moved
    split at moved
    · cases moved
    · next time =>
      rcases not_or.mp time with ⟨time, positive⟩
      split at moved
      · next region mem done =>
        cases moved
        have spec := SharedRegion.alloc_allocs (Int.not_le.mp positive) counted.fresh done
        exact counted.later time spec.1 spec.2
      · next block region mem done =>
        cases moved
        have spec := SharedRegion.alloc_allocs (Int.not_le.mp positive) counted.fresh done
        refine ⟨spec.1.trans (congrArg (· + 1) counted.allocs), spec.2, ?_, ?_⟩
        · intro entry member
          rcases List.mem_cons.mp member with rfl | older
          · exact Int.le_refl now
          · exact (counted.ordered entry older).trans (Int.not_lt.mp time)
        · exact fun span member => ⟨(counted.past span member).1,
            (counted.past span member).2.trans (Int.not_lt.mp time)⟩
  | freeAt now globalOffset =>
    rw [IdleState.step] at moved
    split at moved
    · cases moved
    · next time =>
      split at moved
      · next err region mem done =>
        cases moved
        have spec := SharedRegion.freeAt_allocs done
        rw [if_neg nofun] at spec
        exact counted.later time spec.2 fun zero => spec.2.trans (counted.fresh (spec.1 ▸ zero))
      · next region mem done =>
        have spec := SharedRegion.freeAt_allocs done
        rw [if_pos rfl] at spec
        split at moved
        · next nobody =>
          rw [NamesLive, done, nobody] at names
          cases names rfl
        · next entry found =>
          cases moved
          have member : entry ∈ s.live := List.mem_of_find?_eq_some found
          refine ⟨?_, fun zero => ?_, ?_, ?_⟩
          · exact spec.2.trans (counted.allocs ▸ (List.length_erase_of_mem member).symm)
          · rw [spec.2, counted.fresh (spec.1 ▸ zero)]
          · exact fun other kept =>
              (counted.ordered other (List.mem_of_mem_erase kept)).trans (Int.not_lt.mp time)
          · intro span listed
            rcases List.mem_cons.mp listed with rfl | older
            · exact ⟨(counted.ordered entry member).trans (Int.not_lt.mp time), Int.le_refl now⟩
            · exact ⟨(counted.past span older).1,
                (counted.past span older).2.trans (Int.not_lt.mp time)⟩
  | punchIfIdle now maxAge =>
    rw [IdleState.step] at moved
    split at moved
    · cases moved
    · next time =>
      cases moved
      refine counted.later time ?_ ?_
      · unfold SharedRegion.punchIfIdle
        split <;> rfl
      · unfold SharedRegion.punchIfIdle
        split
        · exact counted.fresh
        · next idle =>
          intro _
          exact not_not.mp fun busy => idle (.inl busy)
  | write address value =>
    cases moved
    exact ⟨counted.allocs, counted.fresh, counted.ordered, counted.past⟩

theorem counted_of_reachable {kind : AllocatorKind} {size minBlock maxBlock : UInt64}
    {offset : Nat} {initial : Memory}
    (reachable : (idleSystem kind size offset minBlock maxBlock initial).ReachableUnder
      NamesLive s) : s.Counted := by
  refine reachable.invariant (P := Counted) ?_ fun s a t _ names moved counted =>
    counted.step names moved
  rintro s ⟨built, _, _, live, released⟩
  rcases SharedRegion.inv_new built with ⟨_, _, _, inv⟩
  have none : s.region.allocs = 0 := (inv s.mem).allocs
  refine ⟨?_, fun _ => none, ?_, ?_⟩
  · rw [none, live]
    rfl
  · rw [live]
    exact nofun
  · rw [released]
    exact nofun

end IdleState

/-- The next punch is right, whenever it comes and whatever age it asks for, exactly if
the region has blocks out or is not in use, so that it is not punched at all, or its
stamp is later than every release. -/
theorem punched_after_idle_period_iff {kind : AllocatorKind} {size minBlock maxBlock : UInt64}
    {offset : Nat} {initial : Memory} {s : IdleState}
    (reachable : (idleSystem kind size offset minBlock maxBlock initial).ReachableUnder
      IdleState.NamesLive s) :
    s.PunchedIdle <-> s.region.allocs ≠ 0 \/ s.region.activatedAt = 0 \/
      ∀ span ∈ s.released, span.2 < s.region.activatedAt := by
  have counted := IdleState.counted_of_reachable reachable
  constructor
  · intro idle
    by_contra wrong
    simp only [not_or, not_not, not_forall, Int.not_lt] at wrong
    rcases wrong with ⟨empty, used, span, member, late⟩
    have past := counted.past span member
    -- the age that the stamp just reaches takes the release in
    have punched : (s.region.punchIfIdle s.clock (s.clock - s.region.activatedAt)).1 = true :=
      SharedRegion.punchIfIdle_true_iff.mpr ⟨empty, used, Int.le_refl _⟩
    exact idle _ _ (Int.le_refl _) punched span.2 (by omega) past.2
      (.inr ⟨span, member, past.1, Int.le_refl _⟩)
  · intro stamped now maxAge time punched
    rcases SharedRegion.punchIfIdle_true_iff.mp punched with ⟨empty, used, old⟩
    have before := (stamped.resolve_left (not_not.mpr empty)).resolve_left used
    have none : s.live = [] := List.eq_nil_of_length_eq_zero (counted.allocs.symm.trans empty)
    rintro moment lower upper (⟨entry, member, _⟩ | ⟨span, member, _, inside⟩)
    · rw [none] at member
      cases member
    · have earlier := before span member
      omega

/-- A block comes and goes, the region is punched, and an allocation that is too large
brings it into use again. -/
theorem punched_after_idle_period_iff_old_release :
    Exists fun s : IdleState => s.released = [(10, 11)] /\ s.region.activatedAt = 70 /\
      (s.region.punchIfIdle 110 40).1 = true /\ s.PunchedIdle := by
  have found : Exists fun s => (idleSystem .buddy 256 4096 64 128 (fun _ => 0)).ReachableUnder
      IdleState.NamesLive s /\ (s.released = [(10, 11)] /\ s.region.activatedAt = 70 /\
        (s.region.punchIfIdle 110 40).1 = true) :=
    System.exists_reachable_of_run
      ⟨(SharedRegion.new .buddy 256 4096 64 128).toOption.get (by decide), fun _ => 0, 0, [], []⟩
      [.alloc 10 90, .freeAt 11 4232, .freeAt 12 4232, .punchIfIdle 61 40, .alloc 70 1000]
      ⟨rfl, rfl, rfl, rfl, rfl⟩ (by decide +kernel)
  rcases found with ⟨s, reachable, released, stamp, punched⟩
  refine ⟨s, released, stamp, punched, (punched_after_idle_period_iff reachable).mpr ?_⟩
  rw [released, stamp]
  exact .inr (.inr (by decide))

/-- A block is out from 10 to 99.  At 100 the region passes for idle since 50. -/
theorem region_is_punched_right_after_use :
    Exists fun s => (idleSystem .buddy 256 4096 64 128 (fun _ => 0)).Reachable s /\
      s.clock <= 100 /\ (s.region.punchIfIdle 100 50).1 = true /\
      Exists fun moment => 100 - 50 <= moment /\ moment <= 100 /\ s.OutstandingAt moment := by
  have found : Exists fun s => (idleSystem .buddy 256 4096 64 128 (fun _ => 0)).Reachable s /\
      (s.clock <= 100 /\ (s.region.punchIfIdle 100 50).1 = true /\ s.released = [(10, 99)]) :=
    System.exists_reachable_of_run
      ⟨(SharedRegion.new .buddy 256 4096 64 128).toOption.get (by decide), fun _ => 0, 0, [], []⟩
      [.alloc 10 90, .freeAt 99 4232] ⟨rfl, rfl, rfl, rfl, rfl⟩ (by decide +kernel)
  rcases found with ⟨s, reachable, clock, punched, released⟩
  refine ⟨s, reachable, clock, punched, 60, by decide, by decide, .inr ⟨(10, 99), ?_, by decide⟩⟩
  rw [released]
  exact List.mem_singleton_self _

end V5
end Shmipc
