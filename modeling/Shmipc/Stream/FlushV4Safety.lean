import Shmipc.Pool.LinkedShared
import Shmipc.Pool.Views
import Shmipc.Stream.FlushV4

namespace Shmipc
namespace Stream

open Transition Pool ByteMemory
open Session (maxControlFrameSize eventHeaderSize)
open Buffer (bufferHeaderSize)

/-!
# Who owns the slices of a dropped flush

While a flush waits for queue room nothing has left the stream, and dropping it
leaves the message in the send buffer.  While it wakes the peer the slices belong
to the peer and the send buffer still refers to them: dropped there, the stream
gives them back, sends them again or writes into them later.  While it waits for
room in the channel the message is in the future alone, and goes with it.

In every run in which no flush is dropped at the latter two points, each buffer
that is out has one owner, and no call of the stream touches what others own.
-/

/-- The message is neither with the stream nor handed over, or it is both. -/
def FlushPoint.handingOver : FlushPoint -> Bool
  | .wakeUpPeer => true
  | .channelRoom _ => true
  | _ => false

/-- What the stream itself does, as opposed to all others. -/
def FlushAction.ofStream : FlushAction -> Bool
  | .halfClose => false
  | .setFallback _ => false
  | .popped => false
  | .putOther _ => false
  | .others _ => false
  | _ => true

namespace FlushState

/-- No flush is dropped in the middle of handing its message over. -/
def NotHandingOver (s : FlushState) (a : FlushAction) : Prop :=
  a = .cancel -> s.point.handingOver = false

instance (s : FlushState) (a : FlushAction) : Decidable (NotHandingOver s a) :=
  inferInstanceAs (Decidable (_ -> _))

/-- The buffers of the pool that the send buffer refers to. -/
def refers (s : FlushState) : List Nat := poolOffsets s.sendBuf.sliceList.toList

/-- Either nothing was handed over and the send buffer holds the whole message, or it
refers to none of the slices that were. -/
def Settled (s : FlushState) : Prop :=
  (s.handed = none /\ s.sendBuf.contents s.pool.shm.mem = s.message /\
    s.sendBuf.len = s.message.length) \/
  (∃ bs ∈ s.handed, ∀ b ∈ s.refers, b ∉ bs)

/-- A step leaves the slices of others alone: it does not change a byte of their
buffers, gives none of them back and sends none of them. -/
structure Spares (s t : FlushState) : Prop where
  bytes : ∀ slice ∈ s.pool.held, AgreeOn s.pool.shm.mem t.pool.shm.mem slice.offsetInShm
    (bufferHeaderSize + slice.cap)
  returned : Exists fun back =>
    returnedOffsets t.pool.shm.log = returnedOffsets s.pool.shm.log ++ back /\
    ∀ slice ∈ s.pool.held, slice.offsetInShm ∉ back
  sent : Exists fun new => t.queue = s.queue ++ new /\
    ∀ e ∈ new, ∀ slice ∈ s.pool.held, e.offsetInShmBuf ≠ slice.offsetInShm

/-- What holds at each point of a flush. -/
def PointOk (layout : PoolLayout) (s : FlushState) : FlushPoint -> Prop
  | .idle => s.pool.WithMessage layout s.sendBuf s.message
  | .queueRoom element _ => s.pool.WithMessage layout s.sendBuf s.message /\ s.handed = none /\
      s.sendBuf.isFromShm = true /\ s.sendBuf.len ≠ 0 /\
      element.offsetInShmBuf = s.sendBuf.rootBufOffset
  | .wakeUpPeer => s.message = [] /\ Exists fun ledger => PoolInv layout s.pool ledger
  | .channelRoom _ => s.sendBuf = .new /\ s.pool.WithMessage layout .new []
  | .reported => s.sendBuf = .new /\ s.message = [] /\ s.handed = some [] /\
      s.pool.WithMessage layout .new []

/-- What a step of the stream leaves behind, compared with a state before. -/
structure Advanced (layout : PoolLayout) (s t : FlushState) : Prop where
  ok : t.PointOk layout t.point
  spared : Spared layout s.pool.shm t.pool.shm s.pool.offsets
  sent : Exists fun new => t.queue = s.queue ++ new /\
    ∀ e ∈ new, e.offsetInShmBuf ∉ s.pool.offsets

end FlushState

/-! ## Offsets that are not among those of others -/

namespace FlushState

variable {layout : PoolLayout} {s t : FlushState} {written : List UInt8} {side : Pool.Side}
  {capacity id : Nat}

theorem root_apart (both : s.pool.WithMessage layout s.sendBuf written)
    (stays : s.sendBuf.isFromShm = true) (some : s.sendBuf.len ≠ 0) :
    s.sendBuf.rootBufOffset ∉ s.pool.offsets := by
  have all := both.pending.sending.fromShm stays
  have contents := both.pending.contents
  cases slices : s.sendBuf.sliceList.toList with
  | nil =>
    rw [LinkedBuffer.contents, slices] at contents
    rw [both.pending.len, <- contents] at some
    exact absurd rfl some
  | cons first rest =>
    have member : first ∈ s.sendBuf.sliceList.toList := by
      rw [slices]
      exact List.mem_cons_self
    rw [LinkedBuffer.rootBufOffset, slices]
    exact both.pending.apart (mem_poolOffsets member (all first member))

theorem zero_apart (both : s.pool.WithMessage layout s.sendBuf written) :
    0 ∉ s.pool.offsets := by
  intro member
  rcases List.mem_map.mp member with ⟨slice, there, zero⟩
  rcases both.handles slice there with ⟨home, _, buffer, _⟩
  have lower := (ListLayout.bounds_of_mem buffer).1
  rw [zero] at lower
  simp only [ListLayout.region, Buffer.bufferListHeaderSize] at lower
  omega

/-! ## The parts of a flush -/

namespace Advanced

theorem nothing_sent (ok : t.PointOk layout t.point)
    (spared : Spared layout s.pool.shm t.pool.shm s.pool.offsets) (same : t.queue = s.queue) :
    Advanced layout s t :=
  ⟨ok, spared, [], by rw [same, List.append_nil], fun _ none => absurd none List.not_mem_nil⟩

theorem after {mid : FlushState} (later : Advanced layout mid t) (same : mid.pool.held = s.pool.held)
    (queue : mid.queue = s.queue) (spared : Spared layout s.pool.shm mid.pool.shm s.pool.offsets) :
    Advanced layout s t where
  ok := later.ok
  spared := by
    have second := later.spared
    rw [PoolState.offsets, same] at second
    exact spared.trans second
  sent := by
    have sent := later.sent
    rw [PoolState.offsets, same, queue] at sent
    exact sent

theorem giveUp (both : s.pool.WithMessage layout s.sendBuf written) :
    Advanced layout s (s.giveUp (layout.view side)) := by
  have pending := both.pending.recycle side
  exact nothing_sent (both.of_pending pending) pending.spared rfl

theorem returned (new : s.sendBuf = .new) (both : s.pool.WithMessage layout .new []) :
    Advanced layout s s.returned := by
  refine nothing_sent ?_ (Spared.refl layout s.pool.shm s.pool.offsets) rfl
  have clean : s.returned.sendBuf = .new := by
    rw [FlushState.returned, new]
    rfl
  show s.pool.WithMessage layout s.returned.sendBuf []
  rw [clean]
  exact both

variable {element : QueueElement}

theorem put (both : s.pool.WithMessage layout s.sendBuf written)
    (stays : s.sendBuf.isFromShm = true) (foreign : element.offsetInShmBuf ∉ s.pool.offsets)
    (done : s.put capacity element = some t) : Advanced layout s t := by
  rcases of_guarded done with ⟨_, rfl⟩
  refine ⟨⟨rfl, both.handOver stays⟩, Spared.refl layout s.pool.shm s.pool.offsets, [element], rfl,
    ?_⟩
  intro e member
  rw [List.mem_singleton.mp member]
  exact foreign

theorem writeFallback (both : s.pool.WithMessage layout s.sendBuf written) :
    Advanced layout s (s.writeFallback (layout.view side) id) := by
  rw [FlushState.writeFallback]
  split_ifs
  · exact giveUp both
  · have pending := both.pending.recycle side
    exact nothing_sent ⟨rfl, both.of_pending pending⟩ pending.spared rfl

theorem waiting {rounds : Nat} (both : s.pool.WithMessage layout s.sendBuf s.message)
    (fresh : s.handed = none) (stays : s.sendBuf.isFromShm = true) (some : s.sendBuf.len ≠ 0)
    (root : element.offsetInShmBuf = s.sendBuf.rootBufOffset) :
    Advanced layout s { s with point := .queueRoom element rounds } :=
  nothing_sent ⟨both, fresh, stays, some, root⟩ (Spared.refl layout s.pool.shm s.pool.offsets) rfl

theorem handOver (both : s.pool.WithMessage layout s.sendBuf s.message) (fresh : s.handed = none)
    (stays : s.inFallback = false -> s.sendBuf.isFromShm = true) (some : s.sendBuf.len ≠ 0) :
    Advanced layout s (s.handOver (layout.view side) capacity id) := by
  rw [FlushState.handOver]
  by_cases fallback : s.inFallback = true
  · rw [if_pos fallback]
    exact writeFallback both
  · rw [if_neg fallback]
    have fromShm := stays (Bool.eq_false_iff.mpr fallback)
    have foreign := root_apart both fromShm some
    dsimp only
    cases done : s.put capacity ⟨id, s.sendBuf.rootBufOffset, .opened⟩ with
    | some t => exact put both fromShm foreign done
    | none => exact waiting both fresh fromShm some rfl

theorem flush (both : s.pool.WithMessage layout s.sendBuf s.message) (idle : s.point = .idle) :
    Advanced layout s (s.flush (layout.view side) capacity id) := by
  rw [FlushState.flush]
  split_ifs with empty closed
  · refine nothing_sent ?_ (Spared.refl layout s.pool.shm s.pool.offsets) rfl
    rw [idle]
    exact both
  · exact giveUp both
  · -- `done` keeps the message and spares the others
    have pending := both.pending.done side
    have whole := both.of_pending pending
    rw [<- LinkedBuffer.len_done (layout.view side) s.sendBuf s.pool.shm] at empty
    refine (handOver whole rfl ?_ empty).after rfl rfl pending.spared
    intro fallback
    rw [Bool.or_eq_false_iff, Bool.not_eq_false'] at fallback
    exact fallback.2

theorem retry {rounds : Nat} {sessionClosed : Bool}
    (ok : s.PointOk layout (.queueRoom element (rounds + 1))) :
    Advanced layout s (s.retry (layout.view side) capacity element rounds sessionClosed) := by
  rcases ok with ⟨both, fresh, stays, some, root⟩
  have foreign : element.offsetInShmBuf ∉ s.pool.offsets := by
    rw [root]
    exact root_apart both stays some
  rw [FlushState.retry]
  cases sessionClosed with
  | true => exact giveUp both
  | false =>
    rw [if_neg Bool.false_ne_true]
    cases done : s.put capacity element with
    | some t => exact put both stays foreign done
    | none =>
      dsimp only
      split_ifs
      · exact giveUp both
      · exact waiting both fresh stays some root

theorem close {shutdown : Bool} (both : s.pool.WithMessage layout s.sendBuf s.message)
    (idle : s.point = .idle) :
    Advanced layout s (s.close (layout.view side) capacity id shutdown) := by
  have given : Advanced layout s (s.giveUp (layout.view side)) := giveUp both
  rw [FlushState.close]
  split_ifs
  · refine nothing_sent ?_ (Spared.refl layout s.pool.shm s.pool.offsets) rfl
    rw [idle]
    exact both
  · exact nothing_sent given.ok given.spared rfl
  · refine ⟨given.ok, given.spared, _, rfl, fun e member => ?_⟩
    rw [List.mem_singleton.mp member]
    exact zero_apart both

end Advanced

/-! ## Steps -/

variable {a : FlushAction} {pool : PoolState}

theorem PointOk.ofStream (ok : s.PointOk layout s.point) (own : a.ofStream = true)
    (guarded : s.NotHandingOver a) (moved : s.step layout.view side capacity id a = some t) :
    Advanced layout s t := by
  cases a with
  | write call =>
    simp only [step, Option.ite_none_right_eq_some, Option.map_eq_some_iff] at moved
    rcases moved with ⟨⟨idle, small⟩, ⟨buf, shm⟩, returned, rfl⟩
    rw [idle] at ok
    have pending := Pending.call ok.pending side small returned
    refine Advanced.nothing_sent ?_ pending.spared rfl
    dsimp only
    rw [idle]
    exact PoolState.WithMessage.of_pending ok pending
  | flush =>
    rcases of_guarded moved with ⟨idle, rfl⟩
    rw [idle] at ok
    exact Advanced.flush ok idle
  | closeNotified =>
    cases point : s.point with
    | queueRoom element rounds =>
      rw [point] at ok
      simp only [step, point] at moved
      cases moved
      exact Advanced.giveUp ok.1
    | _ => simp [step, point] at moved
  | retry sessionClosed =>
    cases point : s.point with
    | queueRoom element rounds =>
      cases rounds with
      | zero => simp [step, point] at moved
      | succ rounds =>
        rw [point] at ok
        simp only [step, point] at moved
        cases moved
        exact Advanced.retry ok
    | _ => simp [step, point] at moved
  | woken =>
    rcases of_guarded moved with ⟨point, rfl⟩
    rw [point] at ok
    rcases ok with ⟨_, ledger, inv⟩
    exact Advanced.nothing_sent (PoolState.WithMessage.of_inv inv)
      (Spared.refl layout s.pool.shm s.pool.offsets) rfl
  | accepted =>
    cases point : s.point with
    | channelRoom event =>
      rw [point] at ok
      simp only [step, point] at moved
      cases moved
      exact Advanced.nothing_sent ⟨ok.1, rfl, rfl, ok.2⟩
        (Spared.refl layout s.pool.shm s.pool.offsets) rfl
    | _ => simp [step, point] at moved
  | timedOut =>
    cases point : s.point with
    | channelRoom event =>
      rw [point] at ok
      simp only [step, point] at moved
      cases moved
      exact Advanced.returned ok.1 ok.2
    | _ => simp [step, point] at moved
  | reported =>
    rcases of_guarded moved with ⟨point, rfl⟩
    rw [point] at ok
    exact Advanced.returned ok.1 ok.2.2.2
  | cancel =>
    simp only [step, Option.ite_none_left_eq_some, Option.some.injEq] at moved
    rcases moved with ⟨_, rfl⟩
    have undivided := guarded rfl
    refine Advanced.nothing_sent ?_ (Spared.refl layout s.pool.shm s.pool.offsets) rfl
    show s.pool.WithMessage layout s.sendBuf s.message
    cases point : s.point with
    | idle =>
      rw [point] at ok
      exact ok
    | queueRoom element rounds =>
      rw [point] at ok
      exact ok.1
    | reported =>
      rw [point] at ok
      rcases ok with ⟨new, message, _, both⟩
      rw [new, message]
      exact both
    | wakeUpPeer | channelRoom event =>
      rw [point] at undivided
      cases undivided
  | close shutdown =>
    rcases of_guarded moved with ⟨idle, rfl⟩
    rw [idle] at ok
    exact Advanced.close ok idle
  | release =>
    rcases of_guarded moved with ⟨idle, rfl⟩
    rw [idle] at ok
    exact Advanced.giveUp ok
  | halfClose | setFallback inFallback | popped | putOther element | others action => cases own

theorem PointOk.of_pool {action : PoolAction} (ok : s.PointOk layout s.point)
    (moved : s.pool.step layout.view action = some pool) :
    { s with pool := pool }.PointOk layout s.point := by
  cases point : s.point with
  | idle =>
    rw [point] at ok
    exact PoolState.WithMessage.step ok moved
  | queueRoom element rounds =>
    rw [point] at ok
    exact ⟨ok.1.step moved, ok.2⟩
  | wakeUpPeer =>
    rw [point] at ok
    rcases ok with ⟨message, ledger, inv⟩
    exact ⟨message, inv.step id moved⟩
  | channelRoom event =>
    rw [point] at ok
    exact ⟨ok.1, ok.2.step moved⟩
  | reported =>
    rw [point] at ok
    rcases ok with ⟨new, message, handed, both⟩
    exact ⟨new, message, handed, both.step moved⟩

/-- What is not the stream's own changes the pool, or nothing that matters here. -/
theorem PointOk.foreign (ok : s.PointOk layout s.point) (foreign : a.ofStream = false)
    (moved : s.step layout.view side capacity id a = some t) : t.PointOk layout t.point := by
  have unchanged : forall queue status inFallback,
      ({ s with queue, status, inFallback } : FlushState).PointOk layout s.point :=
    fun _ _ _ => ok
  cases a with
  | halfClose =>
    simp only [step] at moved
    split_ifs at moved <;> cases moved <;> exact unchanged _ _ _
  | setFallback inFallback | popped =>
    cases moved
    exact unchanged _ _ _
  | putOther element =>
    rcases of_guarded moved with ⟨_, rfl⟩
    exact unchanged _ _ _
  | others action =>
    simp only [step, Option.map_eq_some_iff] at moved
    rcases moved with ⟨pool, stepped, rfl⟩
    exact ok.of_pool stepped
  | write call | flush | closeNotified | retry sessionClosed | woken | accepted | timedOut
  | reported | cancel | close shutdown | release => cases foreign

theorem pointOk_reachable {ledger : Ledger} (inv : PoolInv layout pool ledger)
    (reached : (flushSystem layout.view side capacity id pool).ReachableUnder NotHandingOver s) :
    s.PointOk layout s.point := by
  refine reached.invariant (P := fun s => s.PointOk layout s.point) ?_ ?_
  · rintro s rfl
    exact PoolState.WithMessage.of_inv inv
  · intro s a t _ guarded moved ok
    cases own : a.ofStream with
    | true => exact (ok.ofStream own guarded moved).ok
    | false => exact ok.foreign own moved

/-- A dropped flush that was not handing over leaves the message where it was, or has
handed it over. -/
theorem PointOk.settled (ok : s.PointOk layout s.point) (guarded : s.NotHandingOver .cancel)
    (moved : s.step layout.view side capacity id .cancel = some t) : t.Settled := by
  simp only [step, Option.ite_none_left_eq_some, Option.some.injEq] at moved
  rcases moved with ⟨waits, rfl⟩
  have undivided := guarded rfl
  cases point : s.point with
  | idle => exact absurd point waits
  | queueRoom element rounds =>
    rw [point] at ok
    rcases ok with ⟨both, fresh, _⟩
    exact Or.inl ⟨fresh, both.pending.contents, both.pending.len⟩
  | reported =>
    rw [point] at ok
    exact Or.inr ⟨[], ok.2.2.1, fun _ _ => List.not_mem_nil⟩
  | wakeUpPeer | channelRoom event =>
    rw [point] at undivided
    cases undivided

/-- Between the calls of the stream, and while one of them waits, every buffer that is
out has one owner. -/
theorem PointOk.owners (ok : s.PointOk layout s.point) (outside : s.point ≠ .wakeUpPeer) :
    Exists fun ledger => Represents layout s.pool.shm ledger /\
      (s.refers ++ s.pool.offsets).Perm ledger.held := by
  have of_both {buf : LinkedBuffer} {written : List UInt8} (same : s.sendBuf = buf)
      (both : s.pool.WithMessage layout buf written) :
      Exists fun ledger => Represents layout s.pool.shm ledger /\
        (s.refers ++ s.pool.offsets).Perm ledger.held := by
    rcases both.pending.sending.filled with ⟨ledger, filled⟩
    rw [refers, same]
    exact ⟨ledger, filled.owned.rep, filled.owned.held⟩
  cases point : s.point with
  | idle =>
    rw [point] at ok
    exact of_both rfl ok
  | queueRoom element rounds =>
    rw [point] at ok
    exact of_both rfl ok.1
  | reported =>
    rw [point] at ok
    exact of_both ok.1 ok.2.2.2
  | channelRoom event =>
    rw [point] at ok
    exact of_both ok.1 ok.2
  | wakeUpPeer => exact absurd point outside

theorem Advanced.spares (advanced : Advanced layout s t)
    (handles : ∀ slice ∈ s.pool.held, IsHandle layout slice) : s.Spares t where
  bytes := by
    intro slice member
    rcases handles slice member with ⟨home, inside, buffer, cap, _⟩
    have kept := advanced.spared.kept home inside _ buffer (List.mem_map_of_mem member)
    rw [cap, Nat.add_comm]
    exact kept
  returned := by
    rcases advanced.spared.gave with ⟨back, gave, spares⟩
    exact ⟨back, gave, fun slice member => spares _ (List.mem_map_of_mem member)⟩
  sent := by
    rcases advanced.sent with ⟨new, queue, foreign⟩
    refine ⟨new, queue, fun e added slice member same => foreign e added ?_⟩
    rw [same]
    exact List.mem_map_of_mem member

theorem PointOk.handles (ok : s.PointOk layout s.point) :
    ∀ slice ∈ s.pool.held, IsHandle layout slice := by
  cases point : s.point with
  | idle =>
    rw [point] at ok
    exact PoolState.WithMessage.handles ok
  | queueRoom element rounds =>
    rw [point] at ok
    exact ok.1.handles
  | reported =>
    rw [point] at ok
    exact ok.2.2.2.handles
  | channelRoom event =>
    rw [point] at ok
    exact ok.2.handles
  | wakeUpPeer =>
    rw [point] at ok
    rcases ok with ⟨_, ledger, inv⟩
    exact inv.handles

end FlushState

open FlushState

/-- In every run in which no flush is dropped while it hands its message over, every
buffer that is out has one owner, a dropped flush leaves the message in the send
buffer or has handed it over, and no call of the stream writes into, gives back or
sends what others own. -/
theorem dropped_flush_keeps_owners {layout : PoolLayout} {pool : PoolState} {ledger : Ledger}
    (inUse : PoolInv layout pool ledger) (side : Pool.Side) (capacity id : Nat) {s : FlushState}
    (reached : (flushSystem layout.view side capacity id pool).ReachableUnder NotHandingOver s) :
    (s.point ≠ .wakeUpPeer -> Exists fun ledger => Represents layout s.pool.shm ledger /\
      (s.refers ++ s.pool.held.map BufferSlice.offsetInShm).Perm ledger.held /\
      (s.refers ++ s.pool.held.map BufferSlice.offsetInShm).Nodup) /\
    (forall t, s.NotHandingOver .cancel ->
      s.step layout.view side capacity id .cancel = some t -> t.Settled) /\
    (forall a t, a.ofStream = true -> s.NotHandingOver a ->
      s.step layout.view side capacity id a = some t -> s.Spares t) := by
  have ok := pointOk_reachable inUse reached
  refine ⟨fun outside => ?_, fun t guarded moved => ok.settled guarded moved,
    fun a t own guarded moved => (ok.ofStream own guarded moved).spares ok.handles⟩
  rcases ok.owners outside with ⟨ledger, rep, perm⟩
  exact ⟨ledger, rep, perm, perm.nodup_iff.mpr rep.sound.nodup_held⟩

theorem dropped_flush_keeps_owners_full_queue :
    Exists fun bm => Exists fun mem => Exists fun peer =>
      BufferManager.create [⟨16, 100⟩] 200 0 (fun _ => 0) = .ok (bm, mem) /\
      BufferManager.mapping 200 0 mem = .ok peer /\
      Exists fun s => Exists fun t =>
        (flushSystem (viewsOf bm peer) .creator 1 7 ⟨⟨mem, []⟩, []⟩).ReachableUnder
          NotHandingOver s /\
        s.step (viewsOf bm peer) .creator 1 7 .cancel = some t /\ t.message = [1, 2, 3] /\
        t.Settled := by
  have test : (BufferManager.create [⟨16, 100⟩] 200 0 (fun _ => 0)).toOption.any (fun pool =>
      (BufferManager.mapping 200 0 pool.2).toOption.any fun peer =>
        ((flushSystem (viewsOf pool.1 peer) .creator 1 7 ⟨⟨pool.2, []⟩, []⟩).run NotHandingOver
          ⟨⟨⟨pool.2, []⟩, []⟩, [], [], .new, .opened, false, .idle, [], none⟩
          [.putOther ⟨9, 0, .closed⟩, .write (.writeBytes [1, 2, 3]), .flush]).any fun s =>
            decide ((s.step (viewsOf pool.1 peer) .creator 1 7 .cancel).map FlushState.message =
              some [1, 2, 3] /\ s.NotHandingOver .cancel)) = true := by
    decide +kernel
  rcases exists_ok_of_any test with ⟨⟨bm, mem⟩, created, test⟩
  rcases inUse_of_created (by decide) (by decide) (by decide) created with
    ⟨layout, rfl, mapped, inUse⟩
  simp only [Except.toOption, Option.any_some, mapped, viewsOf_layout] at test
  rcases System.exists_run_of_any test with ⟨s, ran, cancelled, guarded⟩
  rcases Option.map_eq_some_iff.mp cancelled with ⟨t, moved, message⟩
  have reached := System.reachable_run (.start rfl) ran
  rcases dropped_flush_keeps_owners inUse .creator 1 7 reached with ⟨_, settled, _⟩
  refine ⟨_, mem, _, created, mapped, s, t, ?_, ?_, message,
    settled t guarded moved⟩
  · rw [viewsOf_layout]
    exact reached
  · rw [viewsOf_layout]
    exact moved

/-- Dropped while it wakes the peer, a flush leaves a send buffer that refers to the
slice that the peer owns: dropping the stream gives it back, and another flush sends
it again.  Dropped while it waits for room in the channel, a flush takes the message
with it. -/
theorem dropped_flush_shares_slice :
    Exists fun bm => Exists fun mem => Exists fun peer =>
      BufferManager.create [⟨16, 100⟩] 200 0 (fun _ => 0) = .ok (bm, mem) /\
      BufferManager.mapping 200 0 mem = .ok peer /\
      (Exists fun s => (flushSystem (viewsOf bm peer) .creator 8 7 ⟨⟨mem, []⟩, []⟩).Reachable s /\
        s.handed = some [44] /\ s.refers = [44] /\
        s.pool.held.map BufferSlice.offsetInShm = [44] /\
        (s.step (viewsOf bm peer) .creator 8 7 .release).map
          (fun t => returnedOffsets t.pool.shm.log) = some [44] /\
        (s.step (viewsOf bm peer) .creator 8 7 .flush).map
          (fun t => t.queue.map QueueElement.offsetInShmBuf) = some [44, 44]) /\
      (Exists fun s => (flushSystem (viewsOf bm peer) .creator 8 7 ⟨⟨mem, []⟩, []⟩).Reachable s /\
        s.handed = none /\ s.message = [1, 2, 3] /\ s.sendBuf = .new /\ s.channel = []) := by
  have test : (BufferManager.create [⟨16, 100⟩] 200 0 (fun _ => 0)).toOption.any (fun pool =>
      (BufferManager.mapping 200 0 pool.2).toOption.any fun peer =>
        (((flushSystem (viewsOf pool.1 peer) .creator 8 7 ⟨⟨pool.2, []⟩, []⟩).run
          (fun _ _ => True)
          ⟨⟨⟨pool.2, []⟩, []⟩, [], [], .new, .opened, false, .idle, [], none⟩
          [.write (.writeBytes [1, 2, 3]), .flush, .cancel]).any fun s => decide
            (s.handed = some [44] /\ s.refers = [44] /\
              s.pool.held.map BufferSlice.offsetInShm = [44] /\
              (s.step (viewsOf pool.1 peer) .creator 8 7 .release).map
                (fun t => returnedOffsets t.pool.shm.log) = some [44] /\
              (s.step (viewsOf pool.1 peer) .creator 8 7 .flush).map
                (fun t => t.queue.map QueueElement.offsetInShmBuf) = some [44, 44])) &&
        (((flushSystem (viewsOf pool.1 peer) .creator 8 7 ⟨⟨pool.2, []⟩, []⟩).run
          (fun _ _ => True)
          ⟨⟨⟨pool.2, []⟩, []⟩, [], [], .new, .opened, false, .idle, [], none⟩
          [.setFallback true, .write (.writeBytes [1, 2, 3]), .flush, .cancel]).any fun s => decide
            (s.handed = none /\ s.message = [1, 2, 3] /\ s.sendBuf = .new /\ s.channel = []))) =
      true := by
    decide +kernel
  rcases exists_ok_of_any test with ⟨pool, created, test⟩
  rcases exists_ok_of_any test with ⟨peer, mapped, test⟩
  rw [Bool.and_eq_true] at test
  rcases System.exists_reachable_of_run
    (M := flushSystem (viewsOf pool.1 peer) .creator 8 7 ⟨⟨pool.2, []⟩, []⟩) _ _ rfl test.1 with
    ⟨s, reached, shared⟩
  rcases System.exists_reachable_of_run
    (M := flushSystem (viewsOf pool.1 peer) .creator 8 7 ⟨⟨pool.2, []⟩, []⟩) _ _ rfl test.2 with
    ⟨s', reached', lost⟩
  exact ⟨pool.1, pool.2, peer, created, mapped, ⟨s, reached, shared⟩, s', reached', lost⟩

end Stream
end Shmipc
