import Shmipc.V5.MpscOrder
import Shmipc.V5.Remote

namespace Shmipc
namespace V5

open ByteMemory Transition

/-!
# Giving offsets back to their owner

The reading side gives an offset back by way of `pending_release`, a list that it
keeps under a lock, and of the release queue, which the owner pops from.  A call
appends its offsets to the list and then, with the lock still held, pushes from the
front of the list for as long as the queue takes them.  What was pushed is drained
from the list before the lock is released, and what is left makes the call report
that the queue is full, although the offsets are accepted and a later call will push
them.

The queue is the ring of `V5.Mpsc`, and every access of `try_push` and `try_pop` is a
step here as it is there.  Only the holder of the lock pushes, so the ring has one
producer at a time.  The owner pops at any time, also in the middle of a push.

Between the pushes of a flush and the drain that ends it an offset is in the queue
and still in the list.  What is conserved is the list without the offsets that the
running flush has pushed.
-/

namespace RemoteManager

/-- The tests of `free`. -/
def freeTest (r : RemoteManager) (mem : Memory) (globalOffset : Int) :
    Except ManagerError Unit :=
  if r.closed then .error .closed
  else if globalOffset < rqSize \/ (r.size : Int) - dynshmBufferHeaderSize < globalOffset then
    .error .outOfBounds
  else if (DynShmBufferHeader.read mem globalOffset.toNat).offset ≠ globalOffset then
    .error .notAllocated
  else .ok ()

/-- Schedule one block for release, with the flush in one step. -/
def free (r : RemoteManager) (mem : Memory) (rq : List Int) (globalOffset : Int) :
    Except ManagerError Unit × RemoteManager × List Int :=
  match r.freeTest mem globalOffset with
  | .error err => (.error err, r, rq)
  | .ok () =>
    { r with pendingRelease := r.pendingRelease ++ [globalOffset] }.flushReleases rq

def retryPendingReleases (r : RemoteManager) (rq : List Int) :
    Except ManagerError Unit × RemoteManager × List Int :=
  if r.closed then (.error .closed, r, rq) else r.flushReleases rq

/-- The part of `free_chain` before the lock. -/
def freeChainTest (r : RemoteManager) (mem : Memory) (root : Int) :
    Except ManagerError (List Int) :=
  if r.closed then .error .closed else r.chainOffsets mem maxChainNodes [] root

end RemoteManager

/-- The blocks of a chain, from the one at an offset on: each header names its own
offset and links to the next block, and the last one links to none. -/
inductive IsChain (mem : Memory) : Int -> List Int -> Prop
  | nil {offset : Int} (ended : offset <= 0) : IsChain mem offset []
  | cons {offset : Int} {rest : List Int} (positive : 0 < offset)
      (named : (DynShmBufferHeader.read mem offset.toNat).offset = offset)
      (linked : IsChain mem (DynShmBufferHeader.read mem offset.toNat).next rest) :
      IsChain mem offset (offset :: rest)

/-- A call that schedules blocks for release, with the memory it finds. -/
inductive Release
  | free (mem : Memory) (globalOffset : Int)
  | freeChain (mem : Memory) (root : Int)

/-- The call is for these blocks. -/
def Release.Names : Release -> List Int -> Prop
  | .free _ globalOffset, offsets => offsets = [globalOffset]
  | .freeChain mem root, offsets => IsChain mem root offsets

/-- Where the call that holds the lock of `pending_release` stands in
`flush_releases`, with the number of offsets it has pushed. -/
inductive FlushPoint
  | unlocked
  | pushing (pushed : Nat)
  /-- Inside `try_push`. -/
  | inPush (pushed : Nat)
  | draining (pushed : Nat)
  deriving DecidableEq, Repr

/-- The reading side and the release queue.  `accepted` lists the calls that got the
lock, with the offsets that they appended to `pending_release`, and `returned` is the
result of the last call that returned. -/
structure PipelineState where
  mgr : RemoteManager
  rq : MpscState Int
  point : FlushPoint
  returned : Option (Except ManagerError Unit)
  accepted : List (Release × List Int)

/-- A call reads the headers of its blocks before it takes the lock. -/
inductive PipelineAction
  | release (call : Release)
  | retryPendingReleases
  | flush (spurious : Bool)
  | pop
  | consume

namespace RemoteManager

/-- What a call does before it takes the lock: the offsets it will append. -/
def releaseTest (r : RemoteManager) : Release -> Except ManagerError (List Int)
  | .free mem globalOffset => (r.freeTest mem globalOffset).map fun _ => [globalOffset]
  | .freeChain mem root => r.freeChainTest mem root

end RemoteManager

namespace PipelineState

/-- Reject a call before it takes the lock. -/
def reject (s : PipelineState) (err : ManagerError) : PipelineState :=
  { s with returned := some (.error err) }

def setPending (s : PipelineState) (pending : List Int) : PipelineState :=
  { s with mgr := { s.mgr with pendingRelease := pending } }

/-- Take the lock and append the offsets of a call, if it has any. -/
def schedule (s : PipelineState) (call : Option (Release × List Int)) : Option PipelineState :=
  if s.point = .unlocked then
    some { s.setPending (s.mgr.pendingRelease ++ call.toList.flatMap Prod.snd) with
      point := .pushing 0
      accepted := s.accepted ++ call.toList }
  else none

/-- The next step of `flush_releases`. -/
def flush (ring : Mpsc) (s : PipelineState) (spurious : Bool) : Option PipelineState :=
  match s.point with
  | .unlocked => none
  | .pushing pushed =>
    match s.mgr.pendingRelease[pushed]? with
    | none => some { s with point := .draining pushed }
    | some offset =>
      (s.rq.step ring (.push 0 0 offset)).map fun rq =>
        { s with rq := rq, point := .inPush pushed }
  | .inPush pushed =>
    match s.rq.producer 0 with
    | .returned true => some { s with point := .pushing (pushed + 1) }
    | .returned false => some { s with point := .draining pushed }
    | _ => (s.rq.step ring (.produce 0 spurious)).map fun rq => { s with rq := rq }
  | .draining pushed =>
    let rest := s.mgr.pendingRelease.drop pushed
    some { s.setPending rest with
      point := .unlocked
      returned := some (if rest = [] then .ok () else .error .releaseQueueFull) }

def step (ring : Mpsc) (s : PipelineState) : PipelineAction -> Option PipelineState
  | .release call =>
    match s.mgr.releaseTest call with
    | .error err => some (s.reject err)
    | .ok offsets => s.schedule (some (call, offsets))
  | .retryPendingReleases =>
    if s.mgr.closed then some (s.reject .closed) else s.schedule none
  | .flush spurious => s.flush ring spurious
  | .pop => (s.rq.step ring .pop).map fun rq => { s with rq := rq }
  | .consume => (s.rq.step ring .consume).map fun rq => { s with rq := rq }

/-- The offsets of the calls that were accepted, in the order of the calls. -/
def offsets (s : PipelineState) : List Int :=
  s.accepted.flatMap Prod.snd

/-- Nothing was accepted yet, and the session is open. -/
structure Initial (s : PipelineState) : Prop where
  opened : s.mgr.closed = false
  pending : s.mgr.pendingRelease = []
  rq : s.rq = MpscState.new 0
  point : s.point = .unlocked
  accepted : s.accepted = []

end PipelineState

/-- All interleavings of the calls of the reading side with the owner's pops. -/
def pipelineSystem (ring : Mpsc) : System PipelineState PipelineAction where
  init := PipelineState.Initial
  step := PipelineState.step ring

namespace Producer

variable {T : Type}

/-- The push has its place in the ring. -/
def hasClaimed : Producer T -> Bool
  | .waitTurn _ _ | .write _ _ | .publish _ _ => true
  | .returned ok => ok
  | _ => false

/-- What the push is about to claim a place for. -/
def unclaimed? : Producer T -> Option T
  | .loadTail _ value | .loadCache _ value _ | .loadHead _ value _ => some value
  | .storeCache _ value _ _ | .compareExchange _ value _ => some value
  | _ => none

end Producer

/-- The values that have a place in the ring and were not popped. -/
def MpscState.contents {T : Type} (s : MpscState T) : List T :=
  (s.claims.map Prod.snd).drop s.shared.head

/-- What is left of the list when the offsets are discounted that the running call has
pushed already and will drain. -/
def PipelineState.backlog (s : PipelineState) : List Int :=
  match s.point with
  | .unlocked => s.mgr.pendingRelease
  | .pushing pushed => s.mgr.pendingRelease.drop pushed
  | .inPush pushed =>
    if (s.rq.producer 0).hasClaimed then s.mgr.pendingRelease.drop (pushed + 1)
    else s.mgr.pendingRelease.drop pushed
  | .draining pushed => s.mgr.pendingRelease.drop pushed

/-! ## The offsets of a call -/

variable {r : RemoteManager}

theorem RemoteManager.isChain_of_readInner {mem : Memory} {offset next : Int} {slice : Slice}
    {rest : List Int} (read : r.readInner mem offset = some (slice, next)) (positive : 0 < offset)
    (linked : IsChain mem next rest) :
    IsChain mem offset (offset :: rest) := by
  simp only [readInner, Option.ite_none_left_eq_some, Option.some.injEq, Prod.mk.injEq] at read
  rcases read with ⟨_, valid, _, _, _, rfl⟩
  exact .cons positive (not_not.mp fun other => valid (.inl other)) linked

theorem RemoteManager.isChain_of_chainOffsets {mem : Memory} {nodes : Nat}
    {visited result : List Int} {offset : Int}
    (walked : r.chainOffsets mem nodes visited offset = .ok result) :
    Exists fun rest => result = visited ++ rest /\ IsChain mem offset rest := by
  induction nodes generalizing visited offset with
  | zero =>
    rw [chainOffsets, chainTraced] at walked
    split_ifs at walked with positive
    cases walked
    exact ⟨[], (List.append_nil _).symm, .nil (Int.not_lt.mp positive)⟩
  | succ nodes ih =>
    rw [chainOffsets, chainTraced] at walked
    split_ifs at walked with positive repeated
    · cases read : r.readInner mem offset with
      | none =>
        rw [read] at walked
        cases walked
      | some block =>
        rw [read] at walked
        rcases ih walked with ⟨rest, rfl, linked⟩
        refine ⟨offset :: rest, ?_, isChain_of_readInner read positive linked⟩
        rw [List.append_assoc, List.singleton_append]
    · cases walked
      exact ⟨[], (List.append_nil _).symm, .nil (Int.not_lt.mp positive)⟩

theorem RemoteManager.names_of_releaseTest {call : Release} {offsets : List Int}
    (tested : r.releaseTest call = .ok offsets) : call.Names offsets := by
  cases call with
  | free mem globalOffset =>
    rw [releaseTest] at tested
    cases result : r.freeTest mem globalOffset with
    | error err =>
      rw [result] at tested
      cases tested
    | ok _ =>
      rw [result] at tested
      cases tested
      rfl
  | freeChain mem root =>
    rw [releaseTest, freeChainTest] at tested
    split_ifs at tested
    rcases isChain_of_chainOffsets tested with ⟨rest, rfl, chain⟩
    exact chain

/-! ## No offset is lost, doubled or moved -/

/-- An access of a push claims the place of its value, or it changes neither the claims
nor what the push has claimed. -/
theorem MpscState.claims_of_produce {T : Type} {ring : Mpsc} {s t : MpscState T} {p : Nat}
    {spurious : Bool} (moved : s.produce ring p spurious = some t) :
    (Exists fun value => Exists fun tail => (s.producer p).unclaimed? = some value /\
      (s.producer p).hasClaimed = false /\ t.producer p = .waitTurn value tail /\
      t.claims = s.claims ++ [(tail, value)]) \/
    (t.claims = s.claims /\ (t.producer p).hasClaimed = (s.producer p).hasClaimed /\
      forall value, (t.producer p).unclaimed? = some value ->
        (s.producer p).unclaimed? = some value) := by
  revert moved
  rw [MpscState.produce]
  cases pc : s.producer p with
  | idle => rintro ⟨⟩
  | returned done => rintro ⟨⟩
  | compareExchange mapping value tail =>
    dsimp only
    split
    · rintro ⟨⟩
      exact .inl ⟨value, tail, rfl, rfl, setProducer_self .., rfl⟩
    · rintro ⟨⟩
      rw [setProducer_self]
      exact .inr ⟨rfl, rfl, fun _ same => same⟩
  | waitTurn value position =>
    dsimp only
    split
    · rintro ⟨⟩
      rw [pc]
      exact .inr ⟨rfl, rfl, fun _ same => same⟩
    · rintro ⟨⟩
      rw [setProducer_self]
      exact .inr ⟨rfl, rfl, fun _ same => same⟩
  | loadCache mapping value tail | storeCache mapping value tail head =>
    dsimp only
    split <;> rintro ⟨⟩ <;> rw [setProducer_self] <;>
      exact .inr ⟨rfl, rfl, by simp [Producer.unclaimed?]⟩
  | _ =>
    rintro ⟨⟩
    rw [setProducer_self]
    exact .inr ⟨rfl, rfl, by simp [Producer.unclaimed?]⟩

namespace PipelineState

variable {ring : Mpsc} {s t : PipelineState}

/-- The offsets with a place in the ring and those held back, in this order, are the
offsets accepted, and these are the blocks that the calls were for.  A push that has
no place yet is for the first offset held back. -/
structure Conserved (ring : Mpsc) (s : PipelineState) : Prop where
  ran : (ring.system 0).Reachable s.rq
  order : s.rq.claims.map Prod.snd ++ s.backlog = s.offsets
  named : ∀ call ∈ s.accepted, call.1.Names call.2
  pushes : forall pushed value, s.point = .inPush pushed ->
    (s.rq.producer 0).unclaimed? = some value -> s.mgr.pendingRelease[pushed]? = some value

theorem Conserved.schedule {call : Option (Release × List Int)} (conserved : s.Conserved ring)
    (names : ∀ entry ∈ call.toList, entry.1.Names entry.2)
    (moved : s.schedule call = some t) : t.Conserved ring := by
  rcases of_guarded moved with ⟨unlocked, rfl⟩
  refine ⟨conserved.ran, ?_, ?_, fun _ _ pushing => by cases pushing⟩
  · have before := conserved.order
    rw [backlog, unlocked] at before
    show s.rq.claims.map Prod.snd ++ (s.mgr.pendingRelease ++ call.toList.flatMap Prod.snd).drop 0 =
      (s.accepted ++ call.toList).flatMap Prod.snd
    rw [List.drop_zero, <- List.append_assoc, before, offsets, List.flatMap_append]
  · exact List.forall_mem_append.mpr ⟨conserved.named, names⟩

variable {rq : MpscState Int} {spurious : Bool}

/-- The step takes place in the ring, and the rest is as before. -/
theorem Conserved.setRing (conserved : s.Conserved ring) {a : MpscAction Int}
    (moved : s.rq.step ring a = some rq) (claims : rq.claims = s.rq.claims)
    (producer : rq.producer 0 = s.rq.producer 0) :
    Conserved ring { s with rq := rq } := by
  refine ⟨.next (a := a) conserved.ran trivial moved, ?_, conserved.named, ?_⟩
  · have before := conserved.order
    unfold backlog at before ⊢
    rw [claims, producer]
    exact before
  · rw [producer]
    exact conserved.pushes

/-- A step of the push that the call is in. -/
theorem Conserved.produce (conserved : s.Conserved ring) {pushed : Nat}
    (point : s.point = .inPush pushed) (moved : s.rq.step ring (.produce 0 spurious) = some rq) :
    Conserved ring { s with rq := rq } := by
  have before := conserved.order
  have pushes := conserved.pushes pushed
  rw [backlog, point] at before
  dsimp only at before
  have ran : (ring.system 0).Reachable rq :=
    .next (a := .produce 0 spurious) conserved.ran trivial moved
  rcases MpscState.claims_of_produce moved with
    ⟨value, tail, holds, unclaimed, waits, claims⟩ | ⟨claims, same, holds⟩
  · -- the front of the list goes to the back of the ring
    rcases List.getElem?_eq_some_iff.mp (pushes value point holds) with ⟨inside, front⟩
    rw [unclaimed, if_neg nofun, List.drop_eq_getElem_cons inside, front] at before
    refine ⟨ran, ?_, conserved.named, ?_⟩
    · rw [backlog]
      simp only [point, waits, claims, Producer.hasClaimed, if_true, List.map_append,
        List.map_singleton]
      rw [List.append_assoc]
      exact before
    · intro _ _ _ later
      rw [waits] at later
      cases later
  · refine ⟨ran, ?_, conserved.named, ?_⟩
    · rw [backlog]
      simp only [point, claims, same]
      exact before
    · intro other value now later
      exact conserved.pushes other value now (holds value later)

theorem Conserved.setPoint (conserved : s.Conserved ring) {point : FlushPoint}
    (backlog : { s with point := point }.backlog = s.backlog)
    (between : forall pushed, point ≠ .inPush pushed) :
    Conserved ring { s with point := point } where
  ran := conserved.ran
  order := by
    rw [backlog]
    exact conserved.order
  named := conserved.named
  pushes := fun pushed _ inside => absurd inside (between pushed)

theorem Conserved.flush (conserved : s.Conserved ring) (moved : s.flush ring spurious = some t) :
    t.Conserved ring := by
  have before := conserved.order
  unfold PipelineState.flush at moved
  cases point : s.point with
  | unlocked =>
    rw [point] at moved
    cases moved
  | pushing pushed =>
    rw [point] at moved
    rw [backlog, point] at before
    dsimp only at moved
    cases next : s.mgr.pendingRelease[pushed]? with
    | none =>
      rw [next] at moved
      cases moved
      exact conserved.setPoint (by simp only [backlog, point]) nofun
    | some offset =>
      rw [next] at moved
      rcases Option.map_eq_some_iff.mp moved with ⟨rq, started, rfl⟩
      have fresh := MpscState.step_push started
      have begun : rq.producer 0 = .loadTail 0 offset := by
        rw [fresh, MpscState.setProducer_self]
      refine ⟨.next (a := .push 0 0 offset) conserved.ran trivial started, ?_, conserved.named,
        ?_⟩
      · rw [backlog]
        simp only [begun, Producer.hasClaimed]
        rw [fresh]
        exact before
      · rintro _ value ⟨⟩ holds
        rw [begun] at holds
        cases holds
        exact next
  | inPush pushed =>
    rw [point] at moved
    dsimp only at moved
    split at moved
    · next done =>
      cases moved
      exact conserved.setPoint (by simp [backlog, point, done, Producer.hasClaimed]) nofun
    · next full =>
      cases moved
      exact conserved.setPoint (by simp [backlog, point, full, Producer.hasClaimed]) nofun
    · rcases Option.map_eq_some_iff.mp moved with ⟨rq, produced, rfl⟩
      have next := conserved.produce point produced
      rwa [point] at next
  | draining pushed =>
    rw [point] at moved
    rw [backlog, point] at before
    cases moved
    exact ⟨conserved.ran, before, conserved.named, fun _ _ pushing => by cases pushing⟩

theorem Conserved.step {a : PipelineAction} (conserved : s.Conserved ring)
    (moved : s.step ring a = some t) : t.Conserved ring := by
  cases a with
  | release call =>
    rw [PipelineState.step] at moved
    cases tested : s.mgr.releaseTest call with
    | error err =>
      rw [tested] at moved
      cases moved
      exact ⟨conserved.ran, conserved.order, conserved.named, conserved.pushes⟩
    | ok offsets =>
      rw [tested] at moved
      refine conserved.schedule ?_ moved
      exact List.forall_mem_singleton.mpr (RemoteManager.names_of_releaseTest tested)
  | retryPendingReleases =>
    rw [PipelineState.step] at moved
    split at moved
    · cases moved
      exact ⟨conserved.ran, conserved.order, conserved.named, conserved.pushes⟩
    · exact conserved.schedule (fun _ none => absurd none List.not_mem_nil) moved
  | flush spurious => exact conserved.flush moved
  | pop =>
    rcases Option.map_eq_some_iff.mp moved with ⟨rq, popped, rfl⟩
    have same := (MpscState.step_pop popped).1
    exact conserved.setRing popped (by rw [same]; rfl) (by rw [same]; rfl)
  | consume =>
    rcases Option.map_eq_some_iff.mp moved with ⟨rq, consumed, rfl⟩
    rcases MpscState.consume_frame consumed with ⟨_, claims, producer, _⟩
    exact conserved.setRing consumed claims (congrFun producer 0)

theorem Initial.conserved (initial : s.Initial) : s.Conserved ring := by
  rcases initial with ⟨_, pending, rq, point, accepted⟩
  refine ⟨.start rq, ?_, ?_, ?_⟩
  · rw [backlog, offsets, point, rq, pending, accepted]
    rfl
  · rw [accepted]
    exact nofun
  · rw [point]
    exact nofun

end PipelineState

/-- The offsets popped by the owner, the offsets in the release queue and the offsets
held back are at every moment, in this order, the offsets of the calls that were
accepted: the one block of a `free` and the blocks of a chain in its order.  What is
held back is `pending_release` but for the offsets that a running flush has pushed, and
all of `pending_release` whenever the lock is free. -/
theorem releases_conserved (ring : Mpsc) {s : PipelineState}
    (reachable : (pipelineSystem ring).Reachable s) (bound : s.rq.claims.length < 2 ^ 63) :
    (∀ call ∈ s.accepted, call.1.Names call.2) /\
      s.rq.delivered ++ s.rq.contents ++ s.backlog = s.offsets /\
      (s.point = .unlocked ->
        s.rq.delivered ++ s.rq.contents ++ s.mgr.pendingRelease = s.offsets) := by
  have conserved : s.Conserved ring :=
    reachable.invariant (P := PipelineState.Conserved ring)
      (fun _ initial => PipelineState.Initial.conserved initial)
      (fun _ _ _ _ _ moved earlier => earlier.step moved)
  have inv := ring.inv_of_reachable 0 conserved.ran bound
  have popped : s.rq.delivered ++ s.rq.contents = s.rq.claims.map Prod.snd := by
    rw [MpscState.contents, inv.head_eq, List.prefix_iff_eq_append.mp inv.delivered_prefix]
  have order := conserved.order
  rw [<- popped] at order
  refine ⟨conserved.named, order, fun unlocked => ?_⟩
  rw [PipelineState.backlog, unlocked] at order
  exact order

/-- A segment with two blocks of 24 bytes behind the release queue, chained. -/
def twoBlocks : Memory :=
  writeSigned (writeSigned (writeSigned (fun _ => 0) rqSize 8 rqSize) (rqSize + 8) 8
    (rqSize + 24 : Nat)) (rqSize + 24) 8 (rqSize + 24 : Nat)

/-- The reading side of `twoBlocks` before its first call. -/
def twoBlocksReader : PipelineState where
  mgr := { size := rqSize + 48, pendingRelease := [], closed := false }
  rq := MpscState.new 0
  point := .unlocked
  returned := none
  accepted := []

/-- One call of a ring of one place.  The second block of the chain does not fit and is
held back, and a retry after the owner has popped pushes it. -/
theorem releases_conserved_one_place :
    Exists fun s : PipelineState => s.rq.delivered = [(rqSize : Int)] /\
      s.rq.contents = [(rqSize : Int) + 24] /\ s.mgr.pendingRelease = [] /\
      s.rq.delivered ++ s.rq.contents ++ s.mgr.pendingRelease = s.offsets := by
  have found : Exists fun s : PipelineState =>
      (pipelineSystem ⟨0, 4, 0, rfl⟩).Reachable s /\ (s.rq.delivered = [(rqSize : Int)] /\
        s.rq.contents = [(rqSize : Int) + 24] /\ s.mgr.pendingRelease = [] /\
        s.rq.claims.length < 2 ^ 63 /\ s.point = .unlocked) :=
    System.exists_reachable_of_run twoBlocksReader
      ([.release (.freeChain twoBlocks rqSize)] ++ List.replicate 15 (.flush false) ++
        [.pop] ++ List.replicate 5 .consume ++ [.retryPendingReleases] ++
        List.replicate 12 (.flush false))
      ⟨rfl, rfl, rfl, rfl, rfl⟩ (by decide +kernel)
  rcases found with ⟨s, reachable, popped, contents, pending, bound, unlocked⟩
  exact ⟨s, popped, contents, pending,
    (releases_conserved ⟨0, 4, 0, rfl⟩ reachable bound).2.2 unlocked⟩

/-- The only block of a call has its place in the ring and is not drained from the list
yet: it is in both. -/
theorem pushed_offset_still_pending :
    Exists fun s : PipelineState => (pipelineSystem ⟨0, 4, 0, rfl⟩).Reachable s /\
      s.rq.claims.length < 2 ^ 63 /\
      s.rq.delivered ++ s.rq.contents ++ s.mgr.pendingRelease ≠ s.offsets :=
  System.exists_reachable_of_run twoBlocksReader
    (.release (.free twoBlocks rqSize) :: List.replicate 4 (.flush false))
    ⟨rfl, rfl, rfl, rfl, rfl⟩ (by decide +kernel)

end V5
end Shmipc
