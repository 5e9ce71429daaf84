import Shmipc.V5.OwnershipInvariant

namespace Shmipc
namespace V5

open Transition

/-!
# Linear ownership over whole runs

`recycle` assigns the returned vector over the write buffer's own one.  The
vector it drops is empty unless a write landed between `take_shm` and the
recycling of the same flush; the blocks of such a write are then referred to by
nothing and never freed.  In every run in which no recycling drops blocks, each
allocated block has exactly one holder or is on its way back.
-/

namespace Endpoints

/-- Recycling after a put drops no block: the write buffer is empty, or its own
vector is roomy enough to be kept. -/
def KeepsPending (s : Endpoints) : OwnershipAction -> Prop
  | .put index => ∀ outgoing ∈ s.outgoing[index]?,
      s.pending = [] \/ outgoing.capacity <= s.pendingCapacity
  | _ => True

instance (s : Endpoints) (a : OwnershipAction) : Decidable (KeepsPending s a) :=
  match a with
  | .put index => inferInstanceAs (Decidable (∀ outgoing ∈ s.outgoing[index]?, _))
  | .reserve .. | .flush | .abandon _ | .dropOutChunk | .discard | .closeWriter | .pop | .batch _
  | .flushBatch | .reset | .closeReader | .drain | .advance _ | .lease | .readLease _
  | .cloneLease _ | .dropLease _ | .dropChunk | .dropInput | .pushRelease | .drainRelease =>
    isTrue trivial

variable {caps : Capacities} {message : Nat -> List Nat} {s : Endpoints}

theorem Holding.step {a : OwnershipAction} {t : Endpoints} (inv : Holding caps message [] s)
    (keeps : KeepsPending s a) (moved : s.step caps a = some t) :
    Exists fun message' => Holding caps message' [] t := by
  cases a with
  | put index => exact inv.put (fun outgoing found => keeps outgoing found) moved
  | reserve size fits alloc => exact ⟨message, inv.reserve moved⟩
  | flush =>
    cases moved
    exact ⟨message, inv.flush⟩
  | abandon index => exact ⟨message, inv.abandon moved⟩
  | dropOutChunk => exact ⟨message, inv.dropOutChunk moved⟩
  | discard =>
    cases moved
    exact ⟨message, inv.discard⟩
  | closeWriter =>
    cases moved
    exact ⟨message, { inv.discard with }⟩
  | pop =>
    simp only [Endpoints.step] at moved
    split at moved
    · next root rest idle queued =>
      cases moved
      exact ⟨message, inv.pop idle queued rfl⟩
    · cases moved
  | batch found => exact ⟨message, inv.batchData moved⟩
  | flushBatch => exact ⟨message, inv.flushBatch moved⟩
  | reset =>
    cases moved
    refine ⟨message, ?_⟩
    unfold Endpoints.reset
    split
    · exact { inv with }
    · exact inv
  | closeReader =>
    cases moved
    exact ⟨message, { inv with }⟩
  | drain =>
    cases moved
    exact ⟨message, inv.drainInputs rfl⟩
  | advance amount => exact ⟨message, inv.advance moved⟩
  | lease => exact ⟨message, inv.lease moved⟩
  | readLease amount =>
    rcases Option.bind_eq_some_iff.mp moved with ⟨leased, borrowed, read⟩
    exact ⟨message, (inv.lease borrowed).advance read⟩
  | cloneLease offset =>
    simp only [Endpoints.step] at moved
    split at moved
    · next leased =>
      cases moved
      exact ⟨message, inv.cloneLease leased⟩
    · cases moved
  | dropLease offset => exact ⟨message, inv.dropLease moved⟩
  | dropChunk => exact ⟨message, inv.dropChunk moved⟩
  | dropInput => exact ⟨message, inv.dropInput moved⟩
  | pushRelease => exact ⟨message, inv.pushRelease moved⟩
  | drainRelease => exact ⟨message, inv.drainRelease moved⟩

theorem holding_of_reachable
    (reachable : (ownershipSystem caps).ReachableUnder KeepsPending s) :
    Exists fun message => Holding caps message [] s := by
  refine reachable.invariant (P := fun s => Exists fun message => Holding caps message [] s) ?_ ?_
  · intro start fresh
    rw [show start = new from fresh]
    exact ⟨fun _ => [], holding_new⟩
  · intro s a t _ keeps moved inv
    rcases inv with ⟨message, inv⟩
    exact inv.step keeps moved

/-- Some party short of the release path refers to the block: the write buffer,
a message being handed over, a chunk for the socket, a chain on the ring, in
the event loop or in the inbox, a readable chunk, or a zero-copy lease. -/
def refers (s : Endpoints) (o : Nat) : Prop :=
  o ∈ s.pending \/ o ∈ s.outgoing.flatMap V5Outgoing.allocs \/ o ∈ s.outChunks \/
  (∃ root ∈ s.roots, o ∈ (s.chain root).1) \/ o ∈ s.ready.map ReadChunk.offset \/ o ∈ s.leases

instance (s : Endpoints) (o : Nat) : Decidable (s.refers o) :=
  inferInstanceAs (Decidable (_ \/ _ \/ _ \/ _ \/ _ \/ _))

/-- The block is on its way back to the owner. -/
def returning (s : Endpoints) (o : Nat) : Prop :=
  o ∈ s.pendingRelease \/ o ∈ s.releaseQueue

instance (s : Endpoints) (o : Nat) : Decidable (s.returning o) :=
  inferInstanceAs (Decidable (_ \/ _))

theorem Holding.chain_of_root (inv : Holding caps message [] s) {root : Nat}
    (travelling : root ∈ s.roots) : (s.chain root).1 = message root := by
  rcases inv.roots_linked root travelling with ⟨head, linked⟩
  rcases List.append_of_mem travelling with ⟨before, after, split⟩
  have inHand : Holding caps message (message root ++ [])
      { s with ring := before ++ after, popped := none, batches := [], inbox := [] } := by
    refine inv.takeRoot ?_ rfl
    rw [split, roots, Option.toList_none]
    simpa using List.perm_middle.symm
  exact congrArg Prod.fst (inHand.chain_eq head linked)

/-- The holders short of the release path. -/
def held (message : Nat -> List Nat) (s : Endpoints) : List Nat :=
  s.pending ++ (s.outgoing.flatMap V5Outgoing.allocs ++ (s.outChunks ++
    (s.roots.flatMap message ++ (unpinned s.ready ++ s.pins))))

theorem owned_eq (message : Nat -> List Nat) (s : Endpoints) :
    s.owned message = s.held message ++ (s.pendingRelease ++ s.releaseQueue) := by
  simp only [owned, held, List.append_assoc]

theorem Holding.mem_held_iff (inv : Holding caps message [] s) (o : Nat) :
    o ∈ s.held message <-> s.refers o := by
  have messages : o ∈ s.roots.flatMap message <-> ∃ root ∈ s.roots, o ∈ (s.chain root).1 := by
    rw [List.mem_flatMap]
    constructor
    · rintro ⟨root, travelling, inside⟩
      exact ⟨root, travelling, (inv.chain_of_root travelling).symm ▸ inside⟩
    · rintro ⟨root, travelling, inside⟩
      exact ⟨root, travelling, inv.chain_of_root travelling ▸ inside⟩
  have readable : o ∈ unpinned s.ready \/ o ∈ s.pins <->
      o ∈ s.ready.map ReadChunk.offset \/ o ∈ s.leases := by
    constructor
    · rintro (chunk | pin)
      · rcases List.mem_map.mp chunk with ⟨found, inside, offsetEq⟩
        exact Or.inl (List.mem_map.mpr ⟨found, (List.mem_filter.mp inside).1, offsetEq⟩)
      · rcases Nat.eq_zero_or_pos (s.leases.count o) with none | some
        · have shared := (inv.pins_iff o).mp pin
          rw [shares, none, Nat.zero_add] at shared
          rcases List.countP_pos_iff.mp shared with ⟨found, inside, test⟩
          simp only [Bool.and_eq_true, beq_iff_eq] at test
          exact Or.inl (List.mem_map.mpr ⟨found, inside, test.2⟩)
        · exact Or.inr (List.count_pos_iff.mp some)
    · rintro (chunk | leased)
      · exact List.mem_append.mp (inv.ready_held chunk)
      · right
        rw [inv.pins_iff]
        exact Nat.add_pos_left (List.count_pos_iff.mpr leased) _
  simp only [held, refers, List.mem_append, messages, readable]

end Endpoints

/-- Linear ownership.  In every run in which recycling drops no block, each
call of the owner's free names an allocated block and every chain can be
followed; a block some party refers to is allocated and not on its way back; an
allocated block is referred to or on its way back; and it is on its way back at
most once. -/
theorem ownership_linear (caps : Capacities) {s : Endpoints}
    (reachable : (ownershipSystem caps).ReachableUnder Endpoints.KeepsPending s) :
    (s.misfreed = false /\ s.broken = false) /\
    (forall o, s.refers o -> o ∈ s.live /\ ¬ s.returning o) /\
    (forall o, o ∈ s.live -> s.refers o \/ s.returning o) /\
    (s.pendingRelease ++ s.releaseQueue).Nodup := by
  rcases Endpoints.holding_of_reachable reachable with ⟨message, inv⟩
  have perm : (s.held message ++ (s.pendingRelease ++ s.releaseQueue)).Perm s.live := by
    rw [<- Endpoints.owned_eq]
    exact inv.owned_perm
  have split := List.nodup_append.mp (perm.nodup_iff.mpr inv.nodup)
  refine ⟨⟨inv.misfreed_eq, inv.broken_eq⟩, ?_, ?_, split.2.1⟩
  · intro o referred
    have holder := (inv.mem_held_iff o).mpr referred
    refine ⟨perm.mem_iff.mp (List.mem_append_left _ holder), fun back => ?_⟩
    exact split.2.2 o holder o (List.mem_append.mpr back) rfl
  · intro o allocated
    rcases List.mem_append.mp (perm.mem_iff.mpr allocated) with holder | back
    · exact Or.inl ((inv.mem_held_iff o).mp holder)
    · exact Or.inr (List.mem_append.mp back)

/-- Two messages travel one after the other; the first is read through a lease
and freed, the second is still on the ring. -/
theorem ownership_linear_two_messages :
    Exists fun s => (ownershipSystem ⟨4, 4, 4, by decide⟩).ReachableUnder
      Endpoints.KeepsPending s /\ s.live = [65536] /\ s.ring = [65536] /\
      (s.misfreed = false /\ s.broken = false) := by
  have found : Exists fun s => (ownershipSystem ⟨4, 4, 4, by decide⟩).ReachableUnder
      Endpoints.KeepsPending s /\ (s.live = [65536] /\ s.ring = [65536]) :=
    System.exists_reachable_of_run Endpoints.new
      [.reserve 5 false (some 16384), .reserve 7 false (some 32768), .flush, .put 0,
        .pop, .batch true, .flushBatch, .drain, .readLease 5, .advance 7, .dropLease 16384,
        .pushRelease, .pushRelease, .drainRelease, .drainRelease,
        .reserve 3 false (some 65536), .flush, .put 0]
      rfl (by decide)
  rcases found with ⟨s, reachable, live, ring⟩
  exact ⟨s, reachable, live, ring, (ownership_linear _ reachable).1⟩

/-- A write lands while the flush of the first message waits for room.  The
recycling that follows the put drops the new block: it stays allocated, nothing
refers to it and it is not on its way back. -/
theorem recycle_leaks_block :
    Exists fun s => (ownershipSystem ⟨4, 4, 4, by decide⟩).Reachable s /\
      32768 ∈ s.live /\ ¬ s.refers 32768 /\ ¬ s.returning 32768 :=
  System.exists_reachable_of_run Endpoints.new
    [.reserve 5 false (some 16384), .flush, .reserve 7 false (some 32768), .put 0]
    rfl (by decide)

end V5
end Shmipc
