import Shmipc.Config
import Shmipc.Pool.System

namespace Shmipc
namespace Pool

open ByteMemory Transition
open Buffer (bufferHeaderSize bufferListHeaderSize)

/-!
# No buffer of a pool is lost

Whatever is taken from a pool and given back to it, the slices that are out lie
in the regions of the lists and do not overlap.  A buffer is given back by its
capacity alone.  That finds the list it came from if every size of the
configuration occurs once; then each list is as good as new when everything is
back.  With two lists of the same size all buffers go back to the first of them,
and the second runs dry for good.
-/

/-- The slice, with its header, lies in the buffer region of the list. -/
def BufferList.Holds (l : BufferList) (slice : BufferSlice) : Prop :=
  l.bufferRegionOffsetInShm <= slice.offsetInShm /\
    slice.offsetInShm + bufferHeaderSize + slice.cap <=
      l.bufferRegionOffsetInShm + l.bufferRegionLen

/-- How many buffers a list hands out in a row, in at most so many rounds. -/
def BufferList.drain (l : BufferList) : Nat -> Shm -> Nat
  | 0, _ => 0
  | rounds + 1, shm =>
    match l.pop shm with
    | (some _, shm) => drain l rounds shm + 1
    | (none, _) => 0

/-- The two slices, with their headers, have no byte in common. -/
def BufferSlice.Apart (slice slice' : BufferSlice) : Prop :=
  slice.offsetInShm + bufferHeaderSize + slice.cap <= slice'.offsetInShm \/
    slice'.offsetInShm + bufferHeaderSize + slice'.cap <= slice.offsetInShm

namespace Represents

variable {layout : PoolLayout} {shm : Shm} {ledger : Ledger} {g : ListLayout}

theorem drain_eq (rep : Represents layout shm ledger) (inside : g ∈ layout.lists) (side : Side)
    (own : ledger.chain g.offset ⊆ g.buffers) (rounds : Nat) :
    (g.view side).drain rounds shm = min rounds ((ledger.chain g.offset).length - 1) := by
  induction rounds generalizing shm ledger with
  | zero => rw [BufferList.drain, Nat.zero_min]
  | succ rounds ih =>
    rw [BufferList.drain]
    rcases rep.pop_cases inside side with ⟨refused, result⟩ | ⟨ready, b, shm', result, _, _, moved⟩
    · rw [result]
      cases queue : ledger.chain g.offset with
      | nil => exact absurd queue (rep.sound.nonempty g inside)
      | cons b rest =>
        cases rest with
        | nil => rfl
        | cons next rest =>
          refine absurd ⟨b, next, rest, queue, own ?_⟩ refused
          rw [queue]
          exact List.mem_cons_self
    · rcases ready with ⟨first, next, rest, queue, _⟩
      have tail : (ledger.take g b).chain g.offset = next :: rest := by
        simp only [Ledger.take, Function.update_self, queue, List.tail_cons]
      have later : (ledger.take g b).chain g.offset ⊆ g.buffers := by
        rw [tail]
        rw [queue] at own
        exact (List.cons_subset.mp own).2
      rw [result]
      simp only [ih moved.rep later, tail, queue, List.length_cons]
      omega

/-- Where no two lists share a capacity, a buffer goes back to the list it was
taken from. -/
theorem same_list (rep : Represents layout shm ledger)
    (distinct : (layout.lists.map ListLayout.cap).Nodup) {b : Nat} {l l' : BufferList}
    (took : PoolEvent.took l b ∈ shm.log) (returned : PoolEvent.returned l' b ∈ shm.log) :
    l'.offsetInShm = l.offsetInShm := by
  rcases rep.logged _ took with ⟨g, inside, side, _, entry, _⟩
  rcases rep.logged _ returned with ⟨g', inside', side', _, entry', _⟩
  have view : l = g.view side := by
    rcases entry with equal | equal <;> injection equal
  have view' : l' = g'.view side' := by
    rcases entry' with equal | equal <;> injection equal
  subst view view'
  have own := rep.home_of_logged distinct inside (Or.inl rfl) took
  have own' := rep.home_of_logged distinct inside' (Or.inr rfl) returned
  rw [PoolLayout.home_unique inside own inside' own']
  rfl

end Represents

namespace PoolInv

variable {layout : PoolLayout} {s : PoolState} {ledger : Ledger} {slice slice' : BufferSlice}
  {side : Side}

theorem holds_unique (inv : PoolInv layout s ledger) (out : slice ∈ s.held) :
    ∃ l ∈ (layout.view side).lists, l.Holds slice /\
      ∀ l' ∈ (layout.view side).lists, l'.Holds slice -> l' = l := by
  rcases inv.handles slice out with ⟨g, inside, buffer, cap, _⟩
  have bounds := ListLayout.bounds_of_mem buffer
  refine ⟨g.view side, List.mem_map_of_mem inside, ?_, ?_⟩
  · simp only [BufferList.Holds, ListLayout.view, cap, ListLayout.stride, ListLayout.stop] at *
    omega
  · intro l' member holds
    rcases List.mem_map.mp member with ⟨g', inside', rfl⟩
    by_contra different
    have apart := PoolLayout.lists_apart inside' inside (fun same => different (by rw [same]))
    simp only [BufferList.Holds, ListLayout.view, ListLayout.stop, ListLayout.region,
      bufferHeaderSize, bufferListHeaderSize] at *
    omega

theorem pairwise_apart (inv : PoolInv layout s ledger) :
    s.held.Pairwise BufferSlice.Apart := by
  have distinct := List.pairwise_map.mp inv.nodup
  refine distinct.imp_of_mem fun {slice slice'} out out' different => ?_
  rcases inv.handles slice out with ⟨g, inside, buffer, cap, _⟩
  rcases inv.handles slice' out' with ⟨g', inside', buffer', cap', _⟩
  have apart := PoolLayout.buffers_apart inside buffer inside' buffer' different
  simp only [BufferSlice.Apart, cap, cap', ListLayout.stride] at *
  omega

end PoolInv

/-- Sizes that are distinct keep the lists apart: every buffer in use is of one list and
overlaps no other, it goes back to the list it came from, and once all are back each
list has its size and can be drained as at the start. -/
theorem pool_conserved {config accepted : Config} {pairs : List SizePercentPair} {offset : Nat}
    {bm : BufferManager} {mem : Memory} (verified : config.verify = .ok accepted)
    (order : pairs.Perm accepted.bufferSliceSizes)
    (created : BufferManager.create pairs accepted.shareMemoryBufferCap offset (fun _ => 0) =
      .ok (bm, mem))
    (short : accepted.shareMemoryBufferCap + bufferListHeaderSize < 2 ^ 32)
    (distinct : (accepted.bufferSliceSizes.map SizePercentPair.size).Nodup) :
    forall s, (poolSystem (fun _ => bm) mem).Reachable s ->
      (∀ slice ∈ s.held, ∃ l ∈ bm.lists, l.Holds slice /\
        ∀ l' ∈ bm.lists, l'.Holds slice -> l' = l) /\
      s.held.Pairwise BufferSlice.Apart /\
      (forall b l l', PoolEvent.took l b ∈ s.shm.log -> PoolEvent.returned l' b ∈ s.shm.log ->
        l'.offsetInShm = l.offsetInShm) /\
      (s.held = [] -> ∀ l ∈ bm.lists,
        readSigned s.shm.mem l.size 4 = readSigned mem l.size 4 /\
        forall rounds, l.drain rounds s.shm = l.drain rounds ⟨mem, []⟩) := by
  have sizes : ∀ pair ∈ pairs, pair.size + bufferHeaderSize < 2 ^ 32 := by
    intro pair member
    have bound := (Config.verify_sizes verified pair (order.mem_iff.mp member)).1
    simp only [bufferHeaderSize, bufferListHeaderSize] at *
    omega
  rcases BufferManager.create_spec short sizes created with ⟨layout, rfl, memLen, rfl, caps, rep⟩
  have distinctCaps : (layout.lists.map ListLayout.cap).Nodup := by
    rw [caps]
    exact (order.map _).nodup_iff.mpr distinct
  intro s reached
  rcases PoolInv.reachable (fun _ => .creator) rep rfl reached with ⟨ledger, inv⟩
  refine ⟨fun slice out => inv.holds_unique out, inv.pairwise_apart, ?_, ?_⟩
  · intro b l l' took returned
    exact inv.rep.same_list distinctCaps took returned
  · intro returned l member
    rcases List.mem_map.mp member with ⟨g, inside, rfl⟩
    have now := inv.rep.sound.chain_perm distinctCaps (inv.held_eq_nil returned) inside
    have first := PoolLayout.chain_initialLedger inside
    have sameLength := now.length_eq
    rw [<- first] at sameLength
    constructor
    · have size := inv.rep.size_eq inside
      rw [sameLength, <- rep.size_eq inside] at size
      exact size
    · intro rounds
      rw [inv.rep.drain_eq inside .creator now.subset, rep.drain_eq inside .creator
        (List.Perm.of_eq first).subset, sameLength]

theorem pool_conserved_two_sizes :
    Exists fun accepted => Exists fun bm => Exists fun mem =>
      { Config.default with
        shareMemoryBufferCap := 2 ^ 20
        bufferSliceSizes := [⟨262097, 50⟩, ⟨524225, 50⟩] }.verify = .ok accepted /\
      BufferManager.create [⟨262100, 50⟩, ⟨524228, 50⟩] (2 ^ 20) 0 (fun _ => 0) = .ok (bm, mem) /\
      forall s, (poolSystem (fun _ => bm) mem).Reachable s -> s.held = [] -> ∀ l ∈ bm.lists,
        readSigned s.shm.mem l.size 4 = readSigned mem l.size 4 := by
  have laidOut : (BufferManager.create [⟨262100, 50⟩, ⟨524228, 50⟩] (2 ^ 20) 0
      (fun _ => 0)).isOk = true := by
    decide +kernel
  rcases Transition.exists_ok_of_isOk laidOut with ⟨pool, created⟩
  refine ⟨_, pool.1, pool.2, Config.verify_two_sizes, created, fun s reached returned l member => ?_⟩
  have conserved := pool_conserved Config.verify_two_sizes (List.Perm.refl _) created (by decide)
    (by decide) s reached
  exact (conserved.2.2.2 returned l member).1

/-- Two equal sizes pass the check.  One buffer of each list is taken; both go back
to the first list, and the second can hand out none. -/
theorem second_list_runs_dry :
    Exists fun accepted => Exists fun bm => Exists fun mem =>
      { Config.default with
        shareMemoryBufferCap := 2 ^ 20
        bufferSliceSizes := [⟨262100, 50⟩, ⟨262100, 50⟩] }.verify = .ok accepted /\
      BufferManager.create accepted.bufferSliceSizes accepted.shareMemoryBufferCap 0 (fun _ => 0) =
        .ok (bm, mem) /\
      (Exists fun s => (poolSystem (fun _ => bm) mem).Reachable s /\ s.held = [] /\
        bm.lists.map (fun l => readSigned mem l.size 4) = [2, 2] /\
        bm.lists.map (fun l => readSigned s.shm.mem l.size 4) = [3, 1] /\
        bm.lists.map (fun l => l.drain 4 ⟨mem, []⟩) = [1, 1] /\
        bm.lists.map (fun l => l.drain 4 s.shm) = [2, 0]) := by
  have test : (BufferManager.create [⟨262100, 50⟩, ⟨262100, 50⟩] (2 ^ 20) 0
      (fun _ => 0)).toOption.any (fun pool =>
        ((poolSystem (fun _ => pool.1) pool.2).run (fun _ _ => True) ⟨⟨pool.2, []⟩, []⟩
          [.alloc .creator 1, .alloc .creator 1, .recycle .creator (freshSlice 44 262100),
            .recycle .creator (freshSlice 524320 262100)]).any fun s => decide
              (s.held = [] /\
                pool.1.lists.map (fun l => readSigned pool.2 l.size 4) = [2, 2] /\
                pool.1.lists.map (fun l => readSigned s.shm.mem l.size 4) = [3, 1] /\
                pool.1.lists.map (fun l => l.drain 4 ⟨pool.2, []⟩) = [1, 1] /\
                pool.1.lists.map (fun l => l.drain 4 s.shm) = [2, 0])) = true := by
    decide +kernel
  rcases Transition.exists_ok_of_any test with ⟨pool, created, test⟩
  rcases System.exists_reachable_of_run (M := poolSystem (fun _ => pool.1) pool.2)
      ⟨⟨pool.2, []⟩, []⟩ _ rfl test with ⟨s, reached, dry⟩
  refine ⟨{ Config.default with
    shareMemoryBufferCap := 2 ^ 20
    bufferSliceSizes := [⟨262100, 50⟩, ⟨262100, 50⟩] }, pool.1, pool.2, ?_, created, s, reached,
    dry⟩
  decide +kernel

end Pool
end Shmipc
