import Mathlib.Data.Int.ModEq
import Shmipc.Pool.System

namespace Shmipc
namespace Pool

open ByteMemory Transition
open Buffer (bufferHeaderSize bufferListHeaderSize)

/-!
# Two views of one pool

The creator and the mapper of a pool find the same size, head and tail of every
list, since both compute the same addresses.  They do not find the same counter.
`create` puts it behind the capacity of a buffer, `mapping` four bytes further
on.  Each process therefore counts for itself what it took from a list less what
it gave back, and the two agree only as far as these numbers do.

A message is taken by one process and given back by the other, so the counters
of both drift apart, and `check_buffer_returned` no longer sees that every buffer
is back.  It does as long as a buffer goes back through the view it was taken
through, and no two lists have buffers of the same size.
-/

/-- What a view reports about a list. -/
structure ListReport where
  size : Int
  head : Nat
  tail : Nat
  counter : Int
  deriving DecidableEq

def BufferList.report (l : BufferList) (mem : Memory) : ListReport where
  size := readSigned mem l.size 4
  head := readWord mem l.head 4
  tail := readWord mem l.tail 4
  counter := readSigned mem l.counter 4

/-- The view through which a buffer was taken last. -/
def takenThrough (log : List PoolEvent) (b : Nat) : Option BufferList :=
  log.reverse.findSome? fun
    | .took l c => if c = b then some l else none
    | .returned _ _ => none

/-- Single buffers are taken through either view, and given back through the view
they were taken through. -/
def returnedWhereTaken (views : Side -> BufferManager) (s : PoolState) : PoolAction -> Prop
  | .alloc _ _ => True
  | .recycle side slice =>
    ∃ l ∈ (views side).lists, takenThrough s.shm.log slice.offsetInShm = some l
  | .allocMany _ _ => False
  | .recycleMany _ _ => False
  | .update _ _ _ _ => True
  | .write _ _ _ => True

theorem takenThrough_took (log : List PoolEvent) (l : BufferList) (b c : Nat) :
    takenThrough (log ++ [.took l c]) b = if c = b then some l else takenThrough log b := by
  simp only [takenThrough, List.reverse_append, List.reverse_singleton, List.singleton_append,
    List.findSome?_cons]
  by_cases same : c = b <;> simp only [same, if_true, if_false]

theorem takenThrough_returned (log : List PoolEvent) (l : BufferList) (b c : Nat) :
    takenThrough (log ++ [.returned l c]) b = takenThrough log b := by
  simp only [takenThrough, List.reverse_append, List.reverse_singleton, List.singleton_append,
    List.findSome?_cons]

theorem mem_of_takenThrough {log : List PoolEvent} {b : Nat} {l : BufferList}
    (taken : takenThrough log b = some l) : PoolEvent.took l b ∈ log := by
  rcases List.exists_of_findSome?_eq_some taken with ⟨event, member, found⟩
  cases event with
  | took list c =>
    rw [Option.ite_none_right_eq_some, Option.some.injEq] at found
    rcases found with ⟨rfl, rfl⟩
    exact List.mem_reverse.mp member
  | returned list c => cases found

/-! ## What both views see -/

namespace Represents

variable {layout : PoolLayout} {shm : Shm} {ledger : Ledger} {g : ListLayout}

/-- Both views find the size, the head and the tail that the ledger has; a view
finds in its counter what was taken through it, up to the range of the counter. -/
theorem report_eq (rep : Represents layout shm ledger) (inside : g ∈ layout.lists)
    (side : Side) :
    (g.view side).report shm.mem =
      { size := (ledger.listHeader shm.log g).size, head := (ledger.listHeader shm.log g).head,
        tail := (ledger.listHeader shm.log g).tail,
        counter := (netTakes shm.log (g.view side)).bmod (2 ^ 32) } := by
  have counter : (ListHeader.read shm.mem g.offset).counter side =
      (netTakes shm.log (g.view side)).bmod (2 ^ 32) :=
    congrFun (congrArg ListHeader.counter (rep.header g inside)) side
  rw [<- rep.header g inside, <- counter]
  dsimp only [BufferList.report, ListLayout.view, ListHeader.read, ListHeader.counters]

/-- The check passes on a view if every list has all of its buffers and the view
gave back to it as many as it took from it. -/
theorem checkBufferReturned_eq (rep : Represents layout shm ledger) (side : Side)
    (full : ∀ g ∈ layout.lists, (ledger.chain g.offset).length = g.count)
    (settled : ∀ g ∈ layout.lists, netTakes shm.log (g.view side) = 0) :
    (layout.view side).checkBufferReturned shm.mem = true := by
  rw [BufferManager.checkBufferReturned, List.all_eq_true]
  intro l member
  rcases List.mem_map.mp member with ⟨g, inside, rfl⟩
  have size : readSigned shm.mem (g.view side).size 4 = g.count := by
    rw [<- full g inside]
    exact rep.size_eq inside
  have capWord : readWord shm.mem (g.view side).cap 4 = g.count :=
    congrArg ListHeader.cap (rep.header g inside)
  have cap : readSigned shm.mem (g.view side).cap 4 = g.count := by
    have small := rep.sound.length_chain_lt inside
    rw [full g inside] at small
    rw [readSigned, capWord]
    exact if_pos (by omega)
  have counter : readSigned shm.mem (g.view side).counter 4 = 0 := by
    have report := congrArg ListReport.counter (rep.report_eq inside side)
    rw [settled g inside, Int.zero_bmod] at report
    dsimp only [BufferList.report] at report
    exact report
  rw [size, cap, counter, beq_self_eq_true, beq_self_eq_true, Bool.and_true]

end Represents

/-! ## Buffers that go back where they came from -/

/-- A view has taken from a list, on balance, the buffers that are out and were
taken through it last. -/
def Counted (layout : PoolLayout) (log : List PoolEvent) (held : List Nat) : Prop :=
  ∀ g ∈ layout.lists, forall side, netTakes log (g.view side) =
    (held.countP fun b => takenThrough log b = some (g.view side) : Nat)

namespace Counted

variable {layout : PoolLayout} {log : List PoolEvent} {held : List Nat} {g : ListLayout}
  {side : Side} {b : Nat}

theorem took (counted : Counted layout log held) (fresh : b ∉ held) :
    Counted layout (log ++ [.took (g.view side) b]) (b :: held) := by
  intro g' inside' side'
  have others : held.countP (fun c =>
      takenThrough (log ++ [.took (g.view side) b]) c = some (g'.view side')) =
      held.countP fun c => takenThrough log c = some (g'.view side') := by
    refine List.countP_congr fun c member => ?_
    have different : ¬ b = c := by
      rintro rfl
      exact fresh member
    rw [takenThrough_took, if_neg different]
  rw [List.countP_cons, others, takenThrough_took, if_pos rfl, netTakes_snoc, PoolEvent.effect,
    counted g' inside' side']
  by_cases same : g.view side = g'.view side'
  · simp [same]
  · simp [same]

theorem returned (counted : Counted layout log held) (out : b ∈ held)
    (taken : takenThrough log b = some (g.view side)) :
    Counted layout (log ++ [.returned (g.view side) b]) (held.erase b) := by
  intro g' inside' side'
  have split := (List.perm_cons_erase out).countP_eq fun c =>
    decide (takenThrough log c = some (g'.view side'))
  rw [List.countP_cons, taken] at split
  simp only [takenThrough_returned, netTakes_snoc, PoolEvent.effect, counted g' inside' side', split]
  by_cases same : g.view side = g'.view side'
  · simp [same]
  · simp [same]

end Counted

section Distinct

variable {layout : PoolLayout} {s t : PoolState} {ledger : Ledger} {action : PoolAction}

/-- Where every capacity has one list, a buffer goes back to the list it came
from; so if it goes back through the view that took it, that view is settled. -/
theorem counted_step (distinct : (layout.lists.map ListLayout.cap).Nodup)
    (inv : PoolInv layout s ledger) (counted : Counted layout s.shm.log ledger.held)
    (allowed : returnedWhereTaken layout.view s action)
    (moved : s.step layout.view action = some t) :
    Exists fun ledger' => PoolInv layout t ledger' /\ Counted layout t.shm.log ledger'.held := by
  cases action with
  | alloc side size =>
    rcases inv.alloc id moved with rfl | ⟨g, _, b, log, after⟩
    · exact ⟨ledger, inv, counted⟩
    · have fresh : b ∉ ledger.held := (List.nodup_cons.mp after.rep.sound.nodup_held).1
      refine ⟨_, after, ?_⟩
      rw [log]
      exact counted.took fresh
  | recycle side slice =>
    rcases inv.recycle id moved with ⟨member, g, inside, log, after⟩
    rcases allowed with ⟨l, listed, taken⟩
    rcases List.mem_map.mp listed with ⟨home, inside', rfl⟩
    have entry : PoolEvent.returned (g.view side) slice.offsetInShm ∈ t.shm.log := by
      rw [log]
      exact List.mem_append_right _ (List.mem_singleton_self _)
    have own : slice.offsetInShm ∈ g.buffers :=
      after.rep.home_of_logged distinct inside (Or.inr rfl) entry
    have own' : slice.offsetInShm ∈ home.buffers :=
      inv.rep.home_of_logged distinct inside' (Or.inl rfl) (mem_of_takenThrough taken)
    rw [PoolLayout.home_unique inside' own' inside own] at taken
    refine ⟨_, after, ?_⟩
    rw [log]
    exact counted.returned (inv.out member) taken
  | allocMany side size | recycleMany side slice => exact absurd allowed id
  | update slice size start next =>
    rcases inv.update id moved with ⟨log, after⟩
    exact ⟨ledger, after, by rw [log]; exact counted⟩
  | write slice index value =>
    rcases inv.write id moved with ⟨log, after⟩
    exact ⟨ledger, after, by rw [log]; exact counted⟩

theorem checkBufferReturned_of_returned (distinct : (layout.lists.map ListLayout.cap).Nodup)
    {mem : Memory} {initial : Ledger} (rep : Represents layout ⟨mem, []⟩ initial)
    (none : initial.held = [])
    (reached : (poolSystem layout.view mem).ReachableUnder (returnedWhereTaken layout.view) s)
    (returned : s.held = []) (side : Side) :
    (layout.view side).checkBufferReturned s.shm.mem = true := by
  have invariant : Exists fun ledger =>
      PoolInv layout s ledger /\ Counted layout s.shm.log ledger.held := by
    refine reached.invariant (P := fun s => Exists fun ledger =>
      PoolInv layout s ledger /\ Counted layout s.shm.log ledger.held) ?_ ?_
    · rintro s rfl
      refine ⟨initial, ⟨rep, by rw [none]; exact List.Perm.refl _,
        fun _ empty => absurd empty List.not_mem_nil⟩, ?_⟩
      intro g _ side
      rw [none]
      rfl
    · rintro s action t _ allowed moved ⟨ledger, inv, counted⟩
      exact counted_step distinct inv counted allowed moved
  rcases invariant with ⟨ledger, inv, counted⟩
  have empty := inv.held_eq_nil returned
  refine inv.rep.checkBufferReturned_eq side ?_ ?_
  · exact fun g inside => inv.rep.sound.length_chain_eq distinct empty inside
  · intro g inside
    rw [counted g inside side, empty]
    rfl

end Distinct

/-! ## The two views of a created pool -/

/-- The manager that laid the pool out and the one that mapped it. -/
def viewsOf (bm peer : BufferManager) : Side -> BufferManager
  | .creator => bm
  | .mapper => peer

theorem viewsOf_layout (layout : PoolLayout) :
    viewsOf (layout.view .creator) (layout.view .mapper) = layout.view := by
  funext side
  cases side <;> rfl

theorem inUse_of_created {pairs : List SizePercentPair} {memLen offset : Nat}
    {bm : BufferManager} {mem : Memory} (short : memLen + bufferListHeaderSize < 2 ^ 32)
    (sizes : ∀ pair ∈ pairs, pair.size + bufferHeaderSize < 2 ^ 32)
    (few : pairs.length < 2 ^ 16)
    (created : BufferManager.create pairs memLen offset (fun _ => 0) = .ok (bm, mem)) :
    Exists fun layout : PoolLayout => bm = layout.view .creator /\
      BufferManager.mapping memLen offset mem = .ok (layout.view .mapper) /\
      PoolInv layout ⟨⟨mem, []⟩, []⟩ layout.initialLedger := by
  rcases BufferManager.create_spec short sizes created with ⟨layout, rfl, rfl, view, caps, rep⟩
  have count : layout.lists.length = pairs.length := by
    simpa using congrArg List.length caps
  exact ⟨layout, view, rep.described.mapping_eq (by omega), rep, List.Perm.refl _,
    fun _ none => absurd none List.not_mem_nil⟩

theorem bmod_eq_bmod_iff (first second : Int) :
    first.bmod (2 ^ 32) = second.bmod (2 ^ 32) <-> first ≡ second [ZMOD 2 ^ 32] := by
  constructor
  · intro same
    have rest := congrArg (fun x : Int => x % (2 ^ 32 : Nat)) same
    simp only [Int.bmod_emod] at rest
    exact rest
  · intro same
    have rest : first % (2 ^ 32 : Nat) = second % (2 ^ 32 : Nat) := same
    rw [Int.bmod_def, Int.bmod_def, rest]

/-- The creator's view of a list and the mapper's always report the same size, head and
tail.  Their counters of outstanding buffers agree exactly when both have taken as many
buffers more than they gave back; if every buffer is back where it was taken, neither
finds one missing. -/
theorem views_account_alike {pairs : List SizePercentPair} {memLen offset : Nat}
    {bm : BufferManager} {mem : Memory} (short : memLen + bufferListHeaderSize < 2 ^ 32)
    (sizes : ∀ pair ∈ pairs, pair.size + bufferHeaderSize < 2 ^ 32)
    (few : pairs.length < 2 ^ 16)
    (created : BufferManager.create pairs memLen offset (fun _ => 0) = .ok (bm, mem)) :
    Exists fun peer => BufferManager.mapping memLen offset mem = .ok peer /\
      peer.lists.length = bm.lists.length /\
      (forall s, (poolSystem (viewsOf bm peer) mem).Reachable s ->
        ∀ pair ∈ bm.lists.zip peer.lists,
          (pair.1.report s.shm.mem).size = (pair.2.report s.shm.mem).size /\
          (pair.1.report s.shm.mem).head = (pair.2.report s.shm.mem).head /\
          (pair.1.report s.shm.mem).tail = (pair.2.report s.shm.mem).tail /\
          ((pair.1.report s.shm.mem).counter = (pair.2.report s.shm.mem).counter <->
            netTakes s.shm.log pair.1 ≡ netTakes s.shm.log pair.2 [ZMOD 2 ^ 32])) /\
      ((pairs.map SizePercentPair.size).Nodup ->
        forall s, (poolSystem (viewsOf bm peer) mem).ReachableUnder
            (returnedWhereTaken (viewsOf bm peer)) s -> s.held = [] ->
          bm.checkBufferReturned s.shm.mem = true /\
          peer.checkBufferReturned s.shm.mem = true) := by
  rcases BufferManager.create_spec short sizes created with ⟨layout, rfl, rfl, rfl, caps, rep⟩
  have count : layout.lists.length = pairs.length := by
    simpa using congrArg List.length caps
  refine ⟨layout.view .mapper, rep.described.mapping_eq (by omega), ?_, ?_, ?_⟩
  · simp only [PoolLayout.view, List.length_map]
  · intro s reached pair member
    rw [viewsOf_layout] at reached
    rcases PoolInv.reachable id rep rfl reached with ⟨ledger, inv⟩
    simp only [PoolLayout.view] at member
    rw [List.zip_map'] at member
    rcases List.mem_map.mp member with ⟨g, inside, rfl⟩
    simp only [inv.rep.report_eq inside, true_and]
    exact bmod_eq_bmod_iff _ _
  · intro distinct s reached returned
    rw [viewsOf_layout] at reached
    rw [<- caps] at distinct
    have passes := checkBufferReturned_of_returned distinct rep rfl reached returned
    exact ⟨passes .creator, passes .mapper⟩

theorem views_account_alike_one_list :
    Exists fun bm => Exists fun mem =>
      BufferManager.create [⟨16, 100⟩] 200 0 (fun _ => 0) = .ok (bm, mem) /\
      Exists fun peer => BufferManager.mapping 200 0 mem = .ok peer /\
        forall s, (poolSystem (viewsOf bm peer) mem).ReachableUnder
            (returnedWhereTaken (viewsOf bm peer)) s -> s.held = [] ->
          bm.checkBufferReturned s.shm.mem = true /\
          peer.checkBufferReturned s.shm.mem = true := by
  have laidOut : (BufferManager.create [⟨16, 100⟩] 200 0 (fun _ => 0)).isOk = true := by
    decide +kernel
  rcases Transition.exists_ok_of_isOk laidOut with ⟨pool, created⟩
  rcases views_account_alike (by decide) (by decide) (by decide) created with
    ⟨peer, mapped, _, _, passes⟩
  exact ⟨pool.1, pool.2, created, peer, mapped, passes (by decide)⟩

/-- A buffer that the creator takes and the mapper gives back, as the buffers of a
message are: every buffer is back, but each counter is off by one. -/
theorem counters_drift_apart :
    Exists fun bm => Exists fun mem => Exists fun peer =>
      BufferManager.create [⟨16, 100⟩] 200 0 (fun _ => 0) = .ok (bm, mem) /\
      BufferManager.mapping 200 0 mem = .ok peer /\
      (Exists fun s => (poolSystem (viewsOf bm peer) mem).Reachable s /\ s.held = [] /\
        bm.lists.map (fun l => (l.report s.shm.mem).counter) = [1] /\
        peer.lists.map (fun l => (l.report s.shm.mem).counter) = [-1] /\
        bm.checkBufferReturned s.shm.mem = false /\
        peer.checkBufferReturned s.shm.mem = false) := by
  have test : (BufferManager.create [⟨16, 100⟩] 200 0 (fun _ => 0)).toOption.any (fun pool =>
      (BufferManager.mapping 200 0 pool.2).toOption.any fun peer =>
        ((poolSystem (viewsOf pool.1 peer) pool.2).run (fun _ _ => True) ⟨⟨pool.2, []⟩, []⟩
          [.alloc .creator 1, .recycle .mapper (freshSlice 44 16)]).any fun s => decide
            (s.held = [] /\ pool.1.lists.map (fun l => (l.report s.shm.mem).counter) = [1] /\
              peer.lists.map (fun l => (l.report s.shm.mem).counter) = [-1] /\
              pool.1.checkBufferReturned s.shm.mem = false /\
              peer.checkBufferReturned s.shm.mem = false)) = true := by
    decide +kernel
  rcases Transition.exists_ok_of_any test with ⟨pool, created, test⟩
  rcases Transition.exists_ok_of_any test with ⟨peer, mapped, test⟩
  rcases System.exists_reachable_of_run (M := poolSystem (viewsOf pool.1 peer) pool.2)
      ⟨⟨pool.2, []⟩, []⟩ _ rfl test with ⟨s, reached, drifted⟩
  exact ⟨pool.1, pool.2, peer, created, mapped, s, reached, drifted⟩

end Pool
end Shmipc
