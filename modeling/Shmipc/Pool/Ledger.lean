import Mathlib.Data.List.Perm.Lattice
import Shmipc.Pool.Layout

namespace Shmipc
namespace Pool

/-!
# What a pool is for

Seen from above, a pool is a queue of free buffers for every list, together with
the buffers that are out.  Taking a buffer moves the first of a queue to the
buffers that are out; giving one back moves it to the end of a queue.  No buffer
is ever lost or doubled: the queues and the buffers that are out make up all the
buffers of the layout.

A buffer goes back by its capacity only.  So a queue may come to hold buffers of
other lists, but only of lists further back with the same capacity.
-/

/-- The free buffers of every list, first to last, by the offset of the list, and
the buffers that are out. -/
structure Ledger where
  chain : Nat -> List Nat
  held : List Nat

namespace Ledger

def take (ledger : Ledger) (g : ListLayout) (b : Nat) : Ledger where
  chain := Function.update ledger.chain g.offset (ledger.chain g.offset).tail
  held := b :: ledger.held

def give (ledger : Ledger) (g : ListLayout) (b : Nat) : Ledger where
  chain := Function.update ledger.chain g.offset (ledger.chain g.offset ++ [b])
  held := ledger.held.erase b

/-- The free buffers of all lists. -/
def free (ledger : Ledger) (layout : PoolLayout) : List Nat :=
  layout.lists.flatMap fun g => ledger.chain g.offset

/-- The buffer may stand in the queue of the list. -/
def Fits (layout : PoolLayout) (g : ListLayout) (b : Nat) : Prop :=
  ∃ home ∈ layout.lists, b ∈ home.buffers /\ home.cap = g.cap /\ g.offset <= home.offset

structure Sound (layout : PoolLayout) (ledger : Ledger) : Prop where
  perm : (ledger.free layout ++ ledger.held).Perm layout.buffers
  nonempty : ∀ g ∈ layout.lists, ledger.chain g.offset ≠ []
  fits : ∀ g ∈ layout.lists, ∀ b ∈ ledger.chain g.offset, Fits layout g b

variable {layout : PoolLayout} {ledger : Ledger} {g g' : ListLayout} {b : Nat}

theorem chain_take_of_ne (different : g'.offset ≠ g.offset) :
    (ledger.take g b).chain g'.offset = ledger.chain g'.offset :=
  Function.update_of_ne different _ _

theorem chain_take_self {rest : List Nat} (queue : ledger.chain g.offset = b :: rest) :
    (ledger.take g b).chain g.offset = rest := by
  simp only [take, Function.update_self, queue, List.tail_cons]

theorem chain_give_of_ne (different : g'.offset ≠ g.offset) :
    (ledger.give g b).chain g'.offset = ledger.chain g'.offset :=
  Function.update_of_ne different _ _

theorem chain_give_self (ledger : Ledger) (g : ListLayout) (b : Nat) :
    (ledger.give g b).chain g.offset = ledger.chain g.offset ++ [b] :=
  Function.update_self _ _ _

theorem free_update (ledger : Ledger) (inside : g ∈ layout.lists) (queue : List Nat) (held : List Nat) :
    (free ⟨Function.update ledger.chain g.offset queue, held⟩ layout).Perm
      (queue ++ (layout.lists.erase g).flatMap fun g => ledger.chain g.offset) := by
  have nodup : layout.lists.Nodup := by
    refine layout.follow.pairwise.imp fun {first second} before same => ?_
    subst same
    simp only [ListLayout.stop, ListLayout.region, Buffer.bufferListHeaderSize] at before
    omega
  refine ((List.perm_cons_erase inside).flatMap_right _).trans ?_
  simp only [List.flatMap_cons, Function.update_self]
  refine List.Perm.append_left queue (List.Perm.of_eq ?_)
  refine List.flatMap_congr fun other later => Function.update_of_ne ?_ _ _
  intro same
  have equal := PoolLayout.eq_of_offset (List.mem_of_mem_erase later) inside same
  exact (nodup.mem_erase_iff.mp later).1 equal

theorem free_perm (ledger : Ledger) (inside : g ∈ layout.lists) :
    (ledger.free layout).Perm (ledger.chain g.offset ++
      (layout.lists.erase g).flatMap fun g => ledger.chain g.offset) := by
  have split := free_update ledger inside (ledger.chain g.offset) ledger.held
  rwa [Function.update_eq_self] at split

theorem free_take {rest : List Nat} (inside : g ∈ layout.lists)
    (queue : ledger.chain g.offset = b :: rest) :
    (ledger.free layout).Perm (b :: (ledger.take g b).free layout) := by
  have before := free_perm ledger inside
  have after := free_update ledger inside rest (b :: ledger.held)
  rw [queue] at before
  rw [take, queue, List.tail_cons]
  exact before.trans (after.symm.cons b)

theorem free_give (ledger : Ledger) (inside : g ∈ layout.lists) (b : Nat) :
    ((ledger.give g b).free layout).Perm (b :: ledger.free layout) := by
  have before := free_perm ledger inside
  have after := free_update ledger inside (ledger.chain g.offset ++ [b])
    (ledger.held.erase b)
  refine after.trans ?_
  rw [List.append_assoc]
  exact List.perm_middle.trans (before.symm.cons b)

namespace Sound

theorem nodup (sound : Sound layout ledger) : (ledger.free layout ++ ledger.held).Nodup :=
  sound.perm.nodup_iff.mpr layout.nodup_buffers

theorem mem_free (inside : g ∈ layout.lists) (queued : b ∈ ledger.chain g.offset) :
    b ∈ ledger.free layout :=
  List.mem_flatMap.mpr ⟨g, inside, queued⟩

theorem not_held (sound : Sound layout ledger) (inside : g ∈ layout.lists)
    (queued : b ∈ ledger.chain g.offset) : b ∉ ledger.held :=
  fun out => (List.nodup_append.mp sound.nodup).2.2 b (mem_free inside queued) b out rfl

theorem nodup_held (sound : Sound layout ledger) : ledger.held.Nodup :=
  (List.nodup_append.mp sound.nodup).2.1

theorem nodup_chain (sound : Sound layout ledger) (inside : g ∈ layout.lists) :
    (ledger.chain g.offset).Nodup := by
  have all := (List.nodup_append.mp sound.nodup).1
  exact (List.nodup_flatMap.mp all).1 g inside

theorem home (sound : Sound layout ledger) (out : b ∈ ledger.held) :
    ∃ g ∈ layout.lists, b ∈ g.buffers :=
  PoolLayout.mem_buffers.mp (sound.perm.mem_iff.mp (List.mem_append_right _ out))

theorem mem_buffers (inside : Fits layout g b) : b ∈ layout.buffers := by
  rcases inside with ⟨home, listed, buffer, _⟩
  exact PoolLayout.mem_buffers.mpr ⟨home, listed, buffer⟩

theorem chains_disjoint (sound : Sound layout ledger) (inside : g ∈ layout.lists)
    (inside' : g' ∈ layout.lists) (different : g' ≠ g) (queued : b ∈ ledger.chain g.offset) :
    b ∉ ledger.chain g'.offset := by
  intro queued'
  have all := (free_perm ledger inside).nodup_iff.mp (List.nodup_append.mp sound.nodup).1
  refine (List.nodup_append.mp all).2.2 b queued b ?_ rfl
  exact List.mem_flatMap.mpr ⟨g', (List.mem_erase_of_ne different).mpr inside', queued'⟩

theorem length_chain_lt (sound : Sound layout ledger) (inside : g ∈ layout.lists) :
    (ledger.chain g.offset).length < 2 ^ 31 := by
  have total := sound.perm.length_eq
  have part := (free_perm ledger inside).length_eq
  have bound := layout.length_buffers_lt
  rw [List.length_append] at total part
  omega

/-! Where no two lists share a capacity, every buffer stays with its list. -/

section Distinct

variable (distinct : (layout.lists.map ListLayout.cap).Nodup)

include distinct

theorem home_of_fits (inside : g ∈ layout.lists) (fits : Fits layout g b) : b ∈ g.buffers := by
  rcases fits with ⟨home, listed, buffer, cap, _⟩
  rw [<- List.inj_on_of_nodup_map distinct listed inside cap]
  exact buffer

theorem chain_perm (sound : Sound layout ledger) (returned : ledger.held = [])
    (inside : g ∈ layout.lists) : (ledger.chain g.offset).Perm g.buffers := by
  refine (List.perm_ext_iff_of_nodup (sound.nodup_chain inside) g.nodup_buffers).mpr fun b => ?_
  constructor
  · exact fun queued => home_of_fits distinct inside (sound.fits g inside b queued)
  · intro buffer
    have all := sound.perm
    rw [returned, List.append_nil] at all
    have free := all.mem_iff.mpr (PoolLayout.mem_buffers.mpr ⟨g, inside, buffer⟩)
    rcases List.mem_flatMap.mp free with ⟨g', inside', queued⟩
    have buffer' := home_of_fits distinct inside' (sound.fits g' inside' b queued)
    rw [PoolLayout.home_unique inside buffer inside' buffer']
    exact queued

theorem length_chain_eq (sound : Sound layout ledger) (returned : ledger.held = [])
    (inside : g ∈ layout.lists) : (ledger.chain g.offset).length = g.count := by
  rw [(sound.chain_perm distinct returned inside).length_eq, ListLayout.buffers, List.length_map,
    List.length_range]

end Distinct

theorem take {next : Nat} {rest : List Nat} (sound : Sound layout ledger)
    (inside : g ∈ layout.lists) (queue : ledger.chain g.offset = b :: next :: rest) :
    Sound layout (ledger.take g b) where
  perm := by
    have moved := free_take inside queue
    have same : ((ledger.take g b).free layout ++ b :: ledger.held).Perm
        (ledger.free layout ++ ledger.held) :=
      List.perm_middle.trans (moved.symm.append_right ledger.held)
    exact same.trans sound.perm
  nonempty := by
    intro other listed
    by_cases same : other.offset = g.offset
    · rw [same, chain_take_self queue]
      exact List.cons_ne_nil _ _
    · rw [chain_take_of_ne same]
      exact sound.nonempty other listed
  fits := by
    intro other listed c queued
    by_cases same : other.offset = g.offset
    · rw [same, chain_take_self queue] at queued
      refine sound.fits other listed c ?_
      rw [same, queue]
      exact List.mem_cons_of_mem _ queued
    · rw [chain_take_of_ne same] at queued
      exact sound.fits other listed c queued

theorem give (sound : Sound layout ledger) (inside : g ∈ layout.lists) (out : b ∈ ledger.held)
    (fitting : Fits layout g b) : Sound layout (ledger.give g b) where
  perm := by
    have moved := free_give ledger inside b
    have same : ((ledger.give g b).free layout ++ ledger.held.erase b).Perm
        (ledger.free layout ++ ledger.held) :=
      ((moved.append_right _).trans List.perm_middle.symm).trans
        ((List.perm_cons_erase out).symm.append_left _)
    exact same.trans sound.perm
  nonempty := by
    intro other listed
    by_cases same : other.offset = g.offset
    · rw [same, chain_give_self]
      exact List.append_ne_nil_of_right_ne_nil _ (List.cons_ne_nil _ _)
    · rw [chain_give_of_ne same]
      exact sound.nonempty other listed
  fits := by
    intro other listed c queued
    by_cases same : other.offset = g.offset
    · have equal := PoolLayout.eq_of_offset listed inside same
      subst equal
      rw [chain_give_self] at queued
      rcases List.mem_append.mp queued with old | new
      · exact sound.fits other listed c old
      · rw [List.mem_singleton.mp new]
        exact fitting
    · rw [chain_give_of_ne same] at queued
      exact sound.fits other listed c queued

end Sound

end Ledger

end Pool
end Shmipc
