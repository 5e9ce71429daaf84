import Shmipc.Pool.LinkedRoundTrip

namespace Shmipc
namespace Pool

open ByteMemory
open Buffer (bufferHeaderSize)

/-!
# A message beside the buffers of others

While one stream writes a message, other streams and the peer use the same pool.
Each side sees the other's buffers as buffers that are out: it takes none of them,
gives none of them back and changes none of their bytes.  So a message survives
whatever the others do, and whatever is done to the message spares the others.
-/

/-- What happened to the pool since `base` spares some buffers: their bytes are as
they were, and none of them was given back. -/
structure Spared (layout : PoolLayout) (base shm : Shm) (others : List Nat) : Prop where
  kept : ∀ home ∈ layout.lists, ∀ b ∈ home.buffers, b ∈ others ->
    AgreeOn base.mem shm.mem b home.stride
  gave : Exists fun back => returnedOffsets shm.log = returnedOffsets base.log ++ back /\
    ∀ b ∈ others, b ∉ back

namespace Spared

variable {layout : PoolLayout} {base shm shm' : Shm} {ledger ledger' : Ledger}
  {others taken returned : List Nat}

theorem refl (layout : PoolLayout) (shm : Shm) (others : List Nat) :
    Spared layout shm shm others where
  kept := fun _ _ _ _ _ _ _ _ => rfl
  gave := ⟨[], (List.append_nil _).symm, fun _ _ => List.not_mem_nil⟩

theorem trans (first : Spared layout base shm others) (second : Spared layout shm shm' others) :
    Spared layout base shm' others where
  kept := fun home inside b buffer member x lower upper =>
    (second.kept home inside b buffer member x lower upper).trans
      (first.kept home inside b buffer member x lower upper)
  gave := by
    rcases first.gave with ⟨back, gave, spares⟩
    rcases second.gave with ⟨back', gave', spares'⟩
    exact ⟨back ++ back', by rw [gave', gave, List.append_assoc],
      fun b member => List.not_mem_append (spares b member) (spares' b member)⟩

theorem of_moved (out : others ⊆ ledger.held) (stays : ∀ b ∈ others, b ∉ returned)
    (moved : Moved layout shm ledger shm' ledger' taken returned) :
    Spared layout shm shm' others :=
  ⟨fun home inside b buffer member => moved.kept home inside b buffer (out member)
    (stays b member), returned, moved.gave, stays⟩

theorem write {mem : Memory} {home : ListLayout} {b : Nat}
    (spared : Spared layout base shm others) (inside : home ∈ layout.lists)
    (buffer : b ∈ home.buffers) (foreign : b ∉ others)
    (agree : AgreeOutside shm.mem mem (b + 4) (home.cap + 16)) :
    Spared layout base ⟨mem, shm.log⟩ others where
  kept := by
    intro home' inside' b' buffer' member
    have different : b' ≠ b := by
      rintro rfl
      exact foreign member
    have apart := PoolLayout.buffers_apart inside' buffer' inside buffer different
    have before := spared.kept home' inside' b' buffer' member
    refine fun x lower upper => (agree x ?_).trans (before x lower upper)
    simp only [ListLayout.stride, bufferHeaderSize] at *
    omega
  gave := spared.gave

end Spared

/-- Some of the buffers that are out belong to a message, the others are spared. -/
structure Beside (layout : PoolLayout) (base : Shm) (others : List Nat) (shm : Shm)
    (ledger : Ledger) (mine : List Nat) : Prop where
  rep : Represents layout shm ledger
  held : (mine ++ others).Perm ledger.held
  spared : Spared layout base shm others

namespace Beside

variable {layout : PoolLayout} {base shm shm' : Shm} {ledger ledger' : Ledger}
  {others mine new back : List Nat} {b : Nat}

theorem out (beside : Beside layout base others shm ledger mine) : others ⊆ ledger.held :=
  fun _ member => beside.held.mem_iff.mp (List.mem_append_right _ member)

theorem nodup (beside : Beside layout base others shm ledger mine) : (mine ++ others).Nodup :=
  beside.held.nodup_iff.mpr beside.rep.sound.nodup_held

theorem not_others (beside : Beside layout base others shm ledger mine) (member : b ∈ mine) :
    b ∉ others := fun there =>
  (List.nodup_append.mp beside.nodup).2.2 b member b there rfl

theorem rebase (beside : Beside layout base others shm ledger mine) :
    Beside layout shm others shm ledger mine :=
  ⟨beside.rep, beside.held, Spared.refl layout shm others⟩

theorem give (beside : Beside layout base others shm ledger (mine ++ back))
    (moved : Moved layout shm ledger shm' ledger' [] back) :
    Beside layout base others shm' ledger' mine where
  rep := moved.rep
  held := by
    have swap : (mine ++ others ++ back).Perm (mine ++ back ++ others) := by
      rw [List.append_assoc, List.append_assoc]
      exact List.perm_append_comm.append_left _
    exact (List.perm_append_right_iff back).mp
      (swap.trans (beside.held.trans moved.held.symm))
  spared := beside.spared.trans (Spared.of_moved beside.out
    (fun b there gone => beside.not_others (List.mem_append_right _ gone) there) moved)

end Beside

def Custody.beside (layout : PoolLayout) (base : Shm) (others : List Nat) : Custody layout where
  Owns := Beside layout base others
  rep beside := beside.rep
  out beside := fun _ member => beside.held.mem_iff.mp (List.mem_append_left _ member)
  nodup beside := (List.nodup_append.mp beside.nodup).1
  take := by
    intro shm ledger mine shm' ledger' new beside moved
    refine ⟨moved.rep, ?_,
      beside.spared.trans (Spared.of_moved beside.out (fun _ _ => List.not_mem_nil) moved)⟩
    have perm := moved.held
    rw [List.append_nil] at perm
    refine List.Perm.trans ?_ ((beside.held.append_left new).trans perm.symm)
    rw [<- List.append_assoc]
    exact List.perm_append_comm.append_right _
  write := by
    intro shm ledger mine mem home b beside inside buffer member agree
    have out := beside.held.mem_iff.mp (List.mem_append_left _ member)
    exact ⟨beside.rep.of_held out inside buffer agree, beside.held,
      beside.spared.write inside buffer (beside.not_others member) agree⟩

namespace Pending

variable {layout : PoolLayout} {base shm : Shm} {others : List Nat} {buf : LinkedBuffer}
  {written : List UInt8}

theorem apart (pending : Pending (.beside layout base others) buf shm written) {b : Nat}
    (mine : b ∈ poolOffsets buf.sliceList.toList) : b ∉ others := by
  rcases pending.sending.filled with ⟨ledger, filled⟩
  exact Beside.not_others filled.owned mine

theorem spared (pending : Pending (.beside layout base others) buf shm written) :
    Spared layout base shm others := by
  rcases pending.sending.filled with ⟨ledger, filled⟩
  exact filled.owned.spared

theorem contents (pending : Pending (.beside layout base others) buf shm written) :
    buf.contents shm.mem = written := by
  rcases pending.sending.filled with ⟨ledger, filled⟩
  exact filled.contents

/-- The same message beside buffers of which nothing is known but that they are out. -/
theorem change {custody custody' : Custody layout} (pending : Pending custody buf shm written)
    (owned : forall {ledger mine}, custody.Owns shm ledger mine ->
      custody'.Owns shm ledger mine) : Pending custody' buf shm written where
  sending := by
    rcases pending.sending.filled with ⟨ledger, filled⟩
    exact ⟨⟨ledger, owned filled.owned, filled.writable, filled.contents⟩, pending.sending.ahead,
      pending.sending.fromShm⟩
  len := pending.len
  start := pending.start

theorem rebase (pending : Pending (.beside layout base others) buf shm written) :
    Pending (.beside layout shm others) buf shm written :=
  pending.change fun beside => Beside.rebase beside

theorem done (pending : Pending (.beside layout base others) buf shm written) (side : Side) :
    Pending (.beside layout base others) (buf.done (layout.view side) shm).1
      (buf.done (layout.view side) shm).2 written := by
  cases stays : buf.isFromShm with
  | false =>
    rw [LinkedBuffer.done, stays]
    exact pending
  | true =>
    cases cursor : buf.sliceList.write with
    | none =>
      rw [LinkedBuffer.done_new stays (pending.start cursor)]
      exact pending
    | some w =>
      rcases pending.sending.done side stays cursor rfl with
        ⟨_, _, ledger', owned, given, carried, _, contents⟩
      have list : (buf.done (layout.view side) shm).1 =
          ⟨⟨buf.sliceList.before, some w, []⟩, true, buf.len⟩ := by
        rw [LinkedBuffer.done_eq stays cursor]
      have slices : (⟨buf.sliceList.before, some w, []⟩ : SliceList).toList =
          buf.sliceList.before ++ [w] := List.append_nil _
      rw [list]
      refine ⟨⟨⟨ledger', ?_, ?_, ?_⟩, fun _ none => absurd none List.not_mem_nil, ?_⟩,
        pending.len, fun none => by cases none⟩
      · rw [slices, poolOffsets_eq_map fun s member => (carried s member).fromShm]
        exact Beside.give owned given
      · rw [slices]
        exact fun s member => (carried s member).writable
      · rw [slices]
        exact contents
      · intro _
        rw [slices]
        exact fun s member => (carried s member).fromShm

theorem foldl_recycle_filter (bm : BufferManager) (slices : List BufferSlice) (shm : Shm) :
    slices.foldl (fun shm s => bm.recycleBuffer s shm) shm =
      (slices.filter BufferSlice.isFromShm).foldl (fun shm s => bm.recycleBuffer s shm) shm := by
  induction slices generalizing shm with
  | nil => rfl
  | cons s rest ih =>
    cases fromShm : s.isFromShm with
    | true => rw [List.foldl_cons, ih, List.filter_cons_of_pos fromShm, List.foldl_cons]
    | false =>
      rw [List.foldl_cons, ih, List.filter_cons_of_neg (Bool.eq_false_iff.mp fromShm),
        BufferManager.recycleBuffer, fromShm, if_neg Bool.false_ne_true]

theorem recycle (pending : Pending (.beside layout base others) buf shm written) (side : Side) :
    Pending (.beside layout base others) (buf.recycle (layout.view side) shm).1
      (buf.recycle (layout.view side) shm).2 [] := by
  rcases pending.sending.filled with ⟨ledger, filled⟩
  have owned : Beside layout base others shm ledger (poolOffsets buf.sliceList.toList) :=
    filled.owned
  have handles : ∀ s ∈ buf.sliceList.toList.filter BufferSlice.isFromShm, IsHandle layout s := by
    intro s member
    rcases List.mem_filter.mp member with ⟨there, fromShm⟩
    exact Carried.handle ⟨filled.writable s there, fromShm⟩
  rcases owned.rep.recycleAll side handles
    (List.nodup_append.mp owned.nodup).1 ((Custody.beside layout base others).out owned) with
    ⟨ledger', given⟩
  rw [<- foldl_recycle_filter] at given
  have nothing : Beside layout base others (buf.recycle (layout.view side) shm).2 ledger' [] :=
    Beside.give owned given
  exact Pending.new nothing

end Pending

/-! ## What the others do -/

namespace PoolState

variable {layout : PoolLayout} {s t : PoolState} {buf : LinkedBuffer} {written : List UInt8}

/-- The buffers that the others hold. -/
def offsets (s : PoolState) : List Nat := s.held.map BufferSlice.offsetInShm

/-- A message of one stream, and the slices of all others. -/
structure WithMessage (layout : PoolLayout) (s : PoolState) (buf : LinkedBuffer)
    (written : List UInt8) : Prop where
  pending : Pending (.beside layout s.shm s.offsets) buf s.shm written
  handles : ∀ slice ∈ s.held, IsHandle layout slice

namespace WithMessage

theorem of_inv {ledger : Ledger} (inv : PoolInv layout s ledger) :
    WithMessage layout s .new [] where
  pending := by
    have owned : Beside layout s.shm s.offsets s.shm ledger [] :=
      ⟨inv.rep, inv.held, Spared.refl layout s.shm s.offsets⟩
    exact Pending.new owned
  handles := inv.handles

/-- Whatever was done to the message, the slices of the others are as they were. -/
theorem of_pending {shm : Shm} {buf' : LinkedBuffer} {written' : List UInt8}
    (both : WithMessage layout s buf written)
    (pending : Pending (.beside layout s.shm s.offsets) buf' shm written') :
    WithMessage layout { s with shm := shm } buf' written' where
  pending := pending.rebase
  handles := both.handles

theorem setAside (both : WithMessage layout s buf written) :
    Exists fun ledger => PoolInv layout
      ⟨s.shm, buf.sliceList.toList.filter BufferSlice.isFromShm ++ s.held⟩ ledger := by
  rcases both.pending.sending.filled with ⟨ledger, filled⟩
  refine ⟨ledger, filled.owned.rep, ?_, ?_⟩
  · rw [List.map_append]
    exact filled.owned.held
  · intro slice member
    rcases List.mem_append.mp member with mine | other
    · rcases List.mem_filter.mp mine with ⟨there, fromShm⟩
      exact Carried.handle ⟨filled.writable slice there, fromShm⟩
    · exact both.handles slice other

theorem handOver (both : WithMessage layout s buf written)
    (stays : buf.isFromShm = true) :
    Exists fun ledger => PoolInv layout ⟨s.shm, buf.sliceList.toList ++ s.held⟩ ledger := by
  have aside := both.setAside
  rw [List.filter_eq_self.mpr (both.pending.sending.fromShm stays)] at aside
  exact aside

/-- A step of some of the others keeps the message and the slices of the rest. -/
theorem step_beside {action : PoolAction} {rest : List BufferSlice}
    (both : WithMessage layout ⟨s.shm, rest ++ s.held⟩ buf written)
    (moved : s.step layout.view action = some t) :
    WithMessage layout ⟨t.shm, rest ++ t.held⟩ buf written /\
      ∀ home ∈ layout.lists, ∀ b ∈ home.buffers, b ∈ rest.map BufferSlice.offsetInShm ->
        AgreeOn s.shm.mem t.shm.mem b home.stride := by
  rcases both.pending.sending.filled with ⟨ledger, filled⟩
  have out := filled.owned.held
  rw [offsets, List.map_append, <- List.append_assoc] at out
  have share : PoolShare layout s.shm.mem
      (poolOffsets buf.sliceList.toList ++ rest.map BufferSlice.offsetInShm) s ledger :=
    ⟨filled.owned.rep, List.perm_append_comm.trans out,
      fun slice member => both.handles slice (List.mem_append_right _ member),
      fun _ _ _ _ _ _ _ _ => rfl⟩
  rcases share.step id moved with ⟨ledger', after⟩
  have still := List.perm_append_comm.trans after.held
  rw [List.append_assoc, <- List.map_append] at still
  refine ⟨⟨⟨⟨⟨ledger', ?_, filled.writable, ?_⟩, both.pending.sending.ahead,
    both.pending.sending.fromShm⟩, both.pending.len, both.pending.start⟩, ?_⟩, ?_⟩
  · exact ⟨after.rep, still, Spared.refl layout t.shm _⟩
  · rw [<- filled.contents]
    refine List.flatMap_congr fun slice member => ?_
    refine (filled.writable slice member).contents_congr fun home inside buffer fromShm => ?_
    have kept := after.kept home inside _ buffer
      (List.mem_append_left _ (mem_poolOffsets member fromShm))
    exact kept.mono (Nat.le_add_right ..) (by simp only [ListLayout.stride]; omega)
  · intro slice member
    rcases List.mem_append.mp member with mine | other
    · exact both.handles slice (List.mem_append_left _ mine)
    · exact after.handles slice other
  · exact fun home inside b buffer member =>
      after.kept home inside b buffer (List.mem_append_right _ member)

theorem step {action : PoolAction} (both : WithMessage layout s buf written)
    (moved : s.step layout.view action = some t) : WithMessage layout t buf written := by
  have alone : WithMessage layout ⟨s.shm, [] ++ s.held⟩ buf written := both
  exact (alone.step_beside moved).1

end WithMessage

end PoolState

end Pool
end Shmipc
