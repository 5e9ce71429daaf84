import Shmipc.Pool.Create

namespace Shmipc
namespace Pool

open ByteMemory Tiling Transition
open Buffer (bufferHeaderSize bufferListHeaderSize)
open BufferSlice (offsetInShm)

/-!
# A pool in use by two processes

The calls of both processes come in any order.  Besides taking buffers and giving
them back, a holder fills its buffers and links their headers, as a sender does
before it hands a message over.  A slice is given back by whoever holds it, at
most once, through either view.
-/

inductive PoolAction
  | alloc (side : Side) (size : Nat)
  | allocMany (side : Side) (size : Nat)
  | recycle (side : Side) (slice : BufferSlice)
  | recycleMany (side : Side) (slice : BufferSlice)
  | update (slice : BufferSlice) (size start : Nat) (next : Option Nat)
  | write (slice : BufferSlice) (index : Nat) (value : UInt8)
  deriving DecidableEq

/-- The shared bytes and the slices that are out. -/
structure PoolState where
  shm : Shm
  held : List BufferSlice

/-- `BufferSlice::update` of a slice that holds `size` bytes from `start` on. -/
def updateHeader (mem : Memory) (address size start : Nat) (next : Option Nat) : Memory :=
  let mem := BufferHeader.setSize mem address size
  let mem := BufferHeader.setStart mem address start
  match next with
  | some next => BufferHeader.linkNext mem address next
  | none => BufferHeader.unlinkNext mem address

namespace PoolState

/-- All slices that the header of a slice links to are out, and none comes
twice. -/
def chainOf (s : PoolState) (slice : BufferSlice) : Option (List Nat) :=
  (chainFrom s.shm.mem s.held.length slice.offsetInShm).filter fun bs =>
    decide (bs.Nodup /\ bs ⊆ s.held.map offsetInShm)

def step (views : Side -> BufferManager) (s : PoolState) : PoolAction -> Option PoolState
  | .alloc side size =>
    match (views side).allocShmBuffer size s.shm with
    | (some slice, shm) => some { shm := shm, held := slice :: s.held }
    | (none, shm) => some { s with shm := shm }
  | .allocMany side size =>
    let (slices, _, shm) := (views side).allocShmBuffers size s.shm
    some { shm := shm, held := slices ++ s.held }
  | .recycle side slice =>
    if slice ∈ s.held then
      some { shm := (views side).recycleBuffer slice s.shm, held := s.held.erase slice }
    else none
  | .recycleMany side slice =>
    if slice ∈ s.held then
      (s.chainOf slice).bind fun bs =>
        ((views side).recycleBuffers s.held.length slice s.shm).map fun shm =>
          { shm := shm, held := s.held.filter fun other => other.offsetInShm ∉ bs }
    else none
  | .update slice size start next =>
    if slice ∈ s.held then
      let mem := updateHeader s.shm.mem slice.offsetInShm size start next
      some { s with shm := { s.shm with mem := mem } }
    else none
  | .write slice index value =>
    if slice ∈ s.held /\ index < slice.cap then
      let mem := Function.update s.shm.mem (slice.data + index) value
      some { s with shm := { s.shm with mem := mem } }
    else none

end PoolState

/-- A pool whose bytes are `mem` when the two processes start to use it. -/
def poolSystem (views : Side -> BufferManager) (mem : Memory) : System PoolState PoolAction where
  init s := s = ⟨⟨mem, []⟩, []⟩
  step := PoolState.step views

/-! ## Filling a buffer that is out -/

namespace Represents

variable {layout : PoolLayout} {shm : Shm} {ledger : Ledger} {home : ListLayout} {b : Nat}

/-- Nothing depends on the bytes of a buffer that is out but its capacity. -/
theorem of_held {mem : Memory} (rep : Represents layout shm ledger) (out : b ∈ ledger.held)
    (listed : home ∈ layout.lists) (buffer : b ∈ home.buffers)
    (agree : AgreeOutside shm.mem mem (b + 4) (home.cap + 16)) :
    Represents layout ⟨mem, shm.log⟩ ledger := by
  have inside : AgreeOutside shm.mem mem b home.stride :=
    agree.mono (Nat.le_add_right ..) (by simp only [ListLayout.stride, bufferHeaderSize]; omega)
  have start : AgreeOn shm.mem mem layout.start bufferManagerHeaderSize := by
    have lower := (ListLayout.bounds_of_mem buffer).1
    have above := (PoolLayout.bounds listed).1
    simp only [ListLayout.region] at lower
    exact inside.agreeOn (Or.inl (by omega))
  have list : ∀ g ∈ layout.lists,
      ListHeader.read mem g.offset = ListHeader.read shm.mem g.offset := by
    intro g member
    exact ListHeader.read_congr (inside.agreeOn (PoolLayout.header_apart member listed buffer))
  have free : ∀ g ∈ layout.lists, ∀ c ∈ ledger.chain g.offset,
      BufferHeader.read mem c = BufferHeader.read shm.mem c := by
    intro g member c queued
    rcases rep.sound.fits g member c queued with ⟨home', listed', buffer', _, _⟩
    have different : c ≠ b := by
      rintro rfl
      exact rep.sound.not_held member queued out
    have apart := PoolLayout.buffers_apart listed' buffer' listed buffer different
    have long := home'.stride_pos
    exact BufferHeader.read_congr (inside.agreeOn (by omega))
  refine ⟨rep.sound, ?_, ?_, ?_, ?_, ?_, ?_, rep.logged, rep.balance⟩
  · rw [readWord_congr (start.mono (Nat.le_refl _) (Nat.add_le_add_left (by decide) _))]
    exact rep.number
  · rw [readWord_congr (start.mono (Nat.le_add_right ..) (by
      rw [Nat.add_assoc]
      exact Nat.add_le_add_left (by decide) _))]
    exact rep.used
  · intro g member
    rw [list g member]
    exact rep.header g member
  · intro g member
    refine (rep.thread g member).congr fun c queued => ?_
    rw [freeLink, freeLink, free g member c queued]
  · intro g member c queued
    rw [free g member c queued]
    exact rep.empty g member c queued
  · intro g member c buffer'
    by_cases same : c = b
    · subst same
      rw [BufferHeader.read_cap_congr (agree.agreeOn (Or.inl (Nat.le_refl _)))]
      exact rep.cap g member c buffer'
    · have apart := PoolLayout.buffers_apart member buffer' listed buffer same
      have long := g.stride_pos
      rw [BufferHeader.read_congr (inside.agreeOn (by omega))]
      exact rep.cap g member c buffer'

end Represents

theorem updateHeader_agreeOutside (mem : Memory) (address size start : Nat) (next : Option Nat) :
    AgreeOutside mem (updateHeader mem address size start next) (address + 4) 16 := by
  have word : forall mem field value, 4 <= field -> field + 4 <= bufferFlagOffset ->
      AgreeOutside mem (writeWord mem (address + field) 4 value) (address + 4) 16 :=
    fun mem field value lower upper =>
      (writeWord_agreeOutside mem (address + field) 4 value).mono (by omega)
        (by simp only [bufferFlagOffset, nextBufferOffset, bufferDataStartOffset,
              bufferSizeOffset, bufferCapOffset] at upper; omega)
  have flag : forall mem value,
      AgreeOutside mem (BufferHeader.setFlag mem address value) (address + 4) 16 :=
    fun mem value => (BufferHeader.setFlag_agreeOutside mem address value).mono
      (Nat.add_le_add_left (by decide) _) (by
        rw [Nat.add_assoc, Nat.add_assoc]
        exact Nat.add_le_add_left (by decide) _)
  have front := (word mem bufferSizeOffset size (by decide) (by decide)).trans
    (word _ bufferDataStartOffset start (by decide) (by decide))
  cases next with
  | none =>
    exact (front.trans (word _ nextBufferOffset 0 (by decide) (by decide))).trans (flag _ _)
  | some next =>
    exact (front.trans (word _ nextBufferOffset next (by decide) (by decide))).trans (flag _ _)

/-! ## The invariant of a pool in use

Either process may use either view of the layout; `who` says which. -/

/-- The bytes represent a ledger, and the slices that are out are handles of its
buffers that are out. -/
structure PoolInv (layout : PoolLayout) (s : PoolState) (ledger : Ledger) : Prop where
  rep : Represents layout s.shm ledger
  held : (s.held.map offsetInShm).Perm ledger.held
  handles : ∀ slice ∈ s.held, IsHandle layout slice

/-- Some buffers that are out are kept aside: they belong to none of the holders, and
their bytes are those of `base`. -/
structure PoolShare (layout : PoolLayout) (base : Memory) (aside : List Nat) (s : PoolState)
    (ledger : Ledger) : Prop where
  rep : Represents layout s.shm ledger
  held : (s.held.map offsetInShm ++ aside).Perm ledger.held
  handles : ∀ slice ∈ s.held, IsHandle layout slice
  kept : ∀ home ∈ layout.lists, ∀ b ∈ home.buffers, b ∈ aside ->
    AgreeOn base s.shm.mem b home.stride

namespace PoolShare

variable {layout : PoolLayout} {base : Memory} {aside : List Nat} {s t : PoolState}
  {ledger : Ledger} {slice : BufferSlice} (who : Side -> Side)

theorem out (share : PoolShare layout base aside s ledger) (member : slice ∈ s.held) :
    slice.offsetInShm ∈ ledger.held :=
  share.held.mem_iff.mp (List.mem_append_left _ (List.mem_map_of_mem member))

variable {b size : Nat} {shm : Shm} {ledger' : Ledger} {bs : List Nat} {side : Side}

theorem out_aside (share : PoolShare layout base aside s ledger) (member : b ∈ aside) :
    b ∈ ledger.held :=
  share.held.mem_iff.mp (List.mem_append_right _ member)

theorem nodup (share : PoolShare layout base aside s ledger) :
    (s.held.map offsetInShm ++ aside).Nodup :=
  share.held.nodup_iff.mpr share.rep.sound.nodup_held

theorem not_aside (share : PoolShare layout base aside s ledger)
    (member : b ∈ s.held.map offsetInShm) : b ∉ aside := fun there =>
  (List.nodup_append.mp share.nodup).2.2 b member b there rfl

theorem of_taken {slices : List BufferSlice} (share : PoolShare layout base aside s ledger)
    (fresh : ∀ slice ∈ slices, IsFresh layout slice)
    (moved : Moved layout s.shm ledger shm ledger' (slices.map offsetInShm) []) :
    PoolShare layout base aside ⟨shm, slices ++ s.held⟩ ledger' where
  rep := moved.rep
  held := by
    have perm := moved.held
    rw [List.append_nil] at perm
    rw [List.map_append, List.append_assoc]
    exact (share.held.append_left _).trans perm.symm
  handles := by
    intro slice member
    rcases List.mem_append.mp member with new | old
    · exact (fresh slice new).isHandle
    · exact share.handles slice old
  kept := by
    intro home inside b buffer member
    have before := share.kept home inside b buffer member
    have after := moved.kept home inside b buffer (share.out_aside member) List.not_mem_nil
    exact fun x lower upper => (after x lower upper).trans (before x lower upper)

theorem of_returned {rest : List BufferSlice} (share : PoolShare layout base aside s ledger)
    (subset : rest ⊆ s.held) (split : (rest.map offsetInShm ++ bs).Perm
      (s.held.map offsetInShm)) (moved : Moved layout s.shm ledger shm ledger' [] bs) :
    PoolShare layout base aside ⟨shm, rest⟩ ledger' where
  rep := moved.rep
  held := by
    have whole := (split.append_right aside).trans (share.held.trans moved.held.symm)
    have swap : (rest.map offsetInShm ++ aside ++ bs).Perm
        (rest.map offsetInShm ++ bs ++ aside) := by
      rw [List.append_assoc, List.append_assoc]
      exact List.perm_append_comm.append_left _
    exact (List.perm_append_right_iff bs).mp (swap.trans whole)
  handles := fun slice member => share.handles slice (subset member)
  kept := by
    intro home inside b buffer member
    have stays : b ∉ bs := fun gone =>
      share.not_aside (split.mem_iff.mp (List.mem_append_right _ gone)) member
    have before := share.kept home inside b buffer member
    have after := moved.kept home inside b buffer (share.out_aside member) stays
    exact fun x lower upper => (after x lower upper).trans (before x lower upper)

theorem perm_filter_append {held : List BufferSlice} (nodup : (held.map offsetInShm).Nodup)
    (distinct : bs.Nodup) (known : bs ⊆ held.map offsetInShm) :
    ((held.filter fun other => other.offsetInShm ∉ bs).map offsetInShm ++ bs).Perm
      (held.map offsetInShm) := by
  have gone : ((held.map offsetInShm).filter fun b => b ∈ bs).Perm bs := by
    refine (List.perm_ext_iff_of_nodup (nodup.filter _) distinct).mpr fun b => ?_
    rw [List.mem_filter, decide_eq_true_eq]
    exact ⟨And.right, fun member => ⟨known member, member⟩⟩
  have stays : (held.filter fun other => other.offsetInShm ∉ bs).map offsetInShm =
      (held.map offsetInShm).filter fun b => !decide (b ∈ bs) := by
    rw [List.filter_map]
    simp only [decide_not, Function.comp_def]
  rw [stays]
  refine (gone.symm.append_left _).trans (List.perm_append_comm.trans ?_)
  exact List.filter_append_perm _ _

theorem of_write {mem : Memory} {g : ListLayout} (share : PoolShare layout base aside s ledger)
    (member : slice ∈ s.held) (listed : g ∈ layout.lists)
    (buffer : slice.offsetInShm ∈ g.buffers)
    (agree : AgreeOutside s.shm.mem mem (slice.offsetInShm + 4) (g.cap + 16)) :
    PoolShare layout base aside { s with shm := { s.shm with mem := mem } } ledger where
  rep := share.rep.of_held (share.out member) listed buffer agree
  held := share.held
  handles := share.handles
  kept := by
    intro home inside b buffer' there
    have different : b ≠ slice.offsetInShm := by
      rintro rfl
      exact share.not_aside (List.mem_map_of_mem member) there
    have apart := PoolLayout.buffers_apart inside buffer' listed buffer different
    have before := share.kept home inside b buffer' there
    refine fun x lower upper => (agree x ?_).trans (before x lower upper)
    simp only [ListLayout.stride, bufferHeaderSize] at *
    omega

/-- `alloc_shm_buffer` finds nothing, or it takes a buffer of one of the lists. -/
theorem alloc (share : PoolShare layout base aside s ledger)
    (moved : s.step (fun side => layout.view (who side)) (.alloc side size) = some t) :
    t = s \/ (∃ g ∈ layout.lists, Exists fun b =>
      t.shm.log = s.shm.log ++ [.took (g.view (who side)) b] /\
      PoolShare layout base aside t (ledger.take g b)) := by
  simp only [PoolState.step] at moved
  rcases share.rep.allocShmBuffer_cases (who side) size with
    refused | ⟨g, listed, _, b, shm, result, own, log, taken⟩
  · rw [refused] at moved
    cases moved
    exact Or.inl rfl
  · rw [result] at moved
    cases moved
    have fresh : ∀ slice ∈ [freshSlice b g.cap], IsFresh layout slice := by
      intro slice member
      rw [List.mem_singleton.mp member]
      exact ⟨g, listed, own, rfl⟩
    exact Or.inr ⟨g, listed, b, log, share.of_taken fresh taken⟩

theorem recycle (share : PoolShare layout base aside s ledger)
    (moved : s.step (fun side => layout.view (who side)) (.recycle side slice) = some t) :
    slice ∈ s.held /\ (∃ g ∈ layout.lists,
      t.shm.log = s.shm.log ++ [.returned (g.view (who side)) slice.offsetInShm] /\
      PoolShare layout base aside t (ledger.give g slice.offsetInShm)) := by
  rcases of_guarded moved with ⟨member, rfl⟩
  rcases share.rep.recycleBuffer_spec (who side)
    (share.handles slice member) (share.out member) with ⟨g, listed, _, log, given⟩
  refine ⟨member, g, listed, log, share.of_returned List.erase_subset ?_ given⟩
  have perm := (List.perm_cons_erase member).map offsetInShm
  exact List.perm_append_comm.trans perm.symm

theorem update {start : Nat} {next : Option Nat} (share : PoolShare layout base aside s ledger)
    (moved : s.step (fun side => layout.view (who side)) (.update slice size start next) = some t) :
    t.shm.log = s.shm.log /\ PoolShare layout base aside t ledger := by
  rcases of_guarded moved with ⟨member, rfl⟩
  rcases share.handles slice member with ⟨g, listed, buffer, _⟩
  refine ⟨rfl, share.of_write member listed buffer ?_⟩
  exact (updateHeader_agreeOutside _ _ _ _ _).mono (Nat.le_refl _) (by omega)

theorem write {index : Nat} {value : UInt8} (share : PoolShare layout base aside s ledger)
    (moved : s.step (fun side => layout.view (who side)) (.write slice index value) = some t) :
    t.shm.log = s.shm.log /\ PoolShare layout base aside t ledger := by
  rcases of_guarded moved with ⟨⟨member, inside⟩, rfl⟩
  rcases share.handles slice member with ⟨g, listed, buffer, cap, _, _, data⟩
  refine ⟨rfl, share.of_write member listed buffer ?_⟩
  intro x outside
  refine Function.update_of_ne ?_ _ _
  simp only [data, bufferHeaderSize] at *
  omega

theorem step {action : PoolAction} (share : PoolShare layout base aside s ledger)
    (moved : s.step (fun side => layout.view (who side)) action = some t) :
    Exists fun ledger' => PoolShare layout base aside t ledger' := by
  cases action with
  | alloc side size =>
    rcases share.alloc who moved with rfl | ⟨g, _, b, _, after⟩
    · exact ⟨ledger, share⟩
    · exact ⟨_, after⟩
  | allocMany side size =>
    rcases share.rep.allocShmBuffers_spec (who side) size with
      ⟨slices, shm, ledger', result, fresh, taken⟩
    simp only [PoolState.step, result] at moved
    cases moved
    exact ⟨ledger', share.of_taken fresh taken⟩
  | recycle side slice =>
    rcases share.recycle who moved with ⟨_, g, _, _, after⟩
    exact ⟨_, after⟩
  | recycleMany side slice =>
    simp only [PoolState.step, Option.ite_none_right_eq_some, Option.bind_eq_some_iff,
      Option.map_eq_some_iff] at moved
    rcases moved with ⟨member, bs, chain, shm, result, rfl⟩
    rw [PoolState.chainOf, Option.filter_eq_some_iff, decide_eq_true_eq] at chain
    rcases chain with ⟨walked, distinct, known⟩
    have out : bs ⊆ ledger.held := fun b inside =>
      share.held.mem_iff.mp (List.mem_append_left _ (known inside))
    rcases share.rep.recycleBuffers_spec (who side)
      (share.handles slice member) walked distinct out with ⟨shm', ledger', result', given⟩
    rw [result] at result'
    cases result'
    refine ⟨ledger', share.of_returned (List.filter_subset_self _) ?_ given⟩
    exact perm_filter_append (List.nodup_append.mp share.nodup).1 distinct known
  | update slice size start next => exact ⟨ledger, (share.update who moved).2⟩
  | write slice index value => exact ⟨ledger, (share.write who moved).2⟩

end PoolShare

namespace PoolInv

variable {layout : PoolLayout} {s t : PoolState} {ledger : Ledger} {slice : BufferSlice}
  (who : Side -> Side)

theorem share (inv : PoolInv layout s ledger) : PoolShare layout s.shm.mem [] s ledger :=
  ⟨inv.rep, by rw [List.append_nil]; exact inv.held, inv.handles,
    fun _ _ _ _ none => absurd none List.not_mem_nil⟩

theorem of_share {base : Memory} (share : PoolShare layout base [] s ledger) :
    PoolInv layout s ledger :=
  ⟨share.rep, by rw [<- List.append_nil (s.held.map _)]; exact share.held, share.handles⟩

theorem out (inv : PoolInv layout s ledger) (member : slice ∈ s.held) :
    slice.offsetInShm ∈ ledger.held :=
  inv.held.mem_iff.mp (List.mem_map_of_mem member)

theorem nodup (inv : PoolInv layout s ledger) : (s.held.map offsetInShm).Nodup :=
  inv.held.nodup_iff.mpr inv.rep.sound.nodup_held

theorem held_eq_nil (inv : PoolInv layout s ledger) (returned : s.held = []) :
    ledger.held = [] := by
  have perm := inv.held
  rw [returned] at perm
  exact perm.nil_eq.symm

theorem alloc {side : Side} {size : Nat} (inv : PoolInv layout s ledger)
    (moved : s.step (fun side => layout.view (who side)) (.alloc side size) = some t) :
    t = s \/ (∃ g ∈ layout.lists, Exists fun b =>
      t.shm.log = s.shm.log ++ [.took (g.view (who side)) b] /\
      PoolInv layout t (ledger.take g b)) := by
  rcases inv.share.alloc who moved with same | ⟨g, listed, b, log, after⟩
  · exact Or.inl same
  · exact Or.inr ⟨g, listed, b, log, of_share after⟩

theorem recycle {side : Side} (inv : PoolInv layout s ledger)
    (moved : s.step (fun side => layout.view (who side)) (.recycle side slice) = some t) :
    slice ∈ s.held /\ (∃ g ∈ layout.lists,
      t.shm.log = s.shm.log ++ [.returned (g.view (who side)) slice.offsetInShm] /\
      PoolInv layout t (ledger.give g slice.offsetInShm)) := by
  rcases inv.share.recycle who moved with ⟨member, g, listed, log, after⟩
  exact ⟨member, g, listed, log, of_share after⟩

theorem update {size start : Nat} {next : Option Nat} (inv : PoolInv layout s ledger)
    (moved : s.step (fun side => layout.view (who side)) (.update slice size start next) = some t) :
    t.shm.log = s.shm.log /\ PoolInv layout t ledger := by
  rcases inv.share.update who moved with ⟨log, after⟩
  exact ⟨log, of_share after⟩

theorem write {index : Nat} {value : UInt8} (inv : PoolInv layout s ledger)
    (moved : s.step (fun side => layout.view (who side)) (.write slice index value) = some t) :
    t.shm.log = s.shm.log /\ PoolInv layout t ledger := by
  rcases inv.share.write who moved with ⟨log, after⟩
  exact ⟨log, of_share after⟩

theorem step {action : PoolAction} (inv : PoolInv layout s ledger)
    (moved : s.step (fun side => layout.view (who side)) action = some t) :
    Exists fun ledger' => PoolInv layout t ledger' := by
  rcases inv.share.step who moved with ⟨ledger', after⟩
  exact ⟨ledger', of_share after⟩

theorem reachable {mem : Memory} {initial : Ledger} (rep : Represents layout ⟨mem, []⟩ initial)
    (none : initial.held = [])
    (reached : (poolSystem (fun side => layout.view (who side)) mem).Reachable s) :
    Exists fun ledger => PoolInv layout s ledger := by
  refine reached.invariant (P := fun s => Exists fun ledger => PoolInv layout s ledger) ?_ ?_
  · rintro s rfl
    exact ⟨initial, rep, by rw [none]; exact List.Perm.refl _,
      fun _ empty => absurd empty List.not_mem_nil⟩
  · rintro s action t _ _ moved ⟨ledger, inv⟩
    exact inv.step who moved

end PoolInv

end Pool
end Shmipc
