import Mathlib.Algebra.Order.BigOperators.Group.List
import Shmipc.Pool.Linked

namespace Shmipc
namespace Pool

open ByteMemory
open BufferSlice (offsetInShm)
open Buffer (bufferHeaderSize)

/-!
# Writing a message

The bytes of a message are the contents of its slices in order, wherever the
cursor is: the slices behind the cursor are empty.  So moving the cursor does not
change the message, new slices do not change it either, and a write adds to the
slice at the cursor what it adds to the message.  The buffers that were taken for
the message are those of its slices, and no byte of any other buffer that was out
before has changed.
-/

/-- A slice that a sender may write to: it is read from its first byte on, and it
is a buffer of the pool or a piece of ordinary memory. -/
structure Writable (layout : PoolLayout) (s : BufferSlice) : Prop where
  cap_pos : 0 < s.cap
  cap_lt : s.cap < 2 ^ 32
  start : s.start = 0
  readIndex : s.readIndex = 0
  writeIndex : s.writeIndex <= s.cap
  place : IsHandle layout s \/ (s.isFromShm = false /\ s.heap.length = s.cap)

/-- The buffers of the pool among some slices. -/
def poolOffsets (slices : List BufferSlice) : List Nat :=
  (slices.filter BufferSlice.isFromShm).map offsetInShm

section Slices

variable {layout : PoolLayout} {s w : BufferSlice} {slices : List BufferSlice} {mem mem' : Memory}

theorem poolOffsets_append (first second : List BufferSlice) :
    poolOffsets (first ++ second) = poolOffsets first ++ poolOffsets second := by
  simp only [poolOffsets, List.filter_append, List.map_append]

theorem mem_poolOffsets (member : s ∈ slices) (fromShm : s.isFromShm = true) :
    s.offsetInShm ∈ poolOffsets slices :=
  List.mem_map_of_mem (List.mem_filter.mpr ⟨member, fromShm⟩)

theorem poolOffsets_eq_map (all : ∀ s ∈ slices, s.isFromShm = true) :
    poolOffsets slices = slices.map offsetInShm := by
  rw [poolOffsets, List.filter_eq_self.mpr all]

theorem offset_ne_of_nodup {first second : List BufferSlice}
    (nodup : (poolOffsets (first ++ w :: second)).Nodup) (fromShm : w.isFromShm = true)
    (member : s ∈ first ++ second) (fromShm' : s.isFromShm = true) :
    s.offsetInShm ≠ w.offsetInShm := by
  have perm : (poolOffsets (first ++ w :: second)).Perm (poolOffsets (w :: (first ++ second))) :=
    (List.perm_middle.filter _).map _
  have front : poolOffsets (w :: (first ++ second)) =
      w.offsetInShm :: poolOffsets (first ++ second) := by
    rw [poolOffsets, List.filter_cons_of_pos fromShm, List.map_cons, poolOffsets]
  rw [perm.nodup_iff, front] at nodup
  intro same
  rw [<- same] at nodup
  exact (List.nodup_cons.mp nodup).1 (mem_poolOffsets member fromShm')

theorem IsFresh.writable (fresh : IsFresh layout s) : Writable layout s := by
  have place := fresh.isHandle
  rcases fresh with ⟨g, inside, own, shape⟩
  have positive := (layout.positive g inside).2
  have bound := (ListLayout.bounds_of_mem own).2
  have stop := (PoolLayout.bounds inside).2
  have small := layout.memLen_lt
  refine ⟨?_, ?_, ?_, ?_, ?_, Or.inl place⟩ <;> rw [shape]
  · exact positive
  · simp only [freshSlice, ListLayout.stride] at *
    omega
  · rfl
  · rfl
  · exact Nat.zero_le _

theorem IsFresh.fromShm (fresh : IsFresh layout s) : s.isFromShm = true := by
  rcases fresh.isHandle with ⟨_, _, _, _, _, fromShm, _⟩
  exact fromShm

theorem IsFresh.writeIndex (fresh : IsFresh layout s) : s.writeIndex = 0 := by
  rcases fresh with ⟨g, _, _, shape⟩
  rw [shape]
  rfl

theorem writable_heapSlice {len : Nat} (positive : 0 < len) (small : len < 2 ^ 32) :
    Writable layout (heapSlice len) := by
  have cap : (heapSlice len).cap = len := Nat.mod_eq_of_lt small
  refine ⟨?_, ?_, rfl, rfl, Nat.zero_le _, Or.inr ⟨rfl, ?_⟩⟩
  · rw [cap]
    exact positive
  · rw [cap]
    exact small
  · rw [cap]
    exact List.length_replicate

theorem contents_of_writeIndex (empty : s.writeIndex = 0) : s.contents mem = [] := by
  have size : s.size = 0 := by rw [BufferSlice.size, empty, Nat.zero_sub]
  rw [BufferSlice.contents, size, readBytes, List.take_zero, ite_self]

theorem Writable.contents_congr (writable : Writable layout s)
    (kept : ∀ home ∈ layout.lists, s.offsetInShm ∈ home.buffers -> s.isFromShm = true ->
      AgreeOn mem mem' (s.offsetInShm + bufferHeaderSize) home.cap) :
    s.contents mem' = s.contents mem := by
  rcases writable.place with ⟨home, inside, buffer, cap, _, fromShm, data⟩ | ⟨heap, _⟩
  · have bound := writable.writeIndex
    have first := writable.readIndex
    simp only [BufferSlice.contents, fromShm, if_true, BufferSlice.size]
    refine readBytes_congr ((kept home inside buffer fromShm).mono ?_ ?_) <;> omega
  · rw [BufferSlice.contents, BufferSlice.contents, heap]
    rfl

theorem Writable.home (writable : Writable layout s) (fromShm : s.isFromShm = true) :
    ∃ home ∈ layout.lists, s.offsetInShm ∈ home.buffers := by
  rcases writable.place with ⟨home, inside, buffer, _⟩ | ⟨heap, _⟩
  · exact ⟨home, inside, buffer⟩
  · rw [heap] at fromShm
    cases fromShm

/-- A slice after some bytes were stored behind what it holds. -/
def BufferSlice.stored (w : BufferSlice) (bytes : List UInt8) (mem : Memory) : BufferSlice :=
  { (w.store w.writeIndex bytes mem).1 with writeIndex := w.writeIndex + bytes.length }

variable {bytes : List UInt8}

theorem BufferSlice.append_eq (w : BufferSlice) (bytes : List UInt8) (mem : Memory) :
    w.append bytes mem =
      (min bytes.length w.remain, w.stored (bytes.take (min bytes.length w.remain)) mem,
        (w.store w.writeIndex (bytes.take (min bytes.length w.remain)) mem).2) := by
  have copied : (bytes.take (min bytes.length w.remain)).length = min bytes.length w.remain := by
    rw [List.length_take]
    omega
  rw [append, stored, copied]

theorem Writable.stored (writable : Writable layout w) (room : bytes.length <= w.remain) :
    Writable layout (w.stored bytes mem) := by
  have bound := writable.writeIndex
  rw [BufferSlice.remain] at room
  rcases writable.place with ⟨home, inside, buffer, cap, header, fromShm, data⟩ | ⟨heap, length⟩
  · simp only [BufferSlice.stored, BufferSlice.store, fromShm, if_true]
    exact ⟨writable.cap_pos, writable.cap_lt, writable.start, writable.readIndex,
      by simp only; omega, Or.inl ⟨home, inside, buffer, cap, header, rfl, data⟩⟩
  · simp only [BufferSlice.stored, BufferSlice.store, heap, Bool.false_eq_true, if_false]
    refine ⟨writable.cap_pos, writable.cap_lt, writable.start, writable.readIndex,
      by simp only; omega, Or.inr ⟨rfl, ?_⟩⟩
    simp only [List.length_append, List.length_take, List.length_drop]
    omega

theorem fromShm_stored (w : BufferSlice) (bytes : List UInt8) (mem : Memory) :
    (w.stored bytes mem).isFromShm = w.isFromShm := by
  rw [BufferSlice.stored, BufferSlice.store]
  split <;> rfl

theorem offset_stored (w : BufferSlice) (bytes : List UInt8) (mem : Memory) :
    (w.stored bytes mem).offsetInShm = w.offsetInShm := by
  rw [BufferSlice.stored, BufferSlice.store]
  split <;> rfl

theorem Writable.contents_stored (writable : Writable layout w) :
    (w.stored bytes mem).contents (w.store w.writeIndex bytes mem).2 =
      w.contents mem ++ bytes := by
  have bound := writable.writeIndex
  rcases writable.place with ⟨home, inside, buffer, cap, header, fromShm, data⟩ | ⟨heap, length⟩
  · simp only [BufferSlice.stored, BufferSlice.store, BufferSlice.contents, BufferSlice.size,
      fromShm, if_true, writable.readIndex, Nat.sub_zero, Nat.add_zero]
    have before : AgreeOn mem (ByteMemory.writeBytes mem (w.data + w.writeIndex) bytes) w.data
        w.writeIndex := (writeBytes_agreeOutside _ _ _).agreeOn (Or.inl (Nat.le_refl _))
    rw [readBytes_add, readBytes_congr before, readBytes_writeBytes]
  · simp only [BufferSlice.stored, BufferSlice.store, BufferSlice.contents, BufferSlice.size,
      heap, Bool.false_eq_true, if_false, writable.readIndex, Nat.sub_zero, List.drop_zero]
    have front : (w.heap.take w.writeIndex).length = w.writeIndex := by
      rw [List.length_take]
      omega
    rw [List.append_assoc, List.take_append, front, Nat.add_sub_cancel_left, List.take_take,
      Nat.min_eq_right (Nat.le_add_right ..), List.take_append, Nat.sub_self, List.take_zero,
      List.append_nil, List.take_of_length_le (Nat.le_refl _)]

theorem Writable.store_agreeOutside (writable : Writable layout w)
    (room : bytes.length <= w.remain) {home : ListLayout} (inside : home ∈ layout.lists)
    (buffer : w.offsetInShm ∈ home.buffers) (fromShm : w.isFromShm = true) :
    AgreeOutside mem (w.store w.writeIndex bytes mem).2 (w.offsetInShm + bufferHeaderSize)
      home.cap := by
  have bound := writable.writeIndex
  rw [BufferSlice.remain] at room
  rcases writable.place with ⟨home', inside', buffer', cap, _, _, data⟩ | ⟨heap, _⟩
  · rw [PoolLayout.home_unique inside buffer inside' buffer', BufferSlice.store, fromShm, if_pos rfl]
    exact (writeBytes_agreeOutside _ _ _).mono (by omega) (by omega)
  · rw [heap] at fromShm
    cases fromShm

theorem store_of_heap (heap : w.isFromShm = false) :
    (w.store w.writeIndex bytes mem).2 = mem := by
  rw [BufferSlice.store, heap]
  rfl

end Slices

/-! ## What has been written -/

namespace Moved

variable {layout : PoolLayout} {shm shm' : Shm} {ledger ledger' : Ledger}
  {taken returned : List Nat} {home : ListLayout} {b : Nat} {mem : Memory}

theorem of_write (moved : Moved layout shm ledger shm' ledger' taken returned)
    (inside : home ∈ layout.lists) (buffer : b ∈ home.buffers) (out : b ∈ ledger'.held)
    (fresh : b ∉ ledger.held) (agree : AgreeOutside shm'.mem mem (b + 4) (home.cap + 16)) :
    Moved layout shm ledger ⟨mem, shm'.log⟩ ledger' taken returned := { moved with
  rep := moved.rep.of_held out inside buffer agree
  kept := by
    intro home' inside' c buffer' outBefore stays
    have different : c ≠ b := by
      rintro rfl
      exact fresh outBefore
    have apart := PoolLayout.buffers_apart inside' buffer' inside buffer different
    have before := moved.kept home' inside' c buffer' outBefore stays
    have after : AgreeOn shm'.mem mem c home'.stride := by
      refine agree.agreeOn ?_
      simp only [ListLayout.stride, bufferHeaderSize] at apart ⊢
      omega
    exact fun x lower upper => (after x lower upper).trans (before x lower upper) }

theorem nodup_taken (moved : Moved layout shm ledger shm' ledger' taken []) :
    (taken ++ ledger.held).Nodup := by
  have perm := moved.held
  rw [List.append_nil] at perm
  exact perm.nodup_iff.mp moved.rep.sound.nodup_held

theorem mem_taken (moved : Moved layout shm ledger shm' ledger' taken []) (took : b ∈ taken) :
    b ∈ ledger'.held /\ b ∉ ledger.held := by
  have perm := moved.held
  rw [List.append_nil] at perm
  refine ⟨perm.mem_iff.mpr (List.mem_append_left _ took), fun before => ?_⟩
  exact (List.nodup_append.mp moved.nodup_taken).2.2 b took b before rfl

end Moved

/-- An account of the buffers that belong to a message, and of whatever else is to be
known about the pool while the message is written.  It survives taking more buffers
and filling those that belong to the message. -/
structure Custody (layout : PoolLayout) where
  Owns : Shm -> Ledger -> List Nat -> Prop
  rep : forall {shm ledger mine}, Owns shm ledger mine -> Represents layout shm ledger
  out : forall {shm ledger mine}, Owns shm ledger mine -> mine ⊆ ledger.held
  nodup : forall {shm ledger mine}, Owns shm ledger mine -> mine.Nodup
  take : forall {shm ledger mine shm' ledger' new}, Owns shm ledger mine ->
    Moved layout shm ledger shm' ledger' new [] -> Owns shm' ledger' (mine ++ new)
  write : forall {shm ledger mine mem home b}, Owns shm ledger mine -> home ∈ layout.lists ->
    b ∈ home.buffers -> b ∈ mine -> AgreeOutside shm.mem mem (b + 4) (home.cap + 16) ->
    Owns ⟨mem, shm.log⟩ ledger mine

/-- A message that is alone with the pool: everything since its beginning is a move
that took its buffers. -/
def Custody.since (layout : PoolLayout) (shm : Shm) (ledger : Ledger) : Custody layout where
  Owns shm' ledger' mine := Moved layout shm ledger shm' ledger' mine []
  rep moved := moved.rep
  out moved := fun _ mine => (moved.mem_taken mine).1
  nodup moved := (List.nodup_append.mp moved.nodup_taken).1
  take moved later := moved.trans later
  write moved inside buffer mine agree :=
    moved.of_write inside buffer (moved.mem_taken mine).1 (moved.mem_taken mine).2 agree

/-- The slices hold the bytes that were written, in buffers that were taken for
them. -/
structure Filled {layout : PoolLayout} (custody : Custody layout) (shm : Shm) (ledger : Ledger)
    (slices : List BufferSlice) (written : List UInt8) : Prop where
  owned : custody.Owns shm ledger (poolOffsets slices)
  writable : ∀ s ∈ slices, Writable layout s
  contents : (slices.flatMap fun s => s.contents shm.mem) = written

namespace Filled

variable {layout : PoolLayout} {custody : Custody layout} {shm' shm'' : Shm}
  {ledger' ledger'' : Ledger} {slices first second new : List BufferSlice} {w : BufferSlice}
  {written bytes : List UInt8}

theorem start (owned : custody.Owns shm' ledger' []) : Filled custody shm' ledger' [] [] :=
  ⟨owned, fun _ none => absurd none List.not_mem_nil, rfl⟩

theorem grow (filled : Filled custody shm' ledger' slices written)
    (fresh : ∀ s ∈ new, IsFresh layout s)
    (taken : Moved layout shm' ledger' shm'' ledger'' (new.map offsetInShm) []) :
    Filled custody shm'' ledger'' (slices ++ new) written where
  owned := by
    rw [poolOffsets_append, poolOffsets_eq_map fun s member => (fresh s member).fromShm]
    exact custody.take filled.owned taken
  writable := by
    intro s member
    rcases List.mem_append.mp member with old | added
    · exact filled.writable s old
    · exact (fresh s added).writable
  contents := by
    have added : (new.flatMap fun s => s.contents shm''.mem) = [] :=
      List.flatMap_eq_nil_iff.mpr fun s member =>
        contents_of_writeIndex (fresh s member).writeIndex
    rw [List.flatMap_append, added, List.append_nil, <- filled.contents]
    refine List.flatMap_congr fun s member => ?_
    refine (filled.writable s member).contents_congr fun home inside buffer fromShm => ?_
    have out := custody.out filled.owned (mem_poolOffsets member fromShm)
    exact (taken.kept home inside _ buffer out List.not_mem_nil).mono (Nat.le_add_right ..)
      (by simp only [ListLayout.stride]; omega)

theorem growHeap {len : Nat} (filled : Filled custody shm' ledger' slices written)
    (positive : 0 < len) (small : len < 2 ^ 32) :
    Filled custody shm' ledger' (slices ++ [heapSlice len]) written where
  owned := by
    rw [poolOffsets_append]
    have none : poolOffsets [heapSlice len] = [] := rfl
    rw [none, List.append_nil]
    exact filled.owned
  writable := by
    exact Transition.forall_mem_snoc filled.writable (writable_heapSlice positive small)
  contents := by
    have none : (heapSlice len).contents shm'.mem = [] := contents_of_writeIndex rfl
    rw [List.flatMap_append, List.flatMap_singleton, none, List.append_nil, filled.contents]

/-- Bytes stored in the last slice that is not empty, or in the one behind it. -/
theorem fill (filled : Filled custody shm' ledger' (first ++ w :: second) written)
    (ahead : ∀ s ∈ second, s.writeIndex = 0) (room : bytes.length <= w.remain) :
    Filled custody ⟨(w.store w.writeIndex bytes shm'.mem).2, shm'.log⟩ ledger'
      (first ++ w.stored bytes shm'.mem :: second) (written ++ bytes) := by
  have own := filled.writable w (List.mem_append_right _ List.mem_cons_self)
  have offsets : poolOffsets (first ++ w.stored bytes shm'.mem :: second) =
      poolOffsets (first ++ w :: second) := by
    simp only [poolOffsets, List.filter_append, List.filter_cons, fromShm_stored, List.map_append]
    split <;> simp only [List.map_cons, offset_stored]
  have member : w ∈ first ++ w :: second := List.mem_append_right _ List.mem_cons_self
  have others : ∀ s ∈ first ++ second,
      s.contents (w.store w.writeIndex bytes shm'.mem).2 = s.contents shm'.mem := by
    intro s there
    have same : s ∈ first ++ w :: second := by
      rcases List.mem_append.mp there with left | right
      · exact List.mem_append_left _ left
      · exact List.mem_append_right _ (List.mem_cons_of_mem _ right)
    refine (filled.writable s same).contents_congr fun home inside buffer fromShm => ?_
    cases kind : w.isFromShm with
    | false =>
      rw [store_of_heap kind]
      exact fun _ _ _ => rfl
    | true =>
      rcases own.home kind with ⟨home', inside', buffer'⟩
      have different := offset_ne_of_nodup (custody.nodup filled.owned) kind there fromShm
      have apart := PoolLayout.buffers_apart inside buffer inside' buffer' different
      refine (own.store_agreeOutside room inside' buffer' kind).agreeOn ?_
      simp only [ListLayout.stride] at apart
      omega
  constructor
  · rw [offsets]
    cases kind : w.isFromShm with
    | false =>
      rw [store_of_heap kind]
      exact filled.owned
    | true =>
      rcases own.home kind with ⟨home, inside, buffer⟩
      refine custody.write filled.owned inside buffer (mem_poolOffsets member kind) ?_
      refine (own.store_agreeOutside room inside buffer kind).mono ?_ ?_ <;>
        simp only [bufferHeaderSize] <;> omega
  · intro s there
    rcases List.mem_append.mp there with left | right
    · exact filled.writable s (List.mem_append_left _ left)
    · rcases List.mem_cons.mp right with rfl | later
      · exact own.stored room
      · exact filled.writable s (List.mem_append_right _ (List.mem_cons_of_mem _ later))
  · have behind : (second.flatMap fun s => s.contents shm'.mem) = [] :=
      List.flatMap_eq_nil_iff.mpr fun s there => contents_of_writeIndex (ahead s there)
    have front := List.flatMap_congr fun s there => others s (List.mem_append_left _ there)
    have back := List.flatMap_congr fun s there => others s (List.mem_append_right _ there)
    rw [<- filled.contents, List.flatMap_append, List.flatMap_append, List.flatMap_cons,
      List.flatMap_cons, front, back, behind, own.contents_stored, List.append_nil, List.append_nil,
      List.append_assoc]

end Filled

namespace SliceList

variable (l : SliceList)

theorem toList_writeFront : l.writeFront.toList = l.toList := by
  simp only [writeFront]
  cases l.toList <;> rfl

theorem toList_writeNext : l.writeNext.toList = l.toList := by
  simp only [writeNext, toList]
  cases l.after <;> simp

theorem writeBack_pushBack (s : BufferSlice) : (l.pushBack s).writeBack = ⟨l.toList, some s, []⟩ := by
  have whole : (l.pushBack s).toList = l.toList ++ [s] := by
    simp only [toList, pushBack, List.append_assoc]
  rw [writeBack, whole, List.dropLast_concat, List.getLast?_concat]

end SliceList

/-! ## The calls of the sender -/

/-- The state of a message that is being written. -/
structure Sending {layout : PoolLayout} (custody : Custody layout) (buf : LinkedBuffer)
    (shm : Shm) (written : List UInt8) : Prop where
  filled : Exists fun ledger => Filled custody shm ledger buf.sliceList.toList written
  ahead : ∀ s ∈ buf.sliceList.after, s.writeIndex = 0
  fromShm : buf.isFromShm = true -> ∀ s ∈ buf.sliceList.toList, s.isFromShm = true

namespace Sending

variable {layout : PoolLayout} {custody : Custody layout} {shm' shm'' : Shm} {buf : LinkedBuffer}
  {written bytes : List UInt8} {w : BufferSlice} {list : SliceList}

theorem moveCursor (sending : Sending custody buf shm' written)
    (same : list.toList = buf.sliceList.toList) (forward : list.after ⊆ buf.sliceList.after)
    (len : Nat) : Sending custody ⟨list, buf.isFromShm, len⟩ shm' written where
  filled := by
    rw [same]
    exact sending.filled
  ahead := fun s member => sending.ahead s (forward member)
  fromShm := by
    rw [same]
    exact sending.fromShm

theorem extend {new : List BufferSlice} {fromShm : Bool}
    (sending : Sending custody buf shm' written)
    (filled : Exists fun ledger' =>
      Filled custody shm'' ledger' (buf.sliceList.toList ++ new) written)
    (empty : ∀ s ∈ new, s.writeIndex = 0)
    (flag : fromShm = true -> buf.isFromShm = true /\ ∀ s ∈ new, s.isFromShm = true) :
    Sending custody
      ⟨{ buf.sliceList with after := buf.sliceList.after ++ new }, fromShm, buf.len⟩ shm''
      written := by
  have longer : SliceList.toList { buf.sliceList with after := buf.sliceList.after ++ new } =
      buf.sliceList.toList ++ new := by
    simp only [SliceList.toList, List.append_assoc]
  refine ⟨?_, ?_, ?_⟩
  · rw [longer]
    exact filled
  · intro s member
    rcases List.mem_append.mp member with old | added
    · exact sending.ahead s old
    · exact empty s added
  · intro stays s member
    rcases flag stays with ⟨before, all⟩
    rw [longer] at member
    rcases List.mem_append.mp member with old | added
    · exact sending.fromShm before s old
    · exact all s added

theorem store (sending : Sending custody buf shm' written)
    (cursor : buf.sliceList.write = some w) (room : bytes.length <= w.remain) (len : Nat) :
    Sending custody
      ⟨{ buf.sliceList with write := some (w.stored bytes shm'.mem) }, buf.isFromShm, len⟩
      ⟨(w.store w.writeIndex bytes shm'.mem).2, shm'.log⟩ (written ++ bytes) := by
  have before : buf.sliceList.toList = buf.sliceList.before ++ w :: buf.sliceList.after := by
    rw [SliceList.toList, cursor, List.append_assoc]
    rfl
  have after : SliceList.toList { buf.sliceList with write := some (w.stored bytes shm'.mem) } =
      buf.sliceList.before ++ w.stored bytes shm'.mem :: buf.sliceList.after := by
    rw [SliceList.toList, List.append_assoc]
    rfl
  rcases sending.filled with ⟨ledger', filled⟩
  rw [before] at filled
  refine ⟨⟨ledger', ?_⟩, sending.ahead, ?_⟩
  · rw [after]
    exact filled.fill sending.ahead room
  · intro stays s member
    have all := sending.fromShm stays
    rw [before] at all
    rw [after] at member
    rcases List.mem_append.mp member with left | right
    · exact all s (List.mem_append_left _ left)
    · rcases List.mem_cons.mp right with rfl | later
      · rw [fromShm_stored]
        exact all w (List.mem_append_right _ List.mem_cons_self)
      · exact all s (List.mem_append_right _ (List.mem_cons_of_mem _ later))

theorem foldl_pushBack (slices : List BufferSlice) (buf : LinkedBuffer) :
    slices.foldl LinkedBuffer.pushBack buf =
      ⟨{ buf.sliceList with after := buf.sliceList.after ++ slices }, buf.isFromShm, buf.len⟩ := by
  induction slices generalizing buf with
  | nil => rw [List.foldl_nil, List.append_nil]
  | cons s rest ih =>
    rw [List.foldl_cons, ih]
    simp only [LinkedBuffer.pushBack, SliceList.pushBack, List.append_assoc, List.singleton_append]

theorem allocShmBuffer_cases (sending : Sending custody buf shm' written) (side : Side)
    (size : Nat) :
    (layout.view side).allocShmBuffer size shm' = (none, shm') \/
    (Exists fun slice => Exists fun shm'' =>
      (layout.view side).allocShmBuffer size shm' = (some slice, shm'') /\ size <= slice.cap /\
      slice.writeIndex = 0 /\ Sending custody (buf.pushBack slice) shm'' written) := by
  rcases sending.filled with ⟨ledger', filled⟩
  rcases (custody.rep filled.owned).allocShmBuffer_cases side size with
    refused | ⟨g, inside, large, b, shm'', result, own, _, taken⟩
  · exact Or.inl refused
  · have fresh : ∀ s ∈ [freshSlice b g.cap], IsFresh layout s := by
      intro s member
      rw [List.mem_singleton.mp member]
      exact ⟨g, inside, own, rfl⟩
    refine Or.inr ⟨_, shm'', result, large, rfl, ?_⟩
    exact sending.extend ⟨_, filled.grow fresh taken⟩ (fun s member => (fresh s member).writeIndex)
      fun stays => ⟨stays, fun s member => (fresh s member).fromShm⟩

variable {size : Nat}

theorem pushHeap (sending : Sending custody buf shm' written) (small : size < 2 ^ 32) :
    Sending custody (buf.pushHeap size) shm' written := by
  rcases sending.filled with ⟨ledger', filled⟩
  have positive : 0 < max size defaultSingleBufferSize :=
    Nat.lt_of_lt_of_le (by decide) (Nat.le_max_right ..)
  have bound : max size defaultSingleBufferSize < 2 ^ 32 := Nat.max_lt.mpr ⟨small, by decide⟩
  refine sending.extend ⟨ledger', filled.growHeap positive bound⟩ ?_ ?_
  · intro s member
    rw [List.mem_singleton.mp member]
    rfl
  · intro never
    cases never

/-- `alloc` adds empty slices behind the cursor, at least one if there is something to
allocate. -/
theorem alloc (sending : Sending custody buf shm' written) (side : Side) (small : size < 2 ^ 32) :
    Exists fun buf' => Exists fun shm'' => Exists fun new =>
      buf.alloc (layout.view side) size shm' = (buf', shm'') /\
      Sending custody buf' shm'' written /\ (0 < size -> new ≠ []) /\
      buf'.sliceList = { buf.sliceList with after := buf.sliceList.after ++ new } /\
      buf'.len = buf.len := by
  rcases sending.allocShmBuffer_cases side size with
    refused | ⟨slice, shm'', result, _, _, after⟩
  · rcases sending.filled with ⟨ledger', filled⟩
    rcases (custody.rep filled.owned).allocShmBuffers_spec side size with
      ⟨slices, shm'', ledger'', result, fresh, taken⟩
    have pushed : Sending custody (slices.foldl LinkedBuffer.pushBack buf) shm''
        written := by
      rw [foldl_pushBack]
      exact sending.extend ⟨_, filled.grow fresh taken⟩
        (fun s member => (fresh s member).writeIndex)
        fun stays => ⟨stays, fun s member => (fresh s member).fromShm⟩
    simp only [LinkedBuffer.alloc, refused, result]
    by_cases short : 0 < (size : Int) - (slices.map fun s => (s.cap : Int)).sum
    · rw [if_pos short]
      have least : (0 : Int) <= (slices.map fun s => (s.cap : Int)).sum :=
        List.sum_nonneg fun x member => by
          rcases List.mem_map.mp member with ⟨s, _, rfl⟩
          exact Int.natCast_nonneg _
      have bound : ((size : Int) - (slices.map fun s => (s.cap : Int)).sum).toNat < 2 ^ 32 := by
        omega
      generalize ((size : Int) - (slices.map fun s => (s.cap : Int)).sum).toNat = remain at bound ⊢
      refine ⟨_, shm'', slices ++ [heapSlice (max remain defaultSingleBufferSize)], rfl,
        pushed.pushHeap bound,
        fun _ => List.append_ne_nil_of_right_ne_nil _ (List.cons_ne_nil _ _), ?_, ?_⟩
      · simp only [LinkedBuffer.pushHeap, LinkedBuffer.pushBack, SliceList.pushBack, foldl_pushBack,
          List.append_assoc]
      · simp only [LinkedBuffer.pushHeap, LinkedBuffer.pushBack, foldl_pushBack]
    · rw [if_neg short]
      refine ⟨_, shm'', slices, rfl, pushed, ?_, ?_, ?_⟩
      · rintro positive rfl
        exact short (by simpa using positive)
      · rw [foldl_pushBack]
      · rw [foldl_pushBack]
  · rw [LinkedBuffer.alloc, result]
    exact ⟨_, shm'', [slice], rfl, after, fun _ => List.cons_ne_nil _ _, rfl, rfl⟩

theorem ensureWrite (sending : Sending custody buf shm' written) (side : Side)
    (start : buf.sliceList.write = none -> buf.sliceList = .new) (small : size < 2 ^ 32) :
    Exists fun buf' => Exists fun shm'' =>
      buf.ensureWrite (layout.view side) size shm' = (buf', shm'') /\
      Sending custody buf' shm'' written /\ buf'.len = buf.len /\
      ((Exists fun w => buf'.sliceList.write = some w) \/
        (size = 0 /\ buf'.sliceList.write = none)) := by
  cases cursor : buf.sliceList.write with
  | some w =>
    refine ⟨buf, shm', ?_, sending, rfl, Or.inl ⟨w, cursor⟩⟩
    rw [LinkedBuffer.ensureWrite, cursor]
    rfl
  | none =>
    rcases sending.alloc side small with ⟨buf', shm'', new, result, after, some, list, len⟩
    have slices : buf'.sliceList = ⟨[], none, new⟩ := by
      rw [list, start cursor]
      rfl
    refine ⟨⟨buf'.sliceList.writeFront, buf'.isFromShm, buf'.len⟩, shm'', ?_, ?_, len, ?_⟩
    · rw [LinkedBuffer.ensureWrite, cursor, Option.isNone_none, if_pos rfl,
        Nat.mod_eq_of_lt small, result]
    · refine after.moveCursor buf'.sliceList.toList_writeFront ?_ _
      rw [slices]
      exact (List.tail_sublist _).subset
    · rw [slices]
      cases new with
      | nil => exact Or.inr ⟨Nat.eq_zero_of_not_pos fun positive => some positive rfl, rfl⟩
      | cons w rest => exact Or.inl ⟨w, rfl⟩

theorem fillReserved (sending : Sending custody buf shm' written)
    (cursor : buf.sliceList.write = some w) (room : bytes.length <= w.remain) (len : Nat) :
    Exists fun buf' => Exists fun shm'' =>
      LinkedBuffer.fillReserved bytes
        ⟨{ buf.sliceList with
           write := some { w with writeIndex := w.writeIndex + bytes.length } },
          buf.isFromShm, len⟩ shm' = (buf', shm'') /\
      Sending custody buf' shm'' (written ++ bytes) /\ buf'.len = len /\
      (Exists fun w' => buf'.sliceList.write = some w' /\
        w'.writeIndex = w.writeIndex + bytes.length) := by
  refine ⟨_, _, ?_, sending.store cursor room len, rfl, _, rfl, rfl⟩
  simp only [LinkedBuffer.fillReserved, Nat.add_sub_cancel, BufferSlice.stored, BufferSlice.store]
  split <;> rfl

/-- What a call leaves behind. -/
def Written (custody : Custody layout) (written : List UInt8) (len : Nat)
    (result : Option (LinkedBuffer × Shm)) : Prop :=
  Exists fun buf => Exists fun shm' => result = some (buf, shm') /\
    Sending custody buf shm' written /\ buf.len = len /\
    (Exists fun w => buf.sliceList.write = some w /\ 0 < w.writeIndex)

theorem written_fillReserved (sending : Sending custody buf shm' written)
    (cursor : buf.sliceList.write = some w) (room : bytes.length <= w.remain)
    (positive : 0 < bytes.length) (len : Nat) :
    Written custody (written ++ bytes) len
      (some (LinkedBuffer.fillReserved bytes
        ⟨{ buf.sliceList with
           write := some { w with writeIndex := w.writeIndex + bytes.length } },
          buf.isFromShm, len⟩ shm')) := by
  rcases sending.fillReserved cursor room len with
    ⟨buf', shm'', result, after, length, w', cursor', index⟩
  exact ⟨buf', shm'', congrArg some result, after, length, w', cursor', by omega⟩

theorem reserveNew (sending : Sending custody buf shm' written) (side : Side)
    (positive : 0 < bytes.length) (small : bytes.length < 2 ^ 32) :
    Written custody (written ++ bytes) (buf.len + bytes.length)
      ((buf.reserveNew (layout.view side) bytes.length shm').map fun (buf, shm) =>
        buf.fillReserved bytes shm) := by
  have atBack : forall (s : BufferSlice) (buf' : LinkedBuffer) (shm'' : Shm),
      Sending custody buf' shm'' written ->
      buf'.sliceList = buf.sliceList.pushBack s -> buf'.len = buf.len ->
      bytes.length <= s.remain ->
      Written custody (written ++ bytes) (buf.len + bytes.length)
        (((buf'.sliceList.writeBack.write.bind fun w => w.reserve bytes.length).map fun w =>
          (({ buf' with
              sliceList := { buf'.sliceList.writeBack with write := some w }
              len := buf'.len + bytes.length } : LinkedBuffer), shm'')).map fun (buf, shm) =>
                buf.fillReserved bytes shm) := by
    intro s buf' shm'' after list len room
    have same : buf'.sliceList.writeBack.toList = buf'.sliceList.toList := by
      rw [list, SliceList.writeBack_pushBack]
      simp only [SliceList.toList, SliceList.pushBack, List.append_assoc, List.append_nil]
      rfl
    have moved := after.moveCursor same (by
      rw [list, SliceList.writeBack_pushBack]
      exact List.nil_subset _) buf'.len
    have cursor : buf'.sliceList.writeBack.write = some s := by
      rw [list, SliceList.writeBack_pushBack]
    rw [cursor, Option.bind_some, BufferSlice.reserve, if_pos room, Option.map_some,
      Option.map_some, len]
    exact moved.written_fillReserved cursor room positive _
  rw [LinkedBuffer.reserveNew, Nat.mod_eq_of_lt small]
  rcases sending.allocShmBuffer_cases side bytes.length with
    refused | ⟨slice, shm'', result, large, empty, after⟩
  · rw [refused]
    refine atBack (heapSlice (max bytes.length defaultSingleBufferSize)) _ _
      (sending.pushHeap small) rfl rfl ?_
    have bound : max bytes.length defaultSingleBufferSize < 2 ^ 32 :=
      Nat.max_lt.mpr ⟨small, by decide⟩
    have cap : (heapSlice (max bytes.length defaultSingleBufferSize)).remain =
        max bytes.length defaultSingleBufferSize := Nat.mod_eq_of_lt bound
    rw [cap]
    exact Nat.le_max_left ..
  · rw [result]
    refine atBack slice _ _ after rfl rfl ?_
    rw [BufferSlice.remain, empty]
    exact large

theorem reserve (sending : Sending custody buf shm' written) (side : Side)
    (start : buf.sliceList.write = none -> buf.sliceList = .new)
    (positive : 0 < bytes.length) (small : bytes.length < 2 ^ 32) :
    Written custody (written ++ bytes) (buf.len + bytes.length)
      (buf.call (layout.view side) (.reserve bytes) shm') := by
  rcases sending.ensureWrite side start small with ⟨buf', shm'', ensured, after, len, cursor⟩
  rcases cursor.resolve_right fun empty => Nat.ne_of_gt positive empty.1 with ⟨w, cursor⟩
  rw [LinkedBuffer.call, LinkedBuffer.reserve, ensured]
  simp only [cursor, Option.bind_some]
  by_cases here : bytes.length <= w.remain
  · rw [BufferSlice.reserve, if_pos here, <- len]
    exact after.written_fillReserved cursor here positive _
  · rw [BufferSlice.reserve, if_neg here]
    cases ahead : buf'.sliceList.after with
    | nil =>
      rw [<- len]
      exact after.reserveNew side positive small
    | cons e rest =>
      by_cases there : bytes.length <= e.remain
      · have moved := after.moveCursor buf'.sliceList.toList_writeNext (by
          rw [SliceList.writeNext]
          exact (List.tail_sublist _).subset) buf'.len
        have cursor' : buf'.sliceList.writeNext.write = some e := by
          rw [SliceList.writeNext, ahead]
          rfl
        rw [List.head?_cons, Option.bind_some, BufferSlice.reserve, if_pos there, <- len]
        exact moved.written_fillReserved cursor' there positive _
      · rw [List.head?_cons, Option.bind_some, BufferSlice.reserve, if_neg there, <- len]
        exact after.reserveNew side positive small

theorem reserve_nil (sending : Sending custody buf shm' written) (side : Side)
    (start : buf.sliceList.write = none -> buf.sliceList = .new) {buf' : LinkedBuffer}
    (returned : buf.call (layout.view side) (.reserve []) shm' = some (buf', shm'')) :
    Sending custody buf' shm'' written /\ buf'.len = buf.len /\
      (Exists fun w => buf'.sliceList.write = some w) := by
  rcases sending.ensureWrite side start (Nat.two_pow_pos 32) with
    ⟨ready, shm1, ensured, after, len, cursor⟩
  rw [LinkedBuffer.call, LinkedBuffer.reserve, List.length_nil, ensured] at returned
  rcases cursor with ⟨w, cursor⟩ | ⟨_, none⟩
  · have room : ([] : List UInt8).length <= w.remain := Nat.zero_le _
    rcases after.fillReserved cursor room ready.len with
      ⟨last, shm2, result, filled, length, w', cursor', _⟩
    simp only [cursor, Option.bind_some, BufferSlice.reserve, Nat.zero_le, if_true,
      Option.map_some, Nat.add_zero, Option.some.injEq] at returned
    rw [List.length_nil, Nat.add_zero] at result
    rw [result] at returned
    cases returned
    rw [List.append_nil] at filled
    exact ⟨filled, length.trans len, w', cursor'⟩
  · simp only [none, Option.bind_none, Option.map_none] at returned
    cases returned

theorem ensureNext (sending : Sending custody buf shm' written) (side : Side) (positive : 0 < size)
    (small : size < 2 ^ 32) :
    Exists fun buf' => Exists fun shm'' => Exists fun e => Exists fun rest =>
      (if buf.sliceList.after.isEmpty then buf.alloc (layout.view side) (size % 2 ^ 32) shm'
        else (buf, shm')) = (buf', shm'') /\
      Sending custody buf' shm'' written /\ buf'.sliceList.after = e :: rest /\
      0 < e.remain /\ buf'.len = buf.len := by
  have roomy : forall {buf : LinkedBuffer} {shm' : Shm} {e : BufferSlice} {rest : List BufferSlice},
      Sending custody buf shm' written -> buf.sliceList.after = e :: rest ->
      0 < e.remain := by
    intro buf shm' e rest after list
    have member : e ∈ buf.sliceList.after := by
      rw [list]
      exact List.mem_cons_self
    rcases after.filled with ⟨_, filled⟩
    have writable := filled.writable e (List.mem_append_right _ member)
    rw [BufferSlice.remain, after.ahead e member]
    exact writable.cap_pos
  cases behind : buf.sliceList.after with
  | cons e rest =>
    rw [List.isEmpty_cons]
    exact ⟨buf, shm', e, rest, rfl, sending, behind, roomy sending behind, rfl⟩
  | nil =>
    rcases sending.alloc side small with ⟨buf', shm'', new, result, after, some, list, len⟩
    rw [List.isEmpty_nil, if_pos rfl, Nat.mod_eq_of_lt small, result]
    cases new with
    | nil => exact absurd rfl (some positive)
    | cons e rest =>
      have ahead : buf'.sliceList.after = e :: rest := by
        rw [list, behind]
        rfl
      exact ⟨buf', shm'', e, rest, rfl, after, ahead, roomy after ahead, len⟩

/-- The loop of `write_bytes` ends with all bytes written.  It needs a round for every
slice it fills, and one more if there is no room at the cursor. -/
theorem writeLoop {rounds : Nat} (sending : Sending custody buf shm' written)
    (side : Side) (cursor : buf.sliceList.write = some w) (positive : 0 < bytes.length)
    (small : bytes.length < 2 ^ 32)
    (enough : bytes.length + (if w.remain = 0 then 1 else 0) <= rounds) :
    Written custody (written ++ bytes) buf.len
      (buf.writeLoop (layout.view side) rounds bytes shm') := by
  induction rounds generalizing buf shm' written bytes w with
  | zero => omega
  | succ rounds ih =>
    have room : (bytes.take (min bytes.length w.remain)).length <= w.remain := by
      rw [List.length_take]
      omega
    have stored := sending.store cursor room buf.len
    simp only [LinkedBuffer.writeLoop, cursor, Option.bind_some, BufferSlice.append_eq]
    by_cases more : min bytes.length w.remain < bytes.length
    · rw [if_pos more]
      have left : (bytes.drop (min bytes.length w.remain)).length =
          bytes.length - min bytes.length w.remain := List.length_drop
      rcases stored.ensureNext side (Nat.sub_pos_of_lt more)
          (Nat.lt_of_le_of_lt (Nat.sub_le ..) small) with
        ⟨buf', shm'', e, rest, result, after, ahead, roomy, len⟩
      have moved := after.moveCursor buf'.sliceList.toList_writeNext (by
        rw [SliceList.writeNext]
        exact (List.tail_sublist _).subset) buf'.len
      have cursor' : buf'.sliceList.writeNext.write = some e := by
        rw [SliceList.writeNext, ahead]
        rfl
      rw [result]
      have fewer : (bytes.drop (min bytes.length w.remain)).length +
          (if e.remain = 0 then 1 else 0) <= rounds := by
        rw [if_neg (Nat.ne_of_gt roomy), left]
        split_ifs at enough <;> omega
      have later := ih moved cursor' (by rw [left]; omega) (by rw [left]; omega) fewer
      rw [List.append_assoc, List.take_append_drop] at later
      have same : buf'.len = buf.len := len
      rw [<- same]
      exact later
    · rw [if_neg more]
      have whole : bytes.take (min bytes.length w.remain) = bytes :=
        List.take_of_length_le (Nat.le_of_not_lt more)
      rw [whole] at stored ⊢
      exact ⟨_, _, rfl, stored, rfl, _, rfl, Nat.add_pos_right _ positive⟩

theorem writeBytes (sending : Sending custody buf shm' written) (side : Side)
    (start : buf.sliceList.write = none -> buf.sliceList = .new)
    (positive : 0 < bytes.length) (small : bytes.length < 2 ^ 32) :
    Written custody (written ++ bytes) (buf.len + bytes.length)
      (buf.call (layout.view side) (.writeBytes bytes) shm') := by
  rcases sending.ensureWrite side start small with ⟨buf', shm'', ensured, after, len, cursor⟩
  rcases cursor.resolve_right fun empty => Nat.ne_of_gt positive empty.1 with ⟨w, cursor⟩
  have some : bytes.isEmpty = false := by
    rw [List.isEmpty_eq_false_iff]
    exact List.length_pos_iff.mp positive
  rw [LinkedBuffer.call, LinkedBuffer.writeBytes, some, if_neg Bool.false_ne_true, ensured]
  have enough : bytes.length + (if w.remain = 0 then 1 else 0) <= bytes.length + 1 := by
    split_ifs <;> omega
  rcases after.writeLoop side cursor positive small enough with
    ⟨last, shm3, result, sent, len', w', cursor', index⟩
  simp only [result, Option.map_some]
  refine ⟨_, shm3, rfl, sent.moveCursor rfl (List.Subset.refl _) _, ?_, w', cursor', index⟩
  rw [len', len]

end Sending

/-- A message between two calls: nothing is written, or the cursor is at the last
slice that holds something. -/
structure AtRest {layout : PoolLayout} (custody : Custody layout) (buf : LinkedBuffer)
    (shm' : Shm) (written : List UInt8) : Prop where
  sending : Sending custody buf shm' written
  len : buf.len = written.length
  cursor : buf.sliceList = .new \/
    (Exists fun w => buf.sliceList.write = some w /\ 0 < w.writeIndex)

namespace AtRest

variable {layout : PoolLayout} {custody : Custody layout} {shm' : Shm} {ledger' : Ledger}
  {buf : LinkedBuffer} {written : List UInt8}

theorem start (owned : custody.Owns shm' ledger' []) : AtRest custody .new shm' [] where
  sending :=
    ⟨⟨ledger', Filled.start owned⟩, fun _ none => absurd none List.not_mem_nil,
      fun _ _ none => absurd none List.not_mem_nil⟩
  len := rfl
  cursor := Or.inl rfl

theorem call {c : LinkedBuffer.Call} (rest : AtRest custody buf shm' written)
    (side : Side) (positive : 0 < c.bytes.length) (small : c.bytes.length < 2 ^ 32) :
    Exists fun buf' => Exists fun shm'' =>
      buf.call (layout.view side) c shm' = some (buf', shm'') /\
      AtRest custody buf' shm'' (written ++ c.bytes) := by
  have begin : buf.sliceList.write = none -> buf.sliceList = .new := by
    intro none
    rcases rest.cursor with new | ⟨w, some, _⟩
    · exact new
    · rw [none] at some
      cases some
  have result : Sending.Written custody (written ++ c.bytes)
      (buf.len + c.bytes.length) (buf.call (layout.view side) c shm') := by
    cases c with
    | reserve bytes => exact rest.sending.reserve side begin positive small
    | writeBytes bytes => exact rest.sending.writeBytes side begin positive small
  rcases result with ⟨buf', shm'', returned, after, len, cursor⟩
  refine ⟨buf', shm'', returned, after, ?_, Or.inr cursor⟩
  rw [len, rest.len, List.length_append]

/-- Every sequence of calls returns, with all the bytes in order. -/
theorem callAll (rest : AtRest custody buf shm' written) (side : Side)
    {calls : List LinkedBuffer.Call}
    (sized : ∀ c ∈ calls, 0 < c.bytes.length /\ c.bytes.length < 2 ^ 32) :
    Exists fun buf' => Exists fun shm'' =>
      LinkedBuffer.callAll (layout.view side) calls buf shm' = some (buf', shm'') /\
      AtRest custody buf' shm'' (written ++ calls.flatMap LinkedBuffer.Call.bytes) := by
  induction calls generalizing buf shm' written with
  | nil =>
    rw [List.flatMap_nil, List.append_nil]
    exact ⟨buf, shm', rfl, rest⟩
  | cons c calls ih =>
    rcases sized c List.mem_cons_self with ⟨positive, small⟩
    rcases rest.call side positive small with ⟨buf', shm'', returned, after⟩
    rcases ih after fun c' later =>
      sized c' (List.mem_cons_of_mem _ later) with ⟨last, shm3, all, done⟩
    refine ⟨last, shm3, ?_, ?_⟩
    · rw [LinkedBuffer.callAll, returned]
      exact all
    · rw [List.flatMap_cons, <- List.append_assoc]
      exact done

end AtRest

/-- Between two calls, whatever they were: without a slice at the cursor there is no
slice. -/
structure Pending {layout : PoolLayout} (custody : Custody layout) (buf : LinkedBuffer)
    (shm : Shm) (written : List UInt8) : Prop where
  sending : Sending custody buf shm written
  len : buf.len = written.length
  start : buf.sliceList.write = none -> buf.sliceList = .new

namespace Pending

variable {layout : PoolLayout} {custody : Custody layout} {shm shm' : Shm} {ledger : Ledger}
  {buf buf' : LinkedBuffer} {written : List UInt8}

theorem new (owned : custody.Owns shm ledger []) : Pending custody .new shm [] where
  sending := (AtRest.start owned).sending
  len := rfl
  start := fun _ => rfl

theorem call {c : LinkedBuffer.Call} (pending : Pending custody buf shm written) (side : Side)
    (small : c.bytes.length < 2 ^ 32)
    (returned : buf.call (layout.view side) c shm = some (buf', shm')) :
    Pending custody buf' shm' (written ++ c.bytes) := by
  have of_written (result : Sending.Written custody (written ++ c.bytes)
      (buf.len + c.bytes.length) (buf.call (layout.view side) c shm)) :
      Pending custody buf' shm' (written ++ c.bytes) := by
    rcases result with ⟨last, shm'', result, sending, len, w, cursor, _⟩
    rw [returned] at result
    cases result
    refine ⟨sending, ?_, fun none => ?_⟩
    · rw [len, pending.len, List.length_append]
    · rw [none] at cursor
      cases cursor
  cases c with
  | reserve bytes =>
    cases bytes with
    | nil =>
      rcases pending.sending.reserve_nil side pending.start returned with ⟨sending, len, w, cursor⟩
      refine ⟨?_, ?_, fun none => ?_⟩
      · exact (List.append_nil written).symm ▸ sending
      · rw [len, pending.len]
        exact (List.append_nil written).symm ▸ rfl
      · rw [none] at cursor
        cases cursor
    | cons byte bytes =>
      exact of_written (pending.sending.reserve side pending.start (Nat.succ_pos _) small)
  | writeBytes bytes =>
    cases bytes with
    | nil =>
      cases returned
      exact (List.append_nil written).symm ▸ pending
    | cons byte bytes =>
      exact of_written (pending.sending.writeBytes side pending.start (Nat.succ_pos _) small)

end Pending

end Pool
end Shmipc
