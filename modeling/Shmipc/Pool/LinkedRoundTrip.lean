import Shmipc.Pool.LinkedSend

namespace Shmipc
namespace Pool

open ByteMemory
open BufferSlice (offsetInShm)
open Buffer (bufferHeaderSize)

/-!
# From the sender's slices to the receiver's

`done` leaves the message in the headers: each says how much its slice holds and
which slice comes next.  The receiver needs nothing but the offset of the first.
It keeps the slices that hold something and gives the empty ones back at once.
What it can read then are the bytes that were written, and every buffer that was
taken for the message is with the receiver or back in the pool.
-/

/-- The headers tell the slices apart from the first one on. -/
def Chained (mem : Memory) : List BufferSlice -> Prop
  | [] => True
  | s :: rest =>
    ((BufferHeader.read mem s.offsetInShm).size = s.size /\
      (BufferHeader.read mem s.offsetInShm).start = 0 /\
      (BufferHeader.read mem s.offsetInShm).link = rest.head?.map offsetInShm) /\
    Chained mem rest

variable {slices : List BufferSlice}

theorem Chained.congr {mem mem' : Memory} (chained : Chained mem slices) (same : ∀ s ∈ slices,
      BufferHeader.read mem' s.offsetInShm = BufferHeader.read mem s.offsetInShm) :
    Chained mem' slices := by
  induction slices with
  | nil => trivial
  | cons s rest ih =>
    refine ⟨?_, ih chained.2 fun s' later => same s' (List.mem_cons_of_mem _ later)⟩
    rw [same s List.mem_cons_self]
    exact chained.1

theorem read_updateHeader {size start : Nat} {next : Option Nat} (mem : Memory) (address : Nat)
    (sizeFits : size < 2 ^ 32) (startFits : start < 2 ^ 32) (nextFits : ∀ n ∈ next, n < 2 ^ 32) :
    (BufferHeader.read (updateHeader mem address size start next) address).size = size /\
    (BufferHeader.read (updateHeader mem address size start next) address).start = start /\
    (BufferHeader.read (updateHeader mem address size start next) address).link = next := by
  cases next with
  | none =>
    refine ⟨?_, ?_, BufferHeader.link_unlinkNext _ _⟩ <;>
      rw [updateHeader, BufferHeader.read_unlinkNext, BufferHeader.read_setStart _ _ startFits,
        BufferHeader.read_setSize _ _ sizeFits]
  | some next =>
    have fits := nextFits next rfl
    refine ⟨?_, ?_, BufferHeader.link_linkNext _ _ fits⟩ <;>
      rw [updateHeader, BufferHeader.read_linkNext _ _ fits,
        BufferHeader.read_setStart _ _ startFits, BufferHeader.read_setSize _ _ sizeFits]

/-- A slice of a message that is in the pool. -/
structure Carried (layout : PoolLayout) (s : BufferSlice) : Prop where
  writable : Writable layout s
  fromShm : s.isFromShm = true

namespace Carried

variable {layout : PoolLayout} {s : BufferSlice}

theorem handle (carried : Carried layout s) : IsHandle layout s := by
  rcases carried.writable.place with handle | ⟨heap, _⟩
  · exact handle
  · rw [carried.fromShm] at heap
    cases heap

theorem size_eq (carried : Carried layout s) : s.size = s.writeIndex := by
  rw [BufferSlice.size, carried.writable.readIndex, Nat.sub_zero]

theorem bounds (carried : Carried layout s) : s.offsetInShm < 2 ^ 32 /\ s.size < 2 ^ 32 := by
  rcases carried.handle with ⟨home, inside, buffer, cap, _⟩
  have upper := (ListLayout.bounds_of_mem buffer).2.trans (PoolLayout.bounds inside).2
  have small := layout.memLen_lt
  have index := carried.writable.writeIndex
  rw [carried.size_eq]
  simp only [ListLayout.stride] at upper
  omega

end Carried

section Update

variable {layout : PoolLayout} {slices : List BufferSlice} {mem : Memory}

theorem updateSlices_apply {x : Nat} (carried : ∀ s ∈ slices, Carried layout s)
    (missed : ∀ s ∈ slices, x < s.offsetInShm + 4 \/ s.offsetInShm + bufferHeaderSize <= x) :
    LinkedBuffer.updateSlices slices mem x = mem x := by
  induction slices generalizing mem with
  | nil => rfl
  | cons s rest ih =>
    rcases (carried s List.mem_cons_self).handle with ⟨_, _, _, _, header, _⟩
    rw [LinkedBuffer.updateSlices, ih (fun s' later => carried s' (List.mem_cons_of_mem _ later))
      fun s' later => missed s' (List.mem_cons_of_mem _ later), BufferSlice.update, header]
    refine updateHeader_agreeOutside _ _ _ _ _ x ?_
    have miss := missed s List.mem_cons_self
    simp only [bufferHeaderSize] at miss
    omega

theorem contents_updateSlices {s : BufferSlice} (carried : ∀ s ∈ slices, Carried layout s)
    (member : s ∈ slices) :
    s.contents (LinkedBuffer.updateSlices slices mem) = s.contents mem := by
  refine (carried s member).writable.contents_congr fun home inside buffer _ => ?_
  intro x lower upper
  refine updateSlices_apply carried fun s' there => ?_
  by_cases same : s.offsetInShm = s'.offsetInShm
  · exact Or.inr (by omega)
  · rcases (carried s' there).handle with ⟨home', inside', buffer', _⟩
    have apart := PoolLayout.buffers_apart inside buffer inside' buffer' same
    have long' := home'.stride_pos
    simp only [ListLayout.stride] at apart long'
    omega

theorem chained_updateSlices (carried : ∀ s ∈ slices, Carried layout s)
    (distinct : (slices.map offsetInShm).Nodup) :
    Chained (LinkedBuffer.updateSlices slices mem) slices := by
  induction slices generalizing mem with
  | nil => trivial
  | cons s rest ih =>
    have later : ∀ s' ∈ rest, Carried layout s' := fun s' member =>
      carried s' (List.mem_cons_of_mem _ member)
    have own := carried s List.mem_cons_self
    rcases List.nodup_cons.mp distinct with ⟨fresh, restDistinct⟩
    rcases own.handle with ⟨home, inside, buffer, _, header, _⟩
    have kept : AgreeOn (s.update (rest.head?.map offsetInShm) mem)
        (LinkedBuffer.updateSlices rest (s.update (rest.head?.map offsetInShm) mem))
        s.offsetInShm bufferHeaderSize := by
      intro x lower upper
      refine updateSlices_apply later fun s' member => ?_
      rcases (later s' member).handle with ⟨home', inside', buffer', _⟩
      have different : s.offsetInShm ≠ s'.offsetInShm := fun same =>
        fresh (same ▸ List.mem_map_of_mem member)
      have apart := PoolLayout.buffers_apart inside buffer inside' buffer' different
      have long := home.stride_pos
      have long' := home'.stride_pos
      omega
    have nextFits : ∀ n ∈ rest.head?.map offsetInShm, n < 2 ^ 32 := by
      intro n member
      rcases Option.map_eq_some_iff.mp member with ⟨s', first, rfl⟩
      exact (later s' (List.mem_of_mem_head? first)).bounds.1
    refine ⟨?_, ih later restDistinct⟩
    rw [LinkedBuffer.updateSlices, BufferHeader.read_congr kept, BufferSlice.update, header]
    rw [own.writable.start]
    exact read_updateHeader mem _ own.bounds.2 (by decide) nextFits

end Update

/-! ## The end of the sender's part -/

section Done

variable {layout : PoolLayout} {shm shm' : Shm} {ledger ledger' : Ledger}
  {slices : List BufferSlice}

theorem Custody.updateSlices {custody : Custody layout} {mine : List Nat}
    (owned : custody.Owns shm ledger mine) (carried : ∀ s ∈ slices, Carried layout s)
    (own : ∀ s ∈ slices, s.offsetInShm ∈ mine) :
    custody.Owns ⟨LinkedBuffer.updateSlices slices shm.mem, shm.log⟩ ledger mine := by
  induction slices generalizing shm with
  | nil => exact owned
  | cons s rest ih =>
    rcases (carried s List.mem_cons_self).handle with ⟨home, inside, buffer, _, header, _⟩
    have first : custody.Owns
        ⟨s.update (rest.head?.map offsetInShm) shm.mem, shm.log⟩ ledger mine := by
      refine custody.write owned inside buffer (own s List.mem_cons_self) ?_
      rw [BufferSlice.update, header]
      exact (updateHeader_agreeOutside _ _ _ _ _).mono (Nat.le_refl _) (by omega)
    exact ih first (fun s' later => carried s' (List.mem_cons_of_mem _ later))
      fun s' later => own s' (List.mem_cons_of_mem _ later)

theorem Represents.recycleAll (rep : Represents layout shm ledger) (side : Side)
    (handles : ∀ s ∈ slices, IsHandle layout s)
    (distinct : (slices.map offsetInShm).Nodup)
    (out : slices.map offsetInShm ⊆ ledger.held) :
    Exists fun ledger' => Moved layout shm ledger
      (slices.foldl (fun shm s => (layout.view side).recycleBuffer s shm) shm) ledger' []
      (slices.map offsetInShm) := by
  induction slices generalizing shm ledger with
  | nil => exact ⟨ledger, Moved.refl rep⟩
  | cons s rest ih =>
    rcases List.nodup_cons.mp distinct with ⟨fresh, restDistinct⟩
    rcases List.cons_subset.mp out with ⟨here, there⟩
    rcases rep.recycleBuffer_spec side (handles s List.mem_cons_self) here with ⟨g, _, _, _, moved⟩
    have stillOut : rest.map offsetInShm ⊆
        (ledger.give g s.offsetInShm).held := by
      intro b member
      refine moved.mem_held (there member) ?_
      rw [List.mem_singleton]
      rintro rfl
      exact fresh member
    rcases ih moved.rep
      (fun s' member => handles s' (List.mem_cons_of_mem _ member)) restDistinct stillOut with
      ⟨ledger', later⟩
    exact ⟨ledger', moved.trans later⟩

/-- A message that was handed over: the slices that hold it are chained, and the
others are back. -/
structure HandedOver (layout : PoolLayout) (shm : Shm) (ledger : Ledger) (shm' : Shm)
    (ledger' : Ledger) (slices : List BufferSlice) (returned : List Nat)
    (written : List UInt8) : Prop where
  moved : Moved layout shm ledger shm' ledger'
    (slices.map offsetInShm ++ returned) returned
  carried : ∀ s ∈ slices, Carried layout s
  chained : Chained shm'.mem slices
  contents : (slices.flatMap fun s => s.contents shm'.mem) = written

section Kept

variable {back : List Nat} (carried : ∀ s ∈ slices, Carried layout s)
  (out : slices.map offsetInShm ⊆ ledger.held)
  (others : ∀ s ∈ slices, s.offsetInShm ∉ back)
  (moved : Moved layout shm ledger shm' ledger' [] back)

include carried out others moved

/-! Moves that give other buffers back keep the message. -/

theorem Chained.of_moved (chained : Chained shm.mem slices) : Chained shm'.mem slices := by
  refine chained.congr fun s member => ?_
  rcases (carried s member).handle with ⟨home, inside, buffer, _⟩
  have kept := moved.kept home inside _ buffer (out (List.mem_map_of_mem member)) (others s member)
  exact BufferHeader.read_congr (kept.mono (Nat.le_refl _)
    (Nat.add_le_add_left home.stride_pos _))

theorem contents_of_moved :
    (slices.flatMap fun s => s.contents shm'.mem) =
      slices.flatMap fun s => s.contents shm.mem := by
  refine List.flatMap_congr fun s member => ?_
  refine (carried s member).writable.contents_congr fun home inside buffer _ => ?_
  have kept := moved.kept home inside _ buffer (out (List.mem_map_of_mem member)) (others s member)
  exact kept.mono (Nat.le_add_right ..) (by simp only [ListLayout.stride]; omega)

end Kept

theorem LinkedBuffer.len_done (bm : BufferManager) (buf : LinkedBuffer) (shm : Shm) :
    (buf.done bm shm).1.len = buf.len := by
  rw [done]
  split <;> rfl

variable {buf : LinkedBuffer} {w : BufferSlice}

variable {bm : BufferManager} {written : List UInt8}

theorem LinkedBuffer.done_new (stays : buf.isFromShm = true) (new : buf.sliceList = .new) :
    buf.done bm shm = (buf, shm) := by
  rcases buf with ⟨list, fromShm, len⟩
  cases new
  cases stays
  rfl

theorem LinkedBuffer.done_eq (stays : buf.isFromShm = true) (cursor : buf.sliceList.write = some w)
    (shm : Shm) :
    buf.done bm shm =
      (⟨⟨buf.sliceList.before, some w, []⟩, true, buf.len⟩,
        buf.sliceList.after.foldl (fun shm s => bm.recycleBuffer s shm)
          ⟨updateSlices (buf.sliceList.before ++ [w]) shm.mem, shm.log⟩) := by
  rw [done, stays, if_pos rfl]
  simp only [cursor, Option.isSome_some, if_true, SliceList.toList, Option.toList_some,
    List.append_nil]

/-- `done` chains the slices that hold the message, and gives those behind the
cursor back. -/
theorem Sending.done {custody : Custody layout} (sending : Sending custody buf shm written)
    (side : Side) (stays : buf.isFromShm = true) (cursor : buf.sliceList.write = some w)
    (used : buf.sliceList.before ++ [w] = slices) :
    Exists fun shm' => Exists fun ledger => Exists fun ledger' =>
      custody.Owns shm' ledger
        (slices.map offsetInShm ++ buf.sliceList.after.map offsetInShm) /\
      Moved layout shm' ledger (buf.done (layout.view side) shm).2 ledger' []
        (buf.sliceList.after.map offsetInShm) /\
      (∀ s ∈ slices, Carried layout s) /\
      Chained (buf.done (layout.view side) shm).2.mem slices /\
      (slices.flatMap fun s => s.contents (buf.done (layout.view side) shm).2.mem) = written := by
  rcases sending.filled with ⟨ledger, filled⟩
  have whole : buf.sliceList.toList = slices ++ buf.sliceList.after := by
    rw [SliceList.toList, cursor, <- used]
    rfl
  have all := sending.fromShm stays
  have carried : ∀ s ∈ buf.sliceList.toList, Carried layout s := fun s member =>
    ⟨filled.writable s member, all s member⟩
  have owned := filled.owned
  have contents := filled.contents
  rw [poolOffsets_eq_map all] at owned
  rw [whole] at carried owned contents
  rw [List.map_append] at owned
  rcases List.nodup_append.mp (custody.nodup owned) with ⟨distinctUsed, distinctAfter, apart⟩
  rcases List.append_subset.mp (custody.out owned) with ⟨outUsed, outAfter⟩
  have carriedUsed : ∀ s ∈ slices, Carried layout s := fun s member =>
    carried s (List.mem_append_left _ member)
  have updated := Custody.updateSlices owned carriedUsed fun s member =>
    List.mem_append_left _ (List.mem_map_of_mem member)
  rcases (custody.rep updated).recycleAll side
    (fun s member => (carried s (List.mem_append_right _ member)).handle) distinctAfter outAfter
    with ⟨ledger', given⟩
  have stored : (slices.flatMap fun s =>
      s.contents (LinkedBuffer.updateSlices slices shm.mem)) = written := by
    have behind : (buf.sliceList.after.flatMap fun s => s.contents shm.mem) = [] :=
      List.flatMap_eq_nil_iff.mpr fun s there => contents_of_writeIndex (sending.ahead s there)
    rw [List.flatMap_append, behind, List.append_nil] at contents
    rw [<- contents]
    exact List.flatMap_congr fun s member => contents_updateSlices carriedUsed member
  have others : ∀ s ∈ slices, s.offsetInShm ∉ buf.sliceList.after.map offsetInShm :=
    fun s member gone => apart _ (List.mem_map_of_mem member) _ gone rfl
  rw [LinkedBuffer.done_eq stays cursor, used]
  exact ⟨_, ledger, ledger', updated, given, carriedUsed,
    Chained.of_moved carriedUsed outUsed others given
      (chained_updateSlices carriedUsed distinctUsed),
    (contents_of_moved carriedUsed outUsed others given).trans stored⟩

theorem Sending.handedOver (sending : Sending (Custody.since layout shm ledger) buf shm' written)
    (side : Side) (stays : buf.isFromShm = true) (cursor : buf.sliceList.write = some w) :
    Exists fun ledger'' =>
      HandedOver layout shm ledger (buf.done (layout.view side) shm').2 ledger''
        (buf.sliceList.before ++ [w]) (buf.sliceList.after.map offsetInShm)
        written := by
  rcases sending.done side stays cursor rfl with
    ⟨_, _, ledger'', owned, given, carried, chained, contents⟩
  have moved := Moved.trans owned given
  rw [List.append_nil, List.nil_append] at moved
  exact ⟨ledger'', moved, carried, chained, contents⟩

end Done

/-- Of the buffers that were taken for it, those that hold the message are out. -/
theorem HandedOver.held_perm {layout : PoolLayout} {shm shm' : Shm} {ledger ledger' : Ledger}
    {returned : List Nat} {written : List UInt8}
    (sent : HandedOver layout shm ledger shm' ledger' slices returned written) :
    ledger'.held.Perm (slices.map offsetInShm ++ ledger.held) := by
  have perm := sent.moved.held
  rw [List.append_assoc] at perm
  have behind := perm.trans (List.perm_append_comm.append_left _)
  rw [<- List.append_assoc] at behind
  exact (List.perm_append_right_iff returned).mp behind

/-! ## The receiver's part -/

namespace Carried

variable {layout : PoolLayout} {shm : Shm} {ledger : Ledger} {s : BufferSlice}

/-- The receiver's handle of a slice. -/
def received (mem : Memory) (s : BufferSlice) : BufferSlice :=
  BufferSlice.new mem (some s.offsetInShm) (s.offsetInShm + bufferHeaderSize) s.cap s.offsetInShm
    true []

theorem received_eq (carried : Carried layout s) (rep : Represents layout shm ledger)
    (size : (BufferHeader.read shm.mem s.offsetInShm).size = s.size)
    (start : (BufferHeader.read shm.mem s.offsetInShm).start = 0) :
    received shm.mem s = { s with heap := [] } := by
  rcases carried.handle with ⟨home, inside, buffer, cap, header, fromShm, data⟩
  have headerCap := rep.cap home inside _ buffer
  have index : (0 + s.size) % 2 ^ 32 = s.writeIndex := by
    rw [Nat.zero_add, Nat.mod_eq_of_lt carried.bounds.2, carried.size_eq]
  simp only [received, BufferSlice.new, size, start, headerCap, index]
  cases s
  simp only [BufferSlice.mk.injEq] at *
  exact ⟨header.symm, data.symm, cap.symm, carried.writable.start.symm, trivial,
    carried.writable.readIndex.symm, trivial, fromShm.symm, trivial⟩

theorem readBufferSlice_eq (carried : Carried layout s) (rep : Represents layout shm ledger)
    (side : Side) :
    (layout.view side).readBufferSlice s.offsetInShm shm.mem = .ok (received shm.mem s) := by
  rcases carried.handle with ⟨home, inside, buffer, cap, _⟩
  rw [rep.readBufferSlice_eq side inside buffer, received, cap]

theorem without_heap (carried : Carried layout s) : Carried layout { s with heap := [] } := by
  rcases carried.handle with ⟨home, inside, buffer, cap, header, fromShm, data⟩
  exact ⟨{ carried.writable with
    place := Or.inl ⟨home, inside, buffer, cap, header, fromShm, data⟩ }, fromShm⟩

theorem contents_without_heap (carried : Carried layout s) (mem : Memory) :
    BufferSlice.contents { s with heap := [] } mem = s.contents mem := by
  rw [BufferSlice.contents, BufferSlice.contents, if_pos carried.fromShm, if_pos carried.fromShm]
  rfl

theorem length_contents (carried : Carried layout s) (mem : Memory) :
    (s.contents mem).length = s.size := by
  rw [BufferSlice.contents, if_pos carried.fromShm, length_readBytes]

end Carried

namespace LinkedBuffer

def offsets (buf : LinkedBuffer) : List Nat := buf.sliceList.toList.map offsetInShm

theorem toList_appendBufferSlice (buf : LinkedBuffer) (s : BufferSlice) :
    (buf.appendBufferSlice s).sliceList.toList = buf.sliceList.toList ++ [s] := by
  simp only [appendBufferSlice, SliceList.writeBack_pushBack]
  simp only [SliceList.toList, Option.toList_some, List.append_nil]

theorem offsets_appendBufferSlice (buf : LinkedBuffer) (s : BufferSlice) :
    (buf.appendBufferSlice s).offsets = buf.offsets ++ [s.offsetInShm] := by
  rw [offsets, toList_appendBufferSlice, List.map_append, offsets]
  rfl

theorem contents_appendBufferSlice (buf : LinkedBuffer) (s : BufferSlice) (mem : Memory) :
    (buf.appendBufferSlice s).contents mem = buf.contents mem ++ s.contents mem := by
  rw [contents, toList_appendBufferSlice, List.flatMap_append, List.flatMap_singleton, contents]

end LinkedBuffer

section Receive

variable {layout : PoolLayout} {shm : Shm} {ledger : Ledger} {slices : List BufferSlice}
  {rounds b : Nat}

theorem Represents.moveChain (rep : Represents layout shm ledger) (side : Side)
    (recv : LinkedBuffer)
    (first : slices.head?.map offsetInShm = some b)
    (carried : ∀ s ∈ slices, Carried layout s) (chained : Chained shm.mem slices)
    (last : ∀ w ∈ slices.getLast?, 0 < w.size)
    (kept : ∀ s ∈ recv.sliceList.toList, Carried layout s)
    (distinct : (recv.offsets ++ slices.map offsetInShm).Nodup)
    (out : recv.offsets ++ slices.map offsetInShm ⊆ ledger.held)
    (enough : slices.length <= rounds) :
    Exists fun recv' => Exists fun shm' => Exists fun ledger' => Exists fun back =>
      recv.moveChain (layout.view side) rounds b shm = some (recv', shm') /\
      Moved layout shm ledger shm' ledger' [] back /\
      (recv'.offsets ++ back).Perm (recv.offsets ++ slices.map offsetInShm) /\
      recv'.contents shm'.mem =
        recv.contents shm.mem ++ slices.flatMap (fun s => s.contents shm.mem) /\
      recv'.len = recv.len + (slices.flatMap fun s => s.contents shm.mem).length := by
  induction slices generalizing shm ledger recv rounds b with
  | nil => cases first
  | cons s rest ih =>
    cases rounds with
    | zero => cases enough
    | succ rounds =>
    cases first
    have own := carried s List.mem_cons_self
    have later : ∀ s' ∈ rest, Carried layout s' := fun s' member =>
      carried s' (List.mem_cons_of_mem _ member)
    rcases chained with ⟨⟨size, start, link⟩, chainedRest⟩
    rw [LinkedBuffer.moveChain, own.readBufferSlice_eq rep side, own.received_eq rep size start]
    have sameSize : BufferSlice.size { s with heap := [] } = s.size := rfl
    simp only [sameSize]
    by_cases empty : s.size = 0
    · -- an empty slice is never the last, and goes back at once
      cases rest with
      | nil => exact absurd (last s rfl) (by omega)
      | cons s' rest =>
        rcases BufferHeader.link_eq_some_iff.mp link with ⟨linked, nextEq⟩
        have here : s.offsetInShm ∈ ledger.held :=
          out (List.mem_append_right _ List.mem_cons_self)
        rcases rep.recycleBuffer_spec side own.without_heap.handle here with ⟨g, _, _, _, moved⟩
        rcases List.nodup_append.mp distinct with ⟨left, right, apart⟩
        rcases List.nodup_cons.mp right with ⟨fresh, distinctRest⟩
        have othersRest : ∀ c ∈ s' :: rest, c.offsetInShm ∉ [s.offsetInShm] := by
          intro c member same
          rw [<- List.mem_singleton.mp same] at fresh
          exact fresh (List.mem_map_of_mem member)
        have othersKept : ∀ c ∈ recv.sliceList.toList, c.offsetInShm ∉ [s.offsetInShm] := by
          intro c member same
          exact apart _ (List.mem_map_of_mem member) _ List.mem_cons_self
            (List.mem_singleton.mp same)
        have outRest : (s' :: rest).map offsetInShm ⊆ ledger.held :=
          fun c member => out (List.mem_append_right _ (List.mem_cons_of_mem _ member))
        have outKept : recv.offsets ⊆ ledger.held :=
          fun c member => out (List.mem_append_left _ member)
        have stillOut : recv.offsets ++ (s' :: rest).map offsetInShm ⊆
            (ledger.give g s.offsetInShm).held := by
          intro c member
          rcases List.mem_append.mp member with mine | pending
          · rcases List.mem_map.mp mine with ⟨slice, there, rfl⟩
            exact moved.mem_held (outKept mine) (othersKept slice there)
          · rcases List.mem_map.mp pending with ⟨slice, there, rfl⟩
            exact moved.mem_held (outRest pending) (othersRest slice there)
        rcases ih moved.rep recv rfl later
            (Chained.of_moved later outRest othersRest moved chainedRest) last kept
            (List.nodup_append.mpr ⟨left, distinctRest, fun c mine c' pending =>
              apart c mine c' (List.mem_cons_of_mem _ pending)⟩)
            stillOut (Nat.le_of_succ_le_succ enough) with
          ⟨recv', shm', ledger', back, result, movedLater, perm, contents, len⟩
        have nothing : s.contents shm.mem = [] := by
          rw [<- List.length_eq_zero_iff, own.length_contents, empty]
        have sameKept : recv.contents ((layout.view side).recycleBuffer { s with heap := [] }
            shm).mem = recv.contents shm.mem :=
          contents_of_moved kept outKept othersKept moved
        have sameRest := contents_of_moved later outRest othersRest moved
        refine ⟨recv', shm', ledger', s.offsetInShm :: back, ?_, moved.trans movedLater, ?_, ?_,
          ?_⟩
        · rw [if_pos empty, if_pos linked, nextEq]
          exact result
        · refine List.perm_middle.trans ((perm.cons s.offsetInShm).trans ?_)
          exact List.perm_middle.symm
        · rw [contents, sameKept, sameRest, List.flatMap_cons (x := s), nothing, List.nil_append]
        · rw [len, sameRest, List.flatMap_cons (x := s), nothing, List.nil_append]
    · have offsets := recv.offsets_appendBufferSlice { s with heap := [] }
      have contents := recv.contents_appendBufferSlice { s with heap := [] } shm.mem
      have len : (recv.appendBufferSlice { s with heap := [] }).len =
          recv.len + (s.contents shm.mem).length := by
        rw [own.length_contents]
        rfl
      rw [own.contents_without_heap] at contents
      rw [if_neg empty]
      cases rest with
      | nil =>
        have unlinked := BufferHeader.link_eq_none_iff.mp link
        rw [unlinked, if_neg Bool.false_ne_true]
        refine ⟨_, shm, ledger, [], rfl, Moved.refl rep, ?_, ?_, ?_⟩
        · rw [List.append_nil, offsets]
          exact List.Perm.refl _
        · rw [contents, List.flatMap_singleton]
        · rw [len, List.flatMap_singleton]
      | cons s' rest =>
        rcases BufferHeader.link_eq_some_iff.mp link with ⟨linked, nextEq⟩
        have received : ∀ c ∈ (recv.appendBufferSlice { s with heap := [] }).sliceList.toList,
            Carried layout c := by
          intro c member
          rw [LinkedBuffer.toList_appendBufferSlice] at member
          rcases List.mem_append.mp member with old | new
          · exact kept c old
          · rw [List.mem_singleton.mp new]
            exact own.without_heap
        have regroup : recv.offsets ++ (s :: s' :: rest).map offsetInShm =
            (recv.appendBufferSlice { s with heap := [] }).offsets ++
              (s' :: rest).map offsetInShm := by
          rw [offsets, List.append_assoc]
          rfl
        rw [regroup] at distinct out
        rcases ih rep _ rfl later chainedRest last received distinct out
            (Nat.le_of_succ_le_succ enough) with
          ⟨recv', shm', ledger', back, result, moved, perm, contents', len'⟩
        refine ⟨recv', shm', ledger', back, ?_, moved, ?_, ?_, ?_⟩
        · rw [if_pos linked, nextEq]
          exact result
        · rw [regroup]
          exact perm
        · rw [contents', contents, List.append_assoc, List.flatMap_cons (x := s)]
        · rw [len', len, List.flatMap_cons (x := s), List.length_append, Nat.add_assoc]

/-- A message that was handed over reaches an empty receive buffer as it was
written. -/
theorem HandedOver.received {shm' : Shm} {ledger' : Ledger} {returned : List Nat}
    {written : List UInt8} (sent : HandedOver layout shm ledger shm' ledger' slices returned written)
    (side : Side) (first : slices.head?.map offsetInShm = some b)
    (last : ∀ w ∈ slices.getLast?, 0 < w.size) (enough : slices.length <= rounds) :
    Exists fun recv => Exists fun shm'' => Exists fun back =>
      LinkedBuffer.moveChain (layout.view side) rounds b .new shm' = some (recv, shm'') /\
      recv.contents shm''.mem = written /\ recv.len = written.length /\
      tookOffsets shm''.log = tookOffsets shm'.log /\
      returnedOffsets shm''.log = returnedOffsets shm.log ++ (returned ++ back) /\
      (slices.map offsetInShm ++ returned).Perm
        (recv.offsets ++ (returned ++ back)) := by
  have out : slices.map offsetInShm ⊆ ledger'.held := fun c member =>
    sent.held_perm.mem_iff.mpr (List.mem_append_left _ member)
  have distinct : (slices.map offsetInShm).Nodup :=
    (List.nodup_append.mp (sent.held_perm.nodup_iff.mp sent.moved.rep.sound.nodup_held)).1
  rcases sent.moved.rep.moveChain side .new first sent.carried sent.chained last
      (fun _ none => absurd none List.not_mem_nil) distinct out enough with
    ⟨recv, shm'', ledger'', back, result, moved, perm, contents, len⟩
  refine ⟨recv, shm'', back, result, ?_, ?_, ?_, ?_, ?_⟩
  · rw [contents, sent.contents]
    rfl
  · rw [len, sent.contents]
    exact Nat.zero_add _
  · rw [moved.took, List.append_nil]
  · rw [moved.gave, sent.moved.gave, List.append_assoc]
  · refine (perm.symm.append_right returned).trans ?_
    rw [List.append_assoc]
    exact List.perm_append_comm.append_left _

end Receive

/-- What a sequence of calls has written is what the receiver gets, if it stayed in the
pool.  The buffers that were taken for it are distinct; each is with the receiver or was
given back, once. -/
theorem linked_message_round_trip {layout : PoolLayout} {shm : Shm} {ledger : Ledger}
    (pool : Represents layout shm ledger) (sender receiver : Side)
    (calls : List LinkedBuffer.Call)
    (sized : ∀ c ∈ calls, 0 < c.bytes.length /\ c.bytes.length < 2 ^ 32) :
    Exists fun buf => Exists fun shm1 =>
      LinkedBuffer.callAll (layout.view sender) calls .new shm = some (buf, shm1) /\
      (buf.isFromShm = true ->
        Exists fun taken => tookOffsets shm1.log = tookOffsets shm.log ++ taken /\ taken.Nodup /\
          forall rounds, buf.sliceList.toList.length <= rounds ->
            Exists fun recv => Exists fun shm2 => Exists fun returned =>
              LinkedBuffer.deliver (layout.view receiver) rounds
                (buf.done (layout.view sender) shm1).1 .new
                (buf.done (layout.view sender) shm1).2 = some (recv, shm2) /\
              recv.contents shm2.mem = calls.flatMap LinkedBuffer.Call.bytes /\
              recv.len = (calls.flatMap LinkedBuffer.Call.bytes).length /\
              tookOffsets shm2.log = tookOffsets shm1.log /\
              returnedOffsets shm2.log = returnedOffsets shm.log ++ returned /\
              taken.Perm (recv.offsets ++ returned)) := by
  have start : AtRest (Custody.since layout shm ledger) .new shm [] :=
    AtRest.start (Moved.refl pool)
  rcases start.callAll sender sized with ⟨buf, shm1, returned, rest⟩
  rw [List.nil_append] at rest
  refine ⟨buf, shm1, returned, fun stays => ?_⟩
  rcases rest.sending.filled with ⟨ledger1, filled⟩
  have moved : Moved layout shm ledger shm1 ledger1 _ [] := filled.owned
  rw [poolOffsets_eq_map (rest.sending.fromShm stays)] at moved
  refine ⟨_, moved.took, (List.nodup_append.mp moved.nodup_taken).1, fun rounds enough => ?_⟩
  rcases rest.cursor with new | ⟨w, cursor, index⟩
  · -- nothing was written, and nothing is handed over
    have nothing : calls.flatMap LinkedBuffer.Call.bytes = [] := by
      rw [<- filled.contents, new]
      rfl
    have len : (buf.done (layout.view sender) shm1).1.len = 0 := by
      rw [LinkedBuffer.len_done, rest.len, nothing]
      rfl
    refine ⟨.new, shm1, [], ?_, ?_, ?_, rfl, ?_, ?_⟩
    · rw [LinkedBuffer.deliver, if_pos len, LinkedBuffer.done_new stays new]
    · rw [nothing]
      rfl
    · rw [nothing]
      rfl
    · rw [moved.gave]
    · rw [new]
      exact List.Perm.refl _
  · rcases rest.sending.handedOver sender stays cursor with ⟨ledger2, sent⟩
    have whole : buf.sliceList.toList = (buf.sliceList.before ++ [w]) ++ buf.sliceList.after := by
      rw [SliceList.toList, cursor]
      rfl
    have carried := sent.carried w (List.mem_append_right _ (List.mem_singleton_self w))
    have written : 0 < (calls.flatMap LinkedBuffer.Call.bytes).length := by
      rw [<- sent.contents, List.flatMap_append, List.flatMap_singleton, List.length_append,
        carried.length_contents, carried.size_eq]
      omega
    have starts : Exists fun b =>
        (buf.sliceList.before ++ [w]).head?.map offsetInShm = some b := by
      cases buf.sliceList.before with
      | nil => exact ⟨_, rfl⟩
      | cons s before => exact ⟨_, rfl⟩
    rcases starts with ⟨b, first⟩
    have root : (buf.done (layout.view sender) shm1).1.rootBufOffset = b := by
      rw [LinkedBuffer.rootBufOffset, LinkedBuffer.done_eq stays cursor]
      simp only [SliceList.toList, Option.toList_some, List.append_nil, first, Option.getD_some]
    have last : ∀ w' ∈ (buf.sliceList.before ++ [w]).getLast?, 0 < w'.size := by
      intro w' member
      rw [List.getLast?_concat] at member
      cases member
      rw [carried.size_eq]
      exact index
    have fewer : (buf.sliceList.before ++ [w]).length <= rounds := by
      rw [whole, List.length_append] at enough
      omega
    rcases sent.received receiver first last fewer with
      ⟨recv, shm2, back, result, contents, len, took, gave, perm⟩
    refine ⟨recv, shm2, _, ?_, contents, len, ?_, gave, ?_⟩
    · rw [LinkedBuffer.deliver, if_neg, root]
      · exact result
      · rw [LinkedBuffer.len_done, rest.len]
        omega
    · rw [took, sent.moved.took, moved.took, whole, <- List.map_append]
    · rw [whole, List.map_append]
      exact perm

theorem linked_message_round_trip_three_calls :
    Exists fun bm => Exists fun mem => Exists fun buf => Exists fun shm =>
      BufferManager.create [⟨16, 50⟩, ⟨32, 50⟩] 500 0 (fun _ => 0) = .ok (bm, mem) /\
      LinkedBuffer.callAll bm
        [.writeBytes (List.replicate 40 1), .reserve (List.replicate 30 2), .writeBytes [3, 4, 5]]
        .new ⟨mem, []⟩ = some (buf, shm) /\
      Exists fun recv => Exists fun shm' =>
        LinkedBuffer.deliver bm buf.sliceList.toList.length (buf.done bm shm).1 .new
          (buf.done bm shm).2 = some (recv, shm') /\
        recv.contents shm'.mem = List.replicate 40 1 ++ List.replicate 30 2 ++ [3, 4, 5] := by
  have test : (BufferManager.create [⟨16, 50⟩, ⟨32, 50⟩] 500 0 (fun _ => 0)).toOption.any
      (fun pool => (LinkedBuffer.callAll pool.1
        [.writeBytes (List.replicate 40 1), .reserve (List.replicate 30 2), .writeBytes [3, 4, 5]]
        .new ⟨pool.2, []⟩).any fun sent => sent.1.isFromShm) = true := by
    decide +kernel
  rcases Transition.exists_ok_of_any test with ⟨⟨bm, mem⟩, created, test⟩
  rcases BufferManager.create_spec (by decide) (by decide) created with ⟨layout, _, _, rfl, _, rep⟩
  rcases linked_message_round_trip rep .creator .creator
    [.writeBytes (List.replicate 40 1), .reserve (List.replicate 30 2), .writeBytes [3, 4, 5]]
    (by decide) with ⟨buf, shm, sent, passed⟩
  simp only [Option.any_some, sent] at test
  rcases passed test with ⟨_, _, _, arrived⟩
  rcases arrived _ (Nat.le_refl _) with ⟨recv, shm', _, result, contents, _⟩
  exact ⟨_, mem, buf, shm, created, sent, recv, shm', result, contents⟩

end Pool
end Shmipc
