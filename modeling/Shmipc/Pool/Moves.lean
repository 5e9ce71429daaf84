import Shmipc.Pool.Refine

namespace Shmipc
namespace Pool

open ByteMemory Tiling
open Buffer (bufferHeaderSize bufferListHeaderSize)

/-!
# What a call of the manager does

Whatever a call does to the pool, it comes down to the buffers it took and the
buffers it gave back.  The buffers that were out before and were not given back
keep every byte.  Such moves compose, so loops over several lists or several
slices are described by the buffers of all rounds together.
-/

/-- The buffers that were taken, in order. -/
def tookOffsets (log : List PoolEvent) : List Nat :=
  log.filterMap fun
    | .took _ b => some b
    | .returned _ _ => none

/-- The buffers that were given back, in order. -/
def returnedOffsets (log : List PoolEvent) : List Nat :=
  log.filterMap fun
    | .took _ _ => none
    | .returned _ b => some b

structure Moved (layout : PoolLayout) (shm : Shm) (ledger : Ledger) (shm' : Shm)
    (ledger' : Ledger) (taken returned : List Nat) : Prop where
  rep : Represents layout shm' ledger'
  held : (ledger'.held ++ returned).Perm (taken ++ ledger.held)
  took : tookOffsets shm'.log = tookOffsets shm.log ++ taken
  gave : returnedOffsets shm'.log = returnedOffsets shm.log ++ returned
  kept : ∀ home ∈ layout.lists, ∀ b ∈ home.buffers, b ∈ ledger.held -> b ∉ returned ->
    AgreeOn shm.mem shm'.mem b home.stride

namespace Moved

variable {layout : PoolLayout} {shm shm' shm'' : Shm} {ledger ledger' ledger'' : Ledger}
  {taken taken' returned returned' : List Nat} {b : Nat}

theorem refl (rep : Represents layout shm ledger) : Moved layout shm ledger shm ledger [] [] where
  rep := rep
  held := by rw [List.append_nil, List.nil_append]
  took := (List.append_nil _).symm
  gave := (List.append_nil _).symm
  kept := fun _ _ _ _ _ _ _ _ _ => rfl

theorem mem_held (moved : Moved layout shm ledger shm' ledger' taken returned)
    (out : b ∈ ledger.held) (stays : b ∉ returned) : b ∈ ledger'.held := by
  have member := moved.held.mem_iff.mpr (List.mem_append_right _ out)
  exact (List.mem_append.mp member).resolve_right stays

theorem trans (first : Moved layout shm ledger shm' ledger' taken returned)
    (second : Moved layout shm' ledger' shm'' ledger'' taken' returned') :
    Moved layout shm ledger shm'' ledger'' (taken ++ taken') (returned ++ returned') where
  rep := second.rep
  held := by
    have one := second.held.append_right returned
    have two := first.held.append_left taken'
    have front : (ledger''.held ++ (returned ++ returned')).Perm
        (ledger''.held ++ returned' ++ returned) := by
      rw [List.append_assoc]
      exact List.perm_append_comm.append_left _
    have back : (taken' ++ (taken ++ ledger.held)).Perm (taken ++ taken' ++ ledger.held) := by
      rw [<- List.append_assoc]
      exact List.perm_append_comm.append_right _
    refine (front.trans one).trans ?_
    rw [List.append_assoc]
    exact two.trans back
  took := by rw [second.took, first.took, List.append_assoc]
  gave := by rw [second.gave, first.gave, List.append_assoc]
  kept := by
    intro home listed b buffer out stays
    have staysFirst : b ∉ returned := fun gone => stays (List.mem_append_left _ gone)
    have staysLater : b ∉ returned' := fun gone => stays (List.mem_append_right _ gone)
    have before := first.kept home listed b buffer out staysFirst
    have after := second.kept home listed b buffer (first.mem_held out staysFirst) staysLater
    exact fun x lower upper => (after x lower upper).trans (before x lower upper)

end Moved

/-- The handle of an empty buffer of one of the lists. -/
def IsFresh (layout : PoolLayout) (slice : BufferSlice) : Prop :=
  ∃ g ∈ layout.lists, slice.offsetInShm ∈ g.buffers /\ slice = freshSlice slice.offsetInShm g.cap

/-- The handle of a buffer of one of the lists, whatever the buffer holds. -/
def IsHandle (layout : PoolLayout) (slice : BufferSlice) : Prop :=
  ∃ g ∈ layout.lists, slice.offsetInShm ∈ g.buffers /\ slice.cap = g.cap /\
    slice.bufferHeader = some slice.offsetInShm /\ slice.isFromShm = true /\
    slice.data = slice.offsetInShm + bufferHeaderSize

theorem IsFresh.isHandle {layout : PoolLayout} {slice : BufferSlice}
    (fresh : IsFresh layout slice) : IsHandle layout slice := by
  rcases fresh with ⟨g, listed, buffer, shape⟩
  refine ⟨g, listed, buffer, ?_, ?_, ?_, ?_⟩ <;> rw [shape] <;> rfl

/-- The buffers that a header links to, one after the other. -/
def chainFrom (mem : Memory) : Nat -> Nat -> Option (List Nat)
  | 0, _ => none
  | rounds + 1, b =>
    match (BufferHeader.read mem b).link with
    | none => some [b]
    | some next => (chainFrom mem rounds next).map fun rest => b :: rest

theorem chainFrom_congr {mem mem' : Memory} {rounds b : Nat} {bs : List Nat}
    (chain : chainFrom mem rounds b = some bs)
    (same : ∀ c ∈ bs, BufferHeader.read mem' c = BufferHeader.read mem c) :
    chainFrom mem' rounds b = some bs := by
  induction rounds generalizing b bs with
  | zero => cases chain
  | succ rounds ih =>
    rw [chainFrom] at chain ⊢
    cases link : (BufferHeader.read mem b).link with
    | none =>
      rw [link] at chain
      cases chain
      rw [same b List.mem_cons_self, link]
    | some next =>
      rw [link] at chain
      rcases Option.map_eq_some_iff.mp chain with ⟨rest, walked, rfl⟩
      rw [same b List.mem_cons_self, link]
      simp only [ih walked fun c later => same c (List.mem_cons_of_mem _ later),
        Option.map_some]

namespace Represents

variable {layout : PoolLayout} {shm : Shm} {ledger : Ledger} {g home : ListLayout} {b : Nat}

theorem pop_cases (rep : Represents layout shm ledger) (inside : g ∈ layout.lists) (side : Side) :
    (¬ ledger.Ready g /\ (g.view side).pop shm = (none, shm)) \/
    (ledger.Ready g /\ Exists fun b => Exists fun shm' =>
      (g.view side).pop shm = (some (freshSlice b g.cap), shm') /\ b ∈ g.buffers /\
      shm'.log = shm.log ++ [.took (g.view side) b] /\
      Moved layout shm ledger shm' (ledger.take g b) [b] []) := by
  by_cases ready : ledger.Ready g
  · right
    refine ⟨ready, ?_⟩
    rcases ready with ⟨b, next, rest, queue, own⟩
    rcases rep.pop_taken inside side queue own with ⟨mem, result, agree, after⟩
    have queued : b ∈ ledger.chain g.offset := by rw [queue]; exact List.mem_cons_self
    have known : [b] ⊆ layout.buffers :=
      List.cons_subset.mpr ⟨PoolLayout.mem_buffers.mpr ⟨g, inside, own⟩, List.nil_subset _⟩
    refine ⟨b, _, result, own, rfl, after, ?_, ?_, ?_, ?_⟩
    · rw [List.append_nil]
      exact List.Perm.refl _
    · simp [tookOffsets]
    · simp [returnedOffsets]
    · intro home listed c buffer out _
      refine buffer_of_touched inside known agree listed buffer ?_
      rw [List.mem_singleton]
      rintro rfl
      exact rep.sound.not_held inside queued out
  · exact Or.inl ⟨ready, rep.pop_refused inside side ready⟩

variable {lists : List ListLayout} {rounds : Nat} {slice : BufferSlice}

/-- The lists that `alloc_shm_buffer` goes through all refuse, or one that is large
enough hands out a buffer. -/
theorem popFirst_cases (rep : Represents layout shm ledger) (side : Side) (size : Nat)
    (known : lists ⊆ layout.lists) :
    BufferManager.popFirst size (lists.map fun g => g.view side) shm = (none, shm) \/
    (∃ g ∈ layout.lists, size <= g.cap /\ Exists fun b => Exists fun shm' =>
      BufferManager.popFirst size (lists.map fun g => g.view side) shm =
        (some (freshSlice b g.cap), shm') /\ b ∈ g.buffers /\
      shm'.log = shm.log ++ [.took (g.view side) b] /\
      Moved layout shm ledger shm' (ledger.take g b) [b] []) := by
  induction lists with
  | nil => exact Or.inl rfl
  | cons g rest ih =>
    have inside := known List.mem_cons_self
    have capNow : readWord shm.mem (g.view side).capPerBuffer 4 = g.cap :=
      rep.capPerBuffer_eq inside
    have later := ih fun _ member => known (List.mem_cons_of_mem _ member)
    rw [List.map_cons, BufferManager.popFirst, capNow]
    by_cases large : size <= g.cap
    · rw [if_pos large]
      rcases rep.pop_cases inside side with ⟨_, result⟩ | ⟨_, b, shm', result, taken⟩
      · rw [result]
        exact later
      · rw [result]
        exact Or.inr ⟨g, inside, large, b, shm', rfl, taken⟩
    · rw [if_neg large]
      exact later

theorem allocShmBuffer_cases (rep : Represents layout shm ledger) (side : Side) (size : Nat) :
    (layout.view side).allocShmBuffer size shm = (none, shm) \/
    (∃ g ∈ layout.lists, size <= g.cap /\ Exists fun b => Exists fun shm' =>
      (layout.view side).allocShmBuffer size shm = (some (freshSlice b g.cap), shm') /\
      b ∈ g.buffers /\ shm'.log = shm.log ++ [.took (g.view side) b] /\
      Moved layout shm ledger shm' (ledger.take g b) [b] []) := by
  rw [BufferManager.allocShmBuffer]
  split_ifs
  · exact rep.popFirst_cases side size (List.Subset.refl layout.lists)
  · exact Or.inl rfl

/-- The rounds on one list end because the request is met or the list refuses. -/
theorem popWhile_spec (rep : Represents layout shm ledger) (inside : g ∈ layout.lists) (side : Side)
    {remain : Int} (enough : remain <= rounds) :
    Exists fun slices => Exists fun shm' => Exists fun ledger' =>
      BufferManager.popWhile (g.view side) rounds remain shm =
        (slices, remain - (slices.map fun s => (s.cap : Int)).sum, shm') /\
      (∀ s ∈ slices, s.offsetInShm ∈ g.buffers /\ s = freshSlice s.offsetInShm g.cap) /\
      (remain - (slices.map fun s => (s.cap : Int)).sum <= 0 \/ ¬ ledger'.Ready g) /\
      Moved layout shm ledger shm' ledger' (slices.map BufferSlice.offsetInShm) [] := by
  induction rounds generalizing shm ledger remain with
  | zero =>
    refine ⟨[], shm, ledger, ?_, fun _ none => absurd none List.not_mem_nil, Or.inl ?_,
      Moved.refl rep⟩
    · simp [BufferManager.popWhile]
    · simpa using enough
  | succ rounds ih =>
    by_cases more : 0 < remain
    · rcases rep.pop_cases inside side with ⟨notReady, result⟩ | ⟨_, b, shm1, result, own, _, moved⟩
      · refine ⟨[], shm, ledger, ?_, fun _ none => absurd none List.not_mem_nil, Or.inr notReady,
          Moved.refl rep⟩
        rw [BufferManager.popWhile, if_pos more, result]
        simp
      · have positive := (layout.positive g inside).2
        have less : remain - (g.cap : Int) <= rounds := by omega
        rcases ih moved.rep less with ⟨slices, shm', ledger', rest, fresh, ended, later⟩
        refine ⟨freshSlice b g.cap :: slices, shm', ledger', ?_, ?_, ?_, ?_⟩
        · rw [BufferManager.popWhile, if_pos more, result]
          simp only [freshSlice, List.map_cons, List.sum_cons] at rest ⊢
          rw [rest, Int.sub_sub]
        · intro s member
          rcases List.mem_cons.mp member with rfl | tail
          · exact ⟨own, rfl⟩
          · exact fresh s tail
        · rw [List.map_cons, List.sum_cons, <- Int.sub_sub]
          exact ended
        · exact moved.trans later
    · refine ⟨[], shm, ledger, ?_, fun _ none => absurd none List.not_mem_nil, Or.inl ?_,
        Moved.refl rep⟩
      · rw [BufferManager.popWhile, if_neg more]
        simp
      · simpa using more

/-- The loop over the lists takes buffers until the request is met or every list
has refused. -/
theorem popLists_spec (rep : Represents layout shm ledger) (side : Side) (remain : Int)
    (known : lists ⊆ layout.lists) :
    Exists fun slices => Exists fun shm' => Exists fun ledger' =>
      BufferManager.popLists (lists.map fun g => g.view side) remain shm =
        (slices, remain - (slices.map fun s => (s.cap : Int)).sum, shm') /\
      (∀ s ∈ slices, IsFresh layout s) /\
      Moved layout shm ledger shm' ledger' (slices.map BufferSlice.offsetInShm) [] := by
  induction lists generalizing shm ledger remain with
  | nil =>
    refine ⟨[], shm, ledger, ?_, fun _ none => absurd none List.not_mem_nil, Moved.refl rep⟩
    simp [BufferManager.popLists]
  | cons g rest ih =>
    have inside := known List.mem_cons_self
    by_cases more : 0 < remain
    · rcases rep.popWhile_spec inside side (Int.self_le_toNat remain) with
        ⟨slices, shm1, ledger1, first, fresh, _, moved⟩
      rcases ih moved.rep
        (remain - (slices.map fun s => (s.cap : Int)).sum)
        (fun _ member => known (List.mem_cons_of_mem _ member)) with
        ⟨others, shm', ledger', second, fresh', later⟩
      refine ⟨slices ++ others, shm', ledger', ?_, ?_, ?_⟩
      · rw [List.map_cons, BufferManager.popLists, if_pos more, first]
        simp only [second, List.map_append, List.sum_append, Int.sub_sub]
      · intro s member
        rcases List.mem_append.mp member with here | there
        · exact ⟨g, inside, fresh s here⟩
        · exact fresh' s there
      · rw [List.map_append]
        exact moved.trans later
    · refine ⟨[], shm, ledger, ?_, fun _ none => absurd none List.not_mem_nil, Moved.refl rep⟩
      rw [List.map_cons, BufferManager.popLists, if_neg more]
      simp

theorem allocShmBuffers_spec (rep : Represents layout shm ledger) (side : Side) (size : Nat) :
    Exists fun slices => Exists fun shm' => Exists fun ledger' =>
      (layout.view side).allocShmBuffers size shm =
        (slices, (slices.map fun s => (s.cap : Int)).sum, shm') /\
      (∀ s ∈ slices, IsFresh layout s) /\
      Moved layout shm ledger shm' ledger' (slices.map BufferSlice.offsetInShm) [] := by
  have known : layout.lists.reverse ⊆ layout.lists := fun _ member => List.mem_reverse.mp member
  rcases rep.popLists_spec side size known with ⟨slices, shm', ledger', result, fresh, moved⟩
  refine ⟨slices, shm', ledger', ?_, fresh, moved⟩
  rw [List.map_reverse] at result
  simp only [BufferManager.allocShmBuffers, PoolLayout.view, result]
  rw [Int.sub_sub_self]

theorem listFor_eq (rep : Represents layout shm ledger) (side : Side)
    (listed : home ∈ layout.lists) (buffer : b ∈ home.buffers) :
    ∃ g ∈ layout.lists, (layout.view side).listFor home.cap shm.mem = some (g.view side) /\
      g.cap = home.cap /\ Ledger.Fits layout g b := by
  have search : forall lists : List ListLayout, lists ⊆ layout.lists ->
      (lists.Pairwise fun g g' => g.stop <= g'.offset) -> home ∈ lists ->
      ∃ g ∈ lists, (lists.map fun g => g.view side).find?
          (fun l => home.cap == readWord shm.mem l.capPerBuffer 4) = some (g.view side) /\
        g.cap = home.cap /\ g.offset <= home.offset := by
    intro lists
    induction lists with
    | nil => exact fun _ _ none => absurd none List.not_mem_nil
    | cons first rest ih =>
      intro known ordered member
      have capNow : readWord shm.mem (first.view side).capPerBuffer 4 = first.cap :=
        rep.capPerBuffer_eq (known List.mem_cons_self)
      rcases List.pairwise_cons.mp ordered with ⟨before, tail⟩
      by_cases same : home.cap = first.cap
      · refine ⟨first, List.mem_cons_self, ?_, same.symm, ?_⟩
        · rw [List.map_cons, List.find?_cons_of_pos (by rw [capNow]; exact beq_iff_eq.mpr same)]
        · rcases List.mem_cons.mp member with rfl | later
          · exact Nat.le_refl _
          · have order := before home later
            simp only [ListLayout.stop, ListLayout.region] at order
            omega
      · have later : home ∈ rest := by
          rcases List.mem_cons.mp member with rfl | later
          · exact absurd rfl same
          · exact later
        rcases ih
          (fun _ there => known (List.mem_cons_of_mem _ there)) tail later with
          ⟨g, inside, found, cap, order⟩
        refine ⟨g, List.mem_cons_of_mem _ inside, ?_, cap, order⟩
        rw [List.map_cons, List.find?_cons_of_neg (by
          rw [capNow]
          simpa using same), found]
  rcases search layout.lists (List.Subset.refl _)
    layout.follow.pairwise listed with ⟨g, inside, found, cap, order⟩
  exact ⟨g, inside, found, cap, home, listed, buffer, cap.symm, order⟩

/-- `recycle_buffer` gives a buffer that is out back to the first list with its
capacity. -/
theorem recycleBuffer_spec (rep : Represents layout shm ledger) (side : Side)
    (handle : IsHandle layout slice) (out : slice.offsetInShm ∈ ledger.held) :
    ∃ g ∈ layout.lists, g.cap = slice.cap /\
      ((layout.view side).recycleBuffer slice shm).log =
        shm.log ++ [.returned (g.view side) slice.offsetInShm] /\
      Moved layout shm ledger ((layout.view side).recycleBuffer slice shm)
        (ledger.give g slice.offsetInShm) [] [slice.offsetInShm] := by
  rcases handle with ⟨home, listed, buffer, cap, header, fromShm, _⟩
  rcases rep.listFor_eq side listed buffer with ⟨g, inside, found, capEq, fits⟩
  rcases rep.push_given inside side out fits header rfl with
    ⟨mem, last, queued, result, agree, after⟩
  have pushed : (layout.view side).recycleBuffer slice shm =
      ⟨mem, shm.log ++ [.returned (g.view side) slice.offsetInShm]⟩ := by
    rw [BufferManager.recycleBuffer, fromShm, if_pos rfl, header]
    simp only [cap, found]
    exact result
  rw [pushed]
  have known : [slice.offsetInShm, last] ⊆ layout.buffers :=
    List.cons_subset.mpr ⟨Ledger.Sound.mem_buffers fits, List.cons_subset.mpr
      ⟨Ledger.Sound.mem_buffers (rep.sound.fits g inside last queued), List.nil_subset _⟩⟩
  refine ⟨g, inside, capEq.trans cap.symm, rfl, after, ?_, ?_, ?_, ?_⟩
  · exact List.perm_append_comm.trans (List.perm_cons_erase out).symm
  · simp [tookOffsets]
  · simp [returnedOffsets]
  · intro other listed' c buffer' outThere stays
    refine buffer_of_touched inside known agree listed' buffer' ?_
    intro changed
    rcases List.mem_cons.mp changed with rfl | atEnd
    · exact stays (List.mem_singleton_self _)
    · rw [List.mem_singleton.mp atEnd] at outThere
      exact rep.sound.not_held inside queued outThere

theorem readBufferSlice_eq (rep : Represents layout shm ledger) (side : Side)
    (listed : home ∈ layout.lists) (buffer : b ∈ home.buffers) :
    (layout.view side).readBufferSlice b shm.mem =
      .ok (BufferSlice.new shm.mem (some b) (b + bufferHeaderSize) home.cap b true []) := by
  have upper := (ListLayout.bounds_of_mem buffer).2.trans (PoolLayout.bounds listed).2
  have positive := (layout.positive home listed).2
  have small := layout.memLen_lt
  simp only [ListLayout.stride] at upper
  rw [BufferManager.readBufferSlice, rep.cap home listed b buffer]
  have first : (b + bufferHeaderSize) % 2 ^ 32 = b + bufferHeaderSize :=
    Nat.mod_eq_of_lt (by omega)
  have last : (b + bufferHeaderSize + home.cap) % 2 ^ 32 = b + bufferHeaderSize + home.cap :=
    Nat.mod_eq_of_lt (by omega)
  have length : wrappingSub (b + bufferHeaderSize + home.cap) (b + bufferHeaderSize) =
      home.cap := by
    rw [wrappingSub_of_le (Nat.le_add_right ..) (by omega), Nat.add_sub_cancel_left]
  simp only [PoolLayout.view, first, last, length]
  rw [if_neg (by omega), if_neg (by omega)]

theorem isHandle_new (rep : Represents layout shm ledger) (listed : home ∈ layout.lists)
    (buffer : b ∈ home.buffers) (len : Nat) :
    IsHandle layout (BufferSlice.new shm.mem (some b) (b + bufferHeaderSize) len b true []) :=
  ⟨home, listed, buffer, rep.cap home listed b buffer, rfl, rfl, rfl⟩

/-- `recycle_buffers` gives back all the buffers that the header of the first one
links to, if they are out and different from each other. -/
theorem recycleBuffers_spec {bs : List Nat} (rep : Represents layout shm ledger) (side : Side)
    (handle : IsHandle layout slice) (chain : chainFrom shm.mem rounds slice.offsetInShm = some bs)
    (distinct : bs.Nodup) (out : bs ⊆ ledger.held) :
    Exists fun shm' => Exists fun ledger' =>
      (layout.view side).recycleBuffers rounds slice shm = some shm' /\
      Moved layout shm ledger shm' ledger' [] bs := by
  induction rounds generalizing shm ledger slice bs with
  | zero => cases chain
  | succ rounds ih =>
    rcases handle with ⟨home, listed, buffer, cap, header, fromShm, place⟩
    have whole : IsHandle layout slice := ⟨home, listed, buffer, cap, header, fromShm, place⟩
    rw [BufferManager.recycleBuffers, fromShm, if_pos rfl, header]
    rw [chainFrom] at chain
    cases link : (BufferHeader.read shm.mem slice.offsetInShm).link with
    | none =>
      rw [link] at chain
      cases chain
      rcases rep.recycleBuffer_spec side whole (out List.mem_cons_self) with ⟨g, _, _, _, moved⟩
      simp only [BufferHeader.link_eq_none_iff.mp link]
      exact ⟨_, _, rfl, moved⟩
    | some next =>
      rw [link] at chain
      rcases Option.map_eq_some_iff.mp chain with ⟨rest, walked, rfl⟩
      rcases BufferHeader.link_eq_some_iff.mp link with ⟨linked, nextEq⟩
      rcases List.nodup_cons.mp distinct with ⟨fresh, restDistinct⟩
      rcases rep.recycleBuffer_spec side whole (out List.mem_cons_self) with ⟨g, _, _, _, moved⟩
      have others : ∀ c ∈ rest, c ∈ ledger.held := fun c later =>
        out (List.mem_cons_of_mem _ later)
      have single : ∀ c ∈ rest, c ∉ [slice.offsetInShm] := by
        intro c later same
        rw [List.mem_singleton.mp same] at later
        exact fresh later
      have stillOut : rest ⊆ (ledger.give g slice.offsetInShm).held := fun c later =>
        moved.mem_held (others c later) (single c later)
      have walked' : chainFrom ((layout.view side).recycleBuffer slice shm).mem rounds next =
          some rest := by
        refine chainFrom_congr walked fun c later => ?_
        rcases rep.sound.home (others c later) with ⟨home', listed', buffer'⟩
        exact BufferHeader.read_congr ((moved.kept home' listed' c buffer' (others c later)
          (single c later)).mono (Nat.le_refl _) (Nat.add_le_add_left home'.stride_pos c))
      have nextOut : next ∈ rest := by
        cases rounds with
        | zero => cases walked
        | succ rounds =>
          rw [chainFrom] at walked
          split at walked
          · cases walked
            exact List.mem_cons_self
          · rcases Option.map_eq_some_iff.mp walked with ⟨_, _, rfl⟩
            exact List.mem_cons_self
      rcases rep.sound.home (others next nextOut) with ⟨home', listed', buffer'⟩
      rcases ih moved.rep
        (moved.rep.isHandle_new listed' buffer' home'.cap) walked' restDistinct stillOut with
        ⟨shm', ledger', result, later⟩
      refine ⟨shm', ledger', ?_, moved.trans later⟩
      simp only [linked, if_true, nextEq, moved.rep.readBufferSlice_eq side listed' buffer']
      exact result

end Represents

end Pool
end Shmipc
