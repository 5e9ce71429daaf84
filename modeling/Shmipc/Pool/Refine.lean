import Shmipc.Pool.Operations

namespace Shmipc
namespace Pool

open ByteMemory Tiling
open Buffer (bufferHeaderSize bufferListHeaderSize)

/-!
# The operations follow the ledger

A `pop` that succeeds takes the first buffer of a queue, and it fails without a
trace unless the queue has a second buffer and its first one lies in the region
of the list.  A `push` gives a buffer back.
-/

section Log

variable {log : List PoolEvent} {g g' : ListLayout} {side side' : Side} {b : Nat}

theorem netTakes_took (log : List PoolEvent) (g : ListLayout) (side side' : Side) (b : Nat) :
    netTakes (log ++ [.took (g.view side) b]) (g.view side') =
      netTakes log (g.view side') + if side' = side then 1 else 0 := by
  rw [netTakes_snoc, PoolEvent.effect]
  by_cases same : side' = side
  · rw [if_pos same, if_pos (by rw [same])]
  · rw [if_neg same, if_neg fun equal => same (ListLayout.view_inj equal).2.symm]

theorem netTakes_returned (log : List PoolEvent) (g : ListLayout) (side side' : Side) (b : Nat) :
    netTakes (log ++ [.returned (g.view side) b]) (g.view side') =
      netTakes log (g.view side') - if side' = side then 1 else 0 := by
  rw [netTakes_snoc, PoolEvent.effect]
  by_cases same : side' = side
  · rw [if_pos same, if_pos (by rw [same]), Int.sub_eq_add_neg]
  · rw [if_neg same, if_neg fun equal => same (ListLayout.view_inj equal).2.symm, Int.sub_zero,
      Int.add_zero]

theorem netTakes_other {event : PoolEvent} (different : g'.offset ≠ g.offset)
    (about : event = .took (g.view side) b \/ event = .returned (g.view side) b) :
    netTakes (log ++ [event]) (g'.view side') = netTakes log (g'.view side') := by
  have views : g.view side ≠ g'.view side' := fun equal =>
    different (ListLayout.view_inj equal).1.symm
  rcases about with rfl | rfl <;>
    rw [netTakes_snoc, PoolEvent.effect, if_neg views, Int.add_zero]

theorem counter_update (net net' : Side -> Int) (side : Side) (delta : Int)
    (counted : forall side', net' side' = net side' + if side' = side then delta else 0) :
    Function.update (fun side => (net side).bmod (2 ^ 32)) side
        (((net side).bmod (2 ^ 32) + delta).bmod (2 ^ 32)) =
      fun side => (net' side).bmod (2 ^ 32) := by
  funext side'
  by_cases same : side' = side
  · subst same
    rw [Function.update_self, Int.bmod_add_bmod, counted, if_pos rfl]
  · rw [Function.update_of_ne same, counted, if_neg same, Int.add_zero]

end Log

namespace Ledger

variable {layout : PoolLayout} {ledger : Ledger} {g : ListLayout} {b : Nat}

/-- A buffer that may stand in a queue and lies in the region of its list belongs
to the list. -/
theorem Fits.mem_buffers (fits : Fits layout g b) (inside : g ∈ layout.lists)
    (own : b + g.stride <= g.stop) : b ∈ g.buffers := by
  rcases fits with ⟨home, listed, buffer, _, order⟩
  by_cases same : g = home
  · rw [same]
    exact buffer
  · have apart := PoolLayout.lists_apart inside listed same
    have bounds := ListLayout.bounds_of_mem buffer
    have long := g.stride_pos
    simp only [ListLayout.region, ListLayout.stop, bufferListHeaderSize, bufferHeaderSize] at *
    omega

theorem Fits.region_le (fits : Fits layout g b) : g.region <= b := by
  rcases fits with ⟨home, listed, buffer, _, order⟩
  have lower := (ListLayout.bounds_of_mem buffer).1
  simp only [ListLayout.region] at *
  omega

theorem Fits.end_le (fits : Fits layout g b) : b + g.stride <= layout.memLen := by
  rcases fits with ⟨home, listed, buffer, cap, _⟩
  have upper := (ListLayout.bounds_of_mem buffer).2
  have inside := (PoolLayout.bounds listed).2
  simp only [ListLayout.stride] at *
  omega

/-- The list can hand out a buffer: its first free buffer is not the last one and
lies in its own region. -/
def Ready (ledger : Ledger) (g : ListLayout) : Prop :=
  Exists fun b => Exists fun next => Exists fun rest =>
    ledger.chain g.offset = b :: next :: rest /\ b ∈ g.buffers

end Ledger

namespace Represents

variable {layout : PoolLayout} {shm : Shm} {ledger : Ledger} {g g' : ListLayout} {b : Nat}

theorem size_eq (rep : Represents layout shm ledger) (inside : g ∈ layout.lists) :
    (ListHeader.read shm.mem g.offset).size = (ledger.chain g.offset).length := by
  rw [rep.header g inside]
  rfl

theorem capPerBuffer_eq (rep : Represents layout shm ledger) (inside : g ∈ layout.lists) :
    (ListHeader.read shm.mem g.offset).capPerBuffer = g.cap := by
  rw [rep.header g inside]
  rfl

/-- A list that is not ready has no buffer to spare, or one that is not its own in
front. -/
theorem refuses_of_not_ready (rep : Represents layout shm ledger) (inside : g ∈ layout.lists)
    (refused : ¬ ledger.Ready g) :
    (ListHeader.read shm.mem g.offset).size <= 1 \/
      g.regionLen <
        ((ListHeader.read shm.mem g.offset).head + g.stride) % 2 ^ 32 := by
  rw [rep.size_eq inside, rep.header g inside]
  cases queue : ledger.chain g.offset with
  | nil => exact absurd queue (rep.sound.nonempty g inside)
  | cons b rest =>
    cases rest with
    | nil => exact Or.inl (by simp)
    | cons next rest =>
      have fits := rep.sound.fits g inside b (by rw [queue]; exact List.mem_cons_self)
      have foreign : g.stop < b + g.stride := by
        by_contra own
        exact refused ⟨b, next, rest, queue, fits.mem_buffers inside (Nat.le_of_not_lt own)⟩
      have lower := fits.region_le
      have upper := fits.end_le
      have small := layout.memLen_lt
      right
      simp only [Ledger.listHeader, queue, List.headD_cons]
      rw [Nat.mod_eq_of_lt (by omega)]
      simp only [ListLayout.stop] at foreign
      omega

theorem pop_refused (rep : Represents layout shm ledger) (inside : g ∈ layout.lists)
    (side : Side) (refused : ¬ ledger.Ready g) : (g.view side).pop shm = (none, shm) :=
  BufferList.pop_refused side (rep.capPerBuffer_eq inside) (rep.refuses_of_not_ready inside refused)

variable {event : PoolEvent} {side : Side}

/-- An operation on one list and some of its buffers keeps the rest of the
representation: what is left to show concerns that list and those buffers. -/
theorem of_touched {bs : List Nat} {mem : Memory} {ledger' : Ledger}
    (rep : Represents layout shm ledger) (inside : g ∈ layout.lists) (known : bs ⊆ layout.buffers)
    (agree : AgreeOff (touched g bs) shm.mem mem)
    (about : event = .took (g.view side) b \/ event = .returned (g.view side) b)
    (fits : Ledger.Fits layout g b)
    (others : forall offset, offset ≠ g.offset -> ledger'.chain offset = ledger.chain offset)
    (apart : ∀ g' ∈ layout.lists, g' ≠ g -> ∀ c ∈ ledger.chain g'.offset, c ∉ bs)
    (sound : ledger'.Sound layout)
    (header : ListHeader.read mem g.offset = ledger'.listHeader (shm.log ++ [event]) g)
    (thread : Threaded (freeLink mem g) (ledger'.chain g.offset))
    (empty : ∀ c ∈ ledger'.chain g.offset,
      (BufferHeader.read mem c).size = 0 /\ (BufferHeader.read mem c).start = 0)
    (cap : ∀ c ∈ bs, (BufferHeader.read mem c).cap = (BufferHeader.read shm.mem c).cap)
    (balance : ((ledger'.chain g.offset).length : Int) +
      (netTakes (shm.log ++ [event]) (g.view .creator) +
        netTakes (shm.log ++ [event]) (g.view .mapper)) = g.count) :
    Represents layout ⟨mem, shm.log ++ [event]⟩ ledger' := by
  have start := start_of_touched inside known agree
  have different : ∀ g' ∈ layout.lists, g' ≠ g -> g'.offset ≠ g.offset :=
    fun g' listed other same => other (PoolLayout.eq_of_offset listed inside same)
  -- a free buffer of another list keeps its header
  have kept : ∀ g' ∈ layout.lists, g' ≠ g -> ∀ c ∈ ledger.chain g'.offset,
      BufferHeader.read mem c = BufferHeader.read shm.mem c := by
    intro g' listed other c queued
    exact bufferHeader_of_touched inside known agree
      (Ledger.Sound.mem_buffers (rep.sound.fits g' listed c queued)) (apart g' listed other c queued)
  refine ⟨sound, ?_, ?_, ?_, ?_, ?_, ?_, ?_, ?_⟩
  · rw [readWord_congr (start.mono (Nat.le_refl _) (Nat.add_le_add_left (by decide) _))]
    exact rep.number
  · rw [readWord_congr (start.mono (Nat.le_add_right ..) (by
      rw [Nat.add_assoc]
      exact Nat.add_le_add_left (by decide) _))]
    exact rep.used
  · intro g' listed
    by_cases same : g' = g
    · subst same
      exact header
    · have offset := different g' listed same
      rw [listHeader_of_touched inside known agree listed same, rep.header g' listed,
        Ledger.listHeader, Ledger.listHeader, others _ offset]
      exact congrArg (ListHeader.mk _ _ _ _ _) (funext fun side' => by
        rw [netTakes_other offset about])
  · intro g' listed
    by_cases same : g' = g
    · subst same
      exact thread
    · rw [others _ (different g' listed same)]
      refine (rep.thread g' listed).congr fun c queued => ?_
      rw [freeLink, freeLink, kept g' listed same c queued]
  · intro g' listed
    by_cases same : g' = g
    · subst same
      exact empty
    · rw [others _ (different g' listed same)]
      intro c queued
      rw [kept g' listed same c queued]
      exact rep.empty g' listed c queued
  · intro home listed c buffer
    by_cases changed : c ∈ bs
    · rw [cap c changed]
      exact rep.cap home listed c buffer
    · rw [bufferHeader_of_touched inside known agree
        (PoolLayout.mem_buffers.mpr ⟨home, listed, buffer⟩) changed]
      exact rep.cap home listed c buffer
  · intro entry listed
    rcases List.mem_append.mp listed with old | new
    · exact rep.logged entry old
    · exact ⟨g, inside, side, b, List.mem_singleton.mp new ▸ about, fits⟩
  · intro g' listed
    by_cases same : g' = g
    · subst same
      exact balance
    · have offset := different g' listed same
      rw [others _ offset, netTakes_other offset about, netTakes_other offset about]
      exact rep.balance g' listed

theorem pop_taken {next : Nat} {rest : List Nat} (rep : Represents layout shm ledger)
    (inside : g ∈ layout.lists) (side : Side)
    (queue : ledger.chain g.offset = b :: next :: rest) (own : b ∈ g.buffers) :
    Exists fun mem => (g.view side).pop shm =
        (some (freshSlice b g.cap), ⟨mem, shm.log ++ [.took (g.view side) b]⟩) /\
      AgreeOff (touched g [b]) shm.mem mem /\
      Represents layout ⟨mem, shm.log ++ [.took (g.view side) b]⟩ (ledger.take g b) := by
  have queued : b ∈ ledger.chain g.offset := by rw [queue]; exact List.mem_cons_self
  rcases ListLayout.bounds_of_mem own with ⟨lower, upper⟩
  have small : g.stop < 2 ^ 32 :=
    Nat.lt_of_le_of_lt (PoolLayout.bounds inside).2 layout.memLen_lt
  have thread := rep.thread g inside
  rw [queue] at thread
  rcases Option.map_eq_some_iff.mp thread.1 with ⟨relative, linked, nextEq⟩
  have many : 1 < (ListHeader.read shm.mem g.offset).size := by
    rw [rep.size_eq inside, queue]
    simp only [List.length_cons]
    omega
  have first : (ListHeader.read shm.mem g.offset).head = b - g.region := by
    rw [rep.header g inside, Ledger.listHeader, queue]
    rfl
  rcases BufferList.pop_taken side lower upper small
    (rep.capPerBuffer_eq inside) many first linked (rep.cap g inside b own)
    (rep.empty g inside b queued) with ⟨mem, result, agree, list, buffer⟩
  refine ⟨mem, result, agree, ?_⟩
  have known : [b] ⊆ layout.buffers :=
    List.cons_subset.mpr ⟨PoolLayout.mem_buffers.mpr ⟨g, inside, own⟩, List.nil_subset _⟩
  have after := Ledger.chain_take_self queue
  have fresh : b ∉ next :: rest := by
    have distinct := rep.sound.nodup_chain inside
    rw [queue] at distinct
    exact (List.nodup_cons.mp distinct).1
  have kept : ∀ c ∈ next :: rest, BufferHeader.read mem c = BufferHeader.read shm.mem c := by
    intro c later
    have queuedLater : c ∈ ledger.chain g.offset := by
      rw [queue]
      exact List.mem_cons_of_mem _ later
    refine bufferHeader_of_touched inside known agree
      (Ledger.Sound.mem_buffers (rep.sound.fits g inside c queuedLater)) ?_
    rw [List.mem_singleton]
    rintro rfl
    exact fresh later
  refine rep.of_touched inside known agree (Or.inl rfl) (rep.sound.fits g inside b queued)
    (fun offset other => Function.update_of_ne other _ _) ?_ (rep.sound.take inside queue)
    ?_ ?_ ?_ ?_ ?_
  · intro g' listed other c queuedThere changed
    rw [List.mem_singleton.mp changed] at queuedThere
    exact rep.sound.chains_disjoint inside listed other queued queuedThere
  · rw [list, rep.header g inside, Ledger.listHeader, Ledger.listHeader, after, queue]
    have length : (((b :: next :: rest).length : Int) - 1).bmod (2 ^ 32) =
        (next :: rest).length := by
      have bound := rep.sound.length_chain_lt inside
      rw [queue] at bound
      simp only [List.length_cons] at bound ⊢
      rw [Int.bmod_eq_of_le (by omega) (by omega)]
      omega
    have headEq : relative = (next :: rest).headD g.region - g.region := by
      rw [List.headD_cons, <- nextEq, Nat.add_sub_cancel_left]
    have counters := counter_update (fun side => netTakes shm.log (g.view side))
      (fun side' => netTakes (shm.log ++ [.took (g.view side) b]) (g.view side')) side 1
      (fun side' => netTakes_took shm.log g side side' b)
    simp only [length, headEq, counters]
    rfl
  · rw [after]
    refine thread.2.congr fun c later => ?_
    rw [freeLink, freeLink, kept c later]
  · rw [after]
    intro c later
    rw [kept c later]
    exact rep.empty g inside c (by rw [queue]; exact List.mem_cons_of_mem _ later)
  · intro c changed
    rw [List.mem_singleton.mp changed, buffer]
  · have balance := rep.balance g inside
    rw [queue] at balance
    rw [after, netTakes_took, netTakes_took]
    simp only [List.length_cons] at balance ⊢
    cases side <;> simp <;> omega

theorem push_given {slice : BufferSlice} (rep : Represents layout shm ledger)
    (inside : g ∈ layout.lists) (side : Side) (out : b ∈ ledger.held)
    (fits : Ledger.Fits layout g b) (header : slice.bufferHeader = some b)
    (offset : slice.offsetInShm = b) :
    Exists fun mem => ∃ last ∈ ledger.chain g.offset,
      (g.view side).push slice shm = ⟨mem, shm.log ++ [.returned (g.view side) b]⟩ /\
      AgreeOff (touched g [b, last]) shm.mem mem /\
      Represents layout ⟨mem, shm.log ++ [.returned (g.view side) b]⟩ (ledger.give g b) := by
  have ends : Exists fun init => Exists fun last => ledger.chain g.offset = init ++ [last] :=
    ⟨_, _, (List.dropLast_append_getLast (rep.sound.nonempty g inside)).symm⟩
  rcases ends with ⟨init, last, queue⟩
  have queuedLast : last ∈ ledger.chain g.offset := by
    rw [queue]
    exact List.mem_append_right _ (List.mem_singleton_self _)
  have lastFits := rep.sound.fits g inside last queuedLast
  have different : b ≠ last := by
    rintro rfl
    exact rep.sound.not_held inside queuedLast out
  have apart : b + bufferHeaderSize <= last \/ last + bufferHeaderSize <= b := by
    rcases fits with ⟨home, listed, buffer, _, _⟩
    rcases lastFits with ⟨home', listed', buffer', _, _⟩
    have clear := PoolLayout.buffers_apart listed buffer listed' buffer' different
    have long := home.stride_pos
    have long' := home'.stride_pos
    omega
  have small : b < 2 ^ 32 := by
    have upper := fits.end_le
    have bound := layout.memLen_lt
    omega
  have tail : (ListHeader.read shm.mem g.offset).tail = last - g.region := by
    rw [rep.header g inside, Ledger.listHeader, queue, List.getLastD_concat]
  rcases BufferList.push_effect side shm
    header offset fits.region_le small lastFits.region_le apart tail with
    ⟨mem, result, agree, list, buffer, linked⟩
  refine ⟨mem, last, queuedLast, result, agree, ?_⟩
  have known : [b, last] ⊆ layout.buffers :=
    List.cons_subset.mpr ⟨Ledger.Sound.mem_buffers fits,
      List.cons_subset.mpr ⟨Ledger.Sound.mem_buffers lastFits, List.nil_subset _⟩⟩
  have after := Ledger.chain_give_self ledger g b
  have distinct := rep.sound.nodup_chain inside
  rw [queue] at distinct
  have kept : ∀ c ∈ init, BufferHeader.read mem c = BufferHeader.read shm.mem c := by
    intro c earlier
    have queued : c ∈ ledger.chain g.offset := by
      rw [queue]
      exact List.mem_append_left _ earlier
    refine bufferHeader_of_touched inside known agree
      (Ledger.Sound.mem_buffers (rep.sound.fits g inside c queued)) ?_
    intro changed
    rcases List.mem_cons.mp changed with rfl | atEnd
    · exact rep.sound.not_held inside queued out
    · rw [List.mem_singleton.mp atEnd] at earlier
      exact (List.nodup_append.mp distinct).2.2 last earlier last (List.mem_singleton_self _) rfl
  refine rep.of_touched inside known agree (Or.inr rfl) fits
    (fun offset other => Function.update_of_ne other _ _) ?_ (rep.sound.give inside out fits)
    ?_ ?_ ?_ ?_ ?_
  · intro g' listed other c queued changed
    rcases List.mem_cons.mp changed with rfl | atEnd
    · exact rep.sound.not_held listed queued out
    · rw [List.mem_singleton.mp atEnd] at queued
      exact rep.sound.chains_disjoint inside listed other queuedLast queued
  · rw [list, rep.header g inside, Ledger.listHeader, Ledger.listHeader, after, queue]
    have length : (((init ++ [last]).length : Int) + 1).bmod (2 ^ 32) =
        (init ++ [last] ++ [b]).length := by
      have bound := (rep.sound.give inside out fits).length_chain_lt inside
      rw [after, queue] at bound
      have longer : (init ++ [last] ++ [b]).length = (init ++ [last]).length + 1 :=
        List.length_append
      rw [longer] at bound ⊢
      exact Int.bmod_eq_of_le (by omega) (by omega)
    have headEq : (init ++ [last] ++ [b]).headD g.region = (init ++ [last]).headD g.region := by
      cases init <;> rfl
    have counters := counter_update (fun side => netTakes shm.log (g.view side))
      (fun side' => netTakes (shm.log ++ [.returned (g.view side) b]) (g.view side')) side (-1)
      (fun side' => by
        simp only [netTakes_returned shm.log g side side' b]
        split_ifs <;> omega)
    simp only [length, headEq, List.getLastD_concat, Int.sub_eq_add_neg, counters]
  · rw [after, queue]
    have thread := rep.thread g inside
    rw [queue] at thread
    refine thread.snoc (fun c earlier => by rw [freeLink, freeLink, kept c earlier]) ?_ ?_
    · have set : (BufferHeader.read mem last).hasNext = true :=
        BufferHeader.hasNext_of_or (congrArg BufferHeader.flag linked)
      rw [freeLink, BufferHeader.link, if_pos set, linked, Option.map_some,
        Nat.add_sub_of_le fits.region_le]
    · rw [freeLink, BufferHeader.link_of_clear (congrArg BufferHeader.flag buffer)]
      rfl
  · rw [after, queue]
    intro c member
    rcases List.mem_append.mp member with old | new
    · have queued : c ∈ ledger.chain g.offset := by
        rw [queue]
        exact old
      rcases List.mem_append.mp old with earlier | atEnd
      · rw [kept c earlier]
        exact rep.empty g inside c queued
      · rw [List.mem_singleton.mp atEnd, linked]
        exact rep.empty g inside last queuedLast
    · rw [List.mem_singleton.mp new, buffer]
      exact ⟨rfl, rfl⟩
  · intro c changed
    rcases List.mem_cons.mp changed with rfl | atEnd
    · rw [buffer]
    · rw [List.mem_singleton.mp atEnd, linked]
  · have balance := rep.balance g inside
    rw [after, netTakes_returned, netTakes_returned]
    simp only [List.length_append, List.length_singleton]
    cases side <;> simp <;> omega

/-- Where no two lists share a capacity, a buffer is taken from the list in whose
region it lies, and given back to it. -/
theorem home_of_logged (rep : Represents layout shm ledger)
    (distinct : (layout.lists.map ListLayout.cap).Nodup) (inside : g ∈ layout.lists)
    (about : event = .took (g.view side) b \/ event = .returned (g.view side) b)
    (logged : event ∈ shm.log) : b ∈ g.buffers := by
  rcases rep.logged event logged with ⟨g', inside', side', b', entry, fits⟩
  have same : g.view side = g'.view side' /\ b = b' := by
    rcases about with rfl | rfl <;> rcases entry with equal | equal <;> injection equal
    · exact ⟨‹_›, ‹_›⟩
    · exact ⟨‹_›, ‹_›⟩
  rcases same with ⟨view, rfl⟩
  rw [PoolLayout.eq_of_offset inside inside' (ListLayout.view_inj view).1]
  exact Ledger.Sound.home_of_fits distinct inside' fits

end Represents

end Pool
end Shmipc
