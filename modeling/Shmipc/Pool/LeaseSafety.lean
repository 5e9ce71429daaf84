import Shmipc.Pool.LeaseInvariant

namespace Shmipc
namespace Pool
namespace Lease

open Transition

/-!
# Every step of a call keeps the invariant

A call changes the slices of its buffer by taking bytes from the first slice, by
lending some, by resetting it, by taking it off the list, or by appending one.  This
module goes through the calls and collects what follows for a whole run.
-/

namespace Reader

variable {s t : Reader}

/-- Between two steps of a run.  Without a call there is no retirement, and a call
that gets as far as to lend a number of bytes was not asked for none. -/
structure Good (s : Reader) : Prop where
  inv : s.pins.Inv
  idle : s.running = none -> s.pins.hand = .empty
  asked : s.running ≠ some (.readExact 0)

theorem Good.done {value : Returned} (inv : s.pins.Inv) (free : s.pins.hand = .empty) :
    Good (s.done value) :=
  ⟨inv, fun _ => free, nofun⟩

variable {rest : Rest} {front : Slice}

theorem Good.continueWith (inv : s.pins.Inv) (asked : rest ≠ .readExact 0) :
    Good (s.continueWith rest) :=
  ⟨inv, nofun, fun same => asked (Option.some.inj same)⟩

theorem popFront_pins {rest : List Slice} (list : s.pins.sliceList = front :: rest) :
    s.popFront.pins = { s.pins with sliceList := rest } := by
  rw [popFront, list]

theorem Good.popRetire {slices : List Slice} (inv : s.pins.Inv) (free : s.pins.hand = .empty)
    (asked : rest ≠ .readExact 0) (list : s.pins.sliceList = front :: slices) :
    Good (s.popFront.retire front rest) := by
  refine ⟨?_, nofun, fun same => asked (Option.some.inj same)⟩
  show (s.popFront.pins.retire front).Inv
  rw [popFront_pins list]
  exact inv.popRetire list free

theorem Good.readNextSlice (inv : s.pins.Inv) (free : s.pins.hand = .empty)
    (asked : rest ≠ .readExact 0) : Good (s.readNextSlice rest) := by
  unfold Reader.readNextSlice
  cases list : s.pins.sliceList with
  | nil => exact .continueWith inv asked
  | cons front slices => exact .popRetire inv free asked list

theorem Good.lendAndRead {slices : List Slice} {n : Nat} (inv : s.pins.Inv)
    (free : s.pins.hand = .empty) (list : s.pins.sliceList = front :: slices)
    (nonempty : 0 < front.size) : Good (s.lendAndRead front n) := by
  have listed : front ∈ s.pins.sliceList := list ▸ List.mem_cons_self
  refine .done ((inv.lend listed (List.ne_nil_of_length_pos nonempty) n).consume n) ?_
  exact (Pins.lend_hand s.pins front n).trans free

theorem Good.resume (good : Good s) (free : s.pins.hand = .empty) {rest : Rest}
    (running : s.running = some rest) : Good (s.resume rest) := by
  have inv := good.inv
  cases rest with
  | readChunk =>
    rw [Reader.resume]
    cases list : s.pins.sliceList with
    | nil => exact .done inv free
    | cons front slices =>
      dsimp only
      split
      · exact .readNextSlice inv free nofun
      · split
        · exact .done inv free
        case isFalse nonempty _ =>
          exact .lendAndRead inv free list (Nat.pos_of_ne_zero nonempty)
  | readExact size =>
    have asked : size ≠ 0 := fun none => good.asked (none ▸ running)
    rw [Reader.resume]
    cases list : s.pins.sliceList with
    | nil => exact .continueWith inv nofun
    | cons front slices =>
      dsimp only
      split
      case isTrue enough =>
        exact .lendAndRead inv free list (Nat.lt_of_lt_of_le (Nat.pos_of_ne_zero asked) enough)
      case isFalse => exact .continueWith inv nofun
  | readExactSlow size result =>
    rw [Reader.resume]
    split
    · exact .done inv free
    · cases list : s.pins.sliceList with
      | nil => exact good
      | cons front slices =>
        dsimp only
        split
        · exact .readNextSlice (inv.consume _) free nofun
        · exact .continueWith (inv.consume _) nofun
  | discard size n =>
    rw [Reader.resume]
    cases list : s.pins.sliceList with
    | nil => exact good
    | cons front slices =>
      dsimp only
      split
      · exact .done (inv.consume _) free
      · exact .readNextSlice (inv.consume _) free nofun
  | skipEmpty room maxSlices =>
    rw [Reader.resume]
    split
    · exact .readNextSlice inv free nofun
    · exact .continueWith inv nofun
  | copyLoop room maxSlices slicesRead copied =>
    rw [Reader.resume]
    split
    · cases list : s.pins.sliceList with
      | nil => exact .done inv free
      | cons front slices =>
        dsimp only
        split
        · exact .done inv free
        · split
          · split
            · exact .readNextSlice (inv.consume _) free nofun
            · exact .continueWith (inv.consume _) nofun
          · exact .done (inv.consume _) free
    · exact .done inv free
  | clearWrite | ret value => exact .done inv free
  | recycle =>
    rw [Reader.resume]
    cases list : s.pins.sliceList with
    | nil => exact .done inv free
    | cons front slices => exact .popRetire inv free nofun list
  | clean =>
    rw [Reader.resume]
    cases list : s.pins.sliceList with
    | nil => exact .done inv free
    | cons front slices =>
      dsimp only
      cases pinned : s.pins.isPinned front with
      | true => exact .popRetire inv free nofun list
      | false =>
        have old : front.id < s.pins.nextSlice :=
          inv.old .listed _ (List.mem_map_of_mem (list ▸ List.mem_cons_self))
        rcases inv.popAbandon list free pinned with ⟨abandoned, nowhere, next⟩
        rw [if_neg Bool.false_ne_true, popFront_pins list]
        apply Good.continueWith
        case asked => exact nofun
        case inv =>
          dsimp only
          split
          · exact abandoned
          · exact abandoned.reclaim nowhere (Nat.lt_of_lt_of_eq old next.symm)

theorem Good.call (good : Good s) (free : s.pins.hand = .empty) {c : Call}
    (called : s.call c = some t) : Good t := by
  have inv := good.inv
  cases c with
  | appendBufferSlice data cap isFromShm unread =>
    rw [Reader.call, Option.ite_none_right_eq_some, Option.some.injEq] at called
    rcases called with ⟨⟨fits, apart⟩, rfl⟩
    exact .done (inv.append fits apart) free
  | readChunk | recycle | clean =>
    cases called
    exact .continueWith inv nofun
  | readExactBytes size =>
    rw [Reader.call] at called
    split at called
    · cases called
      exact .done inv free
    case isFalse asked =>
      have some' : Rest.readExact size ≠ .readExact 0 := fun same => asked (Rest.readExact.inj same)
      split at called
      · cases called
        exact .done inv free
      · split at called
        · cases called
          exact .readNextSlice inv free some'
        · cases called
          exact .continueWith inv some'
  | peek size =>
    rw [Reader.call] at called
    split at called
    · cases called
      exact .done inv free
    case isFalse asked =>
      split at called
      · cases called
        exact .done inv free
      · cases list : s.pins.sliceList with
        | nil =>
          rw [list] at called
          cases called
          exact .done inv free
        | cons front slices =>
          have listed : front ∈ s.pins.sliceList := list ▸ List.mem_cons_self
          rw [list] at called
          dsimp only at called
          split at called
          case isTrue whole =>
            cases called
            have nonempty : front.unread ≠ [] := by
              intro empty
              rw [empty, List.take_nil] at whole
              exact asked whole.symm
            exact .done (inv.lend listed nonempty size)
              ((Pins.lend_hand s.pins front size).trans free)
          case isFalse =>
            cases called
            rcases inv.acquire front with ⟨acquired, _, _, _, hand, _⟩
            exact .done acquired (hand.trans free)
  | discard size =>
    rw [Reader.call] at called
    split at called
    · cases called
      exact .done inv free
    · cases called
      exact .continueWith inv nofun
  | readAvailableInto room maxSlices =>
    rw [Reader.call] at called
    split at called
    · cases called
      exact .done inv free
    · split at called
      · cases called
      · split at called
        · cases called
          exact .done inv free
        · cases called
          exact .continueWith inv nofun
  | releasePreviousRead =>
    rw [Reader.call] at called
    cases list : s.pins.sliceList with
    | nil =>
      rw [list] at called
      cases called
      exact .done inv free
    | cons front slices =>
      rw [list] at called
      dsimp only at called
      split at called
      · cases called
        exact .popRetire inv free nofun list
      · cases called
        exact .done inv free
  | releasePreviousReadAndReserve =>
    rw [Reader.call] at called
    split at called
    case h_1 front list =>
      split at called
      · cases called
        exact .done inv free
      · cases pinned : s.pins.isPinned front with
        | true =>
          rw [pinned, if_pos rfl] at called
          cases called
          have popped : Good (s.popFront.retire front (.ret .unit)) :=
            .popRetire inv free nofun list
          exact ⟨popped.inv, nofun, nofun⟩
        | false =>
          rw [pinned, if_neg Bool.false_ne_true] at called
          split at called
          · cases called
            refine .done (inv.resetFront list pinned) ?_
            show s.pins.resetFront.hand = .empty
            rw [Pins.resetFront, list]
            exact free
          · cases called
            exact .popRetire inv free nofun list
    case h_2 =>
      cases called
      exact .done inv free

theorem dropState_hand (p : Pins) (state : Nat) : (p.dropState state).hand = p.hand := by
  unfold Pins.dropState
  split
  · split
    · rfl
    · rfl
  · rfl

theorem dropBuf_hand {p q : Pins} {i : Nat} (dropped : p.dropBuf i = some q) :
    q.hand = p.hand := by
  rw [Pins.dropBuf, Option.map_eq_some_iff] at dropped
  rcases dropped with ⟨buf, _, rfl⟩
  exact dropState_hand _ buf.state

/-- A call goes on when its hand is empty, and the retirement in its hand goes on otherwise. -/
theorem advance_cases (moved : s.advance = some t) : Exists fun rest => s.running = some rest /\
    (s.pins.hand = .empty /\ t = s.resume rest \/
      s.pins.hand ≠ .empty /\ t = { s with pins := s.pins.retireStep }) := by
  revert moved
  rw [Reader.advance]
  cases s.running with
  | none => rintro ⟨⟩
  | some rest =>
    dsimp only
    split
    · next free =>
      rintro ⟨⟩
      exact ⟨rest, rfl, .inl ⟨free, rfl⟩⟩
    · next busy =>
      rintro ⟨⟩
      exact ⟨rest, rfl, .inr ⟨busy, rfl⟩⟩

theorem Good.step (good : Good s) {a : Action} (moved : s.step a = some t) : Good t := by
  cases a with
  | call c =>
    rw [Reader.step, Option.ite_none_right_eq_some] at moved
    exact good.call (good.idle moved.1) moved.2
  | advance =>
    rcases advance_cases moved with ⟨rest, running, ⟨free, rfl⟩ | ⟨_, rfl⟩⟩
    · exact good.resume free running
    · exact ⟨good.inv.retireStep, fun idle => (by cases running.symm.trans idle), good.asked⟩
  | dropBuf i =>
    rw [Reader.step, Option.map_eq_some_iff] at moved
    rcases moved with ⟨pins, dropped, rfl⟩
    refine ⟨good.inv.dropBuf dropped, fun idle => ?_, good.asked⟩
    exact (dropBuf_hand dropped).trans (good.idle idle)

theorem nowhere_new (place : Place) {i : Nat} : ¬ new.pins.At place i := by
  intro there
  cases place with
  | listed | inHand | stored state | gone => cases there

theorem good_new : Good new where
  inv :=
    { slotKeys := List.nodup_nil
      slotStates := List.nodup_nil
      slotOld := nofun
      slotOpen := nofun
      handOld := nofun
      handOpen := nofun
      bufOld := nofun
      bufBacked := nofun
      bufKept := nofun
      listOnce := List.nodup_nil
      goneOnce := List.nodup_nil
      once := fun first _ _ one _ => absurd one (nowhere_new first)
      old := fun place _ there => absurd there (nowhere_new place)
      separate := nofun
      room := nofun
      resetEmpty := nofun
      resetOld := nofun
      accounted := nofun
      stored := nofun }
  idle := fun _ => rfl
  asked := nofun

end Reader

namespace Pins

variable {p : Pins}

/-- The running retirement is not done with this slice. -/
def Retiring (p : Pins) (i : Nat) : Prop :=
  p.At .inHand i \/ Exists fun state => p.hand = .dropping state /\ p.At (.stored state) i

/-- A slice with a live `Buf` is neither reclaimed nor reset. -/
theorem Inv.leased (inv : Inv p) {buf : Buf} (alive : buf ∈ p.bufs) :
    buf.slice ∉ p.reclaimed /\ buf.slice ∉ p.reset := by
  refine ⟨fun reclaimed => ?_, inv.bufKept buf alive⟩
  have gone : p.At .gone buf.slice := reclaimed
  cases inv.bufBacked buf alive with
  | listed slot slice registered state listed id key room =>
    have there : p.At .listed buf.slice := id ▸ List.mem_map_of_mem listed
    exact nomatch inv.once _ _ _ there gone
  | inHand slice held state id =>
    have there : p.At .inHand buf.slice := by
      show p.hand.slice?.map Slice.id = some buf.slice
      rw [held, Option.map_some, id]
    exact nomatch inv.once _ _ _ there gone
  | stored slice stored id =>
    have there : p.At (.stored buf.state) buf.slice := by
      show (p.retiredSlice buf.state).map Slice.id = some buf.slice
      rw [stored, Option.map_some, id]
    exact nomatch inv.once _ _ _ there gone

/-- The state of a stored slice has a handle: a `Buf`, or the retirement's own. -/
theorem Inv.holder (inv : Inv p) {state i : Nat} (there : p.At (.stored state) i) :
    p.hand = .dropping state \/ Exists fun buf => buf ∈ p.bufs /\ buf.slice = i := by
  have there : (p.retiredSlice state).map Slice.id = some i := there
  rw [Option.map_eq_some_iff] at there
  rcases there with ⟨slice, stored, rfl⟩
  have handle := inv.stored state slice stored
  have slots : p.slots.countP (fun slot => slot.state == state) = 0 := by
    rw [List.countP_eq_zero]
    intro slot registered same
    have none := (inv.slotOpen slot registered).1
    rw [beq_iff_eq.mp same, stored] at none
    cases none
  by_cases held : p.hand.state? = some state
  · left
    cases hand : p.hand with
    | dropping other =>
      rw [hand] at held
      rw [Option.some.inj held]
    | empty =>
      rw [hand] at held
      cases held
    | _ =>
      have open' := inv.handOpen state _ held (by rw [hand]; rfl)
      exact nomatch open'.symm.trans stored
  · right
    rw [strongCount, slots, if_neg held, Nat.zero_add, Nat.add_zero] at handle
    rcases List.countP_pos_iff.mp handle with ⟨buf, alive, same⟩
    have same : buf.state = state := beq_iff_eq.mp same
    refine ⟨buf, alive, ?_⟩
    cases inv.bufBacked buf alive with
    | listed slot other registered registered_state listed id key room =>
      have none := (inv.slotOpen slot registered).1
      rw [registered_state, same, stored] at none
      cases none
    | inHand other _ mine _ => exact absurd (same ▸ mine) held
    | stored other found id =>
      rw [same, stored, Option.some.injEq] at found
      rw [found, id]

end Pins

/-- In every run: a slice with a live `Buf` was neither reclaimed nor reset to be
written to; no slice was reclaimed twice; and a slice that was retired is reclaimed
unless a `Buf` into it is alive or the running call is still at its retirement. -/
theorem leased_slices_are_kept {s : Reader} (reachable : leaseSystem.Reachable s) :
    (∀ buf ∈ s.pins.bufs, buf.slice ∉ s.pins.reclaimed /\ buf.slice ∉ s.pins.reset) /\
    s.pins.reclaimed.Nodup /\
    (∀ i ∈ s.pins.retired, i ∈ s.pins.reclaimed \/
      (Exists fun buf => buf ∈ s.pins.bufs /\ buf.slice = i) \/ s.pins.Retiring i) /\
    (s.running = none -> ∀ i ∈ s.pins.retired, i ∈ s.pins.reclaimed \/
      Exists fun buf => buf ∈ s.pins.bufs /\ buf.slice = i) := by
  have good : s.Good := reachable.invariant (P := Reader.Good)
    (fun start fresh => by rw [show start = Reader.new from fresh]; exact Reader.good_new)
    (fun _ _ _ _ _ moved earlier => earlier.step moved)
  have inv := good.inv
  have accounted : ∀ i ∈ s.pins.retired, i ∈ s.pins.reclaimed \/
      (Exists fun buf => buf ∈ s.pins.bufs /\ buf.slice = i) \/ s.pins.Retiring i := by
    intro i wasRetired
    rcases inv.accounted i wasRetired with gone | held | ⟨state, there⟩
    · exact .inl gone
    · exact .inr (.inr (.inl held))
    · rcases inv.holder there with dropping | leased
      · exact .inr (.inr (.inr ⟨state, dropping, there⟩))
      · exact .inr (.inl leased)
  refine ⟨fun buf alive => inv.leased alive, inv.goneOnce, accounted, fun idle i wasRetired => ?_⟩
  rcases accounted i wasRetired with gone | leased | held | ⟨state, dropping, _⟩
  · exact .inl gone
  · exact .inr leased
  · have held : s.pins.hand.slice?.map Slice.id = some i := held
    rw [good.idle idle] at held
    cases held
  · rw [good.idle idle] at dropping
    cases dropping

/-- Three bytes are lent, and the buffer is done with the slice while they are.  The
slice is stored, and the drop of the `Buf` reclaims it. -/
theorem leased_slices_are_kept_stored :
    (Exists fun s => leaseSystem.Reachable s /\ s.running = none /\ s.pins.retired = [0] /\
      s.pins.reclaimed = [] /\ Exists fun buf => buf ∈ s.pins.bufs /\ buf.slice = 0) /\
    (Exists fun s => leaseSystem.Reachable s /\ s.pins.bufs = [] /\ s.pins.retired = [0] /\
      s.pins.reclaimed = [0] /\ s.pins.reclaimed.Nodup) := by
  have kept : (leaseSystem.run (fun _ _ => True) Reader.new
      [.call (.appendBufferSlice 100 8 true [1, 2, 3]), .call (.readExactBytes 3), .advance,
        .call .releasePreviousReadAndReserve, .advance, .advance, .advance, .advance]).any
      (fun s => decide (s.running = none /\ s.pins.retired = [0] /\ s.pins.reclaimed = [])) =
      true := by
    decide
  have dropped : (leaseSystem.run (fun _ _ => True) Reader.new
      [.call (.appendBufferSlice 100 8 true [1, 2, 3]), .call (.readExactBytes 3), .advance,
        .call .releasePreviousReadAndReserve, .advance, .advance, .advance, .advance,
        .dropBuf 0]).any
      (fun s => decide (s.pins.bufs = [] /\ s.pins.retired = [0] /\ s.pins.reclaimed = [0])) =
      true := by
    decide
  constructor
  · rcases System.exists_reachable_of_run _ _ rfl kept with
      ⟨s, reachable, idle, retired, reclaimed⟩
    refine ⟨s, reachable, idle, retired, reclaimed, ?_⟩
    rcases (leased_slices_are_kept reachable).2.2.2 idle 0 (retired ▸ List.mem_singleton_self 0)
      with gone | leased
    · rw [reclaimed] at gone
      cases gone
    · exact leased
  · rcases System.exists_reachable_of_run _ _ rfl dropped with
      ⟨s, reachable, bufs, retired, reclaimed⟩
    exact ⟨s, reachable, bufs, retired, reclaimed, (leased_slices_are_kept reachable).2.1⟩

end Lease
end Pool
end Shmipc
