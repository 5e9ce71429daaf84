import Mathlib.Data.List.Nodup
import Mathlib.Data.List.Perm.Basic
import Shmipc.Pool.Lease

namespace Shmipc
namespace Pool
namespace Lease

open Transition

/-!
# A leased slice is left alone

At any moment a slice that the buffer was given is in one place: in its list, in the
hands of a retirement, stored in a pin state, or reclaimed.  (The peer's slices that
`clean` forgets are in none.)  A `Buf` follows its slice: as long as the slice is in
the list, the registry has an entry for it with the state of the `Buf`; while the
slice is being retired or is stored, that happens under the state of the `Buf`.  So
nobody finds the state of a live `Buf` with a single handle, which is what it takes
to reclaim a slice or to reset it, and the state of a stored slice has a handle
left, whose drop will reclaim it.
-/

/-- What identifies a slice and its memory. -/
def Slice.tag (slice : Slice) : Nat × Nat × Nat := (slice.id, slice.data, slice.cap)

/-- Where a slice can be. -/
inductive Place
  | listed
  | inHand
  | stored (state : Nat)
  | gone
  deriving DecidableEq

namespace Pins

variable {p q : Pins} {slice : Slice} {state : Nat}

def At (p : Pins) : Place -> Nat -> Prop
  | .listed, i => i ∈ p.sliceList.map Slice.id
  | .inHand, i => p.hand.slice?.map Slice.id = some i
  | .stored state, i => (p.retiredSlice state).map Slice.id = some i
  | .gone, i => i ∈ p.reclaimed

/-- No slice is in two places. -/
def Once (p : Pins) : Prop :=
  forall first second i, p.At first i -> p.At second i -> first = second

theorem at_inHand (held : p.hand.slice? = some slice) : p.At .inHand slice.id := by
  rw [At, held, Option.map_some]

theorem at_stored (stored : p.retiredSlice state = some slice) :
    p.At (.stored state) slice.id := by
  rw [At, stored, Option.map_some]

/-- The slice that a `Buf` points into is kept under the state of the `Buf`. -/
inductive Backed (p : Pins) (buf : Buf) : Prop
  | listed (slot : PinSlot) (slice : Slice) (registered : slot ∈ p.slots)
      (state : slot.state = buf.state) (listed : slice ∈ p.sliceList) (id : slice.id = buf.slice)
      (key : slice.data = slot.key) (room : 0 < slice.cap)
  | inHand (slice : Slice) (held : p.hand.slice? = some slice)
      (state : p.hand.state? = some buf.state) (id : slice.id = buf.slice)
  | stored (slice : Slice) (stored : p.retiredSlice buf.state = some slice)
      (id : slice.id = buf.slice)

variable {buf : Buf} {front : Slice}

theorem Backed.mono (backed : p.Backed buf) (slots : ∀ slot ∈ p.slots, slot ∈ q.slots)
    (slices : ∀ slice ∈ p.sliceList, slice ∈ q.sliceList) (hand : q.hand = p.hand)
    (retiredSlice : q.retiredSlice = p.retiredSlice) : q.Backed buf := by
  cases backed with
  | listed slot slice registered state listed id key room =>
    exact .listed slot slice (slots slot registered) state (slices slice listed) id key room
  | inHand slice held state id => exact .inHand slice (hand ▸ held) (hand ▸ state) id
  | stored slice stored id => exact .stored slice (retiredSlice ▸ stored) id

theorem Backed.keep (backed : p.Backed buf) (slots : q.slots = p.slots)
    (slices : q.sliceList = p.sliceList)
    (inHand : forall slice, p.hand.slice? = some slice -> p.hand.state? = some buf.state ->
      slice.id = buf.slice -> q.Backed buf)
    (stored : forall slice, p.retiredSlice buf.state = some slice -> slice.id = buf.slice ->
      q.Backed buf) : q.Backed buf := by
  cases backed with
  | listed slot slice registered state listed id key room =>
    exact .listed slot slice (slots ▸ registered) state (slices ▸ listed) id key room
  | inHand slice held state id => exact inHand slice held state id
  | stored slice found id => exact stored slice found id

/-- The invariant, but for the handle that a stored slice needs. -/
structure Base (p : Pins) : Prop where
  slotKeys : (p.slots.map PinSlot.key).Nodup
  slotStates : (p.slots.map PinSlot.state).Nodup
  slotOld : ∀ slot ∈ p.slots, slot.state < p.nextState
  slotOpen : ∀ slot ∈ p.slots, p.retiredSlice slot.state = none /\
    p.hand.state? ≠ some slot.state
  handOld : forall state, p.hand.state? = some state -> state < p.nextState
  handOpen : forall state slice, p.hand.state? = some state -> p.hand.slice? = some slice ->
    p.retiredSlice state = none
  bufOld : ∀ buf ∈ p.bufs, buf.state < p.nextState
  bufBacked : ∀ buf ∈ p.bufs, p.Backed buf
  bufKept : ∀ buf ∈ p.bufs, buf.slice ∉ p.reset
  listOnce : (p.sliceList.map Slice.id).Nodup
  goneOnce : p.reclaimed.Nodup
  once : p.Once
  old : forall place i, p.At place i -> i < p.nextSlice
  separate : ∀ first ∈ p.sliceList, ∀ second ∈ p.sliceList, first.data = second.data ->
    0 < first.cap -> first.id = second.id
  room : ∀ slice ∈ p.sliceList, slice.unread.length <= slice.cap
  resetEmpty : ∀ slice ∈ p.sliceList, slice.id ∈ p.reset -> slice.unread = []
  resetOld : ∀ i ∈ p.reset, i < p.nextSlice
  accounted : ∀ i ∈ p.retired, p.At .gone i \/ p.At .inHand i \/
    Exists fun state => p.At (.stored state) i

/-- The invariant: the state of a stored slice has a handle. -/
structure Inv (p : Pins) : Prop extends Base p where
  stored : forall state slice, p.retiredSlice state = some slice -> 0 < p.strongCount state

/-! ## Handles -/

theorem strongCount_pos_of_buf (alive : buf ∈ p.bufs) :
    0 < p.bufs.countP (fun other => other.state == buf.state) :=
  List.countP_pos_iff.mpr ⟨buf, alive, beq_self_eq_true _⟩

theorem strongCount_pos_of_hand (held : p.hand.state? = some state) : 0 < p.strongCount state := by
  rw [strongCount, if_pos held]
  exact Nat.succ_pos _

variable {slot first second : PinSlot} {values : List Nat} {value i x : Nat}

theorem findSlot_some (found : p.findSlot slice = some slot) :
    slot ∈ p.slots /\ slot.key = slice.data := by
  have key := List.find?_some found
  exact ⟨List.mem_of_find?_eq_some found, beq_iff_eq.mp key⟩

theorem findSlot_none (missing : p.findSlot slice = none) :
    ∀ slot ∈ p.slots, slot.key ≠ slice.data := by
  intro slot registered same
  exact List.find?_eq_none.mp missing slot registered (beq_iff_eq.mpr same)

theorem Base.slot_unique (base : Base p) (one : first ∈ p.slots) (two : second ∈ p.slots)
    (same : first.key = second.key) : first = second :=
  List.inj_on_of_nodup_map base.slotKeys one two same

theorem Base.slot_unique_state (base : Base p) (one : first ∈ p.slots) (two : second ∈ p.slots)
    (same : first.state = second.state) : first = second :=
  List.inj_on_of_nodup_map base.slotStates one two same

/-- A listed slice that a `Buf` points into has an entry, with the state of the
`Buf`. -/
theorem Base.slot_of_buf (base : Base p) (alive : buf ∈ p.bufs) (listed : slice ∈ p.sliceList)
    (same : slice.id = buf.slice) :
    Exists fun slot => slot ∈ p.slots /\ slot.state = buf.state /\ slot.key = slice.data := by
  have place : p.At .listed buf.slice := same ▸ List.mem_map_of_mem listed
  cases base.bufBacked buf alive with
  | listed slot other registered state listed' id key room =>
    have equal : other = slice :=
      List.inj_on_of_nodup_map base.listOnce listed' listed (id.trans same.symm)
    rw [equal] at key
    exact ⟨slot, registered, state, key.symm⟩
  | inHand other held state id =>
    rw [<- id] at place
    exact absurd (base.once _ _ _ place (at_inHand held)) (by decide)
  | stored other stored id =>
    rw [<- id] at place
    cases base.once _ _ _ place (at_stored stored)

theorem Base.no_buf (base : Base p) (listed : slice ∈ p.sliceList)
    (unpinned : p.isPinned slice = false) : ∀ buf ∈ p.bufs, buf.slice ≠ slice.id := by
  intro buf alive same
  rcases base.slot_of_buf alive listed same.symm with ⟨slot, registered, state, key⟩
  rw [isPinned] at unpinned
  cases found : p.findSlot slice with
  | none => exact findSlot_none found slot registered key
  | some other =>
    rcases findSlot_some found with ⟨registered', key'⟩
    have equal : other = slot := base.slot_unique registered' registered (key'.trans key.symm)
    rw [found, equal] at unpinned
    have single : p.strongCount slot.state = 1 := by
      simpa only [bne_eq_false_iff_eq] using unpinned
    have slots : 0 < p.slots.countP (fun other => other.state == slot.state) :=
      List.countP_pos_iff.mpr ⟨slot, registered, beq_self_eq_true _⟩
    have bufs := strongCount_pos_of_buf alive
    rw [<- state] at bufs
    rw [strongCount] at single
    omega

/-! ## Changes that move no slice -/

theorem nodup_append_singleton (nodup : values.Nodup) (new : value ∉ values) :
    (values ++ [value]).Nodup := by
  rw [<- List.concat_eq_append]
  exact nodup.concat new

theorem mem_of_mem_append_singleton (member : i ∈ values ++ [value]) (other : i ≠ value) :
    i ∈ values := by
  rcases List.mem_append.mp member with member | new
  · exact member
  · exact absurd (List.mem_singleton.mp new) other

theorem map_id_of_tags {first second : List Slice}
    (tags : first.map Slice.tag = second.map Slice.tag) :
    first.map Slice.id = second.map Slice.id := by
  have ids : forall slices : List Slice,
      slices.map Slice.id = (slices.map Slice.tag).map Prod.fst := by
    intro slices
    rw [List.map_map]
    rfl
  rw [ids, ids, tags]

theorem Inv.shrink (inv : Inv p) {slices : List Slice}
    (tags : slices.map Slice.tag = p.sliceList.map Slice.tag)
    (smaller : ∀ slice ∈ slices, Exists fun earlier => earlier ∈ p.sliceList /\
      earlier.tag = slice.tag /\ slice.unread.length <= earlier.unread.length) :
    Inv { p with sliceList := slices } := by
  have ids := map_id_of_tags tags
  have place : forall place i, At { p with sliceList := slices } place i -> p.At place i := by
    intro place i at'
    cases place with
    | listed =>
      show i ∈ p.sliceList.map Slice.id
      rw [<- ids]
      exact at'
    | _ => exact at'
  have find : ∀ slice ∈ p.sliceList, Exists fun later => later ∈ slices /\
      later.tag = slice.tag := by
    intro slice listed
    have tagged : slice.tag ∈ slices.map Slice.tag := tags ▸ List.mem_map_of_mem listed
    rcases List.mem_map.mp tagged with ⟨later, listed', same⟩
    exact ⟨later, listed', same⟩
  exact { inv with
    bufBacked := by
      intro buf alive
      cases inv.bufBacked buf alive with
      | listed slot slice registered state listed id key room =>
        rcases find slice listed with ⟨later, listed', same⟩
        simp only [Slice.tag, Prod.mk.injEq] at same
        exact .listed slot later registered state listed' (same.1.trans id)
          (same.2.1.trans key) (same.2.2 ▸ room)
      | inHand slice held state id => exact .inHand slice held state id
      | stored slice stored id => exact .stored slice stored id
    listOnce := by
      show (slices.map Slice.id).Nodup
      rw [ids]
      exact inv.listOnce
    once := fun first second i one two =>
      inv.once first second i (place first i one) (place second i two)
    old := fun where' i at' => inv.old where' i (place where' i at')
    separate := by
      intro first listed second listed' same room
      rcases smaller first listed with ⟨one, inList, tag, _⟩
      rcases smaller second listed' with ⟨two, inList', tag', _⟩
      simp only [Slice.tag, Prod.mk.injEq] at tag tag'
      have equal := inv.separate one inList two inList'
        (tag.2.1.trans (same.trans tag'.2.1.symm)) (tag.2.2 ▸ room)
      exact tag.1.symm.trans (equal.trans tag'.1)
    room := by
      intro slice listed
      rcases smaller slice listed with ⟨earlier, inList, tag, less⟩
      simp only [Slice.tag, Prod.mk.injEq] at tag
      exact Nat.le_trans less (tag.2.2 ▸ inv.room earlier inList)
    resetEmpty := by
      intro slice listed reset
      rcases smaller slice listed with ⟨earlier, inList, tag, less⟩
      simp only [Slice.tag, Prod.mk.injEq] at tag
      have empty := inv.resetEmpty earlier inList (tag.1 ▸ reset)
      rw [empty] at less
      exact List.length_eq_zero_iff.mp (Nat.le_zero.mp less) }

theorem Inv.consume (inv : Inv p) (n : Nat) : Inv (p.consume n) := by
  unfold Pins.consume
  cases list : p.sliceList with
  | nil =>
    apply inv.shrink
    · rw [list]
    · exact nofun
  | cons front rest =>
    apply inv.shrink
    · rw [list]
      rfl
    · intro slice listed
      rw [list]
      rcases List.mem_cons.mp listed with rfl | listed
      · refine ⟨front, List.mem_cons_self, rfl, ?_⟩
        rw [List.length_drop]
        exact Nat.sub_le _ _
      · exact ⟨slice, List.mem_cons_of_mem _ listed, rfl, Nat.le_refl _⟩

theorem Base.strongCount_new (base : Base p) : p.strongCount p.nextState = 0 := by
  have slots : p.slots.countP (fun slot => slot.state == p.nextState) = 0 := by
    rw [List.countP_eq_zero]
    intro slot registered same
    exact Nat.lt_irrefl _ (beq_iff_eq.mp same ▸ base.slotOld slot registered)
  have bufs : p.bufs.countP (fun buf => buf.state == p.nextState) = 0 := by
    rw [List.countP_eq_zero]
    intro buf alive same
    exact Nat.lt_irrefl _ (beq_iff_eq.mp same ▸ base.bufOld buf alive)
  have hand : p.hand.state? ≠ some p.nextState := fun held =>
    Nat.lt_irrefl _ (base.handOld _ held)
  rw [strongCount, slots, bufs, if_neg hand]

theorem Inv.retiredSlice_new (inv : Inv p) : p.retiredSlice p.nextState = none := by
  cases stored : p.retiredSlice p.nextState with
  | none => rfl
  | some slice => exact absurd (inv.stored _ _ stored) (by rw [inv.strongCount_new]; decide)

theorem Inv.acquire (inv : Inv p) (slice : Slice) :
    Inv (p.acquire slice).1 /\
      (p.acquire slice).1.sliceList = p.sliceList /\ (p.acquire slice).1.bufs = p.bufs /\
      (p.acquire slice).1.reset = p.reset /\ (p.acquire slice).1.hand = p.hand /\
      Exists fun slot => slot ∈ (p.acquire slice).1.slots /\ slot.key = slice.data /\
        slot.state = (p.acquire slice).2 := by
  unfold Pins.acquire
  cases found : p.findSlot slice with
  | some slot =>
    rcases findSlot_some found with ⟨registered, key⟩
    exact ⟨inv, rfl, rfl, rfl, rfl, slot, registered, key, rfl⟩
  | none =>
    have fresh := findSlot_none found
    refine ⟨?_, rfl, rfl, rfl, rfl, ⟨slice.data, p.nextState⟩,
      List.mem_append_right _ (List.mem_singleton_self _), rfl, rfl⟩
    have cases' : ∀ slot ∈ p.slots ++ [⟨slice.data, p.nextState⟩],
        slot ∈ p.slots \/ slot = ⟨slice.data, p.nextState⟩ := by
      intro slot registered
      rw [List.mem_append, List.mem_singleton] at registered
      exact registered
    exact { inv with
      slotKeys := by
        rw [List.map_append]
        refine nodup_append_singleton inv.slotKeys fun taken => ?_
        rcases List.mem_map.mp taken with ⟨slot, registered, same⟩
        exact fresh slot registered same
      slotStates := by
        rw [List.map_append]
        refine nodup_append_singleton inv.slotStates fun taken => ?_
        rcases List.mem_map.mp taken with ⟨slot, registered, same⟩
        exact Nat.lt_irrefl _ (same ▸ inv.slotOld slot registered)
      slotOld := by
        intro slot registered
        rcases cases' slot registered with registered | rfl
        · exact Nat.lt_succ_of_lt (inv.slotOld slot registered)
        · exact Nat.lt_succ_self _
      slotOpen := by
        intro slot registered
        rcases cases' slot registered with registered | rfl
        · exact inv.slotOpen slot registered
        · exact ⟨inv.retiredSlice_new, fun held => Nat.lt_irrefl _ (inv.handOld _ held)⟩
      handOld := fun state held => Nat.lt_succ_of_lt (inv.handOld state held)
      bufOld := fun buf alive => Nat.lt_succ_of_lt (inv.bufOld buf alive)
      bufBacked := fun buf alive =>
        (inv.bufBacked buf alive).mono (fun _ => List.mem_append_left _) (fun _ => id) rfl rfl
      stored := by
        intro state other stored
        have before := inv.stored state other stored
        simp only [strongCount, List.countP_append] at before ⊢
        omega }

theorem Inv.lend (inv : Inv p) (listed : slice ∈ p.sliceList) (some' : slice.unread ≠ [])
    (n : Nat) : Inv (p.lend slice n).1 := by
  rcases inv.acquire slice with ⟨acquired, list, bufs, reset, _, slot, registered, key, state⟩
  have room : 0 < slice.cap :=
    Nat.lt_of_lt_of_le (List.length_pos_of_ne_nil some') (inv.room slice listed)
  have cases' : ∀ buf ∈ (p.lend slice n).1.bufs, buf ∈ (p.acquire slice).1.bufs \/
      buf = (p.lend slice n).2 := by
    intro buf alive
    have alive : buf ∈ (p.acquire slice).1.bufs ++ [(p.lend slice n).2] := alive
    rw [List.mem_append, List.mem_singleton] at alive
    exact alive
  exact { acquired with
    bufOld := by
      intro buf alive
      rcases cases' buf alive with alive | rfl
      · exact acquired.bufOld buf alive
      · exact (show (p.acquire slice).2 < _ from state ▸ acquired.slotOld slot registered)
    bufBacked := by
      intro buf alive
      rcases cases' buf alive with alive | rfl
      · exact (acquired.bufBacked buf alive).mono (fun _ => id) (fun _ => id) rfl rfl
      · exact .listed slot slice registered state (list ▸ listed) rfl key.symm room
    bufKept := by
      intro buf alive
      rcases cases' buf alive with alive | rfl
      · exact acquired.bufKept buf alive
      · intro wasReset
        exact some' (inv.resetEmpty slice listed (reset ▸ wasReset))
    stored := by
      intro state other stored
      have before := acquired.stored state other stored
      show 0 < strongCount { (p.acquire slice).1 with
        bufs := (p.acquire slice).1.bufs ++ [(p.lend slice n).2] } state
      simp only [strongCount, List.countP_append] at before ⊢
      omega }

theorem lend_hand (p : Pins) (slice : Slice) (n : Nat) : (p.lend slice n).1.hand = p.hand := by
  show (p.acquire slice).1.hand = p.hand
  rw [Pins.acquire]
  cases p.findSlot slice with
  | none => rfl
  | some slot => rfl

/-! ## Moving a slice -/

theorem Once.move (once : p.Once) (dest : Place)
    (same : forall place i, i ≠ x -> q.At place i -> p.At place i)
    (only : forall place, q.At place x -> place = dest) : q.Once := by
  intro first second i one two
  by_cases moved : i = x
  · subst moved
    exact (only first one).trans (only second two).symm
  · exact once first second i (same first i moved one) (same second i moved two)

theorem Base.old_of_move (base : Base p) (more : p.nextSlice <= q.nextSlice)
    (same : forall place i, i ≠ x -> q.At place i -> p.At place i) (known : x < q.nextSlice) :
    forall place i, q.At place i -> i < q.nextSlice := by
  intro place i there
  by_cases moved : i = x
  · rw [moved]
    exact known
  · exact Nat.lt_of_lt_of_le (base.old place i (same place i moved there)) more

theorem Base.rest (base : Base p) {rest : List Slice} (list : p.sliceList = front :: rest) :
    front.id ∉ rest.map Slice.id /\ (rest.map Slice.id).Nodup /\
      (∀ slice ∈ rest, slice ∈ p.sliceList) /\
      forall place, p.At place front.id -> place = .listed := by
  have nodup := base.listOnce
  rw [list, List.map_cons, List.nodup_cons] at nodup
  have listed : p.At .listed front.id := by
    show front.id ∈ p.sliceList.map Slice.id
    rw [list]
    exact List.mem_cons_self
  refine ⟨nodup.1, nodup.2, fun slice inRest => ?_, fun place there => ?_⟩
  · rw [list]
    exact List.mem_cons_of_mem _ inRest
  · exact base.once place .listed front.id there listed

/-- A `Buf` into another slice than the first keeps its backing when the first slice
leaves the list together with its entry. -/
theorem Base.backed_rest (base : Base p) {rest : List Slice} (list : p.sliceList = front :: rest)
    (alive : buf ∈ p.bufs) (other : buf.slice ≠ front.id)
    (slots : ∀ slot ∈ p.slots, slot.key ≠ front.data -> slot ∈ q.slots)
    (slices : q.sliceList = rest) (retiredSlice : q.retiredSlice = p.retiredSlice)
    (free : p.hand = .empty) : q.Backed buf := by
  cases base.bufBacked buf alive with
  | listed slot slice registered state listed id key room =>
    have front_listed : front ∈ p.sliceList := list ▸ List.mem_cons_self
    have apart : slot.key ≠ front.data := by
      intro same
      have equal := base.separate slice listed front front_listed (key.trans same) room
      exact other (id ▸ equal)
    have inRest : slice ∈ rest := by
      rw [list, List.mem_cons] at listed
      rcases listed with rfl | listed
      · exact absurd id.symm other
      · exact listed
    exact .listed slot slice (slots slot registered apart) state (slices ▸ inRest) id key room
  | inHand slice held state id =>
    rw [free] at held
    cases held
  | stored slice stored id => exact .stored slice (retiredSlice ▸ stored) id

theorem Base.strongCount_removeSlot (base : Base p) (found : p.findSlot slice = some slot)
    (other : state ≠ slot.state) :
    (p.removeSlot slice).slots.countP (fun entry => entry.state == state) =
      p.slots.countP (fun entry => entry.state == state) := by
  rcases findSlot_some found with ⟨registered, key⟩
  show (p.slots.filter _).countP _ = _
  rw [List.countP_filter]
  apply List.countP_congr
  intro entry inSlots
  rw [Bool.and_eq_true, bne_iff_ne, beq_iff_eq, and_iff_left_iff_imp]
  intro same keyed
  have equal : entry = slot := base.slot_unique inSlots registered (keyed.trans key.symm)
  exact other (same.symm.trans (equal ▸ rfl))

/-- The first slice, which nobody has leased, leaves the list with its entry. -/
theorem Inv.dropFront (inv : Inv p) {rest : List Slice} (list : p.sliceList = front :: rest)
    (free : p.hand = .empty) (noBuf : ∀ buf ∈ p.bufs, buf.slice ≠ front.id) :
    Base { p with
      sliceList := rest, slots := p.slots.filter fun slot => slot.key != front.data } /\
      forall place, ¬ At { p with
        sliceList := rest,
        slots := p.slots.filter fun slot => slot.key != front.data } place front.id := by
  rcases inv.rest list with ⟨notInRest, restOnce, inList, onlyListed⟩
  have same : forall place i, At { p with
      sliceList := rest, slots := p.slots.filter fun slot => slot.key != front.data } place i ->
      p.At place i := by
    intro place i there
    cases place with
    | listed =>
      show i ∈ p.sliceList.map Slice.id
      rw [list]
      exact List.mem_cons_of_mem _ there
    | _ => exact there
  refine ⟨{ inv with
    slotKeys := inv.slotKeys.sublist (List.filter_sublist.map _)
    slotStates := inv.slotStates.sublist (List.filter_sublist.map _)
    slotOld := fun entry member => inv.slotOld entry (List.mem_of_mem_filter member)
    slotOpen := fun entry member => inv.slotOpen entry (List.mem_of_mem_filter member)
    bufBacked := fun buf alive => inv.backed_rest list alive (noBuf buf alive)
      (fun entry member apart => List.mem_filter.mpr ⟨member, bne_iff_ne.mpr apart⟩) rfl rfl free
    listOnce := restOnce
    once := fun first second i one two =>
      inv.once first second i (same first i one) (same second i two)
    old := fun place i there => inv.old place i (same place i there)
    separate := fun first one second two =>
      inv.separate first (inList first one) second (inList second two)
    room := fun slice member => inv.room slice (inList slice member)
    resetEmpty := fun slice member => inv.resetEmpty slice (inList slice member)
    accounted := inv.accounted }, fun place there => ?_⟩
  have listed := onlyListed place (same place _ there)
  rw [listed] at there
  exact notInRest there

theorem Inv.reclaim (inv : Inv p) (nowhere : forall place, ¬ p.At place slice.id)
    (old : slice.id < p.nextSlice) : Inv (p.reclaim slice) := by
  have same : forall place i, i ≠ slice.id -> (p.reclaim slice).At place i -> p.At place i := by
    intro place i other there
    cases place with
    | gone => exact mem_of_mem_append_singleton there other
    | _ => exact there
  exact { inv with
    bufBacked := fun buf alive =>
      (inv.bufBacked buf alive).mono (fun _ => id) (fun _ => id) rfl rfl
    goneOnce := nodup_append_singleton inv.goneOnce (nowhere .gone)
    once := by
      refine inv.once.move .gone same ?_
      intro place there
      cases place with
      | gone => rfl
      | listed => exact absurd there (nowhere .listed)
      | inHand => exact absurd there (nowhere .inHand)
      | stored state => exact absurd there (nowhere (.stored state))
    old := inv.old_of_move (Nat.le_refl _) same old
    accounted := by
      intro i wasRetired
      rcases inv.accounted i wasRetired with gone | held | stored
      · exact .inl (List.mem_append_left _ gone)
      · exact .inr (.inl held)
      · exact .inr (.inr stored) }

theorem Inv.popRetire (inv : Inv p) {rest : List Slice} (list : p.sliceList = front :: rest)
    (free : p.hand = .empty) :
    Inv ({ p with sliceList := rest }.retire front) := by
  rcases inv.rest list with ⟨notInRest, restOnce, inList, onlyListed⟩
  have front_listed : front ∈ p.sliceList := list ▸ List.mem_cons_self
  have front_at : p.At .listed front.id := List.mem_map_of_mem front_listed
  unfold Pins.retire
  dsimp only
  cases found : p.findSlot front with
  | none =>
    have found' : findSlot { p with
      sliceList := rest, retired := p.retired ++ [front.id] } front = none := found
    rw [found']
    dsimp only
    have noBuf : ∀ buf ∈ p.bufs, buf.slice ≠ front.id := by
      intro buf alive same
      rcases inv.slot_of_buf alive front_listed same.symm with ⟨slot, registered, _, key⟩
      exact findSlot_none found slot registered key
    have slots : p.slots.filter (fun slot => slot.key != front.data) = p.slots :=
      List.filter_eq_self.mpr fun slot registered =>
        bne_iff_ne.mpr (findSlot_none found slot registered)
    rcases inv.dropFront list free noBuf with ⟨base, nowhere⟩
    rw [slots] at base nowhere
    have dropped : Inv { p with sliceList := rest } := { base with stored := inv.stored }
    have reclaimed := dropped.reclaim nowhere (inv.old .listed _ front_at)
    exact { reclaimed with
      bufBacked := fun buf alive =>
        (reclaimed.bufBacked buf alive).mono (fun _ => id) (fun _ => id) rfl rfl
      accounted := by
        intro i wasRetired
        rcases List.mem_append.mp wasRetired with earlier | now
        · exact reclaimed.accounted i earlier
        · exact .inl (List.mem_append_right _ now) }
  | some slot =>
    have found' : findSlot { p with
      sliceList := rest, retired := p.retired ++ [front.id] } front = some slot := found
    rw [found']
    rcases findSlot_some found with ⟨registered, key⟩
    dsimp only [removeSlot]
    have same : forall place i, i ≠ front.id -> At { p with
        sliceList := rest, slots := p.slots.filter fun slot => slot.key != front.data,
        hand := .counting front slot.state, retired := p.retired ++ [front.id] } place i ->
        p.At place i := by
      intro place i other there
      cases place with
      | listed =>
        show i ∈ p.sliceList.map Slice.id
        rw [list]
        exact List.mem_cons_of_mem _ there
      | inHand => exact absurd (Option.some.inj there).symm other
      | stored state => exact there
      | gone => exact there
    exact { inv with
      slotKeys := inv.slotKeys.sublist (List.filter_sublist.map _)
      slotStates := inv.slotStates.sublist (List.filter_sublist.map _)
      slotOld := fun entry member => inv.slotOld entry (List.mem_of_mem_filter member)
      slotOpen := by
        intro entry member
        rw [List.mem_filter, bne_iff_ne] at member
        refine ⟨(inv.slotOpen entry member.1).1, fun held => ?_⟩
        have equal : entry = slot :=
          inv.slot_unique_state member.1 registered (Option.some.inj held).symm
        exact member.2 (equal ▸ key)
      handOld := fun state held => Option.some.inj held ▸ inv.slotOld slot registered
      handOpen := fun state slice held _ =>
        Option.some.inj held ▸ (inv.slotOpen slot registered).1
      bufBacked := by
        intro buf alive
        by_cases mine : buf.slice = front.id
        · rcases inv.slot_of_buf alive front_listed mine.symm with
            ⟨other, registered', state, key'⟩
          have equal : other = slot :=
            inv.slot_unique registered' registered (key'.trans key.symm)
          exact .inHand front rfl (by rw [<- state, equal]; rfl) mine.symm
        · exact inv.backed_rest list alive mine
            (fun entry member apart => List.mem_filter.mpr ⟨member, bne_iff_ne.mpr apart⟩)
            rfl rfl free
      listOnce := restOnce
      once := by
        refine inv.once.move .inHand same ?_
        intro place there
        cases place with
        | listed => exact absurd there notInRest
        | inHand => rfl
        | stored state => cases onlyListed (.stored state) there
        | gone => exact absurd (onlyListed .gone there) (by decide)
      old := inv.old_of_move (Nat.le_refl _) same (inv.old .listed _ front_at)
      separate := fun first one second two =>
        inv.separate first (inList first one) second (inList second two)
      room := fun slice member => inv.room slice (inList slice member)
      resetEmpty := fun slice member => inv.resetEmpty slice (inList slice member)
      accounted := by
        intro i wasRetired
        rcases List.mem_append.mp wasRetired with earlier | now
        · rcases inv.accounted i earlier with gone | held | stored
          · exact .inl gone
          · have held : p.hand.slice?.map Slice.id = some i := held
            rw [free] at held
            cases held
          · exact .inr (.inr stored)
        · rw [List.mem_singleton.mp now]
          exact .inr (.inl rfl)
      stored := by
        intro state slice stored
        have before := inv.stored state slice stored
        have other : state ≠ slot.state := by
          intro equal
          have none := (inv.slotOpen slot registered).1
          rw [<- equal] at none
          exact nomatch none.symm.trans stored
        have slots := inv.strongCount_removeSlot found other
        have slots : (p.slots.filter fun slot => slot.key != front.data).countP
            (fun entry => entry.state == state) =
          p.slots.countP (fun entry => entry.state == state) := slots
        simp only [strongCount, slots, free, Hand.state?] at before ⊢
        rw [if_neg (by simp)] at before
        omega }

/-! ## Dropping handles -/

theorem no_buf_of_strongCount (none : p.strongCount state = 0) :
    ∀ buf ∈ p.bufs, buf.state ≠ state := by
  intro buf alive same
  have positive := strongCount_pos_of_buf alive
  rw [same] at positive
  rw [strongCount] at none
  omega

/-- Whoever drops the last handle of a state reclaims the slice that is stored there. -/
theorem Base.dropState (base : Base p)
    (others : forall other slice, other ≠ state -> p.retiredSlice other = some slice ->
      0 < p.strongCount other) : Inv (p.dropState state) := by
  unfold Pins.dropState
  by_cases last : p.strongCount state = 0
  case neg =>
    rw [if_neg last]
    refine { base with stored := fun other slice stored => ?_ }
    by_cases same : other = state
    · rw [same]
      exact Nat.pos_of_ne_zero last
    · exact others other slice same stored
  case pos =>
    rw [if_pos last]
    cases stored : p.retiredSlice state with
    | none =>
      refine { base with stored := fun other slice found => ?_ }
      refine others other slice (fun same => ?_) found
      rw [same, stored] at found
      cases found
    | some slice =>
      dsimp only [reclaim]
      have stored_at := at_stored stored
      have only : forall place, p.At place slice.id -> place = .stored state :=
        fun place there => base.once place _ _ there stored_at
      have kept : forall other, other ≠ state ->
          Function.update p.retiredSlice state none other = p.retiredSlice other :=
        fun other different => Function.update_of_ne different _ _
      have cleared : Function.update p.retiredSlice state none state = none :=
        Function.update_self _ _ _
      have open' : forall other, p.retiredSlice other = none ->
          Function.update p.retiredSlice state none other = none := by
        intro other none
        by_cases same : other = state
        · rw [same, cleared]
        · rw [kept other same, none]
      have same : forall place i, i ≠ slice.id -> At { p with
          retiredSlice := Function.update p.retiredSlice state none,
          reclaimed := p.reclaimed ++ [slice.id] } place i -> p.At place i := by
        intro place i other there
        cases place with
        | listed => exact there
        | inHand => exact there
        | stored other =>
          have there : (Function.update p.retiredSlice state none other).map Slice.id =
            some i := there
          by_cases mine : other = state
          · rw [mine, cleared] at there
            cases there
          · rw [kept other mine] at there
            exact there
        | gone => exact mem_of_mem_append_singleton there other
      exact { base with
        slotOpen := fun slot registered =>
          ⟨open' _ (base.slotOpen slot registered).1, (base.slotOpen slot registered).2⟩
        handOpen := fun other held state slice => open' _ (base.handOpen other held state slice)
        bufBacked := fun buf alive => (base.bufBacked buf alive).keep rfl rfl
          (fun other held state id => .inHand other held state id) fun other found id =>
            .stored other ((kept _ (no_buf_of_strongCount last buf alive)).trans found) id
        goneOnce := nodup_append_singleton base.goneOnce fun gone => nomatch only .gone gone
        once := by
          refine base.once.move .gone same ?_
          intro place there
          cases place with
          | listed => cases only .listed there
          | inHand => cases only .inHand there
          | stored other =>
            have there : (Function.update p.retiredSlice state none other).map Slice.id =
              some slice.id := there
            by_cases mine : other = state
            · rw [mine, cleared] at there
              cases there
            · rw [kept other mine] at there
              exact absurd (Place.stored.inj (only (.stored other) there)) mine
          | gone => rfl
        old := base.old_of_move (Nat.le_refl _) same (base.old _ _ stored_at)
        accounted := by
          intro i wasRetired
          rcases base.accounted i wasRetired with gone | held | ⟨other, found⟩
          · exact .inl (List.mem_append_left _ gone)
          · exact .inr (.inl held)
          · by_cases mine : other = state
            · have found : (p.retiredSlice other).map Slice.id = some i := found
              rw [mine, stored, Option.map_some, Option.some.injEq] at found
              exact .inl (List.mem_append_right _ (List.mem_singleton.mpr found.symm))
            · refine .inr (.inr ⟨other, ?_⟩)
              show (Function.update p.retiredSlice state none other).map Slice.id = some i
              rw [kept other mine]
              exact found
        stored := by
          intro other found stored
          by_cases mine : other = state
          · have stored : Function.update p.retiredSlice state none other = some found := stored
            rw [mine, cleared] at stored
            cases stored
          · exact others other found mine ((kept other mine).symm.trans stored) }

theorem Inv.dropBuf (inv : Inv p) (dropped : p.dropBuf i = some q) : Inv q := by
  unfold Pins.dropBuf at dropped
  rw [Option.map_eq_some_iff] at dropped
  rcases dropped with ⟨buf, at', rfl⟩
  rw [List.getElem?_eq_some_iff] at at'
  rcases at' with ⟨inside, rfl⟩
  have fewer : ∀ buf ∈ p.bufs.eraseIdx i, buf ∈ p.bufs := fun buf member =>
    (List.eraseIdx_sublist _ _).subset member
  have base : Base { p with bufs := p.bufs.eraseIdx i } :=
    { inv with
      bufOld := fun buf alive => inv.bufOld buf (fewer buf alive)
      bufBacked := fun buf alive =>
        (inv.bufBacked buf (fewer buf alive)).mono (fun _ => id) (fun _ => id) rfl rfl
      bufKept := fun buf alive => inv.bufKept buf (fewer buf alive) }
  refine base.dropState fun other slice different stored => ?_
  have before := inv.stored other slice stored
  have perm : (p.bufs[i] :: p.bufs.eraseIdx i).Perm p.bufs := List.getElem_cons_eraseIdx_perm inside
  have count := perm.countP_eq (fun buf => buf.state == other)
  rw [List.countP_cons_of_neg (by rw [beq_iff_eq]; exact fun same => different same.symm)] at count
  rw [strongCount] at before ⊢
  rw [count]
  exact before

theorem strongCount_emptyHand {other : Nat} {reclaimed : List Nat}
    (held : p.hand.state? = some state) (different : other ≠ state) :
    strongCount { p with hand := .empty, reclaimed := reclaimed } other = p.strongCount other := by
  have apart : ¬ p.hand.state? = some other := by
    rw [held, Option.some.injEq]
    exact fun same => different same.symm
  rw [strongCount, strongCount, if_neg apart]
  rfl

/-- The last handle is the retirement's own, so it reclaims its slice. -/
theorem Inv.reclaimInHand (inv : Inv p) (held_state : p.hand.state? = some state)
    (held_slice : p.hand.slice? = some slice) (single : p.strongCount state = 1) :
    Inv (({ p with hand := .empty }.reclaim slice).dropState state) := by
  have held_at := at_inHand held_slice
  have only : forall place, p.At place slice.id -> place = .inHand :=
    fun place there => inv.once place _ _ there held_at
  have same : forall place i, i ≠ slice.id -> At { p with
      hand := .empty, reclaimed := p.reclaimed ++ [slice.id] } place i -> p.At place i := by
    intro place i other there
    cases place with
    | listed => exact there
    | inHand => cases there
    | stored other => exact there
    | gone => exact mem_of_mem_append_singleton there other
  have base : Base { p with hand := .empty, reclaimed := p.reclaimed ++ [slice.id] } :=
    { inv with
      slotOpen := fun slot registered => ⟨(inv.slotOpen slot registered).1, nofun⟩
      handOld := nofun
      handOpen := nofun
      bufBacked := by
        intro buf alive
        refine (inv.bufBacked buf alive).keep rfl rfl (fun other held mine id => ?_)
          fun other stored id => .stored other stored id
        -- the `Buf` would be a second handle
        have positive := strongCount_pos_of_buf (p := p) alive
        rw [held_state, Option.some.injEq] at mine
        rw [strongCount, if_pos held_state, mine] at single
        omega
      goneOnce := nodup_append_singleton inv.goneOnce fun gone => nomatch only .gone gone
      once := by
        refine inv.once.move .gone same ?_
        intro place there
        cases place with
        | listed => cases only .listed there
        | inHand => cases there
        | stored other => cases only (.stored other) there
        | gone => rfl
      old := inv.old_of_move (Nat.le_refl _) same (inv.old _ _ held_at)
      accounted := by
        intro i wasRetired
        rcases inv.accounted i wasRetired with gone | held | stored
        · exact .inl (List.mem_append_left _ gone)
        · have held : p.hand.slice?.map Slice.id = some i := held
          rw [held_slice, Option.map_some, Option.some.injEq] at held
          exact .inl (List.mem_append_right _ (List.mem_singleton.mpr held.symm))
        · exact .inr (.inr stored) }
  refine base.dropState fun other found different stored => ?_
  rw [strongCount_emptyHand held_state different]
  exact inv.stored other found stored

/-- There are other handles, so the slice is stored for the last of them. -/
theorem Inv.storeInHand (inv : Inv p) (held_state : p.hand.state? = some state)
    (held_slice : p.hand.slice? = some slice) :
    Inv { p with
      retiredSlice := Function.update p.retiredSlice state (some slice)
      hand := .dropping state } := by
  have held_at := at_inHand held_slice
  have only : forall place, p.At place slice.id -> place = .inHand :=
    fun place there => inv.once place _ _ there held_at
  have wasOpen : p.retiredSlice state = none := inv.handOpen state slice held_state held_slice
  have kept : forall other, other ≠ state ->
      Function.update p.retiredSlice state (some slice) other = p.retiredSlice other :=
    fun other different => Function.update_of_ne different _ _
  have now : Function.update p.retiredSlice state (some slice) state = some slice :=
    Function.update_self _ _ _
  have same : forall place i, i ≠ slice.id -> At { p with
      retiredSlice := Function.update p.retiredSlice state (some slice)
      hand := .dropping state } place i -> p.At place i := by
    intro place i other there
    cases place with
    | listed => exact there
    | inHand => cases there
    | stored found =>
      have there : (Function.update p.retiredSlice state (some slice) found).map Slice.id =
        some i := there
      by_cases mine : found = state
      · rw [mine, now, Option.map_some, Option.some.injEq] at there
        exact absurd there.symm other
      · rw [kept found mine] at there
        exact there
    | gone => exact there
  exact { inv with
    slotOpen := by
      intro slot registered
      have apart : slot.state ≠ state := by
        intro mine
        exact (inv.slotOpen slot registered).2 (mine ▸ held_state)
      refine ⟨(kept _ apart).trans (inv.slotOpen slot registered).1, fun held => ?_⟩
      exact apart (Option.some.inj held).symm
    handOld := fun other held => inv.handOld other (held_state.trans held)
    handOpen := nofun
    bufBacked := by
      intro buf alive
      refine (inv.bufBacked buf alive).keep rfl rfl ?_ ?_
      · intro other held mine id
        rw [held_slice, Option.some.injEq] at held
        rw [held_state, Option.some.injEq] at mine
        refine .stored slice ?_ (held ▸ id)
        show Function.update p.retiredSlice state (some slice) buf.state = some slice
        rw [<- mine, now]
      · intro other stored id
        refine .stored other ((kept _ fun mine => ?_).trans stored) id
        rw [mine, wasOpen] at stored
        cases stored
    once := by
      refine inv.once.move (.stored state) same ?_
      intro place there
      cases place with
      | listed => cases only .listed there
      | inHand => cases there
      | stored other =>
        by_cases mine : other = state
        · rw [mine]
        · have there : (Function.update p.retiredSlice state (some slice) other).map Slice.id =
            some slice.id := there
          rw [kept other mine] at there
          cases only (.stored other) there
      | gone => cases only .gone there
    old := inv.old_of_move (Nat.le_refl _) same (inv.old _ _ held_at)
    accounted := by
      intro i wasRetired
      rcases inv.accounted i wasRetired with gone | held | ⟨other, found⟩
      · exact .inl gone
      · have held : p.hand.slice?.map Slice.id = some i := held
        rw [held_slice, Option.map_some, Option.some.injEq] at held
        refine .inr (.inr ⟨state, ?_⟩)
        show (Function.update p.retiredSlice state (some slice) state).map Slice.id = some i
        rw [now, Option.map_some, held]
      · refine .inr (.inr ⟨other, ?_⟩)
        show (Function.update p.retiredSlice state (some slice) other).map Slice.id = some i
        rw [kept other fun mine => ?_]
        · exact found
        · have found : (p.retiredSlice other).map Slice.id = some i := found
          rw [mine, wasOpen] at found
          cases found
    stored := by
      intro other found stored
      by_cases mine : other = state
      · rw [mine]
        exact strongCount_pos_of_hand rfl
      · have before := inv.stored other found ((kept other mine).symm.trans stored)
        have apart : ¬ p.hand.state? = some other := by
          rw [held_state, Option.some.injEq]
          exact fun same => mine same.symm
        rw [strongCount, if_neg apart] at before
        rw [strongCount]
        exact Nat.lt_of_lt_of_le before (Nat.le_add_right _ _) }

theorem Inv.dropHand (inv : Inv p) (hand : p.hand = .dropping state) :
    Inv ({ p with hand := .empty }.dropState state) := by
  have held_state : p.hand.state? = some state := congrArg Hand.state? hand
  have nothing : p.hand.slice? = none := congrArg Hand.slice? hand
  have same : forall place i, At { p with hand := .empty } place i -> p.At place i := by
    intro place i there
    cases place with
    | inHand => cases there
    | _ => exact there
  have base : Base { p with hand := .empty } :=
    { inv with
      slotOpen := fun slot registered => ⟨(inv.slotOpen slot registered).1, nofun⟩
      handOld := nofun
      handOpen := nofun
      bufBacked := fun buf alive => (inv.bufBacked buf alive).keep rfl rfl
        (fun other held _ _ => by cases nothing.symm.trans held)
        fun other stored id => .stored other stored id
      once := fun first second i one two =>
        inv.once first second i (same first i one) (same second i two)
      old := fun place i there => inv.old place i (same place i there)
      accounted := by
        intro i wasRetired
        rcases inv.accounted i wasRetired with gone | held | stored
        · exact .inl gone
        · have held : p.hand.slice?.map Slice.id = some i := held
          rw [nothing] at held
          cases held
        · exact .inr (.inr stored) }
  refine base.dropState fun other found different stored => ?_
  rw [strongCount_emptyHand held_state different]
  exact inv.stored other found stored

theorem Inv.sameHand (inv : Inv p) {hand : Hand} (state : hand.state? = p.hand.state?)
    (slice : hand.slice? = p.hand.slice?) : Inv { p with hand := hand } := by
  have same : forall place i, At { p with hand := hand } place i -> p.At place i := by
    intro place i there
    cases place with
    | inHand =>
      show p.hand.slice?.map Slice.id = some i
      rw [<- slice]
      exact there
    | _ => exact there
  exact { inv with
    slotOpen := fun slot registered => by
      refine ⟨(inv.slotOpen slot registered).1, ?_⟩
      show hand.state? ≠ some slot.state
      rw [state]
      exact (inv.slotOpen slot registered).2
    handOld := fun other held => inv.handOld other (state.symm.trans held)
    handOpen := fun other found held holds =>
      inv.handOpen other found (state.symm.trans held) (slice.symm.trans holds)
    bufBacked := fun buf alive => (inv.bufBacked buf alive).keep rfl rfl
      (fun other held mine id => .inHand other (slice.trans held) (state.trans mine) id)
      fun other stored id => .stored other stored id
    once := fun first second i one two =>
      inv.once first second i (same first i one) (same second i two)
    old := fun place i there => inv.old place i (same place i there)
    accounted := by
      intro i wasRetired
      rcases inv.accounted i wasRetired with gone | held | stored
      · exact .inl gone
      · refine .inr (.inl ?_)
        show hand.slice?.map Slice.id = some i
        rw [slice]
        exact held
      · exact .inr (.inr stored)
    stored := by
      intro other found stored
      have before := inv.stored other found stored
      rw [strongCount, <- state] at before
      exact before }

theorem Inv.retireStep (inv : Inv p) : Inv p.retireStep := by
  unfold Pins.retireStep
  cases hand : p.hand with
  | empty => exact inv
  | counting slice state =>
    have held_state : p.hand.state? = some state := congrArg Hand.state? hand
    have held_slice : p.hand.slice? = some slice := congrArg Hand.slice? hand
    dsimp only
    by_cases single : p.strongCount state = 1
    · rw [if_pos single]
      exact inv.reclaimInHand held_state held_slice single
    · rw [if_neg single]
      exact inv.sameHand held_state.symm held_slice.symm
  | storing slice state =>
    have held_state : p.hand.state? = some state := congrArg Hand.state? hand
    have held_slice : p.hand.slice? = some slice := congrArg Hand.slice? hand
    exact inv.storeInHand held_state held_slice
  | dropping state => exact inv.dropHand hand

/-! ## The other changes of a call -/

theorem Inv.popAbandon (inv : Inv p) {rest : List Slice} (list : p.sliceList = front :: rest)
    (free : p.hand = .empty) (unpinned : p.isPinned front = false) :
    Inv ({ p with sliceList := rest }.abandon front) /\
      (forall place, ¬ ({ p with sliceList := rest }.abandon front).At place front.id) /\
      ({ p with sliceList := rest }.abandon front).nextSlice = p.nextSlice := by
  have front_listed : front ∈ p.sliceList := list ▸ List.mem_cons_self
  have noBuf := inv.no_buf front_listed unpinned
  rcases inv.dropFront list free noBuf with ⟨base, nowhere⟩
  unfold Pins.abandon
  cases found : p.findSlot front with
  | none =>
    have found' : findSlot { p with sliceList := rest } front = none := found
    have slots : p.slots.filter (fun slot => slot.key != front.data) = p.slots :=
      List.filter_eq_self.mpr fun slot registered =>
        bne_iff_ne.mpr (findSlot_none found slot registered)
    rw [found']
    rw [slots] at base nowhere
    exact ⟨{ base with stored := inv.stored }, nowhere, rfl⟩
  | some slot =>
    have found' : findSlot { p with sliceList := rest } front = some slot := found
    rcases findSlot_some found with ⟨registered, key⟩
    rw [found']
    dsimp only [removeSlot]
    -- the buffer's handle was the only one, and nothing is stored under its state
    have wasOpen : p.retiredSlice slot.state = none := (inv.slotOpen slot registered).1
    have unchanged : ({ p with sliceList := rest, slots := p.slots.filter fun slot =>
        slot.key != front.data } : Pins).dropState slot.state =
        { p with sliceList := rest, slots := p.slots.filter fun slot =>
          slot.key != front.data } := by
      unfold Pins.dropState
      split
      · dsimp only
        rw [wasOpen]
      · rfl
    refine ⟨base.dropState fun other slice different stored => ?_, ?_⟩
    · have before := inv.stored other slice stored
      have slots := inv.strongCount_removeSlot found different
      rw [strongCount, free] at before
      rw [strongCount]
      show 0 < (p.removeSlot front).slots.countP _ + _ + _
      rw [slots, free]
      exact before
    · rw [unchanged]
      exact ⟨nowhere, rfl⟩

theorem Inv.resetFront (inv : Inv p) {rest : List Slice} (list : p.sliceList = front :: rest)
    (unpinned : p.isPinned front = false) :
    Inv p.resetFront := by
  have listed : front ∈ p.sliceList := list ▸ List.mem_cons_self
  have shrunk : Inv { p with sliceList := { front with unread := [] } :: rest } := by
    apply inv.shrink
    · rw [list]
      rfl
    · intro slice member
      rw [list]
      rcases List.mem_cons.mp member with rfl | member
      · exact ⟨front, List.mem_cons_self, rfl, Nat.zero_le _⟩
      · exact ⟨slice, List.mem_cons_of_mem _ member, rfl, Nat.le_refl _⟩
  have notInRest := (inv.rest list).1
  unfold Pins.resetFront
  rw [list]
  dsimp only
  exact { shrunk with
    bufBacked := fun buf alive =>
      (shrunk.bufBacked buf alive).mono (fun _ => id) (fun _ => id) rfl rfl
    bufKept := by
      intro buf alive wasReset
      rcases List.mem_append.mp wasReset with earlier | now
      · exact inv.bufKept buf alive earlier
      · exact inv.no_buf listed unpinned buf alive (List.mem_singleton.mp now)
    resetEmpty := by
      intro slice member wasReset
      rcases List.mem_append.mp wasReset with earlier | now
      · exact shrunk.resetEmpty slice member earlier
      · rcases List.mem_cons.mp member with rfl | member
        · rfl
        · have again : front.id ∈ rest.map Slice.id :=
            List.mem_singleton.mp now ▸ List.mem_map_of_mem member
          exact absurd again notInRest
    resetOld := by
      exact forall_mem_snoc inv.resetOld (inv.old .listed front.id (List.mem_map_of_mem listed)) }

theorem Inv.append (inv : Inv p) {data cap : Nat} {isFromShm : Bool} {unread : List UInt8}
    (fits : unread.length <= cap)
    (apart : ∀ slice ∈ p.sliceList, slice.data = data -> slice.cap = 0 /\ cap = 0) :
    Inv (p.append data cap isFromShm unread) := by
  have cases' : ∀ slice ∈ (p.append data cap isFromShm unread).sliceList,
      slice ∈ p.sliceList \/ slice = ⟨p.nextSlice, data, cap, isFromShm, unread⟩ := by
    intro slice member
    have member : slice ∈ p.sliceList ++ [⟨p.nextSlice, data, cap, isFromShm, unread⟩] :=
      member
    rw [List.mem_append, List.mem_singleton] at member
    exact member
  have same : forall place i, i ≠ p.nextSlice ->
      (p.append data cap isFromShm unread).At place i -> p.At place i := by
    intro place i other there
    cases place with
    | listed =>
      have there : i ∈ (p.sliceList ++
        [(⟨p.nextSlice, data, cap, isFromShm, unread⟩ : Slice)]).map Slice.id := there
      rw [List.map_append] at there
      exact mem_of_mem_append_singleton there other
    | _ => exact there
  have unused : forall place, ¬ p.At place p.nextSlice :=
    fun place there => Nat.lt_irrefl _ (inv.old place _ there)
  exact { inv with
    bufBacked := fun buf alive =>
      (inv.bufBacked buf alive).mono (fun _ => id) (fun _ => List.mem_append_left _) rfl rfl
    listOnce := by
      show ((p.sliceList ++ [_]).map Slice.id).Nodup
      rw [List.map_append]
      exact nodup_append_singleton inv.listOnce (unused .listed)
    once := by
      refine inv.once.move .listed same ?_
      intro place there
      cases place with
      | listed => rfl
      | inHand => exact absurd there (unused .inHand)
      | stored state => exact absurd there (unused (.stored state))
      | gone => exact absurd there (unused .gone)
    old := inv.old_of_move (Nat.le_succ _) same (Nat.lt_succ_self _)
    separate := by
      intro first one second two equal room
      rcases cases' first one with one | rfl
      · rcases cases' second two with two | rfl
        · exact inv.separate first one second two equal room
        · have empty := (apart first one equal).1
          omega
      · rcases cases' second two with two | rfl
        · have empty := (apart second two equal.symm).2
          have room : 0 < cap := room
          omega
        · rfl
    room := by
      intro slice member
      rcases cases' slice member with member | rfl
      · exact inv.room slice member
      · exact fits
    resetEmpty := by
      intro slice member wasReset
      rcases cases' slice member with member | rfl
      · exact inv.resetEmpty slice member wasReset
      · exact absurd (inv.resetOld _ wasReset) (Nat.lt_irrefl _)
    resetOld := fun i wasReset => Nat.lt_succ_of_lt (inv.resetOld i wasReset) }

end Pins

end Lease
end Pool
end Shmipc
