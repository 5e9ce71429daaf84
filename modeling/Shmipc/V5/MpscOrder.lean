import Mathlib.Data.Nat.Bitwise
import Mathlib.Data.List.Basic
import Shmipc.V5.Mpsc

namespace Shmipc
namespace V5

open Transition

/-!
# Exactly-once, first-in first-out delivery

The argument ties the two header positions, every slot of the current window
and every party's program counter together.  The window starts at the first
position the consumer has not released yet.  Inside it distinct positions use
distinct slots, and the turn counter of each position's slot is either free or
published for exactly that position.  A claimed position is held by at most one
producer until it is published, and the slot of a held position is free.

A producer decides on a stale copy of `tail` and on a copy of `head` that other
producers may move backwards.  The copy never exceeds `head`, and a claim only
takes effect when the copy of `tail` is exact, so the room it saw is real.
-/

namespace Mpsc

variable (ring : Mpsc)

theorem cap_pos : 0 < ring.cap :=
  Nat.succ_pos _

theorem turn_eq_div (position : Nat) : ring.turn position = position / ring.cap := by
  rw [turn, Nat.shiftRight_eq_div_pow, cap_eq]

theorem slotIndex_add_cap (position : Nat) :
    ring.slotIndex (position + ring.cap) = ring.slotIndex position := by
  rw [slotIndex_eq_mod, slotIndex_eq_mod, Nat.add_mod_right]

theorem freeTurn_add_cap (position : Nat) :
    ring.freeTurn (position + ring.cap) = ring.releasedTurn position := by
  rw [freeTurn, releasedTurn, turn_eq_div, turn_eq_div, Nat.add_div_right _ ring.cap_pos]

/-- A published counter is odd and a free one is even, whatever the lap. -/
theorem publishedTurn_ne_freeTurn (position : Nat) :
    ring.publishedTurn position ≠ ring.freeTurn position := by
  intro equal
  have odd : (ring.publishedTurn position).testBit 0 = true := by
    simp [publishedTurn]
  have even : (ring.freeTurn position).testBit 0 = false := by
    simp only [freeTurn, Nat.shiftLeft_eq, Nat.testBit_zero]
    simp only [decide_eq_false_iff_not]
    omega
  rw [equal, even] at odd
  contradiction

theorem eq_of_slotIndex_eq {start a b : Nat}
    (aLower : start <= a) (aUpper : a < start + ring.cap)
    (bLower : start <= b) (bUpper : b < start + ring.cap)
    (same : ring.slotIndex a = ring.slotIndex b) : a = b := by
  rw [slotIndex_eq_mod, slotIndex_eq_mod] at same
  rcases Nat.le_total a b with ordered | ordered
  · have divides := Nat.dvd_of_mod_eq_zero (Nat.sub_mod_eq_zero_of_mod_eq same.symm)
    have zero := Nat.eq_zero_of_dvd_of_lt divides (by omega)
    omega
  · have divides := Nat.dvd_of_mod_eq_zero (Nat.sub_mod_eq_zero_of_mod_eq same)
    have zero := Nat.eq_zero_of_dvd_of_lt divides (by omega)
    omega

end Mpsc

/-- Between two words that have not wrapped past each other, wrapping
subtraction is subtraction. -/
theorem wrappingSub_of_le {a b : Nat} (le : b <= a) (bound : a < 2 ^ 64) :
    wrappingSub a b = a - b := by
  unfold wrappingSub
  omega

namespace Producer

variable {T : Type}

/-- The position a producer has claimed and not yet published. -/
def position? : Producer T -> Option Nat
  | .waitTurn _ position | .write _ position | .publish _ position => some position
  | _ => none

end Producer

/-- The consumer has released the head slot but not stored `head` yet. -/
def Consumer.releasing {T : Type} : Consumer T -> Bool
  | .storeHead _ _ => true
  | _ => false

namespace MpscState

variable {T : Type} (ring : Mpsc)

/-- The first position whose slot the consumer has not released.  It runs one
ahead of `head` between the two stores that end a pop. -/
def released (s : MpscState T) : Nat :=
  if s.consumer.releasing then s.shared.head + 1 else s.shared.head

/-- A producer owns a claimed position whose slot is still free. -/
structure Holds (shared : MpscShared T) (claims : List (Nat × T)) (released : Nat)
    (value : T) (position : Nat) : Prop where
  released_le : released <= position
  claimed : claims[position]? = some (position, value)
  free : shared.turn (ring.slotIndex position) = ring.freeTurn position

/-- What each point of `try_push` may rely on. -/
def ProducerOk (shared : MpscShared T) (claims : List (Nat × T)) (released : Nat) :
    Producer T -> Prop
  | .storeCache _ _ _ head => head <= shared.head
  | .compareExchange _ _ tail =>
    Exists fun seen => seen <= shared.head /\ wrappingSub tail seen <= ring.mask
  | .waitTurn value position => Holds ring shared claims released value position
  | .write value position => Holds ring shared claims released value position
  | .publish value position => Holds ring shared claims released value position /\
      shared.payload (ring.slotIndex position) = value
  | _ => True

/-- A position whose payload the consumer may take. -/
structure Published (shared : MpscShared T) (claims : List (Nat × T)) (position : Nat) :
    Prop where
  turn_eq : shared.turn (ring.slotIndex position) = ring.publishedTurn position
  claimed : claims[position]? = some (position, shared.payload (ring.slotIndex position))

/-- A slot of the window is free for its position or holds its payload. -/
def SlotOk (shared : MpscShared T) (claims : List (Nat × T)) (position : Nat) : Prop :=
  shared.turn (ring.slotIndex position) = ring.freeTurn position \/
    Published ring shared claims position

/-- What each point of `try_pop` may rely on. -/
def ConsumerOk (shared : MpscShared T) (claims : List (Nat × T)) : Consumer T -> Prop
  | .loadTurn head => head = shared.head
  | .loadTail head => head = shared.head
  | .read head => head = shared.head /\ Published ring shared claims head
  | .storeTurn head value => head = shared.head /\ Published ring shared claims head /\
      claims[head]? = some (head, value)
  | .storeHead head value => head = shared.head /\ claims[head]? = some (head, value)
  | _ => True

/-- The invariant of the ring. -/
structure Inv (s : MpscState T) : Prop where
  tail_eq : s.shared.tail = s.claims.length
  head_eq : s.shared.head = s.delivered.length
  released_le : s.released <= s.shared.tail
  tail_le : s.shared.tail <= s.shared.head + ring.cap
  positions : s.claims.map Prod.fst = List.range s.claims.length
  delivered_prefix : s.delivered <+: s.claims.map Prod.snd
  cache_le : forall mapping, s.headCache mapping <= s.shared.head
  producers : forall p, ProducerOk ring s.shared s.claims s.released (s.producer p)
  apart : forall p q position, p ≠ q -> (s.producer p).position? = some position ->
    (s.producer q).position? ≠ some position
  consumer : ConsumerOk ring s.shared s.claims s.consumer
  slots : forall position, s.released <= position -> position < s.released + ring.cap ->
    SlotOk ring s.shared s.claims position

theorem inv_new (zero : T) : Inv ring (new zero) where
  tail_eq := rfl
  head_eq := rfl
  released_le := Nat.le_refl 0
  tail_le := Nat.zero_le _
  positions := rfl
  delivered_prefix := List.nil_prefix
  cache_le := fun _ => Nat.le_refl 0
  producers := fun _ => trivial
  apart := by
    intro p q position _ claimed
    cases claimed
  consumer := trivial
  slots := by
    intro position _ upper
    left
    have firstLap : ring.turn position = 0 := by
      rw [Mpsc.turn_eq_div]
      apply Nat.div_eq_of_lt
      simpa [released, Consumer.releasing, new] using upper
    simp [Mpsc.freeTurn, firstLap, new]

variable {ring} {s : MpscState T}

theorem setProducer_self (s : MpscState T) (p : Nat) (pc : Producer T) :
    (s.setProducer p pc).producer p = pc := by
  simp [setProducer]

variable {p head position : Nat}

theorem setProducer_of_ne (s : MpscState T) {q : Nat} (pc : Producer T) (different : q ≠ p) :
    (s.setProducer p pc).producer q = s.producer q := by
  simp [setProducer, different]

/-! ## Steps that leave the shared words alone -/

/-- Positions stay apart if the producer that moves takes none that another one holds. -/
theorem Inv.apart_setProducer (inv : Inv ring s) {u : MpscState T} {pc : Producer T}
    (same : u.producer = s.producer)
    (own : forall q position, q ≠ p -> pc.position? = some position ->
      (s.producer q).position? ≠ some position) (q r position : Nat) (different : q ≠ r)
    (claimed : ((u.setProducer p pc).producer q).position? = some position) :
    ((u.setProducer p pc).producer r).position? ≠ some position := by
  by_cases qSame : q = p
  · subst q
    rw [setProducer_self] at claimed
    rw [setProducer_of_ne _ _ different.symm, same]
    exact own r position different.symm claimed
  · rw [setProducer_of_ne _ _ qSame, same] at claimed
    by_cases rSame : r = p
    · subst r
      rw [setProducer_self]
      exact fun mine => own q position qSame mine claimed
    · rw [setProducer_of_ne _ _ rSame, same]
      exact inv.apart q r position different claimed

/-- A producer moves on without touching shared memory.  It may keep the
position it holds or drop it, but not acquire one. -/
theorem Inv.setProducer (inv : Inv ring s) {pc : Producer T}
    (ok : ProducerOk ring s.shared s.claims s.released pc)
    (kept : forall position, pc.position? = some position ->
      (s.producer p).position? = some position) :
    Inv ring (s.setProducer p pc) := {
  inv with
  producers := by
    intro q
    by_cases same : q = p
    · subst q
      rw [setProducer_self]
      exact ok
    · rw [setProducer_of_ne s pc same]
      exact inv.producers q
  apart := inv.apart_setProducer rfl fun q position different mine claimed =>
    inv.apart q p position different claimed (kept position mine) }

variable {mapping : Nat} {spurious : Bool}

theorem Inv.setCache (inv : Inv ring s) (le : head <= s.shared.head) :
    Inv ring (s.setCache mapping head) := {
  inv with
  cache_le := by
    intro other
    by_cases same : other = mapping
    · subst other
      exact (Function.update_self mapping head s.headCache).trans_le le
    · exact (Function.update_of_ne same head s.headCache).trans_le (inv.cache_le other) }

theorem Inv.setConsumer (inv : Inv ring s) {pc : Consumer T}
    (ok : ConsumerOk ring s.shared s.claims pc)
    (before : s.consumer.releasing = false) (after : pc.releasing = false) :
    Inv ring (s.setConsumer pc) := by
  have sameReleased : (s.setConsumer pc).released = s.released := by
    simp [released, MpscState.setConsumer, before, after]
  exact {
    inv with
    consumer := ok
    released_le := sameReleased ▸ inv.released_le
    producers := sameReleased ▸ inv.producers
    slots := sameReleased ▸ inv.slots }

/-! ## Steps of a producer on shared words -/

theorem head_le_released (s : MpscState T) : s.shared.head <= s.released := by
  unfold released
  split
  · exact Nat.le_succ _
  · exact Nat.le_refl _

theorem Inv.lt_tail (inv : Inv ring s) {entry : Nat × T}
    (claimed : s.claims[position]? = some entry) : position < s.shared.tail := by
  rw [inv.tail_eq]
  exact (List.getElem?_eq_some_iff.mp claimed).1

theorem Inv.lt_window (inv : Inv ring s) {entry : Nat × T}
    (claimed : s.claims[position]? = some entry) : position < s.released + ring.cap := by
  have upper := inv.lt_tail claimed
  have headLe := head_le_released s
  have tailLe := inv.tail_le
  omega

theorem Inv.holds (inv : Inv ring s) (claimed : (s.producer p).position? = some position) :
    Exists fun value => Holds ring s.shared s.claims s.released value position := by
  have ok := inv.producers p
  cases pc : s.producer p <;> rw [pc] at claimed ok <;> cases claimed
  · exact ⟨_, ok⟩
  · exact ⟨_, ok⟩
  · exact ⟨_, ok.1⟩

theorem getElem?_append_of_some {X : Type} {values : List X} {i : Nat} {x : X} (rest : List X)
    (found : values[i]? = some x) : (values ++ rest)[i]? = some x := by
  rw [List.getElem?_append_left (List.getElem?_eq_some_iff.mp found).1]
  exact found

theorem Published.append {shared : MpscShared T} {claims : List (Nat × T)}
    (published : Published ring shared claims position) (tail : Nat) (rest : List (Nat × T)) :
    Published ring { shared with tail := tail } (claims ++ rest) position :=
  ⟨published.turn_eq, getElem?_append_of_some rest published.claimed⟩

theorem ProducerOk.append {shared : MpscShared T} {claims : List (Nat × T)} {released : Nat}
    {pc : Producer T} (ok : ProducerOk ring shared claims released pc) (tail : Nat)
    (rest : List (Nat × T)) :
    ProducerOk ring { shared with tail := tail } (claims ++ rest) released pc := by
  cases pc with
  | waitTurn value position | write value position =>
    exact ⟨ok.released_le, getElem?_append_of_some rest ok.claimed, ok.free⟩
  | publish value position =>
    exact ⟨⟨ok.1.released_le, getElem?_append_of_some rest ok.1.claimed, ok.1.free⟩, ok.2⟩
  | _ => exact ok

theorem ConsumerOk.append {shared : MpscShared T} {claims : List (Nat × T)}
    {pc : Consumer T} (ok : ConsumerOk ring shared claims pc) (tail : Nat)
    (rest : List (Nat × T)) :
    ConsumerOk ring { shared with tail := tail } (claims ++ rest) pc := by
  cases pc with
  | read head => exact ⟨ok.1, ok.2.append tail rest⟩
  | storeTurn head value =>
    exact ⟨ok.1, ok.2.1.append tail rest, getElem?_append_of_some rest ok.2.2⟩
  | storeHead head value => exact ⟨ok.1, getElem?_append_of_some rest ok.2⟩
  | _ => exact ok

/-- A claim takes the next position, provided the ring has room for it and the
counter does not wrap.  The slot it will use is free, because a published one
would belong to a position claimed before. -/
theorem Inv.claim (inv : Inv ring s) (value : T) (room : s.shared.tail < s.shared.head + ring.cap)
    (bound : s.shared.tail + 1 < 2 ^ 64) :
    Inv ring ((s.claim s.shared.tail value).setProducer p (.waitTurn value s.shared.tail)) := by
  have headLe := head_le_released s
  have tailFresh : forall entry, s.claims[s.shared.tail]? ≠ some entry :=
    fun entry claimed => Nat.lt_irrefl _ (inv.lt_tail claimed)
  have free : s.shared.turn (ring.slotIndex s.shared.tail) = ring.freeTurn s.shared.tail := by
    rcases inv.slots s.shared.tail inv.released_le (by omega) with free | published
    · exact free
    · exact absurd published.claimed (tailFresh _)
  have newTail : (s.shared.tail + 1) % 2 ^ 64 = s.shared.tail + 1 := Nat.mod_eq_of_lt bound
  have newest : (s.claims ++ [(s.shared.tail, value)])[s.shared.tail]? =
      some (s.shared.tail, value) := by
    rw [inv.tail_eq]
    simp
  exact { inv with
    tail_eq := by
      change (s.shared.tail + 1) % 2 ^ 64 = (s.claims ++ [(s.shared.tail, value)]).length
      rw [newTail, List.length_append, inv.tail_eq]
      rfl
    released_le := by
      change s.released <= (s.shared.tail + 1) % 2 ^ 64
      rw [newTail]
      exact Nat.le_succ_of_le inv.released_le
    tail_le := by
      change (s.shared.tail + 1) % 2 ^ 64 <= s.shared.head + ring.cap
      rw [newTail]
      exact room
    positions := by
      change (s.claims ++ [(s.shared.tail, value)]).map Prod.fst =
        List.range (s.claims ++ [(s.shared.tail, value)]).length
      rw [List.map_append, inv.positions, List.length_append]
      simp [List.range_succ, inv.tail_eq]
    delivered_prefix := by
      change s.delivered <+: (s.claims ++ [(s.shared.tail, value)]).map Prod.snd
      rw [List.map_append]
      exact inv.delivered_prefix.trans (List.prefix_append _ _)
    producers := by
      intro q
      by_cases same : q = p
      · subst q
        rw [setProducer_self]
        exact ⟨inv.released_le, newest, free⟩
      · rw [setProducer_of_ne _ _ same]
        exact (inv.producers q).append _ _
    apart := by
      refine inv.apart_setProducer rfl fun q position _ mine claimed => ?_
      cases mine
      rcases inv.holds claimed with ⟨_, holds⟩
      exact tailFresh _ holds.claimed
    consumer := inv.consumer.append _ _
    slots := by
      intro position lower upper
      rcases inv.slots position lower upper with free | published
      · exact Or.inl free
      · exact Or.inr (published.append _ _) }

/-! ## Accesses to one slot

Whatever is written into the slot of one window position is invisible from
every other window position.  The next two lemmas are that frame condition for
the two kinds of facts that mention a slot. -/

theorem Published.of_agree {shared next : MpscShared T} {claims : List (Nat × T)}
    (published : Published ring shared claims position)
    (turnEq : next.turn (ring.slotIndex position) = shared.turn (ring.slotIndex position))
    (payloadEq : next.payload (ring.slotIndex position) =
      shared.payload (ring.slotIndex position)) :
    Published ring next claims position :=
  ⟨turnEq.trans published.turn_eq, by rw [payloadEq]; exact published.claimed⟩

theorem ProducerOk.of_agree {shared next : MpscShared T} {claims : List (Nat × T)}
    {released : Nat} {pc : Producer T} (ok : ProducerOk ring shared claims released pc)
    (headLe : shared.head <= next.head)
    (turnEq : forall position, pc.position? = some position ->
      next.turn (ring.slotIndex position) = shared.turn (ring.slotIndex position))
    (payloadEq : forall position, pc.position? = some position ->
      next.payload (ring.slotIndex position) = shared.payload (ring.slotIndex position)) :
    ProducerOk ring next claims released pc := by
  cases pc with
  | storeCache mapping value tail head => exact Nat.le_trans ok headLe
  | compareExchange mapping value tail =>
    rcases ok with ⟨seen, seenLe, room⟩
    exact ⟨seen, Nat.le_trans seenLe headLe, room⟩
  | waitTurn value position | write value position =>
    exact ⟨ok.released_le, ok.claimed, (turnEq position rfl).trans ok.free⟩
  | publish value position =>
    exact ⟨⟨ok.1.released_le, ok.1.claimed, (turnEq position rfl).trans ok.1.free⟩,
      (payloadEq position rfl).trans ok.2⟩
  | _ => trivial

theorem ConsumerOk.of_agree {shared next : MpscShared T} {claims : List (Nat × T)}
    {pc : Consumer T} (ok : ConsumerOk ring shared claims pc) (headEq : next.head = shared.head)
    (kept : pc.releasing = false -> Published ring shared claims shared.head ->
      Published ring next claims shared.head) :
    ConsumerOk ring next claims pc := by
  cases pc with
  | loadTurn head | loadTail head => exact Eq.trans ok headEq.symm
  | read head =>
    rcases ok with ⟨rfl, published⟩
    exact ⟨headEq.symm, kept rfl published⟩
  | storeTurn head value =>
    rcases ok with ⟨rfl, published, claimed⟩
    exact ⟨headEq.symm, kept rfl published, claimed⟩
  | storeHead head value => exact ⟨ok.1.trans headEq.symm, ok.2⟩
  | _ => trivial

/-- A producer writes into the slot of the position it holds.  Nothing else in
the window shares that slot, and the consumer is not reading it. -/
theorem Inv.touch (inv : Inv ring s) (held : (s.producer p).position? = some position)
    {next : MpscShared T} {pc : Producer T} (headEq : next.head = s.shared.head)
    (tailEq : next.tail = s.shared.tail)
    (turnEq : forall slot, slot ≠ ring.slotIndex position -> next.turn slot = s.shared.turn slot)
    (payloadEq : forall slot, slot ≠ ring.slotIndex position ->
      next.payload slot = s.shared.payload slot) (ok : ProducerOk ring next s.claims s.released pc)
    (kept : forall other, pc.position? = some other -> other = position)
    (slotOk : SlotOk ring next s.claims position) :
    Inv ring ({ s with shared := next }.setProducer p pc) := by
  rcases inv.holds held with ⟨value, holds⟩
  have upper := inv.lt_window holds.claimed
  have releasedEq : ({ s with shared := next }.setProducer p pc).released = s.released := by
    simp only [released, MpscState.setProducer, headEq]
  have elsewhere : forall other, s.released <= other -> other < s.released + ring.cap ->
      other ≠ position -> ring.slotIndex other ≠ ring.slotIndex position :=
    fun other otherLower otherUpper different same => different
      (ring.eq_of_slotIndex_eq otherLower otherUpper holds.released_le upper same)
  have keepPublished : forall other, s.released <= other -> other < s.released + ring.cap ->
      other ≠ position -> Published ring s.shared s.claims other ->
      Published ring next s.claims other := by
    intro other otherLower otherUpper different published
    have apart := elsewhere other otherLower otherUpper different
    exact published.of_agree (turnEq _ apart) (payloadEq _ apart)
  exact { inv with
    tail_eq := tailEq.trans inv.tail_eq
    head_eq := headEq.trans inv.head_eq
    released_le := by
      rw [releasedEq]
      exact inv.released_le.trans (Nat.le_of_eq tailEq.symm)
    tail_le := by
      change next.tail <= next.head + ring.cap
      rw [tailEq, headEq]
      exact inv.tail_le
    cache_le := fun mapping => (inv.cache_le mapping).trans (Nat.le_of_eq headEq.symm)
    producers := by
      intro q
      rw [releasedEq]
      by_cases same : q = p
      · subst q
        rw [setProducer_self]
        exact ok
      · rw [setProducer_of_ne _ _ same]
        have apart : forall other, (s.producer q).position? = some other ->
            ring.slotIndex other ≠ ring.slotIndex position := by
          intro other claimed
          rcases inv.holds claimed with ⟨_, otherHolds⟩
          apply elsewhere other otherHolds.released_le (inv.lt_window otherHolds.claimed)
          intro equal
          subst other
          exact inv.apart q p position same claimed held
        exact (inv.producers q).of_agree (Nat.le_of_eq headEq.symm)
          (fun other claimed => turnEq _ (apart other claimed))
          (fun other claimed => payloadEq _ (apart other claimed))
    apart := by
      refine inv.apart_setProducer rfl fun q other different mine claimed => ?_
      rw [kept other mine] at claimed
      exact inv.apart q p position different claimed held
    consumer := by
      apply inv.consumer.of_agree headEq
      intro reading published
      have headReleased : s.released = s.shared.head := by
        simp [released, reading]
      have different : s.shared.head ≠ position := by
        intro same
        rw [same] at published
        exact ring.publishedTurn_ne_freeTurn position (published.turn_eq.symm.trans holds.free)
      have positive := ring.cap_pos
      exact keepPublished _ (by omega) (by omega) different published
    slots := by
      rw [releasedEq]
      intro other otherLower otherUpper
      by_cases same : other = position
      · subst other
        exact slotOk
      · rcases inv.slots other otherLower otherUpper with free | published
        · exact Or.inl ((turnEq _ (elsewhere other otherLower otherUpper same)).trans free)
        · exact Or.inr (keepPublished other otherLower otherUpper same published) }

theorem Inv.write (inv : Inv ring s) {value : T} (pc : s.producer p = .write value position) :
    Inv ring ((s.setPayload (ring.slotIndex position) value).setProducer p
      (.publish value position)) := by
  have ok := inv.producers p
  rw [pc] at ok
  have holds : Holds ring s.shared s.claims s.released value position := ok
  have held : (s.producer p).position? = some position := by
    rw [pc]
    rfl
  change Inv ring ({ s with shared := (s.setPayload (ring.slotIndex position) value).shared
    }.setProducer p (.publish value position))
  refine inv.touch held rfl rfl ?_ ?_ ?_ ?_ ?_
  · exact fun _ _ => rfl
  · intro slot different
    exact Function.update_of_ne different _ _
  · exact ⟨⟨holds.released_le, holds.claimed, holds.free⟩, Function.update_self _ _ _⟩
  · intro other claimed
    cases claimed
    rfl
  · exact Or.inl holds.free

theorem Inv.publish (inv : Inv ring s) {value : T} (pc : s.producer p = .publish value position) :
    Inv ring ((s.setTurn (ring.slotIndex position) (ring.publishedTurn position)).setProducer p
      (.returned true)) := by
  have ok := inv.producers p
  rw [pc] at ok
  rcases ok with ⟨holds, written⟩
  have held : (s.producer p).position? = some position := by
    rw [pc]
    rfl
  change Inv ring ({ s with
    shared := (s.setTurn (ring.slotIndex position) (ring.publishedTurn position)).shared
    }.setProducer p (.returned true))
  refine inv.touch held rfl rfl ?_ ?_ ?_ ?_ ?_
  · intro slot different
    exact Function.update_of_ne different _ _
  · exact fun _ _ => rfl
  · trivial
  · intro other claimed
    cases claimed
  · refine Or.inr ⟨Function.update_self _ _ _, ?_⟩
    change s.claims[position]? = some (position, s.shared.payload (ring.slotIndex position))
    rw [written]
    exact holds.claimed

/-! ## Steps of the consumer on shared words -/

/-- Releasing the head slot moves the window by one position.  The new last
position of the window reuses that slot and finds it free for its lap. -/
theorem Inv.storeTurn (inv : Inv ring s) {value : T} (pc : s.consumer = .storeTurn head value) :
    Inv ring ((s.setTurn (ring.slotIndex head) (ring.releasedTurn head)).setConsumer
      (.storeHead head value)) := by
  have ok := inv.consumer
  rw [pc] at ok
  rcases ok with ⟨headEq, published, claimed⟩
  subst headEq
  have releasedEq : s.released = s.shared.head := by
    simp [released, pc, Consumer.releasing]
  have positive := ring.cap_pos
  have headUpper := inv.lt_tail claimed
  have elsewhere : forall other, s.shared.head < other -> other < s.shared.head + ring.cap ->
      ring.slotIndex other ≠ ring.slotIndex s.shared.head := by
    intro other lower upper same
    have equal := ring.eq_of_slotIndex_eq (Nat.le_of_lt lower) upper (Nat.le_refl _)
      (by omega) same
    omega
  have keptTurn : forall other, s.shared.head < other -> other < s.shared.head + ring.cap ->
      Function.update s.shared.turn (ring.slotIndex s.shared.head)
        (ring.releasedTurn s.shared.head) (ring.slotIndex other) =
      s.shared.turn (ring.slotIndex other) :=
    fun other lower upper => Function.update_of_ne (elsewhere other lower upper) _ _
  have beyond : forall p position, (s.producer p).position? = some position ->
      s.shared.head < position := by
    intro p position holding
    rcases inv.holds holding with ⟨_, holds⟩
    have lower := holds.released_le
    have different : position ≠ s.shared.head := by
      intro same
      subst same
      exact ring.publishedTurn_ne_freeTurn _ (published.turn_eq.symm.trans holds.free)
    omega
  exact { inv with
    released_le := headUpper
    producers := by
      intro p
      have turnEq : forall position, (s.producer p).position? = some position ->
          Function.update s.shared.turn (ring.slotIndex s.shared.head)
            (ring.releasedTurn s.shared.head) (ring.slotIndex position) =
          s.shared.turn (ring.slotIndex position) := by
        intro position holding
        rcases inv.holds holding with ⟨_, holds⟩
        have upper := inv.lt_window holds.claimed
        exact keptTurn position (beyond p position holding) (by omega)
      have old := inv.producers p
      have after := beyond p
      change ProducerOk ring _ s.claims (s.shared.head + 1) (s.producer p)
      cases current : s.producer p with
      | waitTurn held position | write held position =>
        rw [current] at old turnEq after
        exact ⟨after position rfl, old.claimed, (turnEq position rfl).trans old.free⟩
      | publish held position =>
        rw [current] at old turnEq after
        exact ⟨⟨after position rfl, old.1.claimed, (turnEq position rfl).trans old.1.free⟩, old.2⟩
      | storeCache mapping held tail seen | compareExchange mapping held tail =>
        rw [current] at old; exact old
      | _ => trivial
    consumer := ⟨rfl, claimed⟩
    slots := by
      intro position lower upper
      change s.shared.head + 1 <= position at lower
      change position < s.shared.head + 1 + ring.cap at upper
      by_cases last : position = s.shared.head + ring.cap
      · subst last
        left
        change Function.update s.shared.turn _ _ _ = _
        rw [ring.slotIndex_add_cap, Function.update_self, ring.freeTurn_add_cap]
      · have inside : position < s.shared.head + ring.cap := by omega
        rcases inv.slots position (by omega) (by omega) with free | ready
        · exact Or.inl ((keptTurn position lower inside).trans free)
        · exact Or.inr (ready.of_agree (keptTurn position lower inside) rfl) }

theorem Inv.advance (inv : Inv ring s) {value : T} (pc : s.consumer = .storeHead head value)
    (bound : s.shared.tail < 2 ^ 64) :
    Inv ring ((s.advance head value).setConsumer (.returned (.ready value))) := by
  have ok := inv.consumer
  rw [pc] at ok
  rcases ok with ⟨headEq, claimed⟩
  subst headEq
  have headUpper := inv.lt_tail claimed
  have newHead : (s.shared.head + 1) % 2 ^ 64 = s.shared.head + 1 :=
    Nat.mod_eq_of_lt (by omega)
  have releasedEq : ((s.advance s.shared.head value).setConsumer
      (.returned (.ready value))).released = s.released := by
    rw [released, released, pc]
    exact newHead
  exact { inv with
    head_eq := by
      change (s.shared.head + 1) % 2 ^ 64 = (s.delivered ++ [value]).length
      rw [newHead, List.length_append, inv.head_eq]
      rfl
    released_le := by
      rw [releasedEq]
      exact inv.released_le
    tail_le := by
      change s.shared.tail <= (s.shared.head + 1) % 2 ^ 64 + ring.cap
      have tailLe := inv.tail_le
      omega
    delivered_prefix := by
      change s.delivered ++ [value] <+: s.claims.map Prod.snd
      rcases inv.delivered_prefix with ⟨rest, split⟩
      have next : rest.head? = some value := by
        have found : (s.claims.map Prod.snd)[s.delivered.length]? = some value := by
          rw [<- inv.head_eq, List.getElem?_map, claimed]
          rfl
        rw [<- split, List.getElem?_append_right (Nat.le_refl _), Nat.sub_self,
          <- List.head?_eq_getElem?] at found
        exact found
      rcases List.head?_eq_some_iff.mp next with ⟨more, restEq⟩
      exact ⟨more, by rw [<- split, restEq, List.append_assoc]; rfl⟩
    cache_le := by
      intro mapping
      change s.headCache mapping <= (s.shared.head + 1) % 2 ^ 64
      have old := inv.cache_le mapping
      omega
    producers := by
      intro p
      rw [releasedEq]
      apply (inv.producers p).of_agree
      · change s.shared.head <= (s.shared.head + 1) % 2 ^ 64
        omega
      · exact fun _ _ => rfl
      · exact fun _ _ => rfl
    consumer := trivial
    slots := by
      rw [releasedEq]
      intro position lower upper
      rcases inv.slots position lower upper with free | ready
      · exact Or.inl free
      · exact Or.inr (ready.of_agree rfl rfl) }

/-! ## Whole runs -/

/-- The compare-exchange a producer is about to win does not overflow `tail`. -/
def Claimable (s : MpscState T) (p : Nat) : Prop :=
  forall mapping value, s.producer p = .compareExchange mapping value s.shared.tail ->
    s.shared.tail + 1 < 2 ^ 64

theorem Inv.produce (inv : Inv ring s) {t : MpscState T} (bound : s.claims.length < 2 ^ 64)
    (claimable : s.Claimable p) (moved : s.produce ring p spurious = some t) : Inv ring t := by
  have tailEq := inv.tail_eq
  have ok := inv.producers p
  revert moved
  rw [MpscState.produce]
  cases pc : s.producer p with
  | idle => rintro ⟨⟩
  | returned done => rintro ⟨⟩
  | loadTail mapping value =>
    rintro ⟨⟩
    exact inv.setProducer trivial (fun _ held => by cases held)
  | loadCache mapping value tail =>
    dsimp only
    split
    · rintro ⟨⟩
      exact inv.setProducer trivial (fun _ held => by cases held)
    · next room =>
      rintro ⟨⟩
      exact inv.setProducer ⟨s.headCache mapping, inv.cache_le mapping, Nat.le_of_not_gt room⟩
        (fun _ held => by cases held)
  | loadHead mapping value tail =>
    rintro ⟨⟩
    exact inv.setProducer (Nat.le_refl s.shared.head) (fun _ held => by cases held)
  | storeCache mapping value tail head =>
    rw [pc] at ok
    have cached : Inv ring (s.setCache mapping head) := inv.setCache ok
    dsimp only
    split
    · rintro ⟨⟩
      exact cached.setProducer trivial (fun _ held => by cases held)
    · next room =>
      rintro ⟨⟩
      exact cached.setProducer ⟨head, ok, Nat.le_of_not_gt room⟩ (fun _ held => by cases held)
  | compareExchange mapping value tail =>
    rw [pc] at ok
    dsimp only
    split
    · next won =>
      rintro ⟨⟩
      rcases won with ⟨rfl, _⟩
      rcases ok with ⟨seen, seenLe, close⟩
      have headLe := head_le_released s
      have releasedLe := inv.released_le
      rw [wrappingSub_of_le (by omega) (by omega)] at close
      exact inv.claim value (by unfold Mpsc.cap; omega) (claimable mapping value pc)
    · rintro ⟨⟩
      exact inv.setProducer trivial (fun _ held => by cases held)
  | waitTurn value position =>
    rw [pc] at ok
    dsimp only
    split
    · rintro ⟨⟩
      exact inv
    · rintro ⟨⟩
      exact inv.setProducer ok (fun _ held => by rw [pc]; exact held)
  | write value position =>
    rintro ⟨⟩
    exact inv.write pc
  | publish value position =>
    rintro ⟨⟩
    exact inv.publish pc

theorem Inv.consume (inv : Inv ring s) {t : MpscState T}
    (bound : s.claims.length < 2 ^ 64) (moved : s.consume ring = some t) :
    Inv ring t := by
  have tailEq := inv.tail_eq
  have ok := inv.consumer
  revert moved
  rw [MpscState.consume]
  cases pc : s.consumer with
  | idle => rintro ⟨⟩
  | returned result => rintro ⟨⟩
  | loadHead =>
    rintro ⟨⟩
    exact inv.setConsumer rfl (by rw [pc]; rfl) rfl
  | loadTurn head =>
    rw [pc] at ok
    cases (show head = s.shared.head from ok)
    dsimp only
    split
    · rintro ⟨⟩
      exact inv.setConsumer rfl (by rw [pc]; rfl) rfl
    · next ready =>
      rintro ⟨⟩
      have releasedEq : s.released = s.shared.head := by
        simp [released, pc, Consumer.releasing]
      have positive := ring.cap_pos
      have published : Published ring s.shared s.claims s.shared.head := by
        rcases inv.slots s.shared.head (by omega) (by omega) with free | published
        · exact absurd ((not_not.mp ready).symm.trans free) (ring.publishedTurn_ne_freeTurn _)
        · exact published
      exact inv.setConsumer ⟨rfl, published⟩ (by rw [pc]; rfl) rfl
  | loadTail head =>
    dsimp only
    split
    · rintro ⟨⟩
      exact inv.setConsumer trivial (by rw [pc]; rfl) rfl
    · rintro ⟨⟩
      exact inv.setConsumer trivial (by rw [pc]; rfl) rfl
  | read head =>
    rw [pc] at ok
    rintro ⟨⟩
    exact inv.setConsumer ⟨ok.1, ok.2, ok.2.claimed⟩ (by rw [pc]; rfl) rfl
  | storeTurn head value =>
    rintro ⟨⟩
    exact inv.storeTurn pc
  | storeHead head value =>
    rintro ⟨⟩
    exact inv.advance pc (by omega)

theorem step_push {value : T} {t : MpscState T}
    (moved : s.step ring (.push p mapping value) = some t) :
    t = s.setProducer p (.loadTail mapping value) := by
  rw [MpscState.step] at moved
  split at moved <;> cases moved <;> rfl

theorem step_pop {t : MpscState T} (moved : s.step ring .pop = some t) :
    t = s.setConsumer .loadHead /\ s.consumer.releasing = false := by
  rw [MpscState.step] at moved
  split at moved
  · next pc =>
    cases moved
    exact ⟨rfl, by rw [pc]; rfl⟩
  · next pc =>
    cases moved
    exact ⟨rfl, by rw [pc]; rfl⟩
  · cases moved

theorem Inv.step (inv : Inv ring s) {a : MpscAction T} {t : MpscState T}
    (bound : s.claims.length < 2 ^ 64)
    (claimable : forall p spurious, a = .produce p spurious -> s.Claimable p)
    (moved : s.step ring a = some t) : Inv ring t := by
  cases a with
  | push p mapping value =>
    rw [step_push moved]
    exact inv.setProducer trivial (fun _ held => by cases held)
  | produce p spurious => exact inv.produce bound (claimable p spurious rfl) moved
  | pop =>
    rcases step_pop moved with ⟨rfl, before⟩
    exact inv.setConsumer trivial before rfl
  | consume => exact inv.consume bound moved

/-- With fewer than `2 ^ 63` claims no compare-exchange overflows. -/
theorem Inv.claimable (inv : Inv ring s) (bound : s.claims.length < 2 ^ 63) (p : Nat) :
    s.Claimable p := by
  intro _ _ _
  have tailEq := inv.tail_eq
  omega

theorem consume_frame {t : MpscState T} (moved : s.consume ring = some t) :
    t.shared.tail = s.shared.tail /\ t.claims = s.claims /\ t.producer = s.producer /\
      forall value, t.consumer = .returned (.ready value) ->
        t.delivered = s.delivered ++ [value] := by
  revert moved
  rw [MpscState.consume]
  cases s.consumer with
  | loadTurn head | loadTail head =>
    dsimp only
    split <;> rintro ⟨⟩ <;> exact ⟨rfl, rfl, rfl, by rintro _ ⟨⟩⟩
  | storeHead head value =>
    rintro ⟨⟩
    refine ⟨rfl, rfl, rfl, ?_⟩
    rintro _ ⟨⟩
    rfl
  | _ => rintro ⟨⟩ <;> exact ⟨rfl, rfl, rfl, by rintro _ ⟨⟩⟩

/-- A producer leaves `tail` and the claims alone, or it claims the next position; it does
not touch the consumer. -/
theorem produce_frame {t : MpscState T} (moved : s.produce ring p spurious = some t) :
    t.consumer = s.consumer /\ t.delivered = s.delivered /\
      ((t.shared.tail = s.shared.tail /\ t.claims = s.claims) \/ Exists fun tail =>
        Exists fun value => t.shared.tail = (tail + 1) % 2 ^ 64 /\
          t.claims = s.claims ++ [(tail, value)]) := by
  revert moved
  rw [MpscState.produce]
  cases s.producer p with
  | compareExchange mapping value tail =>
    dsimp only
    split
    · rintro ⟨⟩
      exact ⟨rfl, rfl, .inr ⟨tail, value, rfl, rfl⟩⟩
    · rintro ⟨⟩
      exact ⟨rfl, rfl, .inl ⟨rfl, rfl⟩⟩
  | loadCache mapping value tail | storeCache mapping value tail head | waitTurn value position =>
    dsimp only
    split <;> rintro ⟨⟩ <;> exact ⟨rfl, rfl, .inl ⟨rfl, rfl⟩⟩
  | _ => rintro ⟨⟩ <;> exact ⟨rfl, rfl, .inl ⟨rfl, rfl⟩⟩

/-- A step leaves `tail` and the claims alone, or it claims the next position. -/
theorem claims_of_step {a : MpscAction T} {t : MpscState T} (moved : s.step ring a = some t) :
    (t.shared.tail = s.shared.tail /\ t.claims = s.claims) \/ Exists fun tail =>
      Exists fun value => t.shared.tail = (tail + 1) % 2 ^ 64 /\
        t.claims = s.claims ++ [(tail, value)] := by
  cases a with
  | push p mapping value =>
    rw [step_push moved]
    exact .inl ⟨rfl, rfl⟩
  | produce p spurious => exact (produce_frame moved).2.2
  | pop =>
    rw [(step_pop moved).1]
    exact .inl ⟨rfl, rfl⟩
  | consume =>
    rcases consume_frame moved with ⟨tail, claims, _⟩
    exact .inl ⟨tail, claims⟩

/-- What a pop has returned is what was delivered last. -/
theorem returned_of_step {a : MpscAction T} {t : MpscState T} {value : T}
    (moved : s.step ring a = some t)
    (last : s.consumer = .returned (.ready value) -> s.delivered.getLast? = some value)
    (ready : t.consumer = .returned (.ready value)) : t.delivered.getLast? = some value := by
  cases a with
  | push p mapping value =>
    rw [step_push moved] at ready ⊢
    exact last ready
  | produce p spurious =>
    rcases produce_frame moved with ⟨consumer, delivered, _⟩
    rw [delivered]
    exact last (consumer.symm.trans ready)
  | pop =>
    rw [(step_pop moved).1] at ready
    cases ready
  | consume => rw [(consume_frame moved).2.2.2 value ready, List.getLast?_concat]

theorem claims_length_le_of_step {a : MpscAction T} {t : MpscState T}
    (moved : s.step ring a = some t) : s.claims.length <= t.claims.length := by
  rcases claims_of_step moved with ⟨_, same⟩ | ⟨tail, value, _, added⟩
  · rw [same]
  · rw [added, List.length_append]
    exact Nat.le_add_right _ _

end MpscState

namespace Mpsc

variable {T : Type}

theorem inv_of_reachable (ring : Mpsc) (zero : T) {s : MpscState T}
    (reachable : (ring.system zero).Reachable s) (bound : s.claims.length < 2 ^ 63) :
    MpscState.Inv ring s := by
  refine reachable.invariant (P := fun s => s.claims.length < 2 ^ 63 -> MpscState.Inv ring s)
    ?_ ?_ bound
  · intro start fresh _
    rw [show start = MpscState.new zero from fresh]
    exact MpscState.inv_new ring zero
  · intro s a t _ _ moved ih later
    have earlier := (MpscState.claims_length_le_of_step moved).trans_lt later
    have inv := ih earlier
    exact inv.step (earlier.trans (by decide)) (fun p _ _ => inv.claimable earlier p) moved

/-- Exactly-once delivery in claim order.  In every interleaving with fewer
than `2 ^ 63` claims the claims sit at the positions `0, 1, 2, ...`, the values
handed out are the values of the first claims in that order, a pop returns the
value handed out last, a producer writes
a slot only when every earlier lap of it has been popped, and the distance from
`head` to `tail` stays within the capacity. -/
theorem exactly_once_fifo (ring : Mpsc) (zero : T) {s : MpscState T}
    (reachable : (ring.system zero).Reachable s) (bound : s.claims.length < 2 ^ 63) :
    s.claims.map Prod.fst = List.range s.claims.length /\
    s.delivered <+: s.claims.map Prod.snd /\
    (forall value, s.consumer = .returned (.ready value) ->
      s.delivered.getLast? = some value) /\
    (forall p value position, s.producer p = .write value position ->
      forall earlier, earlier < position -> ring.slotIndex earlier = ring.slotIndex position ->
        earlier < s.delivered.length) /\
    s.shared.head <= s.shared.tail /\
    s.shared.tail - s.shared.head <= ring.cap := by
  have inv := ring.inv_of_reachable zero reachable bound
  have headLe := (MpscState.head_le_released s).trans inv.released_le
  have tailLe := inv.tail_le
  refine ⟨inv.positions, inv.delivered_prefix, fun value => ?_, ?_, headLe, by omega⟩
  · refine reachable.invariant (P := fun s => s.consumer = .returned (.ready value) -> _) ?_
      fun _ _ _ _ _ => MpscState.returned_of_step
    intro start fresh ready
    rw [show start = MpscState.new zero from fresh] at ready
    cases ready
  intro p value position pc earlier before sameSlot
  have holds : MpscState.Holds ring s.shared s.claims s.released value position := by
    have ok := inv.producers p
    rw [pc] at ok
    exact ok
  have upper := inv.lt_tail holds.claimed
  rw [<- inv.head_eq]
  by_contra unpopped
  have equal := ring.eq_of_slotIndex_eq (Nat.le_of_not_lt unpopped) (by omega)
    (by omega) (by omega) sameSlot
  omega

/-- Two laps of a one-slot ring: both values come out, in order. -/
theorem exactly_once_fifo_two_laps :
    Exists fun s : MpscState Nat =>
      ((Mpsc.mk 0 4 0 rfl).system 0).Reachable s /\ s.delivered = [7, 8] /\
      s.delivered <+: s.claims.map Prod.snd := by
  have found : Exists fun s : MpscState Nat => ((Mpsc.mk 0 4 0 rfl).system 0).Reachable s /\
      (s.delivered = [7, 8] /\ s.claims.length < 2 ^ 63) :=
    System.exists_reachable_of_run (MpscState.new 0)
      (.push 0 0 7 :: List.replicate 6 (.produce 0 false) ++ .pop :: List.replicate 5 .consume ++
        .push 1 1 8 :: List.replicate 8 (.produce 1 false) ++ .pop :: List.replicate 5 .consume)
      rfl (by decide)
  rcases found with ⟨s, reachable, delivered, bound⟩
  exact ⟨s, reachable, delivered, (exactly_once_fifo (Mpsc.mk 0 4 0 rfl) 0 reachable bound).2.1⟩

end Mpsc

end V5
end Shmipc
