import Shmipc.Base.Ring
import Shmipc.Queue.Ring

namespace Shmipc
namespace Queue

open Transition

/-!
# First in, first out, and no wakeup is lost

The elements between the head and the tail stand in their slots as they were put.
The one slot that is being written is the one behind the tail, and the lock leaves
it to one producer; the one slot that is being read is the one at the head.

The consumer goes to sleep only if it has seen an empty queue after it stored zero
to the working flag.  A producer that stores the tail later finds the flag at zero,
or finds it set by another producer that did and that sends the wakeup.
-/

namespace PutPoint

/-- The producer has the lock. -/
def Holding : PutPoint -> Prop
  | .loadTail _ => True
  | .loadHead _ _ => True
  | .writeSeqId _ _ => True
  | .writeOffset _ _ => True
  | .writeStatus _ _ => True
  | .storeTail _ _ => True
  | _ => False

/-- The producer is between its store of the tail and the end of its claim. -/
def Claiming : PutPoint -> Prop
  | .markWorking => True
  | .sendWakeup => True
  | _ => False

/-- What a producer knows of the queue: its copy of the tail, that there is room,
and which fields of the slot it has written. -/
def Ok (cap head tail : Nat) (slots : Nat -> QueueElement) : PutPoint -> Prop
  | .loadHead _ seen => seen = tail
  | .writeSeqId _ seen => seen = tail /\ tail < head + cap
  | .writeOffset element seen =>
    seen = tail /\ tail < head + cap /\ (slots (tail % cap)).seqId = element.seqId
  | .writeStatus element seen =>
    seen = tail /\ tail < head + cap /\ (slots (tail % cap)).seqId = element.seqId /\
      (slots (tail % cap)).offsetInShmBuf = element.offsetInShmBuf
  | .storeTail element seen =>
    seen = tail /\ tail < head + cap /\ slots (tail % cap) = element
  | _ => True

variable {cap head tail : Nat} {slots : Nat -> QueueElement} {point : PutPoint}

theorem ok_of_not_holding (free : ¬ point.Holding) : point.Ok cap head tail slots := by
  cases point with
  | idle | refused | lock | markWorking | sendWakeup => trivial
  | _ => exact absurd trivial free

theorem Ok.popped (ok : point.Ok cap head tail slots) : point.Ok cap (head + 1) tail slots := by
  cases point with
  | writeSeqId element seen => exact ⟨ok.1, by have := ok.2; omega⟩
  | writeOffset element seen | writeStatus element seen | storeTail element seen =>
    exact ⟨ok.1, by have := ok.2.1; omega, ok.2.2⟩
  | _ => exact ok

end PutPoint

namespace PopPoint

/-- What the consumer knows of the queue: its copy of the head, that there is an
element, and which of its fields it has read. -/
def Ok (cap head tail : Nat) (slots : Nat -> QueueElement) : PopPoint -> Prop
  | .loadTail seen => seen = head
  | .readSeqId seen => seen = head /\ head < tail
  | .readOffset seen seqId => seen = head /\ head < tail /\ seqId = (slots (head % cap)).seqId
  | .readStatus seen seqId offset =>
    seen = head /\ head < tail /\ seqId = (slots (head % cap)).seqId /\
      offset = (slots (head % cap)).offsetInShmBuf
  | .storeHead seen element => seen = head /\ head < tail /\ element = slots (head % cap)
  | _ => True

variable {cap head tail : Nat} {slots slots' : Nat -> QueueElement} {point : PopPoint}

theorem Ok.produced {tail' : Nat} (ok : point.Ok cap head tail slots) (grown : tail <= tail')
    (same : head < tail -> slots' (head % cap) = slots (head % cap)) :
    point.Ok cap head tail' slots' := by
  cases point with
  | readSeqId seen => exact ⟨ok.1, Nat.lt_of_lt_of_le ok.2 grown⟩
  | readOffset seen seqId | readStatus seen seqId offset | storeHead seen element =>
    exact ⟨ok.1, Nat.lt_of_lt_of_le ok.2.1 grown, by rw [same ok.2.1]; exact ok.2.2⟩
  | _ => exact ok

end PopPoint

/-! ## The elements -/

/-- The queue holds what was put and not popped, and its positions count the puts and
the pops. -/
structure RingInv (cap : Nat) (s : QueueState) : Prop where
  head : s.head = s.popped.length
  tail : s.tail = s.put.length
  order : s.popped.length <= s.put.length
  bound : s.put.length <= s.popped.length + cap
  popped : s.popped = s.put.take s.popped.length
  holds : Ring.Holds cap s.popped.length s.put.length s.slots s.put
  locked : forall p, (s.producer p).Holding -> s.lock = some p
  producers : forall p, (s.producer p).Ok cap s.popped.length s.put.length s.slots
  consumer : s.consumer.Ok cap s.popped.length s.put.length s.slots

namespace RingInv

variable {cap : Nat} {s t : QueueState} {p : Nat}

theorem new (slots : Nat -> QueueElement) : RingInv cap (QueueState.new slots) where
  head := rfl
  tail := rfl
  order := Nat.le_refl 0
  bound := Nat.zero_le _
  popped := rfl
  holds := nofun
  locked := nofun
  producers := fun _ => trivial
  consumer := trivial

theorem others (inv : RingInv cap s) (holding : (s.producer p).Holding) {q : Nat}
    (other : q ≠ p) : ¬ (s.producer q).Holding := by
  intro also
  have both := (inv.locked q also).symm.trans (inv.locked p holding)
  exact other (Option.some.inj both)

variable {point : PutPoint} {working : Bool} {inFlight : Nat}

theorem move (inv : RingInv cap s) {lock : Option Nat}
    (ok : point.Ok cap s.popped.length s.put.length s.slots) (own : point.Holding -> lock = some p)
    (others : forall q, q ≠ p -> (s.producer q).Holding -> lock = some q) :
    RingInv cap
      ({ s with lock := lock, working := working, inFlight := inFlight }.setProducer p point) := by
  refine { inv with locked := ?_, producers := ?_ }
  · intro q holding
    by_cases same : q = p
    · subst same
      rw [QueueState.setProducer_self] at holding
      exact own holding
    · rw [QueueState.setProducer_of_ne _ _ same] at holding
      exact others q same holding
  · intro q
    by_cases same : q = p
    · subst same
      rw [QueueState.setProducer_self]
      exact ok
    · rw [QueueState.setProducer_of_ne _ _ same]
      exact inv.producers q

theorem write (inv : RingInv cap s) (holding : (s.producer p).Holding)
    (space : s.put.length < s.popped.length + cap) {store : QueueElement -> QueueElement}
    (ok : point.Ok cap s.popped.length s.put.length
      (Function.update s.slots (s.put.length % cap) (store (s.slots (s.put.length % cap))))) :
    RingInv cap
      ((s.setSlot (QueueState.slotIndex cap s.put.length) store).setProducer p point) := by
  rw [QueueState.slotIndex_natCast]
  refine { inv with holds := inv.holds.write space _, locked := ?_, producers := ?_, consumer := ?_ }
  · intro q held
    by_cases same : q = p
    · subst same
      exact inv.locked q holding
    · rw [QueueState.setProducer_of_ne _ _ same] at held
      exact inv.locked q held
  · intro q
    by_cases same : q = p
    · subst same
      rw [QueueState.setProducer_self]
      exact ok
    · rw [QueueState.setProducer_of_ne _ _ same]
      exact PutPoint.ok_of_not_holding (inv.others holding same)
  · refine inv.consumer.produced (Nat.le_refl _) fun waiting => ?_
    exact Function.update_of_ne (Ring.mod_ne_of_lt waiting space) _ _

theorem bmod_natCast {position : Nat} (small : position < 2 ^ 63) :
    ((position : Int)).bmod (2 ^ 64) = position :=
  Int.bmod_eq_of_le (by omega) (by omega)

theorem store (inv : RingInv cap s) (holding : (s.producer p).Holding)
    (space : s.put.length < s.popped.length + cap) {tail : Int}
    (counted : tail = (s.put.length + 1 : Nat)) :
    RingInv cap
      ({ s with
        tail := tail
        lock := none
        put := s.put ++ [s.slots (s.put.length % cap)] }.setProducer p .markWorking) := by
  have free (q : Nat) : ¬ (Function.update s.producer p .markWorking q).Holding := by
    by_cases same : q = p
    · subst same
      rw [Function.update_self]
      exact id
    · rw [Function.update_of_ne same]
      exact inv.others holding same
  have grown : (s.put ++ [s.slots (s.put.length % cap)]).length = s.put.length + 1 :=
    List.length_append
  constructor
  case head => exact inv.head
  case tail => exact counted.trans (congrArg Nat.cast grown.symm)
  case order => exact Nat.le_trans (Nat.le_succ_of_le inv.order) (Nat.le_of_eq grown.symm)
  case bound => exact Nat.le_trans (Nat.le_of_eq grown) space
  case popped => exact inv.popped.trans (List.take_append_of_le_length inv.order).symm
  case holds => exact grown.symm ▸ inv.holds.push rfl
  case locked => exact fun q held => absurd held (free q)
  case producers => exact fun q => PutPoint.ok_of_not_holding (free q)
  case consumer =>
    exact grown.symm ▸ inv.consumer.produced (Nat.le_succ _) fun _ => rfl

/-- What `put` finds for the number of elements. -/
theorem size (inv : RingInv cap s) (few : s.put.length < 2 ^ 63) :
    (s.put.length - s.head).bmod (2 ^ 64) = (s.put.length - s.popped.length : Nat) := by
  rw [inv.head, <- Int.ofNat_sub inv.order]
  exact bmod_natCast (Nat.lt_of_le_of_lt (Nat.sub_le _ _) few)

theorem produce (inv : RingInv cap s) (few : t.put.length < 2 ^ 63)
    (moved : s.produce cap p = some t) : RingInv cap t := by
  have ok := inv.producers p
  have held := inv.locked p
  have keep (q : Nat) (_ : q ≠ p) (holding : (s.producer q).Holding) : s.lock = some q :=
    inv.locked q holding
  revert moved
  rw [QueueState.produce]
  cases point : s.producer p with
  | idle | refused => rintro ⟨⟩
  | lock element =>
    intro moved
    rcases of_guarded moved with ⟨free, rfl⟩
    refine inv.move trivial (fun _ => rfl) fun q _ holding => ?_
    exact absurd (free.symm.trans (inv.locked q holding)) nofun
  | loadTail element =>
    rintro ⟨⟩
    rw [point] at held
    exact inv.move inv.tail (fun _ => held trivial) keep
  | loadHead element tail =>
    rw [point] at held ok
    have seen : tail = s.put.length := ok
    dsimp only
    by_cases full : cap <= (tail - s.head).bmod (2 ^ 64)
    · rw [if_pos full]
      rintro ⟨⟩
      refine inv.move trivial nofun fun q other holding => ?_
      exact absurd holding (inv.others (by rw [point]; trivial) other)
    · rw [if_neg full]
      rintro ⟨⟩
      refine inv.move ⟨seen, ?_⟩ (fun _ => held trivial) keep
      rw [seen, inv.size few] at full
      omega
  | writeSeqId element tail =>
    rw [point] at ok
    rcases ok with ⟨rfl, space⟩
    rintro ⟨⟩
    refine inv.write (by rw [point]; trivial) space ⟨rfl, space, ?_⟩
    rw [Function.update_self]
  | writeOffset element tail =>
    rw [point] at ok
    rcases ok with ⟨rfl, space, seqId⟩
    rintro ⟨⟩
    refine inv.write (by rw [point]; trivial) space ⟨rfl, space, ?_⟩
    rw [Function.update_self]
    exact ⟨seqId, rfl⟩
  | writeStatus element tail =>
    rw [point] at ok
    rcases ok with ⟨rfl, space, seqId, offset⟩
    rintro ⟨⟩
    refine inv.write (by rw [point]; trivial) space ⟨rfl, space, ?_⟩
    rw [Function.update_self, seqId, offset]
  | storeTail element tail =>
    rw [point] at ok
    rcases ok with ⟨rfl, space, rfl⟩
    rintro ⟨⟩
    have grown : (s.put ++ [s.slots (s.put.length % cap)]).length < 2 ^ 63 := few
    rw [List.length_append] at grown
    exact inv.store (by rw [point]; trivial) space (bmod_natCast grown)
  | markWorking =>
    dsimp only
    by_cases working : s.working
    · rw [if_pos working]
      rintro ⟨⟩
      exact inv.move trivial nofun keep
    · rw [if_neg working]
      rintro ⟨⟩
      exact inv.move trivial nofun keep
  | sendWakeup =>
    rintro ⟨⟩
    exact inv.move trivial nofun keep

theorem look (inv : RingInv cap s) {point : PopPoint}
    (ok : point.Ok cap s.popped.length s.put.length s.slots) :
    RingInv cap { s with consumer := point, working := working, inFlight := inFlight } :=
  { inv with consumer := ok }

theorem pop (inv : RingInv cap s) (waiting : s.popped.length < s.put.length) {head : Int}
    (counted : head = (s.popped.length + 1 : Nat)) :
    RingInv cap
      { s with
        head := head
        popped := s.popped ++ [s.slots (s.popped.length % cap)]
        consumer := .loadHead } := by
  have grown : (s.popped ++ [s.slots (s.popped.length % cap)]).length = s.popped.length + 1 :=
    List.length_append
  have element := inv.holds s.popped.length (Nat.le_refl _) waiting
  have bound := inv.bound
  constructor <;> dsimp only <;> (try rw [grown])
  case head => exact counted
  case tail => exact inv.tail
  case order => exact waiting
  case bound => omega
  case popped => rw [List.take_add_one, element, Option.toList_some, <- inv.popped]
  case holds => exact inv.holds.pop
  case locked => exact inv.locked
  case producers => exact fun p => (inv.producers p).popped
  case consumer => trivial

theorem consume (inv : RingInv cap s) (few : t.put.length < 2 ^ 63)
    (moved : s.consume cap = some t) : RingInv cap t := by
  have ok := inv.consumer
  revert moved
  rw [QueueState.consume]
  cases point : s.consumer with
  | asleep => rintro ⟨⟩
  | loadHead =>
    rintro ⟨⟩
    exact inv.look inv.head
  | loadTail head =>
    rw [point] at ok
    have seen : head = s.popped.length := ok
    have tail := inv.tail
    dsimp only
    by_cases empty : s.tail <= head
    · rw [if_pos empty]
      rintro ⟨⟩
      exact inv.look trivial
    · rw [if_neg empty]
      rintro ⟨⟩
      exact inv.look ⟨seen, by omega⟩
  | readSeqId head =>
    rw [point] at ok
    rcases ok with ⟨rfl, waiting⟩
    rintro ⟨⟩
    exact inv.look ⟨rfl, waiting, by rw [QueueState.slotIndex_natCast]⟩
  | readOffset head seqId =>
    rw [point] at ok
    rcases ok with ⟨rfl, waiting, read⟩
    rintro ⟨⟩
    exact inv.look ⟨rfl, waiting, read, by rw [QueueState.slotIndex_natCast]⟩
  | readStatus head seqId offset =>
    rw [point] at ok
    rcases ok with ⟨rfl, waiting, rfl, rfl⟩
    rintro ⟨⟩
    exact inv.look ⟨rfl, waiting, by rw [QueueState.slotIndex_natCast]⟩
  | storeHead head element =>
    rw [point] at ok
    rcases ok with ⟨rfl, waiting, rfl⟩
    intro moved
    rcases Option.some.inj moved with rfl
    exact inv.pop waiting (bmod_natCast (Nat.lt_of_le_of_lt waiting few))
  | storeZero | sizeTail | storeOne =>
    rintro ⟨⟩
    exact inv.look trivial
  | sizeHead tail =>
    dsimp only
    by_cases empty : tail = s.head
    · rw [if_pos empty]
      rintro ⟨⟩
      exact inv.look trivial
    · rw [if_neg empty]
      rintro ⟨⟩
      exact inv.look trivial

theorem step {action : QueueAction} (inv : RingInv cap s) (few : t.put.length < 2 ^ 63)
    (moved : s.step cap action = some t) : RingInv cap t := by
  cases action with
  | call p element =>
    rcases of_guarded moved with ⟨_, rfl⟩
    exact inv.move trivial nofun fun q _ holding => inv.locked q holding
  | produce p => exact inv.produce few moved
  | wake left =>
    rcases of_guarded moved with ⟨_, rfl⟩
    exact inv.look trivial
  | consume => exact inv.consume few moved

end RingInv

/-! ## What a put returns -/

variable {cap p : Nat} {s t : QueueState}

theorem RingInv.length_of_refused (inv : RingInv cap s) (few : s.put.length < 2 ^ 63)
    (moved : s.produce cap p = some t) (refused : t.producer p = .refused) :
    s.put.length = s.popped.length + cap := by
  have ok := inv.producers p
  have order := inv.order
  have bound := inv.bound
  revert moved
  rw [QueueState.produce]
  split <;> (try split_ifs) <;> rintro ⟨⟩ <;>
    simp only [QueueState.setProducer_self, reduceCtorEq] at refused
  case pos element tail point full =>
    rw [point] at ok
    have seen : tail = s.put.length := ok
    rw [seen, inv.size few] at full
    omega

theorem claiming_of_idle (moved : s.produce cap p = some t) (idle : t.producer p = .idle) :
    (s.producer p).Claiming := by
  revert moved
  rw [QueueState.produce]
  split <;> (try split_ifs) <;> rintro ⟨⟩ <;>
    simp only [QueueState.setProducer_self, reduceCtorEq] at idle
  case pos point _ => rw [point]; trivial
  case h_11 point => rw [point]; trivial

/-- No step takes a put back. -/
theorem put_length_le {action : QueueAction} (moved : s.step cap action = some t) :
    s.put.length <= t.put.length := by
  cases action with
  | call p element | wake left =>
    rcases of_guarded moved with ⟨_, rfl⟩
    exact Nat.le_refl _
  | produce p =>
    revert moved
    rw [QueueState.step, QueueState.produce]
    split <;> (try split_ifs) <;> rintro ⟨⟩
    case h_9 element _ _ =>
      have grown : (s.put ++ [element]).length = s.put.length + 1 := List.length_append
      exact Nat.le_of_lt (Nat.lt_of_lt_of_eq (Nat.lt_succ_self _) grown.symm)
    all_goals exact Nat.le_refl _
  | consume =>
    revert moved
    rw [QueueState.step, QueueState.consume]
    split <;> (try split_ifs) <;> rintro ⟨⟩ <;> exact Nat.le_refl _

/-! ## The wakeups -/

namespace PopPoint

/-- The consumer has stored zero to the flag and not stored one since. -/
def Settling : PopPoint -> Prop
  | .asleep => True
  | .sizeTail => True
  | .sizeHead _ => True
  | _ => False

end PopPoint

/-- Somebody sees to it that the consumer is woken up. -/
def QueueState.Woken (s : QueueState) : Prop :=
  0 < s.inFlight \/ Exists fun p => s.producer p = .sendWakeup

/-- While the consumer settles down, the flag was set by a producer that wakes it
up.  What came in after its last look at the tail has a producer that has yet to
claim, or the flag is set. -/
structure WakeInv (s : QueueState) : Prop where
  set : s.consumer.Settling -> s.working = true -> s.Woken
  seen : forall tail, s.consumer = .sizeHead tail -> tail < s.tail ->
    s.working = true \/ Exists fun p => s.producer p = .markWorking
  asleep : s.consumer = .asleep -> s.head < s.tail ->
    s.Woken \/ Exists fun p => s.producer p = .markWorking

namespace WakeInv

variable {cap : Nat} {s t : QueueState} {p : Nat}

theorem new (slots : Nat -> QueueElement) : WakeInv (QueueState.new slots) where
  set := fun _ set => absurd set nofun
  seen := nofun
  asleep := fun _ waiting => absurd waiting (Int.lt_irrefl 0)

theorem exists_update {point target : PutPoint} (found : Exists fun q => s.producer q = target)
    (other : s.producer p ≠ target) :
    Exists fun q => Function.update s.producer p point q = target := by
  rcases found with ⟨q, at_⟩
  have apart : q ≠ p := by
    rintro rfl
    exact other at_
  exact ⟨q, (Function.update_of_ne apart _ _).trans at_⟩

theorem quiet (inv : WakeInv s) {point : PutPoint} {lock : Option Nat}
    {slots : Nat -> QueueElement} (free : ¬ (s.producer p).Claiming) :
    WakeInv ({ s with lock := lock, slots := slots }.setProducer p point) := by
  have notMarking : s.producer p ≠ .markWorking := fun same => free (by rw [same]; trivial)
  have notSending : s.producer p ≠ .sendWakeup := fun same => free (by rw [same]; trivial)
  have woken (old : s.Woken) :
      QueueState.Woken ({ s with lock := lock, slots := slots }.setProducer p point) := by
    rcases old with flight | sending
    · exact .inl flight
    · exact .inr (exists_update sending notSending)
  constructor
  · exact fun settling set => woken (inv.set settling set)
  · intro tail point later
    rcases inv.seen tail point later with set | marking
    · exact .inl set
    · exact .inr (exists_update marking notMarking)
  · intro asleep waiting
    rcases inv.asleep asleep waiting with old | marking
    · exact .inl (woken old)
    · exact .inr (exists_update marking notMarking)

theorem store {tail : Int} {lock : Option Nat} {put : List QueueElement} (inv : WakeInv s)
    (free : ¬ (s.producer p).Claiming) :
    WakeInv ({ s with tail := tail, lock := lock, put := put }.setProducer p .markWorking) := by
  have notSending : s.producer p ≠ .sendWakeup := fun same => free (by rw [same]; trivial)
  have marking : Exists fun q =>
      Function.update s.producer p .markWorking q = .markWorking :=
    ⟨p, Function.update_self _ _ _⟩
  constructor
  · intro settling set
    rcases inv.set settling set with flight | sending
    · exact .inl flight
    · exact .inr (exists_update sending notSending)
  · exact fun _ _ _ => .inr marking
  · exact fun _ _ => .inr marking

/-- The claim: the flag is set, by this producer or another, and its wakeup is
underway. -/
theorem claim (inv : WakeInv s) (point : s.producer p = .markWorking) :
    WakeInv (if s.working then s.setProducer p .idle
      else { s with working := true }.setProducer p .sendWakeup) := by
  by_cases working : s.working
  · rw [if_pos working]
    have woken (old : s.Woken) : (s.setProducer p .idle).Woken := by
      rcases old with flight | sending
      · exact .inl flight
      · exact .inr (exists_update sending (by rw [point]; nofun))
    constructor
    · exact fun settling set => woken (inv.set settling set)
    · exact fun _ _ _ => .inl working
    · intro asleep _
      have asleep : s.consumer = .asleep := asleep
      exact .inl (woken (inv.set (by rw [asleep]; trivial) working))
  · rw [if_neg working]
    have woken : QueueState.Woken ({ s with working := true }.setProducer p .sendWakeup) :=
      .inr ⟨p, Function.update_self _ _ _⟩
    constructor
    · exact fun _ _ => woken
    · exact fun _ _ _ => .inl rfl
    · exact fun _ _ => .inl woken

theorem send (inv : WakeInv s) (point : s.producer p = .sendWakeup) :
    WakeInv ({ s with inFlight := s.inFlight + 1 }.setProducer p .idle) := by
  have woken : QueueState.Woken ({ s with inFlight := s.inFlight + 1 }.setProducer p .idle) :=
    .inl (Nat.succ_pos _)
  constructor
  · exact fun _ _ => woken
  · intro tail seen later
    rcases inv.seen tail seen later with set | marking
    · exact .inl set
    · exact .inr (exists_update marking (by rw [point]; nofun))
  · exact fun _ _ => .inl woken

theorem produce (inv : WakeInv s) (moved : s.produce cap p = some t) : WakeInv t := by
  revert moved
  rw [QueueState.produce]
  cases point : s.producer p with
  | idle | refused => rintro ⟨⟩
  | lock element =>
    intro moved
    rcases of_guarded moved with ⟨_, rfl⟩
    exact inv.quiet (by rw [point]; exact id)
  | loadTail element | writeSeqId element tail | writeOffset element tail
  | writeStatus element tail =>
    rintro ⟨⟩
    exact inv.quiet (by rw [point]; exact id)
  | loadHead element tail =>
    dsimp only
    split
    · rintro ⟨⟩
      exact inv.quiet (by rw [point]; exact id)
    · rintro ⟨⟩
      exact inv.quiet (by rw [point]; exact id)
  | storeTail element tail =>
    rintro ⟨⟩
    exact inv.store (by rw [point]; exact id)
  | markWorking =>
    have claimed := inv.claim point
    dsimp only
    by_cases working : s.working
    · rw [if_pos working] at claimed ⊢
      rintro ⟨⟩
      exact claimed
    · rw [if_neg working] at claimed ⊢
      rintro ⟨⟩
      exact claimed
  | sendWakeup =>
    rintro ⟨⟩
    exact inv.send point

theorem of_up (up : ¬ t.consumer.Settling) : WakeInv t where
  set := fun settling => absurd settling up
  seen := fun tail point => absurd (by rw [point]; trivial) up
  asleep := fun point => absurd (by rw [point]; trivial) up

theorem consume (inv : WakeInv s) (moved : s.consume cap = some t) : WakeInv t := by
  revert moved
  rw [QueueState.consume]
  cases point : s.consumer with
  | asleep => rintro ⟨⟩
  | loadTail head =>
    dsimp only
    split
    · rintro ⟨⟩
      exact of_up id
    · rintro ⟨⟩
      exact of_up id
  | storeZero =>
    rintro ⟨⟩
    exact ⟨fun _ set => absurd set nofun, nofun, nofun⟩
  | sizeTail =>
    rintro ⟨⟩
    constructor
    · exact fun _ set => inv.set (by rw [point]; trivial) set
    · intro tail seen later
      cases seen
      exact absurd later (Int.lt_irrefl _)
    · nofun
  | sizeHead tail =>
    have settling : s.consumer.Settling := by
      rw [point]
      trivial
    dsimp only
    by_cases empty : tail = s.head
    · rw [if_pos empty]
      rintro ⟨⟩
      constructor
      · exact fun _ set => inv.set settling set
      · nofun
      · intro _ waiting
        rcases inv.seen tail point (empty ▸ waiting) with set | marking
        · exact .inl (inv.set settling set)
        · exact .inr marking
    · rw [if_neg empty]
      rintro ⟨⟩
      exact of_up id
  | _ =>
    rintro ⟨⟩
    exact of_up id

theorem step {action : QueueAction} (inv : WakeInv s) (moved : s.step cap action = some t) :
    WakeInv t := by
  cases action with
  | call p element =>
    rcases of_guarded moved with ⟨idle | refused, rfl⟩
    · exact inv.quiet (by rw [idle]; exact id)
    · exact inv.quiet (by rw [refused]; exact id)
  | produce p => exact inv.produce moved
  | wake left =>
    rcases of_guarded moved with ⟨_, rfl⟩
    exact of_up id
  | consume => exact inv.consume moved

end WakeInv

/-- The elements that were popped are those that were put, in the order of the puts,
and none is missing once the queue is empty.  A put that returns `QueueFull` found
the queue with as many elements as it has slots, and any other comes back only after
it stored the tail.  A consumer that sleeps with no wakeup in flight, and no producer
on the way to claim it, has an empty queue.  The positions are good for `2 ^ 63`
puts. -/
theorem queue_fifo_and_woken {cap : Nat} {s : QueueState}
    (reached : (queueSystem cap).Reachable s) (few : s.put.length < 2 ^ 63) :
    s.put = s.popped ++ s.put.drop s.popped.length /\
      (s.tail = s.put.length /\ s.head = s.popped.length) /\
      (s.tail = s.head -> s.popped = s.put) /\
      (forall p t, s.step cap (.produce p) = some t ->
        (t.producer p = .refused -> s.put.length = s.popped.length + cap) /\
        (t.producer p = .idle -> (s.producer p).Claiming)) /\
      (s.consumer = .asleep -> s.inFlight = 0 -> (forall p, ¬ (s.producer p).Claiming) ->
        s.tail = s.head) := by
  have invariants : s.put.length < 2 ^ 63 -> RingInv cap s /\ WakeInv s := by
    refine reached.invariant (P := fun s => s.put.length < 2 ^ 63 -> RingInv cap s /\ WakeInv s)
      ?_ ?_
    · intro s started _
      rcases started with ⟨slots, rfl⟩
      exact ⟨RingInv.new slots, WakeInv.new slots⟩
    · intro s action t _ _ moved inv few
      rcases inv (Nat.lt_of_le_of_lt (put_length_le moved) few) with ⟨ring, wake⟩
      exact ⟨ring.step few moved, wake.step moved⟩
  rcases invariants few with ⟨ring, wake⟩
  have head := ring.head
  have tail := ring.tail
  have order := ring.order
  refine ⟨?_, ⟨tail, head⟩, ?_, fun p t moved => ⟨?_, ?_⟩, ?_⟩
  · calc
      s.put = s.put.take s.popped.length ++ s.put.drop s.popped.length :=
        (List.take_append_drop _ _).symm
      _ = s.popped ++ s.put.drop s.popped.length := by rw [<- ring.popped]
  · intro empty
    rw [ring.popped, List.take_of_length_le (by omega)]
  · exact ring.length_of_refused few moved
  · exact claiming_of_idle moved
  · intro asleep none quiet
    by_contra waiting
    rcases wake.asleep asleep (by omega) with (flight | sending) | marking
    · omega
    · rcases sending with ⟨p, point⟩
      exact quiet p (by rw [point]; trivial)
    · rcases marking with ⟨p, point⟩
      exact quiet p (by rw [point]; trivial)

/-- A put, a second put that finds the queue full and returns, and a drain. -/
def oneSlotRun : List QueueAction :=
  [[.call 0 ⟨7, 20, 0⟩], List.replicate 7 (.produce 0), [.call 1 ⟨9, 40, 0⟩],
    List.replicate 3 (.produce 1), List.replicate 2 (.produce 0), [.wake 0],
    List.replicate 11 .consume].flatten

/-- A queue of one slot, after the run, has its consumer asleep again. -/
theorem queue_fifo_and_woken_one_slot :
    Exists fun s => (queueSystem 1).Reachable s /\
      (s.consumer = .asleep /\ s.popped = [⟨7, 20, 0⟩] /\ s.put.length < 2 ^ 63 /\
        s.producer 1 = .refused) /\
      s.put = s.popped ++ s.put.drop s.popped.length /\
        (s.tail = s.put.length /\ s.head = s.popped.length) /\
        (s.tail = s.head -> s.popped = s.put) /\
        (forall p t, s.step 1 (.produce p) = some t ->
          (t.producer p = .refused -> s.put.length = s.popped.length + 1) /\
          (t.producer p = .idle -> (s.producer p).Claiming)) /\
        (s.consumer = .asleep -> s.inFlight = 0 -> (forall p, ¬ (s.producer p).Claiming) ->
          s.tail = s.head) := by
  have started : (queueSystem 1).init (QueueState.new fun _ => ⟨0, 0, 0⟩) := ⟨_, rfl⟩
  have test : ((queueSystem 1).run (fun _ _ => True) (QueueState.new fun _ => ⟨0, 0, 0⟩)
      oneSlotRun).any
      (fun s => decide (s.consumer = .asleep /\ s.popped = [⟨7, 20, 0⟩] /\
        s.put.length < 2 ^ 63 /\ s.producer 1 = .refused)) = true := by
    decide
  rcases System.exists_reachable_of_run _ _ started test with ⟨s, reached, found⟩
  exact ⟨s, reached, found, queue_fifo_and_woken reached found.2.2.1⟩

end Queue
end Shmipc
