import Mathlib.Algebra.Order.Group.Nat
import Shmipc.Stream.ReadMore

namespace Shmipc
namespace Stream

open Transition

/-!
# When an end of stream hides no bytes

A reader that finds the stream half closed reports its end as soon as the
readable length falls short.  The bytes it compares were converted before the
state was loaded, so a delivery and the half close that follows it can both
fall between the two accesses, and the reader then reports an end although
enough bytes are waiting in the inbox.

Bytes are also lost to the reader on their way: a version five conversion releases
what stands behind a chain that fails its walk, and a local close empties the
buffers.

In every run in which no half close takes effect in the window while it matters, no
conversion loses a byte and the buffers are not emptied under a reader that has
seen the half close, the read side holds all that was delivered and not consumed,
an end of stream is justified by the bytes delivered before the half close, and the
sticky end-of-file state of the adapter hides none of them.
-/

namespace ReadSide

/-- The reader stands between a conversion and the following state load with
too few readable bytes, while the inbox makes up for them. -/
def inWindow (s : ReadSide) : Bool :=
  match s.reader with
  | .loadState call _ => s.readable.length < call.minSize && call.minSize <= s.unread
  | _ => false

/-- The reader is about to convert what was delivered. -/
def converting (s : ReadSide) : Bool :=
  match s.reader with
  | .takeDelivered _ _ => true
  | _ => false

/-- The reader has loaded a half closed state and not yet compared the length. -/
def sawHalfClose (s : ReadSide) : Bool :=
  match s.reader with
  | .compareLen _ _ .halfClosed => true
  | .availableLen .halfClosed => true
  | _ => false

/-- A half close that takes effect is not taken inside the window, a conversion finds
no bytes behind a chain that fails its walk, and the buffers are not emptied between
the load of a half closed state and the comparison of the length. -/
def OutsideWindow (side : Side) (s : ReadSide) : ReadAction -> Prop
  | .halfClose => s.status = .opened -> s.inWindow = false
  | .read _ => side = .v5 -> s.converting = true ->
      (drainPending s.inbox).1 = movePendingData s.inbox
  | .settle => s.status = .closed -> s.sawHalfClose = false
  | .clean => s.sawHalfClose = false
  | _ => True

instance (side : Side) (s : ReadSide) (a : ReadAction) : Decidable (OutsideWindow side s a) := by
  cases a <;> unfold OutsideWindow <;> infer_instance

/-- What each point of the read path may rely on, given the state, the readable
length and the number of early bytes. -/
def ReaderOk (status : Status) (recvLen early : Nat) : Reader -> Prop
  | .loadState call _ => status = .halfClosed -> call.minSize <= recvLen \/ early < call.minSize
  | .compareLen call _ state => state = .halfClosed ->
      status ≠ .opened /\ (call.minSize <= recvLen \/ early < call.minSize)
  | .returned call (.error .endOfStream) => status ≠ .opened /\ early < call.minSize
  | .returned call .ok => status ≠ .closed -> call.minSize <= recvLen
  | .availableState => status ≠ .closed -> 1 <= recvLen
  | .availableLen state => state = .halfClosed -> status ≠ .opened /\ (1 <= recvLen \/ early < 1)
  | _ => True

structure ReadInv (s : ReadSide) : Prop where
  late_opened : s.status = .opened -> s.late = 0
  kept : s.status ≠ .closed -> s.consumed + s.unread = s.delivered + s.late
  reader : ReaderOk s.status s.readable.length s.early s.reader
  eof : s.eof = true -> s.status ≠ .opened /\ s.early < 1

variable {s : ReadSide} {status : Status} {recvLen early : Nat} {pc : Reader}

theorem ReadInv.early_le (inv : ReadInv s) (live : s.status ≠ .closed) : s.early <= s.unread := by
  have kept := inv.kept live
  rw [early]
  omega

/-! ## What the other parties can do to a waiting reader -/

theorem ReaderOk.deliver_opened (ok : ReaderOk .opened recvLen early pc) (more : Nat) :
    ReaderOk .opened recvLen more pc := by
  cases pc with
  | loadState call armed => exact fun half => by cases half
  | compareLen call armed state | availableLen state => exact fun half => absurd rfl (ok half).1
  | returned call result =>
    cases result with
    | error err =>
      cases err with
      | endOfStream => exact absurd rfl ok.1
      | _ => trivial
    | ok => exact ok
  | availableState => exact ok
  | _ => trivial

theorem ReaderOk.halfClose (ok : ReaderOk .opened recvLen early pc)
    (outside : forall call armed, pc = .loadState call armed ->
      recvLen < call.minSize -> early < call.minSize) :
    ReaderOk .halfClosed recvLen early pc := by
  cases pc with
  | loadState call armed =>
    intro _
    rcases Nat.lt_or_ge recvLen call.minSize with short | enough
    · exact Or.inr (outside call armed rfl short)
    · exact Or.inl enough
  | compareLen call armed state | availableLen state => exact fun half => absurd rfl (ok half).1
  | returned call result =>
    cases result with
    | error err =>
      cases err with
      | endOfStream => exact absurd rfl ok.1
      | _ => trivial
    | ok => exact fun _ => ok (by decide)
  | availableState => exact fun _ => ok (by decide)
  | _ => trivial

theorem ReaderOk.close (ok : ReaderOk status recvLen early pc) :
    ReaderOk .closed recvLen early pc := by
  cases pc with
  | loadState call armed => exact fun half => by cases half
  | compareLen call armed state | availableLen state => exact fun half => ⟨by decide, (ok half).2⟩
  | returned call result =>
    cases result with
    | error err =>
      cases err with
      | endOfStream => exact ⟨by decide, ok.2⟩
      | _ => trivial
    | ok => exact fun opened => absurd rfl opened
  | availableState => exact fun opened => absurd rfl opened
  | _ => trivial

theorem ReaderOk.clean (ok : ReaderOk .closed recvLen early pc)
    (unseen : forall call armed, pc ≠ .compareLen call armed .halfClosed)
    (unavailable : pc ≠ .availableLen .halfClosed) : ReaderOk .closed 0 early pc := by
  cases pc with
  | loadState call armed => exact fun half => by cases half
  | compareLen call armed state => exact fun half => absurd (half ▸ rfl) (unseen call armed)
  | returned call result =>
    cases result with
    | error err =>
      cases err with
      | endOfStream => exact ok
      | _ => trivial
    | ok => exact fun opened => absurd rfl opened
  | availableState => exact fun opened => absurd rfl opened
  | availableLen state => exact fun half => absurd (half ▸ rfl) unavailable
  | _ => trivial

theorem ReadInv.pushDelivery (inv : ReadInv s) (item : Delivery) :
    ReadInv (s.pushDelivery item) := by
  have unread : movePendingData (s.inbox ++ [item]) = movePendingData s.inbox ++ item.bytes := by
    simp [movePendingData]
  rw [ReadSide.pushDelivery]
  by_cases opened : s.status = .opened
  · rw [if_pos opened]
    constructor
    case late_opened => exact inv.late_opened
    case kept =>
      intro live
      have kept := inv.kept live
      simp only [ReadSide.unread, unread, List.length_append] at kept ⊢
      omega
    case reader =>
      have ok := inv.reader
      rw [opened] at ok
      change ReaderOk s.status s.readable.length _ s.reader
      rw [opened]
      exact ok.deliver_opened _
    case eof => exact fun set => absurd opened (inv.eof set).1
  · rw [if_neg opened]
    refine ⟨fun now => absurd now opened, fun live => ?_, inv.reader, inv.eof⟩
    have kept := inv.kept live
    simp only [ReadSide.unread, unread, List.length_append] at kept ⊢
    omega

theorem ReadInv.cleanLocalBuffers (inv : ReadInv s) (closed : s.status = .closed)
    (unseen : s.sawHalfClose = false) : ReadInv s.cleanLocalBuffers where
  late_opened := inv.late_opened
  kept := fun live => absurd closed live
  reader := by
    have ok := inv.reader
    rw [closed] at ok
    change ReaderOk s.status 0 s.early s.reader
    rw [closed]
    refine ok.clean (fun call armed saw => ?_) (fun saw => ?_)
    · simp [sawHalfClose, saw] at unseen
    · simp [sawHalfClose, saw] at unseen
  eof := inv.eof

/-! ## Steps of the reader -/

/-- A conversion that loses no byte moves the inbox to the readable bytes and touches
nothing else that counts. -/
structure Converted (s t : ReadSide) : Prop where
  status_eq : t.status = s.status
  late_eq : t.late = s.late
  delivered_eq : t.delivered = s.delivered
  consumed_eq : t.consumed = s.consumed
  eof_eq : t.eof = s.eof
  inbox_eq : t.inbox = []
  readable_eq : t.readable = s.readable ++ movePendingData s.inbox

variable {side : Side} {t : ReadSide}

theorem converted_takeDelivered (s : ReadSide)
    (whole : side = .v5 -> (drainPending s.inbox).1 = movePendingData s.inbox) :
    Converted s (s.takeDelivered side).1 := by
  cases side with
  | v4 => exact ⟨rfl, rfl, rfl, rfl, rfl, rfl, rfl⟩
  | v5 =>
    have moved := whole rfl
    simp only [ReadSide.takeDelivered]
    split
    · next bytes outcome =>
      rw [outcome] at moved
      exact ⟨rfl, rfl, rfl, rfl, rfl, rfl, congrArg _ moved⟩
    · next bytes fault outcome =>
      rw [outcome] at moved
      exact ⟨rfl, rfl, rfl, rfl, rfl, rfl, congrArg _ moved⟩

theorem Converted.unread_eq (converted : Converted s t) :
    t.unread = t.readable.length /\ t.unread = s.unread := by
  rw [unread, unread, converted.inbox_eq, converted.readable_eq, List.length_append]
  exact ⟨rfl, rfl⟩

theorem ReadInv.setReader (inv : ReadInv s)
    (ok : ReaderOk s.status s.readable.length s.early pc) : ReadInv (s.setReader pc) :=
  { inv with reader := ok }

theorem ReadInv.takeDelivered (inv : ReadInv s) (converted : Converted s t) :
    ReadInv (t.setReader .idle) where
  late_opened := by
    intro opened
    exact converted.late_eq.trans (inv.late_opened (converted.status_eq.symm.trans opened))
  kept := by
    intro live
    have kept := inv.kept (converted.status_eq ▸ live)
    rwa [<- converted.consumed_eq, <- converted.unread_eq.2, <- converted.delivered_eq,
      <- converted.late_eq] at kept
  reader := trivial
  eof := by
    intro set
    change t.status ≠ _ /\ t.delivered - t.consumed < 1
    rw [converted.status_eq, converted.delivered_eq, converted.consumed_eq]
    exact inv.eof (converted.eof_eq.symm.trans set)

theorem ReadInv.consume (inv : ReadInv s) (amount : Nat) : ReadInv (s.consume amount) where
  late_opened := inv.late_opened
  kept := by
    intro live
    have kept := inv.kept live
    have split := congrArg List.length (List.take_append_drop amount s.readable)
    rw [List.length_append] at split
    simp only [ReadSide.consume, unread] at kept ⊢
    omega
  reader := trivial
  eof := by
    intro set
    have old := inv.eof set
    refine ⟨old.1, Nat.lt_of_le_of_lt ?_ old.2⟩
    exact Nat.sub_le_sub_left (Nat.le_add_right _ _) _

theorem ReadInv.finish (inv : ReadInv s) {err : ReadError}
    (justified : err = .endOfStream -> s.status ≠ .opened /\ s.early < 1) :
    ReadInv { s with reader := .idle, eof := s.eof || decide (err = .endOfStream) } where
  late_opened := inv.late_opened
  kept := inv.kept
  reader := trivial
  eof := by
    intro set
    rcases Bool.or_eq_true_iff.mp set with before | now
    · exact inv.eof before
    · exact justified (of_decide_eq_true now)

theorem checkReadReady_cases (state : Status) (recvLen minSize : Nat) :
    (checkReadReady state recvLen minSize = .error .streamClosed) \/
    (checkReadReady state recvLen minSize = .ok true /\ state ≠ .closed /\ minSize <= recvLen) \/
    (checkReadReady state recvLen minSize = .error .endOfStream /\ state = .halfClosed /\
      recvLen < minSize) \/
    (checkReadReady state recvLen minSize = .ok false) := by
  unfold checkReadReady
  by_cases closed : state = .closed
  · exact Or.inl (if_pos closed)
  · rw [if_neg closed]
    by_cases enough : minSize <= recvLen
    · exact Or.inr (Or.inl ⟨if_pos enough, closed, enough⟩)
    · rw [if_neg enough]
      by_cases half : state = .halfClosed
      · exact Or.inr (Or.inr (Or.inl ⟨if_pos half, half, Nat.lt_of_not_ge enough⟩))
      · exact Or.inr (Or.inr (Or.inr (if_neg half)))

theorem ReadInv.read (inv : ReadInv s) {amount : Nat}
    (outside : OutsideWindow side s (.read amount)) (moved : s.read side amount = some t) :
    ReadInv t := by
  have ok := inv.reader
  revert moved ok
  rw [ReadSide.read]
  cases pc : s.reader with
  | idle => rintro ⟨⟩
  | waitReadable =>
    dsimp only
    split <;> rintro ⟨⟩ - <;> exact inv.setReader trivial
  | waitReadableLen =>
    dsimp only
    split
    · rintro ⟨⟩ -
      exact inv.setReader trivial
    · next filled =>
      rintro ⟨⟩ -
      exact inv.setReader (fun _ => Nat.one_le_iff_ne_zero.mpr filled)
  | takeDelivered call armed =>
    have converted := converted_takeDelivered s fun v5 => outside v5 (by rw [converting, pc])
    dsimp only
    split
    · next converter outcome =>
      rw [outcome] at converted
      have taken := inv.takeDelivered converted
      rintro ⟨⟩ -
      refine taken.setReader (fun half => ?_)
      have early : converter.early <= converter.unread := taken.early_le (by rw [half]; decide)
      rw [converted.unread_eq.1] at early
      rcases Nat.lt_or_ge converter.readable.length call.minSize with short | enough
      · exact Or.inr (early.trans_lt short)
      · exact Or.inl enough
    · next converter fault outcome =>
      rw [outcome] at converted
      rintro ⟨⟩ -
      exact (inv.takeDelivered converted).setReader trivial
  | loadState call armed =>
    rintro ⟨⟩ ok
    refine inv.setReader (fun half => ⟨?_, ok half⟩)
    rw [half]
    decide
  | compareLen call armed state =>
    dsimp only
    rcases checkReadReady_cases state s.readable.length call.minSize with
      outcome | ⟨outcome, live, enough⟩ | ⟨outcome, half, short⟩ | outcome <;> rw [outcome]
    · rintro ⟨⟩ -
      exact inv.setReader trivial
    · rintro ⟨⟩ -
      exact inv.setReader (fun _ => enough)
    · rintro ⟨⟩ ok
      rcases ok half with ⟨live, enough | few⟩
      · exact absurd enough (Nat.not_le_of_lt short)
      · exact inv.setReader ⟨live, few⟩
    · dsimp only
      split <;> rintro ⟨⟩ - <;> exact inv.setReader trivial
  | waiting call =>
    rintro ⟨⟩ -
    exact inv.setReader trivial
  | returned call result =>
    cases call with
    | readMore minSize => rintro ⟨⟩
    | pollRead =>
      cases result with
      | ok =>
        rintro ⟨⟩ ok
        exact inv.setReader ok
      | error err =>
        rintro ⟨⟩ ok
        apply inv.finish
        intro ended
        subst ended
        exact ok
  | availableState =>
    rintro ⟨⟩ ok
    refine inv.setReader (fun half => ?_)
    rw [half] at ok ⊢
    exact ⟨by decide, Or.inl (ok (by decide))⟩
  | availableLen state =>
    dsimp only
    rcases checkReadReady_cases state s.readable.length 1 with
      outcome | ⟨outcome, _⟩ | ⟨outcome, half, short⟩ | outcome <;> rw [outcome]
    · rintro ⟨⟩ -
      exact inv.finish (fun ended => by cases ended)
    · rintro ⟨⟩ -
      exact inv.consume amount
    · rintro ⟨⟩ ok
      rcases ok half with ⟨live, enough | few⟩
      · exact absurd enough (Nat.not_le_of_lt short)
      · exact inv.finish (fun _ => ⟨live, few⟩)
    · rintro ⟨⟩ -
      exact inv.setReader trivial

/-! ## Whole runs -/

theorem ReadInv.deliver (inv : ReadInv s) (side : Side) (item : Delivery) :
    ReadInv (s.deliver side item) := by
  cases side with
  | v4 =>
    have pushed := inv.pushDelivery item
    exact ⟨pushed.late_opened, pushed.kept, pushed.reader, pushed.eof⟩
  | v5 =>
    have marked : ReadInv { s with inFallback := s.inFallback || item.isFallback } :=
      ⟨inv.late_opened, inv.kept, inv.reader, inv.eof⟩
    simp only [ReadSide.deliver]
    split
    · exact marked
    · split
      · exact marked.pushDelivery item
      · exact marked

theorem ReadInv.halfClose (inv : ReadInv s) (opened : s.status = .opened)
    (outside : s.inWindow = false) : ReadInv { s with status := .halfClosed } where
  late_opened := fun now => by cases now
  kept := fun _ => inv.kept (by rw [opened]; decide)
  reader := by
    have ok := inv.reader
    rw [opened] at ok
    apply ok.halfClose
    intro call armed pc short
    have unread : s.unread < call.minSize := by
      simpa [inWindow, pc, short] using outside
    exact (inv.early_le (by rw [opened]; decide)).trans_lt unread
  eof := fun set => absurd opened (inv.eof set).1

theorem ReadInv.step (inv : ReadInv s) {a : ReadAction} (outside : OutsideWindow side s a)
    (moved : s.step side a = some t) : ReadInv t := by
  cases a with
  | readMore minSize =>
    rcases of_guarded moved with ⟨_, rfl⟩
    exact inv.setReader trivial
  | pollRead =>
    rcases Option.ite_none_right_eq_some.mp moved with ⟨_, moved⟩
    split at moved <;> cases moved
    · exact inv
    · exact inv.setReader trivial
  | read amount => exact inv.read outside moved
  | consume amount =>
    rcases of_guarded moved with ⟨_, rfl⟩
    exact inv.consume amount
  | deliver item =>
    cases moved
    exact inv.deliver side item
  | settle =>
    simp only [ReadSide.step] at moved
    split at moved
    · cases moved
    · split at moved
      · next closed =>
        cases moved
        have cleaned := inv.cleanLocalBuffers closed (outside closed)
        exact ⟨cleaned.late_opened, cleaned.kept, cleaned.reader, cleaned.eof⟩
      · cases moved
        exact ⟨inv.late_opened, inv.kept, inv.reader, inv.eof⟩
  | halfClose =>
    simp only [ReadSide.step] at moved
    split at moved
    · next opened =>
      cases moved
      exact inv.halfClose opened (outside opened)
    · cases moved
      exact inv
  | close =>
    cases moved
    exact {
      late_opened := fun now => by cases now
      kept := fun live => absurd rfl live
      reader := inv.reader.close
      eof := fun set => ⟨(by decide : Status.closed ≠ .opened), (inv.eof set).2⟩ }
  | clean =>
    rcases of_guarded moved with ⟨closed, rfl⟩
    exact inv.cleanLocalBuffers closed outside

end ReadSide

end Stream
end Shmipc
