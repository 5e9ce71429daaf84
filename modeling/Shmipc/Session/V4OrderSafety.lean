import Mathlib.Data.List.ReduceOption
import Shmipc.Session.V4Order

namespace Shmipc
namespace Session

open Transition
open Shmipc.Stream (Status)

/-!
# Order across the queue and the socket

The queue keeps its own order and so does the socket, and a stream that has
sent something over the socket puts nothing on the queue any more.  What is
missing is a barrier: the read loop acts on a frame although elements that the
same stream put on the queue before may still be there.

With socket events the order rests on the wakeup.  A stream that has claimed knows
that the drain is up, that a polling event is on its way, or that some task is
about to send one.  If none is about to when the stream sends its first frame, the
event is ahead of the frame, and the read loop drains the queue before it gets to
the frame.  In the other modes the order is kept if a drain ends between the
stream's last put and the reading of its frame.  In each of the three modes there
are runs in which that is not so and the frame overtakes.
-/

namespace V4Sender

variable {s t : V4Sender} {mode : WakeupMode} {working : Bool} {user : V4UserStep}
  {effect : V4Effect}

/-- A sender puts nothing on the queue once something went over the socket, nothing
follows a close, and what it is about to send fits its state. -/
structure Ok (s : V4Sender) : Prop where
  last : Item.close ∉ s.sent.dropLast
  closed : Item.close ∈ s.sent -> s.status = .closed /\
    forall item, s.point ≠ .putting item /\ s.point ≠ .sending item
  left : s.left = true -> (forall item, s.point ≠ .putting item) /\
    (s.inFallback = true \/ s.status = .closed)
  putting : s.point = .putting .close -> s.status = .closed
  sending : forall item, s.point = .sending item ->
    (item = .close -> s.status = .closed) /\ (s.inFallback = true \/ s.status = .closed)

/-- What an effect says of the sender before and after. -/
def Did (s t : V4Sender) : V4Effect -> Prop
  | .put item =>
    s.left = false /\ t.left = false /\ t.sent = s.sent ++ [item] /\ t.point = .claiming
  | .send item => t.left = true /\ t.sent = s.sent ++ [item] /\ s.point ≠ .claiming
  | _ => t.left = s.left /\ t.sent = s.sent

theorem Ok.step (ok : s.Ok) (moved : s.step mode working user = some (t, effect)) :
    t.Ok /\ s.Did t effect := by
  rcases ok with ⟨last, closed, left, putting, sending⟩
  cases user with
  | flush data root =>
    simp only [V4Sender.step, flush] at moved
    split at moved
    · cases moved
      constructor
      · constructor <;> grind -ring -linarith
      · grind -ring -linarith [Did]
    · cases moved
  | _ =>
    simp only [V4Sender.step, close] at moved
    constructor
    · constructor <;> grind -ring -linarith
    · grind -ring -linarith [Did]

/-- A step of the sender that puts nothing on a channel, or none at all. -/
def Rests (mode : WakeupMode) (working : Bool) (s t : V4Sender) : Prop :=
  t = s \/ Exists fun user => s.step mode working user = some (t, .claim) \/
    Exists fun direct => s.step mode working user = some (t, .wake direct)

theorem Ok.rests (ok : s.Ok) (rests : Rests mode working s t) :
    t.Ok /\ t.left = s.left /\ t.sent = s.sent := by
  rcases rests with rfl | ⟨user, step | ⟨direct, step⟩⟩
  · exact ⟨ok, rfl, rfl⟩
  · exact ok.step step
  · exact ok.step step

/-- A task stops claiming only because it won or because somebody else had. -/
theorem claiming_step (moved : s.step mode working user = some (t, effect))
    (claiming : s.point = .claiming) :
    t.point = .claiming \/ effect = .claim \/ mode = .queuePolling \/ working = true := by
  cases user <;> simp only [V4Sender.step] at moved <;> grind -ring -linarith

end V4Sender

namespace V4Receiver

/-- Until a close has come in, the stream is open and has all that came in, and it can be
made if it is not there.  A close leaves no trace on a stream that was never made. -/
structure Ok (isClient : Bool) (r : V4Receiver) : Prop where
  opened : Item.close ∉ r.taken -> r.appended = r.taken /\ r.status = .opened /\
    (r.present = true \/ isClient = false)
  all : r.appended = r.taken \/ r.appended ++ [.close] = r.taken

theorem Ok.receive {isClient : Bool} {r : V4Receiver} (ok : r.Ok isClient)
    (fresh : Item.close ∉ r.taken) (overSocket : Bool) (item : Item) :
    Ok isClient { r.receive isClient overSocket item with taken := r.taken ++ [item] } := by
  rcases ok.opened fresh with ⟨appended, status, reachable⟩
  cases item with
  | shm root | heap bytes | close => constructor <;> grind -ring -linarith [V4Receiver.receive]

end V4Receiver

/-! ## A session as one stream sees it -/

/-- What of a session matters to one stream: its two ends, its items in the queue or in
the drain's hands, its frames on their way over the socket with the wakeups among
them, and what there is to the wakeups. -/
structure V4View where
  sender : V4Sender
  receiver : V4Receiver
  onQueue : List Item
  lane : List (Option Item)
  drained : Bool
  working : Bool
  drain : V4Drain
  wakers : Nat

/-- The drain has yet to store zero to the working flag. -/
def V4Drain.active : V4Drain -> Bool
  | .asleep => false
  | .testing => false
  | _ => true

namespace V4View

def take (isClient overSocket : Bool) (v : V4View) (item : Item) : V4View :=
  { v with
    receiver := { v.receiver.receive isClient overSocket item with
      taken := v.receiver.taken ++ [item] } }

/-- The steps of a session, as one stream sees them. -/
inductive Move (isClient : Bool) (mode : WakeupMode) (v : V4View) : V4View -> Prop
  | same : Move isClient mode v v
  | quiet {user : V4UserStep} {sender : V4Sender}
      (own : v.sender.step mode v.working user = some (sender, .quiet)) :
      Move isClient mode v { v with sender := sender }
  | put {user : V4UserStep} {sender : V4Sender} {item : Item}
      (own : v.sender.step mode v.working user = some (sender, .put item)) :
      Move isClient mode v
        { v with sender := sender, onQueue := v.onQueue ++ [item], drained := false }
  | send {user : V4UserStep} {sender : V4Sender} {item : Item}
      (own : v.sender.step mode v.working user = some (sender, .send item))
      (inTime : mode = .socketEvent -> v.wakers = 0) :
      Move isClient mode v { v with sender := sender, lane := v.lane ++ [some item] }
  | claim {sender : V4Sender} (own : V4Sender.Rests mode v.working v.sender sender) :
      Move isClient mode v
        { v with sender := sender, working := true, wakers := v.wakers + 1 }
  | wake {sender : V4Sender} {before after : List (Option Item)}
      (own : V4Sender.Rests mode v.working v.sender sender)
      (lane : v.lane = before ++ after) (wakeup : List (Option Item))
      (event : wakeup = [none] \/ mode = .eventFd /\ wakeup = []) :
      Move isClient mode v
        { v with sender := sender, wakers := v.wakers - 1, lane := before ++ wakeup ++ after }
  | poll {rest : List (Option Item)} (lane : v.lane = none :: rest) (drain : V4Drain)
      (woken : mode = .socketEvent -> drain = .popping) :
      Move isClient mode v { v with lane := rest, drain := drain }
  | frame {item : Item} {rest : List (Option Item)} (lane : v.lane = some item :: rest)
      (inTime : if mode = .socketEvent then v.drain = .asleep else v.drained = true) :
      Move isClient mode v ({ v with lane := rest }.take isClient true item)
  | handle {item : Item} {rest : List Item} (onQueue : v.onQueue = item :: rest) :
      Move isClient mode v
        ({ v with onQueue := rest, drain := .popping }.take isClient false item)
  | drain (drain : V4Drain) (active : drain.active = true) (working : Bool)
      (kept : working = true -> v.working = true \/ drain = .popping) :
      Move isClient mode v { v with drain := drain, working := working }
  | store : Move isClient mode v { v with working := false, drain := .testing }
  | sleep (testing : v.drain = .testing) (empty : v.onQueue = []) :
      Move isClient mode v { v with drain := .asleep, drained := true }

/-- The invariant of one stream.  Everything sent is accounted for, in order; with socket
events, whatever the stream has in the queue will be drained before the read loop gets
to its frames. -/
structure InOrder (isClient : Bool) (mode : WakeupMode) (v : V4View) : Prop where
  flow : v.receiver.taken ++ (v.onQueue ++ v.lane.reduceOption) = v.sender.sent
  sender : v.sender.Ok
  receiver : v.receiver.Ok isClient
  left : v.sender.left = false -> v.lane.reduceOption = []
  drained : v.drained = true -> v.onQueue = []
  working : mode = .socketEvent -> v.working = true ->
    v.drain.active = true \/ none ∈ v.lane \/ 0 < v.wakers
  claimed : mode = .socketEvent -> v.onQueue ≠ [] ->
    v.sender.point = .claiming \/ v.drain ≠ .asleep \/ none ∈ v.lane \/ 0 < v.wakers
  polled : mode = .socketEvent -> v.onQueue ≠ [] ->
    v.drain ≠ .asleep \/ forall item, v.lane.head? ≠ some (some item)

variable {isClient : Bool} {mode : WakeupMode} {v w : V4View}

/-- Whatever still follows, no close has come in. -/
theorem InOrder.fresh {item : Item} {rest : List Item} (inv : v.InOrder isClient mode)
    (follows : v.onQueue ++ v.lane.reduceOption = item :: rest) :
    Item.close ∉ v.receiver.taken := by
  have last := inv.sender.last
  rw [<- inv.flow, follows, List.dropLast_append_of_ne_nil (List.cons_ne_nil _ _)] at last
  exact fun taken => last (List.mem_append_left _ taken)

theorem head?_of_empty {lane : List (Option Item)} (empty : lane.reduceOption = []) (item : Item) :
    lane.head? ≠ some (some item) := by
  cases lane with
  | nil => nofun
  | cons first rest => cases first <;> simp_all

theorem InOrder.move (inv : v.InOrder isClient mode) (moved : v.Move isClient mode w) :
    w.InOrder isClient mode := by
  have fresh (item : Item) (rest : List Item) := @inv.fresh _ _ _ item rest
  rcases inv with ⟨flow, own, receiver, left, drained, working, claimed, polled⟩
  cases moved with
  | same => exact ⟨flow, own, receiver, left, drained, working, claimed, polled⟩
  | quiet step =>
    have kept := V4Sender.claiming_step step
    rcases own.step step with ⟨ok, sameLeft, sameSent⟩
    constructor <;> grind -ring -linarith [V4Drain.active]
  | put step =>
    rcases own.step step with ⟨ok, wasLeft, sameLeft, sent, claiming⟩
    have empty := left wasLeft
    constructor
    case polled => exact fun _ _ => .inr (head?_of_empty empty)
    all_goals grind -ring -linarith
  | send step inTime =>
    rcases own.step step with ⟨ok, sameLeft, sent, unclaimed⟩
    constructor
    -- The stream has claimed and nobody stands before a wakeup, so it is on its way.
    case polled => cases lane : v.lane <;> grind -ring -linarith
    case flow =>
      rw [List.reduceOption_append, sent, <- flow]
      simp
    all_goals grind -ring -linarith
  | claim step =>
    rcases own.rests step with ⟨ok, sameLeft, sameSent⟩
    constructor <;> grind -ring -linarith
  | @wake sender before after step lane wakeup event =>
    rcases own.rests step with ⟨ok, sameLeft, sameSent⟩
    constructor
    case polled => cases before <;> grind -ring -linarith
    all_goals grind -ring -linarith [List.reduceOption_append, List.reduceOption_cons_of_none]
  | poll lane drain woken =>
    constructor <;> grind -ring -linarith [List.reduceOption_cons_of_none, V4Drain.active]
  | @frame item rest lane inTime =>
    have none : v.onQueue = [] := by grind -ring -linarith
    have first : v.onQueue ++ v.lane.reduceOption = item :: rest.reduceOption := by
      rw [none, lane, List.nil_append, List.reduceOption_cons_of_some]
    have next := receiver.receive (fresh _ _ first) true item
    constructor <;> grind -ring -linarith [take, List.reduceOption_cons_of_some]
  | @handle item rest onQueue =>
    have first : v.onQueue ++ v.lane.reduceOption = item :: (rest ++ v.lane.reduceOption) := by
      rw [onQueue, List.cons_append]
    have next := receiver.receive (fresh _ _ first) false item
    constructor <;> grind -ring -linarith [take, V4Drain.active]
  | drain drain active working kept | sleep testing empty =>
    constructor <;> grind -ring -linarith [V4Drain.active]
  | store => constructor <;> grind -ring -linarith

end V4View

/-! ## The steps of a session -/

/-- What a message is to a stream. -/
def Message.itemFor (x : Nat) (message : Message) : Option Item :=
  if message.seqId = x then some message.item else none

/-- What an event of the socket is to a stream: a wakeup, or a frame of its own. -/
def V4Event.itemFor (x : Nat) : V4Event -> Option (Option Item)
  | .polling => some none
  | .frame message => (message.itemFor x).map some

/-- The message that the drain has popped and not yet handed to its stream. -/
def V4Drain.hand : V4Drain -> List Message
  | .handling message => [message]
  | _ => []

namespace V4Session

def view (x : Nat) (s : V4Session) : V4View where
  sender := s.sender x
  receiver := s.receiver x
  onQueue := (s.drain.hand ++ s.queue).filterMap (Message.itemFor x)
  lane := (s.socket ++ s.channel).filterMap (V4Event.itemFor x)
  drained := s.drained x
  working := s.working
  drain := s.drain
  wakers := s.wakers

/-- The next event that the read loop takes is a frame of the stream. -/
def framed (x : Nat) (s : V4Session) : Bool :=
  match s.socket with
  | .frame message :: _ => message.seqId = x
  | _ => false

/-- With socket events, a frame of the stream is sent while no task stands between the
claim it won and its event.  In the other modes, the read loop takes a frame of the
stream only if a drain has ended since the stream's last put. -/
def InTime (mode : WakeupMode) (x : Nat) (s : V4Session) : V4Action -> Prop
  | .user seqId .send => mode = .socketEvent -> seqId = x -> s.wakers = 0
  | .readEvent => mode ≠ .socketEvent -> s.framed x = true -> s.drained x = true
  | _ => True

instance (mode : WakeupMode) (x : Nat) (s : V4Session) (action : V4Action) :
    Decidable (s.InTime mode x action) := by
  unfold InTime
  split <;> infer_instance

variable {isClient : Bool} {mode : WakeupMode} {x : Nat} {s t : V4Session}

theorem move_of_user {seqId : Nat} {user : V4UserStep} {sender : V4Sender} {effect : V4Effect}
    (inTime : s.InTime mode x (.user seqId user))
    (moved : (s.sender seqId).step mode s.working user = some (sender, effect)) :
    (s.view x).Move isClient mode
      (({ s with sender := Function.update s.sender seqId sender }.act mode seqId effect).view
        x) := by
  -- The sender of the stream after the step, which may be another's.
  have rests (plain : effect = .claim \/ Exists fun direct => effect = .wake direct) :
      V4Sender.Rests mode s.working (s.sender x) (Function.update s.sender seqId sender x) := by
    by_cases mine : seqId = x
    · subst mine
      rw [Function.update_self]
      rcases plain with rfl | ⟨direct, rfl⟩
      · exact .inr ⟨user, .inl moved⟩
      · exact .inr ⟨user, .inr ⟨direct, moved⟩⟩
    · exact .inl (Function.update_of_ne (Ne.symm mine) _ _)
  cases effect with
  | claim => simpa [view, act] using V4View.Move.claim (v := s.view x) (rests (.inl rfl))
  | wake direct =>
    have own := rests (.inr ⟨direct, rfl⟩)
    by_cases eventFd : mode = .eventFd
    · simpa [view, act, eventFd] using V4View.Move.wake (v := s.view x) own
        (List.append_nil _).symm [] (.inr ⟨eventFd, rfl⟩)
    · cases direct with
      | true =>
        simpa [view, act, eventFd, V4Event.itemFor] using
          V4View.Move.wake (v := s.view x) own (List.filterMap_append ..) [none] (.inl rfl)
      | false =>
        simpa [view, act, eventFd, V4Event.itemFor] using
          V4View.Move.wake (v := s.view x) own (List.append_nil _).symm [none] (.inl rfl)
  | quiet =>
    by_cases mine : seqId = x
    · subst mine
      simpa [view, act] using V4View.Move.quiet (v := s.view seqId) moved
    · simpa [view, act, Ne.symm mine] using V4View.Move.same
  | put item =>
    by_cases mine : seqId = x
    · subst mine
      simpa [view, act, Message.itemFor] using V4View.Move.put (v := s.view seqId) moved
    · simpa [view, act, Message.itemFor, mine, Ne.symm mine] using V4View.Move.same
  | send item =>
    by_cases mine : seqId = x
    · subst mine
      have isSend : user = .send := by cases user <;> simp only [V4Sender.step] at moved <;> grind
      subst isSend
      simpa [view, act, V4Event.itemFor, Message.itemFor] using
        V4View.Move.send (v := s.view seqId) moved fun socket => inTime socket rfl
    · simpa [view, act, V4Event.itemFor, Message.itemFor, mine, Ne.symm mine] using
        V4View.Move.same

theorem move_of_step {action : V4Action} (inTime : s.InTime mode x action)
    (moved : s.step isClient mode action = some t) :
    (s.view x).Move isClient mode (t.view x) := by
  cases action with
  | user seqId user =>
    rcases Option.map_eq_some_iff.mp moved with ⟨⟨sender, effect⟩, stepped, rfl⟩
    exact move_of_user inTime stepped
  | writeLoop =>
    simp only [V4Session.step] at moved
    split at moved <;> cases moved
    next event rest channel => simpa [view, channel] using V4View.Move.same
  | readEvent =>
    rcases Option.ite_none_left_eq_some.mp moved with ⟨awake, moved⟩
    have asleep (socket : mode = .socketEvent) : s.drain = .asleep := by
      by_contra busy
      exact awake ⟨socket, busy⟩
    split at moved <;> cases moved
    · next rest socket =>
      have hand : V4Drain.hand (if mode = .socketEvent then .popping else s.drain) =
          s.drain.hand := by
        split
        · next isSocket => rw [asleep isSocket]; rfl
        · rfl
      simpa [view, socket, hand, V4Event.itemFor] using
        V4View.Move.poll (v := s.view x) (by simp [view, socket, V4Event.itemFor])
          (if mode = .socketEvent then .popping else s.drain) (fun isSocket => if_pos isSocket)
    · next message rest socket =>
      by_cases mine : message.seqId = x
      · subst mine
        have drained : if mode = .socketEvent then s.drain = .asleep
            else s.drained message.seqId = true := by
          split
          · next isSocket => exact asleep isSocket
          · next other => exact inTime other (by simp [framed, socket])
        simpa [view, deliver, V4View.take] using
          V4View.Move.frame (v := s.view message.seqId) (by
            simp [view, socket, V4Event.itemFor, Message.itemFor]) drained
      · simpa [view, deliver, socket, V4Event.itemFor, Message.itemFor, mine, Ne.symm mine] using
          V4View.Move.same
  | readEventFd =>
    rcases of_guarded moved with ⟨⟨_, _, asleep⟩, rfl⟩
    simpa [view, asleep, V4Drain.hand] using
      V4View.Move.drain (v := s.view x) .popping rfl s.working .inl
  | tick =>
    rcases of_guarded moved with ⟨⟨_, asleep⟩, rfl⟩
    simpa [view, asleep, V4Drain.hand] using
      V4View.Move.drain (v := s.view x) .popping rfl s.working .inl
  | pop =>
    rcases Option.ite_none_right_eq_some.mp moved with ⟨popping, moved⟩
    split at moved <;> cases moved
    · next queue =>
      simpa [view, popping, V4Drain.hand] using
        V4View.Move.drain (v := s.view x) .storing rfl s.working .inl
    · next message rest queue =>
      simpa [view, popping, queue, V4Drain.hand] using
        V4View.Move.drain (v := s.view x) (.handling message) rfl s.working .inl
  | handle =>
    simp only [V4Session.step] at moved
    split at moved <;> cases moved
    next message handling =>
    by_cases mine : message.seqId = x
    · subst mine
      simpa [view, deliver, V4View.take, V4Drain.hand] using
        V4View.Move.handle (v := s.view message.seqId) (by
          simp [view, handling, V4Drain.hand, Message.itemFor])
    · simpa [view, deliver, handling, V4Drain.hand, Message.itemFor, mine, Ne.symm mine] using
        V4View.Move.drain (v := s.view x) .popping rfl s.working .inl
  | markNotWorking =>
    rcases of_guarded moved with ⟨storing, rfl⟩
    simpa [view, storing, V4Drain.hand] using V4View.Move.store (v := s.view x)
  | testSize =>
    rcases Option.ite_none_right_eq_some.mp moved with ⟨testing, moved⟩
    split at moved <;> cases moved
    · next empty =>
      simpa [view, testing, empty, V4Drain.hand] using V4View.Move.sleep (v := s.view x) testing
        (by simp [view, testing, empty, V4Drain.hand])
    · simpa [view, testing, V4Drain.hand] using
        V4View.Move.drain (v := s.view x) .popping rfl true (fun _ => .inr rfl)

theorem inOrder_new : ((V4Session.new isClient).view x).InOrder isClient mode where
  flow := rfl
  sender := by constructor <;> simp [view, V4Session.new]
  receiver := by constructor <;> cases isClient <;> simp [view, V4Session.new]
  left := fun _ => rfl
  drained := fun _ => rfl
  working := fun _ wrong => by cases wrong
  claimed := fun _ wrong => absurd rfl wrong
  polled := fun _ wrong => absurd rfl wrong

end V4Session

/-- In every run in which the stream's frames are in time, what has been appended to the
stream, its half close included, is at every moment the first part of what was sent
on either channel. -/
theorem v4_order_when_drained {isClient : Bool} {mode : WakeupMode} {x : Nat} {s : V4Session}
    (reachable : (v4System isClient mode).ReachableUnder (V4Session.InTime mode x) s) :
    (s.receiver x).appended <+: (s.sender x).sent := by
  have inv : (s.view x).InOrder isClient mode := by
    refine reachable.invariant (P := fun s => (s.view x).InOrder isClient mode) ?_ ?_
    · intro start fresh
      rw [show start = V4Session.new isClient from fresh]
      exact V4Session.inOrder_new
    · exact fun s action t _ inTime moved inv => inv.move (V4Session.move_of_step inTime moved)
  have arrived : (s.receiver x).appended <+: (s.receiver x).taken := by
    rcases inv.receiver.all with same | close
    · exact ⟨[], (List.append_nil _).trans same⟩
    · exact ⟨_, close⟩
  exact arrived.trans ⟨_, inv.flow⟩

/-- A message through the queue, one over the socket and a close; the peer drains the
queue, woken by the given step, and then reads the frames. -/
def drainedRun (woken : V4Action) : List V4Action :=
  [.user 1 (.flush [7] (some 32)), .user 1 .put, .user 1 .markWorking, .user 1 (.wake true),
    .user 1 (.flush [8] none), .user 1 .send, .user 1 .close, .user 1 .send, .writeLoop,
    .writeLoop, woken, .pop, .handle, .pop, .markNotWorking, .testSize, .readEvent, .readEvent]

theorem v4_order_when_drained_polled :
    (Exists fun s =>
      (v4System false .socketEvent).ReachableUnder (V4Session.InTime .socketEvent 1) s /\
      (s.receiver 1).appended = [.shm 32, .heap [8], .close] /\
      (s.receiver 1).appended <+: (s.sender 1).sent) /\
    (Exists fun s => (v4System false .eventFd).ReachableUnder (V4Session.InTime .eventFd 1) s /\
      (s.receiver 1).appended = [.shm 32, .heap [8], .close] /\
      (s.receiver 1).appended <+: (s.sender 1).sent) := by
  have polled : Exists fun s =>
      (v4System false .socketEvent).ReachableUnder (V4Session.InTime .socketEvent 1) s /\
      (s.receiver 1).appended = [.shm 32, .heap [8], .close] :=
    System.exists_reachable_of_run (V4Session.new false) (drainedRun .readEvent) rfl
      (by decide +kernel)
  have signalled : Exists fun s =>
      (v4System false .eventFd).ReachableUnder (V4Session.InTime .eventFd 1) s /\
      (s.receiver 1).appended = [.shm 32, .heap [8], .close] :=
    System.exists_reachable_of_run (V4Session.new false) (drainedRun .readEventFd) rfl
      (by decide +kernel)
  rcases polled with ⟨s, reachable, appended⟩
  rcases signalled with ⟨s', reachable', appended'⟩
  exact ⟨⟨s, reachable, appended, v4_order_when_drained reachable⟩,
    ⟨s', reachable', appended', v4_order_when_drained reachable'⟩⟩

/-- What stream 1 handed over second has arrived, and what it handed over first has not. -/
def Overtaken (mode : WakeupMode) : Prop :=
  Exists fun s => (v4System false mode).Reachable s /\
    (s.sender 1).sent = [.shm 32, .heap [8]] /\ (s.receiver 1).appended = [.heap [8]]

/-- Stream 1 puts a message on the queue, wakes the peer by the given steps, and sends
the next message over the socket. -/
def overtakingRun (wake : List V4Action) : List V4Action :=
  [.user 1 (.flush [7] (some 32)), .user 1 .put, .user 1 .markWorking] ++ wake ++
    [.user 1 (.flush [8] none), .user 1 .send, .writeLoop, .readEvent]

/-- A message over the socket arrives before one put on the queue earlier.  With polling
events this takes another stream's task that has won the working flag and not yet sent
its event; with an eventfd or with polling the frame only has to be read before the queue
is drained. -/
theorem v4_frame_overtakes_queue :
    Overtaken .socketEvent /\ Overtaken .eventFd /\ Overtaken .queuePolling := by
  refine ⟨?_, ?_, ?_⟩
  · exact System.exists_reachable_of_run (V4Session.new false)
      ([.user 2 (.flush [9] (some 64)), .user 2 .put, .user 2 .markWorking] ++ overtakingRun [])
      rfl (by decide +kernel)
  · exact System.exists_reachable_of_run (V4Session.new false)
      (overtakingRun [.user 1 (.wake false)]) rfl (by decide +kernel)
  · exact System.exists_reachable_of_run (V4Session.new false) (overtakingRun []) rfl
      (by decide +kernel)

end Session
end Shmipc
