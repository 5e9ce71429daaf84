import Mathlib.Logic.Function.Basic
import Shmipc.Session.V4Order

namespace Shmipc
namespace Session

open Transition

/-!
# The writers of the unix socket

Frames go through a bounded channel to the write loop, which keeps the socket
locked for the whole of a frame.  The task that wins the claim on the peer's
consumer owes it a wakeup.  It writes the event to an eventfd or, if the lock is
free, to the socket, without waiting: the socket may take a part of the event,
and the rest is left in `carry` for the write loop, with an empty frame in the
channel to get the loop going.  Otherwise the event itself goes through the
channel.  Sending into a full channel waits, and there the future of the call may
be dropped.

The session stays open, the write loop keeps running and the socket reports no
error: each write takes some of the bytes or none.  A task that tries to lock the
socket may also fail because another task is just writing.  The peer sets its
working flag as it likes.  When the write loop reports a frame to its sender is
not represented.
-/

/-- A frame for the write loop.  `wakeup` records the claim that the frame is the
event of. -/
structure SendReady where
  hdr : Option (List UInt8)
  body : List UInt8
  wakeup : Option Nat
  deriving DecidableEq

/-- What the write loop writes for a frame, after the rest of a wakeup.  A write of
nothing returns at once. -/
def SendReady.parts (carry : List UInt8) (ready : SendReady) : List (List UInt8) :=
  [carry, ready.hdr.getD [], ready.body].filter fun part => !part.isEmpty

/-- Something that was begun on the socket: a wakeup by the task that owes it, or a
frame by the write loop. -/
inductive Frame
  | wakeup (claim : Nat)
  | queued (ready : SendReady)
  deriving DecidableEq

def Frame.bytes (event : List UInt8) : Frame -> List UInt8
  | .wakeup _ => event
  | .queued ready => ready.hdr.getD [] ++ ready.body

/-- Where a task stands in `wake_up_peer` or `wait_for_send`.  A call of the former
carries the claim it has won. -/
inductive TaskPoint
  | idle
  | claimed (claim : Nat)
  | sending (ready : SendReady) (call : Option Nat)
  | waiting
  deriving DecidableEq

/-- Where the write loop stands.  The first part is what the current `write_all` has
yet to write. -/
inductive WriteLoop
  | receiving
  | locking (ready : SendReady)
  | writing (parts : List (List UInt8))
  deriving DecidableEq

def WriteLoop.locked : WriteLoop -> Bool
  | .writing _ => true
  | _ => false

/-- The sending side of a session.  `socket` lists all bytes that were written.
Claims are numbered; `signals` lists those whose wakeup went to the eventfd, `entered`
the frames that went into the channel and `begun` what was begun on the socket, all
in order.  No step reads these three. -/
structure Writers where
  working : Bool
  socket : List UInt8
  carry : List UInt8
  channel : List SendReady
  loop : WriteLoop
  task : Nat -> TaskPoint
  claims : Nat
  signals : List Nat
  entered : List SendReady
  begun : List Frame

inductive WriterAction
  | wakeUpPeer (task : Nat)
  | writeEventFd (task : Nat) (failed : Bool)
  /-- `try_write_wakeup`.  `poll` is the answer of the socket, if it is asked. -/
  | tryWrite (task : Nat) (busy : Bool) (poll : Option Nat)
  | waitForSend (task : Nat) (hdr : Option (List UInt8)) (body : List UInt8)
  /-- The channel has room for what a task sends. -/
  | send (task : Nat)
  | timeout (task : Nat)
  | reported (task : Nat)
  /-- The future of a call is dropped. -/
  | drop (task : Nat)
  | receive
  | lock
  | poll (accepted : Nat)
  | finish
  | peerStores (working : Bool)
  deriving DecidableEq

namespace Writers

def new (working : Bool) : Writers where
  working := working
  socket := []
  carry := []
  channel := []
  loop := .receiving
  task := fun _ => .idle
  claims := 0
  signals := []
  entered := []
  begun := []

def setTask (s : Writers) (i : Nat) (p : TaskPoint) : Writers :=
  { s with task := Function.update s.task i p }

/-- `try_write_wakeup`, and what `wake_up_peer` makes of its result. -/
def tryWriteWakeup (event : List UInt8) (s : Writers) (i claim : Nat) (busy : Bool)
    (poll : Option Nat) : Option Writers :=
  let unwritten := s.setTask i (.sending ⟨none, event, some claim⟩ (some claim))
  if busy \/ s.loop.locked \/ s.carry ≠ [] then some unwritten
  else
    match poll with
    | none => some unwritten
    | some written =>
      let begun := s.begun ++ [.wakeup claim]
      if written = event.length then
        some ({ s with socket := s.socket ++ event, begun := begun }.setTask i .idle)
      else if written < event.length then
        some ({ s with
          socket := s.socket ++ event.take written
          carry := event.drop written
          begun := begun }.setTask i (.sending ⟨none, [], none⟩ (some claim)))
      else none

def step (mode : WakeupMode) (event : List UInt8) (capacity : Nat) (s : Writers) :
    WriterAction -> Option Writers
  | .wakeUpPeer i =>
    if s.task i = .idle then
      if mode = .queuePolling \/ s.working then some s
      else
        some ({ s with working := true, claims := s.claims + 1 }.setTask i (.claimed s.claims))
    else none
  | .writeEventFd i failed =>
    match s.task i with
    | .claimed claim =>
      if mode = .eventFd then
        let signals := if failed then s.signals else s.signals ++ [claim]
        some ({ s with signals := signals }.setTask i .idle)
      else none
    | _ => none
  | .tryWrite i busy poll =>
    match s.task i with
    | .claimed claim =>
      if mode = .socketEvent then s.tryWriteWakeup event i claim busy poll else none
    | _ => none
  | .waitForSend i hdr body =>
    if s.task i = .idle then some (s.setTask i (.sending ⟨hdr, body, none⟩ none)) else none
  | .send i =>
    match s.task i with
    | .sending ready call =>
      if s.channel.length < capacity then
        some ({ s with
          channel := s.channel ++ [ready]
          entered := s.entered ++ [ready] }.setTask i
            (if call.isSome then .idle else .waiting))
      else none
    | _ => none
  | .timeout i =>
    match s.task i with
    | .sending _ none => some (s.setTask i .idle)
    | _ => none
  | .reported i => if s.task i = .waiting then some (s.setTask i .idle) else none
  | .drop i =>
    match s.task i with
    | .sending _ _ => some (s.setTask i .idle)
    | .waiting => some (s.setTask i .idle)
    | _ => none
  | .receive =>
    match s.loop, s.channel with
    | .receiving, ready :: rest => some { s with channel := rest, loop := .locking ready }
    | _, _ => none
  | .lock =>
    match s.loop with
    | .locking ready =>
      some { s with
        carry := []
        loop := .writing (ready.parts s.carry)
        begun := s.begun ++ [.queued ready] }
    | _ => none
  | .poll accepted =>
    match s.loop with
    | .writing (part :: rest) =>
      if 0 < accepted /\ accepted <= part.length then
        some { s with
          socket := s.socket ++ part.take accepted
          loop := .writing
            (if accepted = part.length then rest else part.drop accepted :: rest) }
      else none
    | _ => none
  | .finish =>
    match s.loop with
    | .writing [] => some { s with loop := .receiving }
    | _ => none
  | .peerStores working => some { s with working := working }

/-- All that a step can do, with what it finds. -/
inductive Moves (mode : WakeupMode) (event : List UInt8) (capacity : Nat) (s : Writers) :
    WriterAction -> Writers -> Prop
  | awake (i : Nat) (idle : s.task i = .idle) (working : mode = .queuePolling \/ s.working) :
      Moves mode event capacity s (.wakeUpPeer i) s
  | wins (i : Nat) (idle : s.task i = .idle) (asleep : ¬ (mode = .queuePolling \/ s.working)) :
      Moves mode event capacity s (.wakeUpPeer i)
        ({ s with working := true, claims := s.claims + 1 }.setTask i (.claimed s.claims))
  | signals (i claim : Nat) (failed : Bool) (claimed : s.task i = .claimed claim)
      (fd : mode = .eventFd) :
      Moves mode event capacity s (.writeEventFd i failed)
        ({ s with signals := if failed then s.signals else s.signals ++ [claim] }.setTask i .idle)
  | keeps (i claim : Nat) (busy : Bool) (poll : Option Nat) (claimed : s.task i = .claimed claim)
      (socket : mode = .socketEvent) :
      Moves mode event capacity s (.tryWrite i busy poll)
        (s.setTask i (.sending ⟨none, event, some claim⟩ (some claim)))
  | wakes (i claim : Nat) (busy : Bool) (claimed : s.task i = .claimed claim)
      (socket : mode = .socketEvent) (free : s.loop.locked = false) (nothing : s.carry = []) :
      Moves mode event capacity s (.tryWrite i busy (some event.length))
        ({ s with
          socket := s.socket ++ event, begun := s.begun ++ [Frame.wakeup claim] }.setTask i .idle)
  | wakesInPart (i claim : Nat) (busy : Bool) (written : Nat) (claimed : s.task i = .claimed claim)
      (socket : mode = .socketEvent) (free : s.loop.locked = false) (nothing : s.carry = [])
      (short : written < event.length) :
      Moves mode event capacity s (.tryWrite i busy (some written))
        ({ s with
          socket := s.socket ++ event.take written
          carry := event.drop written
          begun := s.begun ++ [Frame.wakeup claim] }.setTask i
            (.sending ⟨none, [], none⟩ (some claim)))
  | begins (i : Nat) (hdr : Option (List UInt8)) (body : List UInt8) (idle : s.task i = .idle) :
      Moves mode event capacity s (.waitForSend i hdr body)
        (s.setTask i (.sending ⟨hdr, body, none⟩ none))
  | sends (i : Nat) (ready : SendReady) (call : Option Nat)
      (sending : s.task i = .sending ready call) (room : s.channel.length < capacity) :
      Moves mode event capacity s (.send i)
        ({ s with channel := s.channel ++ [ready], entered := s.entered ++ [ready] }.setTask i
          (if call.isSome then .idle else .waiting))
  | timesOut (i : Nat) (ready : SendReady) (sending : s.task i = .sending ready none) :
      Moves mode event capacity s (.timeout i) (s.setTask i .idle)
  | returns (i : Nat) (waiting : s.task i = .waiting) :
      Moves mode event capacity s (.reported i) (s.setTask i .idle)
  | drops (i : Nat) (pending : s.task i = .waiting \/
        Exists fun ready => Exists fun call => s.task i = .sending ready call) :
      Moves mode event capacity s (.drop i) (s.setTask i .idle)
  | receives (ready : SendReady) (rest : List SendReady) (receiving : s.loop = .receiving)
      (first : s.channel = ready :: rest) :
      Moves mode event capacity s .receive { s with channel := rest, loop := .locking ready }
  | locks (ready : SendReady) (locking : s.loop = .locking ready) :
      Moves mode event capacity s .lock
        { s with
          carry := []
          loop := .writing (ready.parts s.carry)
          begun := s.begun ++ [.queued ready] }
  | writes (accepted : Nat) (part : List UInt8) (rest : List (List UInt8))
      (writing : s.loop = .writing (part :: rest))
      (some' : 0 < accepted /\ accepted <= part.length) :
      Moves mode event capacity s (.poll accepted)
        { s with
          socket := s.socket ++ part.take accepted
          loop := .writing (if accepted = part.length then rest else part.drop accepted :: rest) }
  | finishes (done : s.loop = .writing []) :
      Moves mode event capacity s .finish { s with loop := .receiving }
  | stores (working : Bool) :
      Moves mode event capacity s (.peerStores working) { s with working := working }

variable {mode : WakeupMode} {event : List UInt8} {capacity : Nat} {s t : Writers}

theorem moves_of_tryWriteWakeup {i claim : Nat} {busy : Bool} {poll : Option Nat}
    (claimed : s.task i = .claimed claim) (socket : mode = .socketEvent)
    (moved : s.tryWriteWakeup event i claim busy poll = some t) :
    Moves mode event capacity s (.tryWrite i busy poll) t := by
  simp only [tryWriteWakeup] at moved
  split_ifs at moved with taken
  · cases moved
    exact .keeps i claim busy poll claimed socket
  · rcases not_or.mp taken |>.imp_right not_or.mp with ⟨_, free, nothing⟩
    have nothing := not_not.mp nothing
    have free := Bool.not_eq_true _ ▸ free
    cases poll with
    | none =>
      cases moved
      exact .keeps i claim busy none claimed socket
    | some written =>
      dsimp only at moved
      split_ifs at moved with all short
      · cases moved
        rw [all]
        exact .wakes i claim busy claimed socket free nothing
      · cases moved
        exact .wakesInPart i claim busy written claimed socket free nothing short

theorem moves_of_step {a : WriterAction} (moved : s.step mode event capacity a = some t) :
    Moves mode event capacity s a t := by
  cases a with
  | wakeUpPeer i =>
    rcases Option.ite_none_right_eq_some.mp moved with ⟨idle, moved⟩
    split_ifs at moved with working
    · cases moved
      exact .awake i idle working
    · cases moved
      exact .wins i idle working
  | writeEventFd i failed =>
    cases point : s.task i with
    | claimed claim =>
      simp only [step, point, Option.ite_none_right_eq_some, Option.some.injEq] at moved
      rcases moved with ⟨fd, rfl⟩
      exact .signals i claim failed point fd
    | _ => simp [step, point] at moved
  | tryWrite i busy poll =>
    cases point : s.task i with
    | claimed claim =>
      simp only [step, point, Option.ite_none_right_eq_some] at moved
      exact moves_of_tryWriteWakeup point moved.1 moved.2
    | _ => simp [step, point] at moved
  | waitForSend i hdr body =>
    rcases of_guarded moved with ⟨idle, rfl⟩
    exact .begins i hdr body idle
  | send i =>
    cases point : s.task i with
    | sending ready call =>
      simp only [step, point, Option.ite_none_right_eq_some, Option.some.injEq] at moved
      rcases moved with ⟨room, rfl⟩
      exact .sends i ready call point room
    | _ => simp [step, point] at moved
  | timeout i =>
    cases point : s.task i with
    | sending ready call =>
      cases call with
      | none =>
        simp only [step, point] at moved
        cases moved
        exact .timesOut i ready point
      | some claim => simp [step, point] at moved
    | _ => simp [step, point] at moved
  | reported i =>
    rcases of_guarded moved with ⟨waiting, rfl⟩
    exact .returns i waiting
  | drop i =>
    cases point : s.task i with
    | sending ready call =>
      simp only [step, point] at moved
      cases moved
      exact .drops i (Or.inr ⟨ready, call, point⟩)
    | waiting =>
      simp only [step, point] at moved
      cases moved
      exact .drops i (Or.inl point)
    | _ => simp [step, point] at moved
  | receive =>
    cases loop : s.loop with
    | receiving =>
      cases channel : s.channel with
      | nil => simp [step, loop, channel] at moved
      | cons ready rest =>
        simp only [step, loop, channel] at moved
        cases moved
        exact .receives ready rest loop channel
    | _ => simp [step, loop] at moved
  | lock =>
    cases loop : s.loop with
    | locking ready =>
      simp only [step, loop] at moved
      cases moved
      exact .locks ready loop
    | _ => simp [step, loop] at moved
  | poll accepted =>
    cases loop : s.loop with
    | writing parts =>
      cases parts with
      | nil => simp [step, loop] at moved
      | cons part rest =>
        simp only [step, loop, Option.ite_none_right_eq_some, Option.some.injEq] at moved
        rcases moved with ⟨some', rfl⟩
        exact .writes accepted part rest loop some'
    | _ => simp [step, loop] at moved
  | finish =>
    cases loop : s.loop with
    | writing parts =>
      cases parts with
      | nil =>
        simp only [step, loop] at moved
        cases moved
        exact .finishes loop
      | cons part rest => simp [step, loop] at moved
    | _ => simp [step, loop] at moved
  | peerStores working =>
    cases moved
    exact .stores working

end Writers

/-- A session whose wakeup event is `event`, for a peer that is or is not working. -/
def writerSystem (mode : WakeupMode) (event : List UInt8) (capacity : Nat) (working : Bool) :
    System Writers WriterAction where
  init s := s = .new working
  step := Writers.step mode event capacity

end Session
end Shmipc
