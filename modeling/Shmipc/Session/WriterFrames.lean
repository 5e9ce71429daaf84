import Shmipc.Session.Writer

namespace Shmipc
namespace Session

open Transition

/-!
# Whole frames on the socket

The bytes on the socket, followed by those that somebody has begun and not yet
written, are whole frames.  The unwritten bytes are the rest of a wakeup in `carry`
or what the write loop holds, and as long as there are any nobody begins anything
but the write loop, which puts `carry` first.  So the bytes are never out of place,
and the frames of the write loop come in the order of the channel.
-/

namespace Writers

/-- What was begun on the socket and not yet written. -/
def unwritten (s : Writers) : List UInt8 :=
  match s.loop with
  | .writing parts => parts.flatten
  | _ => s.carry

end Writers

/-- The frame that the write loop has received and not begun. -/
def WriteLoop.inHand : WriteLoop -> List SendReady
  | .locking ready => [ready]
  | _ => []

/-- The frame of the channel that was begun, if it is one. -/
def Frame.ready : Frame -> Option SendReady
  | .wakeup _ => none
  | .queued ready => some ready

namespace Writers

/-- What a step does to the socket, the channel and the write loop. -/
inductive WireStep (event : List UInt8) (s t : Writers) : Prop
  | stays (socket : t.socket = s.socket) (carry : t.carry = s.carry)
      (channel : t.channel = s.channel) (loop : t.loop = s.loop) (entered : t.entered = s.entered)
      (begun : t.begun = s.begun)
  | wakes (claim written : Nat) (free : s.loop.locked = false) (nothing : s.carry = [])
      (socket : t.socket = s.socket ++ event.take written) (carry : t.carry = event.drop written)
      (channel : t.channel = s.channel) (loop : t.loop = s.loop) (entered : t.entered = s.entered)
      (begun : t.begun = s.begun ++ [.wakeup claim])
  | enters (ready : SendReady) (socket : t.socket = s.socket) (carry : t.carry = s.carry)
      (channel : t.channel = s.channel ++ [ready]) (loop : t.loop = s.loop)
      (entered : t.entered = s.entered ++ [ready]) (begun : t.begun = s.begun)
  | receives (ready : SendReady) (receiving : s.loop = .receiving)
      (first : s.channel = ready :: t.channel) (socket : t.socket = s.socket)
      (carry : t.carry = s.carry) (loop : t.loop = .locking ready) (entered : t.entered = s.entered)
      (begun : t.begun = s.begun)
  | locks (ready : SendReady) (locking : s.loop = .locking ready) (socket : t.socket = s.socket)
      (carry : t.carry = []) (channel : t.channel = s.channel)
      (loop : t.loop = .writing (ready.parts s.carry)) (entered : t.entered = s.entered)
      (begun : t.begun = s.begun ++ [.queued ready])
  | writes (accepted : Nat) (part : List UInt8) (rest parts : List (List UInt8))
      (writing : s.loop = .writing (part :: rest))
      (left : parts.flatten = part.drop accepted ++ rest.flatten)
      (socket : t.socket = s.socket ++ part.take accepted) (carry : t.carry = s.carry)
      (channel : t.channel = s.channel) (loop : t.loop = .writing parts)
      (entered : t.entered = s.entered) (begun : t.begun = s.begun)
  | finishes (done : s.loop = .writing []) (socket : t.socket = s.socket) (carry : t.carry = s.carry)
      (channel : t.channel = s.channel) (loop : t.loop = .receiving)
      (entered : t.entered = s.entered) (begun : t.begun = s.begun)

variable {mode : WakeupMode} {event : List UInt8} {capacity : Nat} {working : Bool}
  {s t : Writers}

theorem WireStep.of_setTask (i : Nat) (p : TaskPoint) : WireStep event s (s.setTask i p) :=
  .stays rfl rfl rfl rfl rfl rfl

theorem Moves.wireStep {a : WriterAction} (moved : Moves mode event capacity s a t) :
    WireStep event s t := by
  cases moved with
  | awake i _ _ | wins i _ _ | signals i claim failed _ _ | stores working =>
    exact .stays rfl rfl rfl rfl rfl rfl
  | keeps i claim busy poll _ _ | begins i hdr body _ | timesOut i ready _ | returns i _
  | drops i _ => exact .of_setTask i _
  | wakes i claim busy _ _ free nothing =>
    refine .wakes claim event.length free nothing ?_ ?_ rfl rfl rfl rfl
    · rw [List.take_length]
      rfl
    · rw [List.drop_length]
      exact nothing
  | wakesInPart i claim busy written _ _ free nothing _ =>
    exact .wakes claim written free nothing rfl rfl rfl rfl rfl rfl
  | sends i ready call _ _ => exact .enters ready rfl rfl rfl rfl rfl rfl
  | receives ready rest receiving first => exact .receives ready receiving first rfl rfl rfl rfl rfl
  | locks ready locking => exact .locks ready locking rfl rfl rfl rfl rfl rfl
  | writes accepted part rest writing _ =>
    refine .writes accepted part rest _ writing ?_ rfl rfl rfl rfl rfl rfl
    split_ifs with all
    · rw [all, List.drop_length, List.nil_append]
    · rw [List.flatten_cons]
  | finishes done => exact .finishes done rfl rfl rfl rfl rfl rfl

theorem wireStep {a : WriterAction} (moved : s.step mode event capacity a = some t) :
    WireStep event s t :=
  (moves_of_step moved).wireStep

/-! ## The invariant -/

/-- The socket and the unwritten bytes are whole frames, those of the channel in its
order.  Only a wakeup leaves a rest, as the last frame begun. -/
structure WireInv (event : List UInt8) (s : Writers) : Prop where
  bytes : s.socket ++ s.unwritten = s.begun.flatMap (Frame.bytes event)
  taken : s.loop.locked = true -> s.carry = []
  order : s.begun.filterMap Frame.ready ++ s.loop.inHand ++ s.channel = s.entered
  rest : s.carry ≠ [] -> Exists fun before => Exists fun claim => Exists fun written =>
    s.begun = before ++ [.wakeup claim] /\ s.carry = event.drop written

theorem flatten_parts (carry : List UInt8) (ready : SendReady) :
    (ready.parts carry).flatten = carry ++ (Frame.queued ready).bytes event := by
  rw [SendReady.parts, List.flatten_filter_not_isEmpty]
  simp only [List.flatten_cons, List.flatten_nil, List.append_nil, Frame.bytes]

theorem unwritten_of_free (free : s.loop.locked = false) : s.unwritten = s.carry := by
  cases loop : s.loop with
  | writing parts =>
    rw [loop] at free
    cases free
  | _ => simp only [unwritten, loop]

namespace WireInv

theorem new (event : List UInt8) (working : Bool) : WireInv event (new working) where
  bytes := rfl
  taken := fun _ => rfl
  order := rfl
  rest := fun some => absurd rfl some

theorem step (inv : WireInv event s) (moved : WireStep event s t) : WireInv event t := by
  cases moved with
  | stays socket carry channel loop entered begun =>
    have same : t.unwritten = s.unwritten := by rw [unwritten, unwritten, loop, carry]
    refine ⟨?_, ?_, ?_, ?_⟩
    · rw [socket, same, begun]
      exact inv.bytes
    · rw [loop, carry]
      exact inv.taken
    · rw [begun, loop, channel, entered]
      exact inv.order
    · rw [carry, begun]
      exact inv.rest
  | wakes claim written free nothing socket carry channel loop entered begun =>
    have free' : t.loop.locked = false := by rw [loop]; exact free
    have whole := inv.bytes
    rw [unwritten_of_free free, nothing, List.append_nil] at whole
    refine ⟨?_, fun locked => ?_, ?_, fun _ => ⟨_, claim, written, begun, carry⟩⟩
    · rw [unwritten_of_free free', socket, carry, begun, List.append_assoc,
        List.take_append_drop, whole, List.flatMap_append, List.flatMap_singleton]
      rfl
    · rw [free'] at locked
      cases locked
    · rw [begun, loop, channel, entered, List.filterMap_append]
      have none : [Frame.wakeup claim].filterMap Frame.ready = [] := rfl
      rw [none, List.append_nil]
      exact inv.order
  | enters ready socket carry channel loop entered begun =>
    have same : t.unwritten = s.unwritten := by rw [unwritten, unwritten, loop, carry]
    refine ⟨?_, ?_, ?_, ?_⟩
    · rw [socket, same, begun]
      exact inv.bytes
    · rw [loop, carry]
      exact inv.taken
    · rw [begun, loop, channel, entered, <- List.append_assoc, inv.order]
    · rw [carry, begun]
      exact inv.rest
  | receives ready receiving first socket carry loop entered begun =>
    have same : t.unwritten = s.unwritten := by
      simp only [unwritten, loop, receiving, carry]
    refine ⟨?_, fun locked => ?_, ?_, ?_⟩
    · rw [socket, same, begun]
      exact inv.bytes
    · rw [loop] at locked
      cases locked
    · have order := inv.order
      rw [receiving, first] at order
      rw [begun, loop, entered, <- order]
      simp only [WriteLoop.inHand, List.append_nil, List.append_assoc, List.singleton_append]
    · rw [carry, begun]
      exact inv.rest
  | locks ready locking socket carry channel loop entered begun =>
    have free : s.loop.locked = false := by rw [locking]; rfl
    have whole := inv.bytes
    rw [unwritten_of_free free] at whole
    refine ⟨?_, fun _ => carry, ?_, fun some => absurd carry some⟩
    · have rest : t.unwritten = s.carry ++ (Frame.queued ready).bytes event := by
        simp only [unwritten, loop]
        exact flatten_parts s.carry ready
      rw [socket, rest, begun, <- List.append_assoc, whole, List.flatMap_append,
        List.flatMap_singleton]
    · have order := inv.order
      rw [locking] at order
      rw [begun, loop, channel, entered, <- order, List.filterMap_append]
      simp only [WriteLoop.inHand, List.append_nil]
      rfl
  | writes accepted part rest parts writing left socket carry channel loop entered begun =>
    have nothing : s.carry = [] := inv.taken (by rw [writing]; rfl)
    have whole := inv.bytes
    simp only [unwritten, writing, List.flatten_cons] at whole
    refine ⟨?_, fun _ => carry.trans nothing, ?_, fun some => ?_⟩
    · have rest' : t.unwritten = part.drop accepted ++ rest.flatten := by
        simp only [unwritten, loop, left]
      rw [socket, rest', begun, List.append_assoc, <- List.append_assoc (part.take accepted),
        List.take_append_drop, whole]
    · have order := inv.order
      rw [writing] at order
      rw [begun, loop, channel, entered]
      exact order
    · rw [carry] at some
      exact absurd nothing some
  | finishes done socket carry channel loop entered begun =>
    have nothing : s.carry = [] := inv.taken (by rw [done]; rfl)
    refine ⟨?_, fun _ => carry.trans nothing, ?_, fun some => ?_⟩
    · have whole := inv.bytes
      simp only [unwritten, done, List.flatten_nil] at whole
      rw [socket, begun, <- whole]
      simp only [unwritten, loop, carry, nothing]
    · have order := inv.order
      rw [done] at order
      rw [begun, loop, channel, entered]
      exact order
    · rw [carry] at some
      exact absurd nothing some

theorem reachable {admits : Writers -> WriterAction -> Prop}
    (reached : (writerSystem mode event capacity working).ReachableUnder admits s) :
    WireInv event s := by
  refine reached.invariant (P := WireInv event) ?_ ?_
  · rintro s rfl
    exact new event working
  · exact fun s a t _ _ moved inv => inv.step (wireStep moved)

end WireInv

/-! ## Runs -/

theorem WireStep.grows (moved : WireStep event s t) :
    s.socket <+: t.socket /\ s.begun <+: t.begun := by
  cases moved <;> simp_all

theorem grows_run {actions : List WriterAction}
    (ran : (writerSystem mode event capacity working).run (fun _ _ => True) s actions = some t) :
    s.socket <+: t.socket /\ s.begun <+: t.begun := by
  induction actions generalizing s with
  | nil =>
    cases ran
    exact ⟨List.prefix_rfl, List.prefix_rfl⟩
  | cons a rest ih =>
    rcases System.run_cons_eq_some ran with ⟨_, mid, moved, later⟩
    have first := (wireStep moved).grows
    have second := ih later
    exact ⟨first.1.trans second.1, first.2.trans second.2⟩

end Writers

open Writers

/-- However many tasks send and wake, and whatever the socket takes at a time, the
bytes on it are a beginning of whole frames, those of the channel once each and in its
order; they are complete whenever the write loop is not writing, but for the rest of
a wakeup, and that rest comes before any other byte. -/
theorem frames_stay_whole (mode : WakeupMode) (event : List UInt8) (capacity : Nat)
    (working : Bool) {s : Writers}
    (reached : (writerSystem mode event capacity working).Reachable s) :
    s.socket <+: s.begun.flatMap (Frame.bytes event) /\
    s.begun.filterMap Frame.ready ++ s.loop.inHand ++ s.channel = s.entered /\
    (s.loop.locked = false -> s.socket ++ s.carry = s.begun.flatMap (Frame.bytes event)) /\
    (s.carry ≠ [] -> Exists fun before => Exists fun claim => Exists fun written =>
      s.begun = before ++ [.wakeup claim] /\ s.carry = event.drop written) /\
    (forall actions t,
      (writerSystem mode event capacity working).run (fun _ _ => True) s actions = some t ->
      s.socket <+: t.socket /\ s.begun <+: t.begun /\
      (t.socket <+: s.socket ++ s.unwritten \/ s.socket ++ s.unwritten <+: t.socket)) := by
  have inv := WireInv.reachable reached
  refine ⟨⟨s.unwritten, inv.bytes⟩, inv.order, fun free => ?_, inv.rest, fun actions t ran => ?_⟩
  · rw [<- unwritten_of_free free]
    exact inv.bytes
  · rcases grows_run ran with ⟨socket, begun⟩
    have later := WireInv.reachable (System.reachable_run reached ran)
    refine ⟨socket, begun, List.prefix_or_prefix_of_prefix ⟨t.unwritten, later.bytes⟩ ?_⟩
    -- what was begun in `s` is begun in `t`, so its bytes come first there
    rw [inv.bytes]
    rcases begun with ⟨more, grown⟩
    exact ⟨more.flatMap (Frame.bytes event), by rw [<- grown, List.flatMap_append]⟩

theorem frames_stay_whole_behind_carry :
    Exists fun s =>
      (writerSystem .socketEvent [0, 0, 0, 8, 119, 88, 2, 0] 4096 false).Reachable s /\
      s.socket = [0, 0, 0, 8, 119] /\ s.unwritten = [88, 2, 0, 9, 9] /\
      s.socket <+: s.begun.flatMap (Frame.bytes [0, 0, 0, 8, 119, 88, 2, 0]) := by
  have test : ((writerSystem .socketEvent [0, 0, 0, 8, 119, 88, 2, 0] 4096 false).run
      (fun _ _ => True) (.new false)
      [.wakeUpPeer 0, .tryWrite 0 false (some 3), .waitForSend 1 none [9, 9], .send 1, .receive,
        .lock, .poll 2]).any (fun s => decide
          (s.socket = [0, 0, 0, 8, 119] /\ s.unwritten = [88, 2, 0, 9, 9])) = true := by
    decide
  rcases System.exists_reachable_of_run _ _ rfl test with ⟨s, reached, socket, rest⟩
  exact ⟨s, reached, socket, rest, (frames_stay_whole _ _ _ _ reached).1⟩

end Session
end Shmipc
