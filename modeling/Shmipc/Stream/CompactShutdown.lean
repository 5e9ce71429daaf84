import Shmipc.Stream.Compact

namespace Shmipc
namespace Compact

open Transition
open Shmipc.Stream (Status Side)
open Session (maxControlFrameSize eventHeaderSize frameFallback frameFallback_spec)

/-!
# What a shutdown delivers

As long as the stream is open, every accepted byte is in one of three places: with
the peer, on its way in the flush that is under way, or in the send buffer.  A flush
moves all of them to the peer.  A close moves none: it is for the caller to flush
what was written, and to write nothing more once the stream is closed.
-/

/-! ## A peer and a session in good health -/

/-- The flush has no further try if it finds the queue full. -/
def FlushFuture.lastRound : FlushFuture -> Bool
  | .queueRoom rounds => decide (rounds <= 1)
  | .putting _ rounds => decide (rounds = 0)
  | _ => false

/-- A message that has to go over the socket in one frame, and is too long for it. -/
def FlushFuture.tooLarge (side : Side) (s : Inner) (future : FlushFuture) : Bool :=
  decide (future = .start /\ side = .v4 /\ (s.inFallback \/ s.fromHeap) /\
    maxControlFrameSize - eventHeaderSize < s.sendBuf.length)

def FlushFuture.fails (side : Side) (s : Inner) (future : FlushFuture) : Reply -> Bool
  | .failed _ => true
  | .full => future.lastRound || future.tooLarge side s
  | _ => future.tooLarge side s

def WriteState.fails (side : Side) (s : Inner) : WriteState -> Reply -> Bool
  | .flushing future, reply => future.fails side s reply
  | _, .failed _ => true
  | _, _ => false

/-- The peer keeps its half open, the session is not shut down, and nobody fails: not
the queue either, as long as it has room before a flush runs out of tries. -/
def Healthy (side : Side) (s : StreamExt) : ExtAction -> Bool
  | .proceed reply => !s.writeState.fails side s.inner reply
  | .halfClose => false
  | .shutdownSession => false
  | .poll _ => true
  | .setFallback => true

/-- Whoever shuts the stream down has called `poll_flush` after the last write. -/
def FlushesFirst (s : StreamExt) : ExtAction -> Bool
  | .poll .shutdown => !s.unflushed
  | _ => true

/-- Nobody writes once the stream has been shut down. -/
def WritesBefore (s : StreamExt) : ExtAction -> Bool
  | .poll (.write _) => !s.shutDown
  | _ => true

/-- The peer was given all accepted bytes in order, and then the close. -/
def StreamExt.Delivered (s : StreamExt) : Prop :=
  Exists fun sent => s.inner.handed = sent ++ [.close] /\ .close ∉ sent /\
    payload sent = s.accepted

/-! ## A flush hands everything over -/

theorem payload_hand (s : Inner) (item : Handed) :
    payload (s.hand item).handed = payload s.handed ++ item.bytes := by
  rw [Inner.hand, payload, payload, List.flatMap_append, List.flatMap_singleton]

structure Inner.Open (s : Inner) : Prop where
  status : s.status = .opened
  running : s.sessionClosed = false
  unnotified : .close ∉ s.handed

namespace Inner.Open

variable {s : Inner}

theorem recycle (opened : s.Open) : s.recycle.Open :=
  { status := opened.status, running := opened.running, unnotified := opened.unnotified }

theorem hand {item : Handed} (opened : s.Open) (data : item ≠ .close) : (s.hand item).Open where
  status := opened.status
  running := opened.running
  unnotified := by
    intro member
    rcases List.mem_append.mp member with old | new
    · exact opened.unnotified old
    · exact data (List.mem_singleton.mp new).symm

theorem setFallback (opened : s.Open) : Inner.Open { s with inFallback := true } :=
  { status := opened.status, running := opened.running, unnotified := opened.unnotified }

end Inner.Open

namespace FlushFuture

/-- Where the accepted bytes are while a flush is under way. -/
def Carries (side : Side) (s : Inner) (accepted : List UInt8) : FlushFuture -> Prop
  | .start => payload s.handed ++ s.sendBuf = accepted
  | .queueRoom _ => side = .v4 /\ payload s.handed ++ s.sendBuf = accepted
  | .putting outgoing _ => s.sendBuf = [] /\ payload s.handed ++ outgoing = accepted
  | .wakingForRoom outgoing rounds =>
    s.sendBuf = [] /\ payload s.handed ++ outgoing = accepted /\ rounds ≠ 0
  | .waitingForRoom outgoing _ => s.sendBuf = [] /\ payload s.handed ++ outgoing = accepted
  | .wakingPeer => (side = .v5 -> s.sendBuf = []) /\ payload s.handed = accepted
  | .sending frame rest =>
    s.sendBuf = [] /\ payload s.handed ++ (frame ++ rest.flatten) = accepted

/-- Where they are after a poll of the flush. -/
def ProgressCarries (side : Side) (s : Inner) (accepted : List UInt8) (future : FlushFuture) :
    Progress FlushFuture -> Prop
  | .pending => future.Carries side s accepted
  | .next future => future.Carries side s accepted
  | .done result => result = .ok () /\ s.sendBuf = [] /\ payload s.handed = accepted

variable {side : Side} {s t : Inner} {accepted : List UInt8} {reply : Reply}
  {progress : Progress FlushFuture}

theorem finish_spec (future : FlushFuture) (opened : s.Open) (all : payload s.handed = accepted)
    (empty : side = .v5 -> s.sendBuf = [])
    (finished : finish side s (.ok ()) = (progress, t)) :
    t.Open /\ future.ProgressCarries side t accepted progress := by
  cases side with
  | v4 =>
    cases finished
    exact ⟨opened.recycle, rfl, rfl, all⟩
  | v5 =>
    cases finished
    exact ⟨opened, rfl, empty rfl, all⟩

theorem put_spec (future : FlushFuture) (again : Progress FlushFuture × Inner)
    (opened : s.Open) (v4 : side = .v4) (carried : payload s.handed ++ s.sendBuf = accepted)
    (lasting : forall error, reply ≠ .failed error)
    (more : reply = .full -> again.2.Open /\
      future.ProgressCarries side again.2 accepted again.1)
    (polled : put s again reply = some (progress, t)) :
    t.Open /\ future.ProgressCarries side t accepted progress := by
  cases reply with
  | pending => exact nomatch polled
  | failed error => exact absurd rfl (lasting error)
  | full =>
    cases polled
    exact more rfl
  | ok =>
    cases polled
    refine ⟨opened.hand nofun, fun v5 => ?_, ?_⟩
    · rw [v4] at v5
      exact nomatch v5
    · rw [payload_hand]
      exact carried

theorem startV4_spec (opened : s.Open) (carried : payload s.handed ++ s.sendBuf = accepted)
    (sound : start.fails .v4 s reply = false)
    (polled : startV4 s reply = some (progress, t)) :
    t.Open /\ start.ProgressCarries .v4 t accepted progress := by
  have fits : start.tooLarge .v4 s = false := by
    cases reply with
    | failed error => exact nomatch sound
    | full =>
      rw [fails, Bool.or_eq_false_iff] at sound
      exact sound.2
    | pending => exact sound
    | ok => exact sound
  rw [startV4] at polled
  by_cases empty : s.sendBuf = []
  · rw [if_pos empty] at polled
    cases polled
    rw [empty, List.append_nil] at carried
    exact ⟨opened, rfl, empty, carried⟩
  rw [if_neg empty, if_neg (not_not_intro opened.status)] at polled
  by_cases socket : s.inFallback = true \/ s.fromHeap = true
  · have short : ¬ maxControlFrameSize - eventHeaderSize < s.sendBuf.length :=
      fun long => of_decide_eq_false fits ⟨rfl, rfl, socket, long⟩
    rw [if_pos socket, writeFallback, if_neg short] at polled
    cases polled
    refine ⟨opened.setFallback.recycle, rfl, ?_⟩
    rw [List.flatten_nil, List.append_nil]
    exact carried
  · rw [if_neg socket] at polled
    refine put_spec start _ opened rfl carried ?_ ?_ polled
    case refine_2 => exact fun _ => ⟨opened, rfl, carried⟩
    intro error failed
    rw [failed] at sound
    exact nomatch sound

theorem startV5_spec (opened : s.Open) (carried : payload s.handed ++ s.sendBuf = accepted)
    (polled : startV5 s = (progress, t)) :
    t.Open /\ start.ProgressCarries .v5 t accepted progress := by
  rw [startV5, if_neg (not_not_intro opened.status)] at polled
  by_cases empty : s.sendBuf = []
  · rw [if_pos empty] at polled
    cases polled
    rw [empty, List.append_nil] at carried
    exact ⟨opened, rfl, empty, carried⟩
  rw [if_neg empty] at polled
  by_cases heap : s.fromHeap = true
  · rw [if_pos heap] at polled
    have whole := (frameFallback_spec [s.sendBuf]).1
    rw [List.flatten_singleton] at whole
    cases frames : frameFallback [s.sendBuf] with
    | nil =>
      rw [frames] at whole
      exact absurd whole.symm empty
    | cons frame rest =>
      rw [frames] at polled whole
      cases polled
      refine ⟨opened.recycle.setFallback, rfl, ?_⟩
      rw [<- List.flatten_cons, whole]
      exact carried
  · rw [if_neg heap] at polled
    cases polled
    exact ⟨opened.recycle, rfl, carried⟩

theorem awaited_of_lasting (lasting : forall error, reply ≠ .failed error) :
    reply.awaited = none \/ reply.awaited = some (.ok ()) := by
  cases reply with
  | pending => exact .inl rfl
  | ok => exact .inr rfl
  | full => exact .inr rfl
  | failed error => exact absurd rfl (lasting error)

/-- As long as nothing fails, a flush of an open stream loses no byte, and when it is
done it has left none behind. -/
theorem poll_spec {future : FlushFuture} (opened : s.Open)
    (carried : future.Carries side s accepted) (sound : future.fails side s reply = false)
    (polled : future.poll side s reply = some (progress, t)) :
    t.Open /\ future.ProgressCarries side t accepted progress := by
  have lasting : forall error, reply ≠ .failed error := by
    intro error failed
    rw [failed] at sound
    exact nomatch sound
  cases future with
  | start =>
    cases side with
    | v4 => exact startV4_spec opened carried sound polled
    | v5 => exact startV5_spec opened carried (Option.some.inj polled)
  | queueRoom rounds =>
    cases rounds with
    | zero => exact nomatch polled
    | succ rounds =>
      rw [poll] at polled
      by_cases waits : reply = .pending
      · rw [if_pos waits] at polled
        cases polled
        exact ⟨opened, carried⟩
      rw [if_neg waits, opened.running, if_neg Bool.false_ne_true] at polled
      refine put_spec _ _ opened carried.1 carried.2 lasting ?_ polled
      intro full
      have more : rounds ≠ 0 := by
        rw [full, fails, Bool.or_eq_false_iff] at sound
        have left : ¬ rounds + 1 <= 1 := of_decide_eq_false sound.1
        omega
      rw [if_neg more]
      exact ⟨opened, carried⟩
  | putting outgoing rounds =>
    rcases carried with ⟨empty, carried⟩
    cases reply with
    | pending => exact nomatch polled
    | failed error => exact absurd rfl (lasting error)
    | full =>
      cases polled
      rw [fails, Bool.or_eq_false_iff] at sound
      exact ⟨opened, empty, carried, of_decide_eq_false sound.1⟩
    | ok =>
      cases polled
      refine ⟨opened.hand nofun, fun _ => empty, ?_⟩
      rw [payload_hand]
      exact carried
  | wakingForRoom outgoing rounds =>
    rw [poll] at polled
    rcases awaited_of_lasting lasting with waits | ready
    · rw [waits] at polled
      cases polled
      exact ⟨opened, carried⟩
    · rcases carried with ⟨empty, carried, more⟩
      rcases Nat.exists_eq_succ_of_ne_zero more with ⟨left, rfl⟩
      rw [ready] at polled
      dsimp only at polled
      rw [afterWaking, if_neg (not_not_intro opened.status), opened.running,
        if_neg Bool.false_ne_true] at polled
      cases polled
      exact ⟨opened, empty, carried⟩
  | waitingForRoom outgoing rounds =>
    rw [poll] at polled
    rcases awaited_of_lasting lasting with waits | ready
    · rw [waits] at polled
      cases polled
      exact ⟨opened, carried⟩
    · rw [ready] at polled
      cases polled
      exact ⟨opened, carried⟩
  | wakingPeer =>
    rw [poll] at polled
    rcases awaited_of_lasting lasting with waits | ready
    · rw [waits] at polled
      cases polled
      exact ⟨opened, carried⟩
    · rw [ready] at polled
      exact finish_spec _ opened carried.2 carried.1 (Option.some.inj polled)
  | sending frame rest =>
    rw [poll] at polled
    rcases awaited_of_lasting lasting with waits | ready
    · rw [waits] at polled
      cases polled
      exact ⟨opened, carried⟩
    rcases carried with ⟨empty, carried⟩
    rw [ready] at polled
    have handed : (s.hand (.frame frame)).Open := opened.hand nofun
    rw [<- List.append_assoc] at carried
    have moved : payload (s.hand (.frame frame)).handed = payload s.handed ++ frame :=
      payload_hand s (.frame frame)
    cases rest with
    | nil =>
      rw [List.flatten_nil, List.append_nil] at carried
      exact finish_spec _ handed (moved.trans carried) (fun _ => empty)
        (Option.some.inj polled)
    | cons next rest =>
      cases polled
      refine ⟨handed, empty, ?_⟩
      rw [moved]
      exact carried

end FlushFuture

/-! ## The three phases of a stream -/

/-- A write appends its bytes, or reports an error and leaves the buffer alone. -/
structure Inner.Wrote (s t : Inner) (data : List UInt8) (result : Except Error Nat) : Prop where
  status : t.status = s.status
  session : t.sessionClosed = s.sessionClosed
  handed : t.handed = s.handed
  sendBuf : t.sendBuf = s.sendBuf ++ (if result.isOk then data else [])

theorem Inner.writeBytes_spec {side : Side} {s t : Inner} {data : List UInt8} {reply : Reply}
    {result : Except Error Nat} (wrote : s.writeBytes side data reply = some (result, t)) :
    s.Wrote t data result := by
  have refused (error : Error) : s.Wrote s data (.error error) :=
    ⟨rfl, rfl, rfl, (List.append_nil _).symm⟩
  have heap : s.Wrote (s.writeHeap data).2 data (s.writeHeap data).1 := ⟨rfl, rfl, rfl, rfl⟩
  cases side with
  | v4 =>
    cases reply with
    | pending => exact nomatch wrote
    | failed error => exact nomatch wrote
    | ok =>
      cases wrote
      exact ⟨rfl, rfl, rfl, rfl⟩
    | full =>
      cases wrote
      exact heap
  | v5 =>
    unfold writeBytes at wrote
    dsimp only at wrote
    split at wrote
    · cases wrote
      exact refused _
    split at wrote
    · cases wrote
      exact refused _
    split at wrote
    · cases wrote
      exact heap
    split at wrote
    · cases wrote
      exact heap
    cases reply with
    | pending => exact nomatch wrote
    | failed error =>
      cases wrote
      exact refused _
    | ok =>
      cases wrote
      exact ⟨rfl, rfl, rfl, rfl⟩
    | full =>
      cases wrote
      exact heap

namespace StreamExt

/-- Where the accepted bytes of an open stream are. -/
def Places (side : Side) (s : StreamExt) : WriteState -> Prop
  | .idle => payload s.inner.handed ++ s.inner.sendBuf = s.accepted /\
      (s.unflushed = false -> s.call ≠ some .flush -> s.inner.sendBuf = [])
  | .flushing future => s.unflushed = false /\ future.Carries side s.inner s.accepted
  | .closing future =>
    future = .start /\ s.inner.sendBuf = [] /\ payload s.inner.handed = s.accepted

structure Open (side : Side) (s : StreamExt) : Prop where
  inner : s.inner.Open
  before : s.shutDown = false
  flushed : s.call = some .flush \/ s.call = some .shutdown -> s.unflushed = false
  places : s.Places side s.writeState

/-- Where the notice of a close may be while the close is under way. -/
def Notice (s : StreamExt) : CloseFuture -> Prop
  | .start => False
  | .wakingPeer => s.Delivered
  | .sendingClose => .close ∉ s.inner.handed /\ payload s.inner.handed = s.accepted

structure Closing (s : StreamExt) : Prop where
  status : s.inner.status = .closed
  before : s.shutDown = false
  emptied : s.inner.sendBuf = []
  notice : Exists fun future => s.writeState = .closing future /\ s.Notice future

structure Shut (s : StreamExt) : Prop where
  status : s.inner.status = .closed
  ended : s.shutDown = true
  emptied : s.inner.sendBuf = []
  delivered : s.Delivered
  state : s.writeState = .idle \/ s.writeState = .flushing .start \/ s.writeState = .closing .start
  unwritten : forall data, s.call ≠ some (.write data)

/-- In an orderly run the stream is open, then closing, then shut. -/
inductive Phase (side : Side) (s : StreamExt) : Prop
  | opened (phase : s.Open side)
  | closing (phase : s.Closing)
  | shut (phase : s.Shut)

variable {side : Side} {s t : StreamExt} {call : Call} {outcome : Poll} {reply : Reply}

theorem Open.returns (opened : s.Open side) (further : ¬ (call = .shutdown /\ outcome = .done))
    (settled : s.writeState = .idle -> s.call = some .flush -> s.inner.sendBuf = []) :
    (s.returns call outcome).Open side where
  inner := opened.inner
  before := by
    have undone : decide (call = .shutdown /\ outcome = .done) = false := decide_eq_false further
    rw [StreamExt.returns, opened.before, undone]
    rfl
  flushed := nofun
  places := by
    have places := opened.places
    cases state : s.writeState with
    | idle =>
      rw [state] at places
      change Places side (s.returns call outcome) s.writeState
      rw [state]
      refine ⟨places.1, fun clean _ => ?_⟩
      by_cases flushing : s.call = some .flush
      · exact settled state flushing
      · exact places.2 clean flushing
    | flushing future | closing future =>
      change Places side (s.returns call outcome) s.writeState
      rw [state] at places ⊢
      exact places

theorem Closing.returns (closing : s.Closing) (further : ¬ (call = .shutdown /\ outcome = .done)) :
    (s.returns call outcome).Closing := { closing with
  before := by
    have undone : decide (call = .shutdown /\ outcome = .done) = false := decide_eq_false further
    rw [StreamExt.returns, closing.before, undone]
    rfl }

theorem Shut.returns (shut : s.Shut) : (s.returns call outcome).Shut := { shut with
  ended := by
    rw [StreamExt.returns, shut.ended]
    rfl
  unwritten := nofun }

/-! ## Steps of an open stream -/

theorem Open.write {data : List UInt8} (opened : s.Open side) (idle : s.writeState = .idle)
    (called : s.call = some (.write data)) (moved : s.write side data reply = some t) :
    t.Open side := by
  rcases Option.map_eq_some_iff.mp moved with ⟨⟨result, inner⟩, wrote, rfl⟩
  have spec := Inner.writeBytes_spec wrote
  have kept : inner.Open :=
    { status := spec.status.trans opened.inner.status
      running := spec.session.trans opened.inner.running
      unnotified := by
        rw [spec.handed]
        exact opened.inner.unnotified }
  have places := opened.places
  rw [idle] at places
  have uncalled : s.call ≠ some .flush := by
    rw [called]
    exact nofun
  cases result with
  | error error =>
    have same : inner.sendBuf = s.inner.sendBuf := spec.sendBuf.trans (List.append_nil _)
    apply Open.returns
    case further => exact nofun
    case settled => exact fun _ flushing => absurd flushing uncalled
    refine { opened with inner := kept, places := ?_ }
    change Places side _ s.writeState
    rw [idle]
    constructor
    · change payload inner.handed ++ inner.sendBuf = s.accepted
      rw [spec.handed, same]
      exact places.1
    · intro clean _
      exact same.trans (places.2 clean uncalled)
  | ok count =>
    have longer : inner.sendBuf = s.inner.sendBuf ++ data := spec.sendBuf
    apply Open.returns
    case further => exact nofun
    case settled => exact fun _ flushing => absurd flushing uncalled
    refine { opened with inner := kept, flushed := ?_, places := ?_ }
    · intro calls
      rw [show s.call = _ from called] at calls
      rcases calls with flush | shutdown
      · exact nomatch flush
      · exact nomatch shutdown
    · change Places side _ s.writeState
      rw [idle]
      constructor
      · change payload inner.handed ++ inner.sendBuf = s.accepted ++ data
        rw [spec.handed, longer, <- List.append_assoc, places.1]
      · exact fun clean => nomatch clean

variable {inner : Inner} {progress : Progress CloseFuture}

theorem Open.driveFlush {future : FlushFuture} {progress : Progress FlushFuture}
    (opened : s.Open side) (state : s.writeState = .flushing future) (kept : inner.Open)
    (carried : future.ProgressCarries side inner s.accepted progress) :
    (s.driveFlush call inner progress).Open side := by
  have places := opened.places
  rw [state] at places
  cases progress with
  | pending =>
    apply Open.returns
    case further => exact nofun
    case settled => exact fun idle => nomatch state.symm.trans idle
    refine { opened with inner := kept, places := ?_ }
    change Places side _ s.writeState
    rw [state]
    exact ⟨places.1, carried⟩
  | next later => exact { opened with inner := kept, places := ⟨places.1, carried⟩ }
  | done result =>
    rcases carried with ⟨rfl, empty, all⟩
    have idle : StreamExt.Open side { s with inner := inner, writeState := .idle } := by
      refine { opened with inner := kept, places := ⟨?_, fun _ _ => empty⟩ }
      change payload inner.handed ++ inner.sendBuf = s.accepted
      rw [empty, List.append_nil]
      exact all
    rw [StreamExt.driveFlush, StreamExt.flushed]
    split
    · next flush =>
      apply idle.returns
      · rw [flush]
        exact nofun
      · exact fun _ _ => empty
    · exact idle

theorem notify_cases {s t : Inner} (running : s.sessionClosed = false)
    (notified : CloseFuture.notify .opened s reply = some (progress, t)) :
    (progress = .next .sendingClose /\ t = s) \/
      (progress = .next .wakingPeer /\ t = s.hand .close) := by
  have needed : ¬ (Status.opened ≠ .opened \/ s.sessionClosed = true) := by
    rw [running]
    exact fun unneeded => unneeded.elim (absurd rfl) Bool.false_ne_true
  unfold CloseFuture.notify at notified
  rw [if_neg needed] at notified
  split at notified
  · cases notified
    exact .inl ⟨rfl, rfl⟩
  cases reply with
  | pending => exact nomatch notified
  | full | failed error =>
    cases notified
    exact .inl ⟨rfl, rfl⟩
  | ok =>
    cases notified
    exact .inr ⟨rfl, rfl⟩

theorem close_cases {s t : Inner} (opened : s.Open)
    (polled : CloseFuture.start.poll side s reply = some (progress, t)) :
    (progress = .next .sendingClose /\ t = Inner.recycle { s with status := .closed }) \/
      (progress = .next .wakingPeer /\
        t = (Inner.recycle { s with status := .closed }).hand .close) := by
  have cleaned : ¬ (side = .v5 /\ s.sessionClosed = true) := by
    rw [opened.running]
    exact fun shutdown => Bool.false_ne_true shutdown.2
  rw [CloseFuture.poll, CloseFuture.clean, if_neg cleaned, opened.status, if_neg nofun] at polled
  exact notify_cases opened.running polled

theorem Open.driveClose (opened : s.Open side) (all : payload s.inner.handed = s.accepted)
    (polled : CloseFuture.start.poll side s.inner reply = some (progress, inner)) :
    (s.driveClose inner progress).Closing := by
  rcases close_cases opened.inner polled with ⟨rfl, rfl⟩ | ⟨rfl, rfl⟩
  · constructor
    case status => rfl
    case before => exact opened.before
    case emptied => rfl
    case notice => exact ⟨.sendingClose, rfl, opened.inner.unnotified, all⟩
  · constructor
    case status => rfl
    case before => exact opened.before
    case emptied => rfl
    case notice => exact ⟨.wakingPeer, rfl, s.inner.handed, rfl, opened.inner.unnotified, all⟩

/-! ## Steps of a stream that is closing or shut -/

theorem shut_of_delivered (status : inner.status = .closed) (emptied : inner.sendBuf = [])
    (delivered : StreamExt.Delivered { s with inner := inner }) :
    (s.driveClose inner (.done (.ok ()))).Shut where
  status := status
  ended := Bool.or_true _
  emptied := emptied
  delivered := delivered
  state := .inl rfl
  unwritten := nofun

theorem Closing.driveClose {future : CloseFuture} (closing : s.Closing) (notice : s.Notice future)
    (lasting : forall error, reply ≠ .failed error)
    (polled : future.poll side s.inner reply = some (progress, inner)) :
    (s.driveClose inner progress).Closing \/ (s.driveClose inner progress).Shut := by
  have waiting : (s.driveClose s.inner .pending).Closing := closing.returns nofun
  cases future with
  | start => exact notice.elim
  | wakingPeer =>
    rw [CloseFuture.poll] at polled
    rcases FlushFuture.awaited_of_lasting lasting with waits | ready
    · rw [waits] at polled
      cases polled
      exact .inl waiting
    · rw [ready] at polled
      cases polled
      exact .inr (shut_of_delivered closing.status closing.emptied notice)
  | sendingClose =>
    rw [CloseFuture.poll] at polled
    rcases FlushFuture.awaited_of_lasting lasting with waits | ready
    · rw [waits] at polled
      cases polled
      exact .inl waiting
    · rw [ready] at polled
      cases polled
      exact .inr (shut_of_delivered closing.status closing.emptied
        ⟨s.inner.handed, rfl, notice.1, notice.2⟩)

/-- A flush of a closed stream with an empty send buffer ends at once, with an error if it
is a V5 stream. -/
theorem Shut.driveFlush {progress : Progress FlushFuture} (shut : s.Shut)
    (polled : FlushFuture.start.poll side s.inner reply = some (progress, inner)) :
    (s.driveFlush call inner progress).Shut := by
  have unopened : s.inner.status ≠ .opened := by
    rw [shut.status]
    exact nofun
  have ends : Exists fun result => progress = .done result /\ inner.status = s.inner.status /\
      inner.sendBuf = [] /\ inner.handed = s.inner.handed := by
    cases side with
    | v4 =>
      rw [FlushFuture.poll, FlushFuture.startV4, if_pos shut.emptied] at polled
      cases polled
      exact ⟨_, rfl, rfl, shut.emptied, rfl⟩
    | v5 =>
      rw [FlushFuture.poll, FlushFuture.startV5, if_pos unopened] at polled
      cases polled
      exact ⟨_, rfl, rfl, rfl, rfl⟩
  rcases ends with ⟨result, rfl, status, emptied, handed⟩
  have idle : StreamExt.Shut { s with inner := inner, writeState := .idle } := by
    constructor
    case status => exact status.trans shut.status
    case ended => exact shut.ended
    case emptied => exact emptied
    case state => exact .inl rfl
    case unwritten => exact shut.unwritten
    case delivered =>
      rcases shut.delivered with ⟨sent, all, rest⟩
      exact ⟨sent, handed.trans all, rest⟩
  cases result with
  | ok done =>
    rw [StreamExt.driveFlush, StreamExt.flushed]
    split
    · exact idle.returns
    · exact idle
  | error error =>
    rw [StreamExt.driveFlush, StreamExt.flushed]
    split
    · exact idle.returns
    · exact idle.returns

/-! ## Orderly runs -/

theorem lasting_of_sound {state : WriteState} (sound : state.fails side inner reply = false)
    (error : Error) : reply ≠ .failed error := by
  intro failed
  rw [failed] at sound
  cases state with
  | idle | flushing future | closing future => exact nomatch sound

theorem Open.proceed (opened : s.Open side) (called : s.call = some call)
    (sound : s.writeState.fails side s.inner reply = false)
    (moved : s.proceed side call reply = some t) : t.Phase side := by
  have places := opened.places
  unfold StreamExt.proceed at moved
  cases state : s.writeState with
  | idle =>
    rw [state] at moved places
    cases call with
    | write data => exact .opened (opened.write state called moved)
    | flush =>
      cases moved
      exact .opened { opened with places := ⟨opened.flushed (.inl called), places.1⟩ }
    | shutdown =>
      cases moved
      have empty : s.inner.sendBuf = [] := by
        apply places.2 (opened.flushed (.inr called))
        rw [called]
        exact nofun
      have all := places.1
      rw [empty, List.append_nil] at all
      exact .opened { opened with places := ⟨rfl, empty, all⟩ }
  | flushing future =>
    rw [state] at moved places sound
    rcases Option.map_eq_some_iff.mp moved with ⟨⟨progress, inner⟩, polled, rfl⟩
    rcases FlushFuture.poll_spec opened.inner places.2 sound polled with ⟨kept, carried⟩
    exact .opened (opened.driveFlush state kept carried)
  | closing future =>
    rw [state] at moved places
    rcases places with ⟨rfl, empty, all⟩
    have settled : s.writeState = .idle -> s.call = some .flush -> s.inner.sendBuf = [] :=
      fun idle => nomatch state.symm.trans idle
    cases call with
    | write data | flush =>
      cases moved
      exact .opened (opened.returns nofun settled)
    | shutdown =>
      rcases Option.map_eq_some_iff.mp moved with ⟨⟨progress, inner⟩, polled, rfl⟩
      exact .closing (opened.driveClose all polled)

theorem Closing.proceed (closing : s.Closing)
    (sound : s.writeState.fails side s.inner reply = false)
    (moved : s.proceed side call reply = some t) : t.Phase side := by
  rcases closing.notice with ⟨future, state, notice⟩
  unfold StreamExt.proceed at moved
  rw [state] at moved
  cases call with
  | write data | flush =>
    cases moved
    exact .closing (closing.returns nofun)
  | shutdown =>
    rcases Option.map_eq_some_iff.mp moved with ⟨⟨progress, inner⟩, polled, rfl⟩
    rcases closing.driveClose notice (lasting_of_sound sound) polled with still | shut
    · exact .closing still
    · exact .shut shut

theorem Shut.proceed (shut : s.Shut) (called : s.call = some call)
    (moved : s.proceed side call reply = some t) : t.Shut := by
  unfold StreamExt.proceed at moved
  rcases shut.state with state | state | state
  · rw [state] at moved
    cases call with
    | write data => exact absurd called (shut.unwritten data)
    | flush =>
      cases moved
      exact { shut with delivered := shut.delivered, state := .inr (.inl rfl) }
    | shutdown =>
      cases moved
      exact { shut with delivered := shut.delivered, state := .inr (.inr rfl) }
  · rw [state] at moved
    rcases Option.map_eq_some_iff.mp moved with ⟨⟨progress, inner⟩, polled, rfl⟩
    exact shut.driveFlush polled
  · rw [state] at moved
    cases call with
    | write data => exact absurd called (shut.unwritten data)
    | flush =>
      cases moved
      exact shut.returns
    | shutdown =>
      -- The state was exchanged before, so the second close does nothing.
      dsimp only at moved
      rw [CloseFuture.poll, if_pos shut.status] at moved
      cases moved
      exact shut_of_delivered shut.status shut.emptied shut.delivered

theorem Phase.poll (phase : s.Phase side) (flushesFirst : FlushesFirst s (.poll call) = true)
    (writesBefore : WritesBefore s (.poll call) = true)
    (moved : s.step side (.poll call) = some t) : t.Phase side := by
  rw [StreamExt.step, Option.ite_none_left_eq_some] at moved
  rcases moved with ⟨uncalled, moved⟩
  have uncalled : s.call = none := not_not.mp uncalled
  split at moved
  · next nothing =>
    cases moved
    have further : ¬ (call = .shutdown /\ Poll.written 0 = .done) := nofun
    cases phase with
    | opened opened =>
      refine .opened (opened.returns further fun _ flushing => ?_)
      exact nomatch uncalled.symm.trans flushing
    | closing closing => exact .closing (closing.returns further)
    | shut shut => exact .shut shut.returns
  cases moved
  cases phase with
  | closing closing =>
    exact .closing { closing with notice := closing.notice }
  | shut shut =>
    refine .shut { shut with delivered := shut.delivered, unwritten := ?_ }
    intro data called
    have write : call = .write data := Option.some.inj called
    rw [write, WritesBefore, shut.ended] at writesBefore
    exact nomatch writesBefore
  | opened opened =>
    have places := opened.places
    refine .opened { opened with flushed := ?_, places := ?_ }
    · rintro (flush | shutdown)
      · have called : call = .flush := Option.some.inj flush
        rw [called]
        exact Bool.and_false _
      · have called : call = .shutdown := Option.some.inj shutdown
        rw [called, FlushesFirst, Bool.not_eq_true'] at flushesFirst
        rw [flushesFirst]
        rfl
    · change Places side _ s.writeState
      cases state : s.writeState with
      | idle =>
        rw [state] at places
        refine ⟨places.1, fun clean unasked => ?_⟩
        apply places.2
        · have other : decide (call ≠ .flush) = true :=
            decide_eq_true fun flush => unasked (congrArg some flush)
          rw [other, Bool.and_true] at clean
          exact clean
        · rw [uncalled]
          exact nofun
      | flushing future =>
        rw [state] at places
        refine ⟨?_, places.2⟩
        rw [places.1]
        rfl
      | closing future =>
        rw [state] at places
        exact places

theorem Phase.setFallback (phase : s.Phase side) :
    StreamExt.Phase side { s with inner := { s.inner with inFallback := true } } := by
  cases phase with
  | opened opened =>
    exact .opened { opened with inner := opened.inner.setFallback, places := opened.places }
  | closing closing => exact .closing { closing with notice := closing.notice }
  | shut shut => exact .shut { shut with delivered := shut.delivered }

end StreamExt

/-- The caller flushes before the shutdown and is done with writing after it. -/
def Orderly (side : Side) (s : StreamExt) (a : ExtAction) : Prop :=
  Healthy side s a = true /\ FlushesFirst s a = true /\ WritesBefore s a = true

instance (side : Side) (s : StreamExt) (a : ExtAction) : Decidable (Orderly side s a) :=
  inferInstanceAs (Decidable (_ /\ _ /\ _))

theorem StreamExt.Phase.step {side : Side} {s t : StreamExt} {a : ExtAction}
    (phase : s.Phase side) (orderly : Orderly side s a) (moved : s.step side a = some t) :
    t.Phase side := by
  rcases orderly with ⟨healthy, flushesFirst, writesBefore⟩
  cases a with
  | poll call => exact phase.poll flushesFirst writesBefore moved
  | halfClose | shutdownSession => exact nomatch healthy
  | setFallback =>
    cases moved
    exact phase.setFallback
  | proceed reply =>
    rcases Option.bind_eq_some_iff.mp moved with ⟨call, called, moved⟩
    rw [Healthy, Bool.not_eq_true'] at healthy
    cases phase with
    | opened opened => exact opened.proceed called healthy moved
    | closing closing => exact closing.proceed healthy moved
    | shut shut => exact .shut (shut.proceed called moved)

theorem phase_new (side : Side) : StreamExt.new.Phase side := by
  apply StreamExt.Phase.opened
  constructor
  case inner => exact ⟨rfl, rfl, nofun⟩
  case before => rfl
  case flushed => exact fun _ => rfl
  case places => exact ⟨rfl, fun _ _ => rfl⟩

/-- A stream that is flushed before it is shut down and not written to afterwards has given
its peer every accepted byte, in order and before the close, when `poll_shutdown` comes
back with success.  No close finds a byte in the send buffer. -/
theorem shutdown_delivers (side : Side) {s : StreamExt}
    (reached : (extSystem side).ReachableUnder (Orderly side) s) :
    (s.shutDown = true -> s.Delivered) /\
      (s.writeState = .closing .start -> s.inner.sendBuf = []) := by
  have phase : s.Phase side := by
    refine reached.invariant ?_ (fun _ _ _ _ orderly moved earlier => earlier.step orderly moved)
    rintro _ rfl
    exact phase_new side
  cases phase with
  | opened opened =>
    have places := opened.places
    constructor
    · intro ended
      exact nomatch opened.before.symm.trans ended
    · intro state
      rw [state] at places
      exact places.2.1
  | closing closing =>
    constructor
    · intro ended
      exact nomatch closing.before.symm.trans ended
    · exact fun _ => closing.emptied
  | shut shut => exact ⟨fun _ => shut.delivered, fun _ => shut.emptied⟩

/-- The flush is still waking the peer when the shutdown is called, which waits for it. -/
theorem shutdown_delivers_during_flush : Exists fun s =>
    (extSystem .v4).ReachableUnder (Orderly .v4) s /\
      s.returned = some (.shutdown, .done) /\ s.accepted = [1, 2] /\ s.Delivered := by
  have test : ((extSystem .v4).run (Orderly .v4) .new
      [.poll (.write [1, 2]), .proceed .ok, .poll .flush, .proceed .ok, .proceed .ok,
        .proceed .pending, .poll .shutdown, .proceed .ok, .proceed .ok, .proceed .ok,
        .proceed .ok]).any (fun s => decide (s.returned = some (.shutdown, .done) /\
          s.accepted = [1, 2] /\ s.shutDown = true)) = true := by
    decide
  rcases System.exists_reachable_of_run _ _ rfl test with ⟨s, reached, returned, accepted, ended⟩
  exact ⟨s, reached, returned, accepted, (shutdown_delivers .v4 reached).1 ended⟩

theorem not_delivered_of_only_close {s : StreamExt} (only : s.inner.handed = [.close])
    (some : s.accepted ≠ []) : ¬ s.Delivered := by
  rintro ⟨sent, handed, _, all⟩
  rw [only] at handed
  have none : sent = [] := List.self_eq_append_left.mp handed
  rw [none] at all
  exact some all.symm

/-- A written byte that nobody has flushed is lost in the shutdown, over either protocol.
A byte that is written to a V2-V4 stream after its shutdown is lost as well, even if it
is flushed and the stream is shut down once more. -/
theorem shutdown_drops_written :
    (forall side, Exists fun s =>
      (extSystem side).ReachableUnder
          (fun s a => Healthy side s a = true /\ WritesBefore s a = true) s /\
        s.returned = some (.shutdown, .done) /\ s.accepted = [7] /\ ¬ s.Delivered) /\
    Exists fun s =>
      (extSystem .v4).ReachableUnder
          (fun s a => Healthy .v4 s a = true /\ FlushesFirst s a = true) s /\
        s.returned = some (.shutdown, .done) /\ s.accepted = [7] /\ ¬ s.Delivered := by
  constructor
  · intro side
    have test : ((extSystem side).run
        (fun s a => Healthy side s a = true /\ WritesBefore s a = true) .new
        [.poll (.write [7]), .proceed .ok, .poll .shutdown, .proceed .ok, .proceed .ok,
          .proceed .ok]).any (fun s => decide (s.returned = some (.shutdown, .done) /\
            s.accepted = [7] /\ s.inner.handed = [.close])) = true := by
      cases side with
      | v4 => decide
      | v5 => decide
    rcases System.exists_reachable_of_run _ _ rfl test with ⟨s, reached, returned, accepted, only⟩
    refine ⟨s, reached, returned, accepted, not_delivered_of_only_close only ?_⟩
    rw [accepted]
    exact nofun
  · have test : ((extSystem .v4).run
        (fun s a => Healthy .v4 s a = true /\ FlushesFirst s a = true) .new
        [.poll .shutdown, .proceed .ok, .proceed .ok, .proceed .ok,
          .poll (.write [7]), .proceed .ok, .poll .flush, .proceed .ok, .proceed .ok,
          .poll .shutdown, .proceed .ok, .proceed .ok]).any
        (fun s => decide (s.returned = some (.shutdown, .done) /\
          s.accepted = [7] /\ s.inner.handed = [.close])) = true := by
      decide
    rcases System.exists_reachable_of_run _ _ rfl test with ⟨s, reached, returned, accepted, only⟩
    refine ⟨s, reached, returned, accepted, not_delivered_of_only_close only ?_⟩
    rw [accepted]
    exact nofun

end Compact
end Shmipc
