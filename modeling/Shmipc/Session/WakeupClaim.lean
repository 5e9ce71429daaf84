import Shmipc.Session.WriterFrames

namespace Shmipc
namespace Session

open Transition

/-!
# What becomes of a won claim

The task that turns the working flag of the peer from zero to one owes the peer a
wakeup, and nobody else sends one until the peer clears the flag.  The task holds
the event until it is on the eventfd or the socket, at least in part, or in the
channel.  Where the channel is full it waits with the event still in its hands, and
if its future is dropped there the event is gone while the flag stays set.

In every run without such a drop, and without an eventfd that refuses a write, each
wakeup that was won is with its call or was sent.
-/

/-- The claim whose event a task still holds. -/
def TaskPoint.owed : TaskPoint -> Option Nat
  | .claimed claim => some claim
  | .sending ready _ => ready.wakeup
  | _ => none

/-- The claim that the current call of a task has won. -/
def TaskPoint.call : TaskPoint -> Option Nat
  | .claimed claim => some claim
  | .sending _ call => call
  | _ => none

/-- The claim that a frame is the wakeup of. -/
def Frame.claim : Frame -> Option Nat
  | .wakeup claim => some claim
  | .queued ready => ready.wakeup

namespace Writers

/-- No call is dropped while it holds the whole event of its claim, and the eventfd
takes every write. -/
def KeepsEvent (s : Writers) : WriterAction -> Prop
  | .drop i => (s.task i).owed = none
  | .writeEventFd _ failed => failed = false
  | _ => True

instance (s : Writers) (a : WriterAction) : Decidable (KeepsEvent s a) :=
  match a with
  | .drop i => inferInstanceAs (Decidable ((s.task i).owed = none))
  | .writeEventFd _ failed => inferInstanceAs (Decidable (failed = false))
  | .wakeUpPeer _ | .tryWrite _ _ _ | .waitForSend _ _ _ | .send _ | .timeout _ | .reported _
  | .receive | .lock | .poll _ | .finish | .peerStores _ => inferInstanceAs (Decidable True)

/-- The wakeup of a claim went to the eventfd, or it is in the channel or just taken
from it, or it was begun on the socket: then all of it is written, or the rest of it
is the next to be written, from `carry` or by the write loop. -/
def Delivered (event : List UInt8) (s : Writers) (claim : Nat) : Prop :=
  claim ∈ s.signals \/
  (∃ ready ∈ s.loop.inHand ++ s.channel, ready = ⟨none, event, some claim⟩) \/
  (Exists fun before => Exists fun frame => Exists fun after =>
    s.begun = before ++ frame :: after /\ frame.claim = some claim /\ frame.bytes event = event /\
    ((before ++ [frame]).flatMap (Frame.bytes event) <+: s.socket \/
      Exists fun tail => (before ++ [frame]).flatMap (Frame.bytes event) = s.socket ++ tail /\
        tail <+: s.unwritten))

/-- The wakeup of a claim left its task. -/
def Sent (s : Writers) (claim : Nat) : Prop :=
  claim ∈ s.signals \/ (∃ ready ∈ s.loop.inHand ++ s.channel, ready.wakeup = some claim) \/
    (∃ frame ∈ s.begun, frame.claim = some claim)

variable {mode : WakeupMode} {event : List UInt8} {capacity : Nat} {working : Bool}
  {s t : Writers} {i claim : Nat} {p : TaskPoint}

theorem Sent.step (sent : s.Sent claim) (moved : WireStep event s t)
    (signals : s.signals ⊆ t.signals) : t.Sent claim := by
  rcases sent with signalled | ⟨ready, queued, own⟩ | ⟨frame, begun, own⟩
  · exact Or.inl (signals signalled)
  · -- a frame goes from the channel to the write loop and onto the socket
    cases moved with
    | stays _ _ channel loop _ _ | wakes _ _ _ _ _ _ channel loop _ _ =>
      exact Or.inr (Or.inl ⟨ready, by rw [loop, channel]; exact queued, own⟩)
    | enters _ _ _ channel loop _ _ =>
      refine Or.inr (Or.inl ⟨ready, ?_, own⟩)
      rw [loop, channel, <- List.append_assoc]
      exact List.mem_append_left _ queued
    | receives taken receiving first _ _ loop _ _ =>
      refine Or.inr (Or.inl ⟨ready, ?_, own⟩)
      rw [receiving, first] at queued
      rw [loop]
      exact queued
    | locks taken locking _ _ channel loop _ begun =>
      rw [locking] at queued
      rcases List.mem_append.mp queued with hand | waiting
      · refine Or.inr (Or.inr ⟨.queued ready, ?_, own⟩)
        rw [begun, List.mem_singleton.mp hand]
        exact List.mem_append_right _ (List.mem_singleton_self _)
      · refine Or.inr (Or.inl ⟨ready, ?_, own⟩)
        rw [channel]
        exact List.mem_append_right _ waiting
    | writes _ _ _ _ writing _ _ _ channel loop _ _ =>
      refine Or.inr (Or.inl ⟨ready, ?_, own⟩)
      rw [writing] at queued
      rw [loop, channel]
      exact queued
    | finishes done _ _ channel loop _ _ =>
      refine Or.inr (Or.inl ⟨ready, ?_, own⟩)
      rw [done] at queued
      rw [loop, channel]
      exact queued
  · exact Or.inr (Or.inr ⟨frame, moved.grows.2.subset begun, own⟩)

/-- Only tasks of the same call share a claim, and only the frame of a wakeup names
one. -/
structure ClaimInv (event : List UInt8) (s : Writers) : Prop where
  fresh : forall i claim, (s.task i).call = some claim -> claim < s.claims
  single : forall i j claim, (s.task i).call = some claim -> (s.task j).call = some claim -> i = j
  own : forall i claim, (s.task i).owed = some claim -> (s.task i).call = some claim
  whole : forall i ready call, s.task i = .sending ready call ->
    ∀ claim ∈ ready.wakeup, ready = ⟨none, event, some claim⟩
  entered : ∀ ready ∈ s.entered, ∀ claim ∈ ready.wakeup, ready = ⟨none, event, some claim⟩
  located : forall claim, claim < s.claims ->
    (Exists fun i => (s.task i).owed = some claim) \/ s.Sent claim

/-- What a step does to one task.  The task gives up an event only by sending it. -/
structure Serves (event : List UInt8) (s t : Writers) (i : Nat) (p : TaskPoint) : Prop where
  task : t.task = Function.update s.task i p
  claims : (t.claims = s.claims /\ (forall claim, p.call = some claim ->
      (s.task i).call = some claim)) \/
    (t.claims = s.claims + 1 /\ p = .claimed s.claims /\ s.task i = .idle)
  signals : s.signals ⊆ t.signals
  owed : forall claim, (s.task i).owed = some claim -> p.owed = some claim \/ t.Sent claim
  own : forall claim, p.owed = some claim -> p.call = some claim
  whole : forall ready call, p = .sending ready call ->
    ∀ claim ∈ ready.wakeup, ready = ⟨none, event, some claim⟩
  entered : ∀ ready ∈ t.entered, ready ∈ s.entered \/
    Exists fun call => s.task i = .sending ready call

namespace Serves

theorem of_same (inv : ClaimInv event s) (task : t.task = s.task) (claims : t.claims = s.claims)
    (signals : t.signals = s.signals) (entered : t.entered = s.entered) :
    Serves event s t 0 (s.task 0) where
  task := by rw [task, Function.update_eq_self]
  claims := Or.inl ⟨claims, fun _ call => call⟩
  signals := by rw [signals]; exact List.Subset.refl _
  owed := fun _ owed => Or.inl owed
  own := inv.own 0
  whole := inv.whole 0
  entered := by
    rw [entered]
    exact fun _ member => Or.inl member

theorem of_end (free : (s.task i).owed = none) (quiet : p.owed = none /\ p.call = none) :
    Serves event s (s.setTask i p) i p where
  task := rfl
  claims := by
    refine Or.inl ⟨rfl, fun claim call => ?_⟩
    rw [quiet.2] at call
    cases call
  signals := List.Subset.refl _
  owed := by
    intro claim owed
    rw [free] at owed
    cases owed
  own := by
    intro claim owed
    rw [quiet.1] at owed
    cases owed
  whole := by
    rintro ready call rfl claim own
    have none := quiet.1
    simp only [TaskPoint.owed] at none
    rw [none] at own
    cases own
  entered := fun _ member => Or.inl member

theorem of_sent {u : Writers} (task : u.task = s.task) (claims : u.claims = s.claims)
    (signals : s.signals ⊆ u.signals)
    (entered : ∀ ready ∈ u.entered, ready ∈ s.entered \/
      Exists fun call => s.task i = .sending ready call)
    (sent : forall claim, (s.task i).owed = some claim -> u.Sent claim)
    (call : forall claim, p.call = some claim -> (s.task i).call = some claim)
    (free : p.owed = none) : Serves event s (u.setTask i p) i p where
  task := by rw [<- task]; rfl
  claims := Or.inl ⟨claims, call⟩
  signals := signals
  owed := fun claim owed => Or.inr (sent claim owed)
  own := by
    intro claim owed
    rw [free] at owed
    cases owed
  whole := by
    rintro ready call rfl claim own
    simp only [TaskPoint.owed] at free
    rw [free] at own
    cases own
  entered := entered

theorem of_kept (point : s.task i = .claimed claim) :
    Serves event s (s.setTask i (.sending ⟨none, event, some claim⟩ (some claim))) i
      (.sending ⟨none, event, some claim⟩ (some claim)) where
  task := rfl
  claims := by
    refine Or.inl ⟨rfl, fun won call => ?_⟩
    rw [point]
    exact call
  signals := List.Subset.refl _
  owed := by
    intro won owed
    rw [point] at owed
    exact Or.inl owed
  own := fun _ owed => owed
  whole := by
    rintro ready call same won own
    cases same
    cases own
    rfl
  entered := fun _ member => Or.inl member

theorem of_begun {u : Writers} (point : s.task i = .claimed claim) (task : u.task = s.task)
    (claims : u.claims = s.claims) (signals : u.signals = s.signals)
    (entered : u.entered = s.entered) (begun : u.begun = s.begun ++ [.wakeup claim])
    (call : forall won, p.call = some won -> won = claim) (free : p.owed = none) :
    Serves event s (u.setTask i p) i p := by
  refine of_sent task claims ?_ ?_ (fun won owed => ?_) (fun won next => ?_) free
  · rw [signals]
    exact List.Subset.refl _
  · rw [entered]
    exact fun _ member => Or.inl member
  · rw [point] at owed
    cases owed
    refine Or.inr (Or.inr ⟨.wakeup claim, ?_, rfl⟩)
    rw [begun]
    exact List.mem_append_right _ (List.mem_singleton_self _)
  · rw [point, call won next]
    rfl

theorem of_moves {a : WriterAction} (inv : ClaimInv event s) (guarded : s.KeepsEvent a)
    (moved : Moves mode event capacity s a t) :
    Exists fun i => Exists fun p => Serves event s t i p := by
  cases moved with
  | awake i _ _ | receives ready rest _ _ | locks ready _ | writes accepted part rest _ _
  | finishes _ | stores working => exact ⟨0, _, of_same inv rfl rfl rfl rfl⟩
  | wins i idle _ =>
    refine ⟨i, .claimed s.claims, rfl, Or.inr ⟨rfl, rfl, idle⟩, List.Subset.refl _,
      fun won owed => ?_, fun _ owed => owed, (fun _ _ same => by cases same),
      fun _ member => Or.inl member⟩
    rw [idle] at owed
    cases owed
  | signals i claim failed point _ =>
    cases guarded
    refine ⟨i, .idle, of_sent rfl rfl (List.subset_append_left _ _)
      (fun _ member => Or.inl member) (fun won owed => ?_) (fun _ call => by cases call) rfl⟩
    rw [point] at owed
    cases owed
    exact Or.inl (List.mem_append_right _ (List.mem_singleton_self _))
  | keeps i claim busy poll point _ => exact ⟨i, _, of_kept point⟩
  | wakes i claim busy point _ _ _ =>
    exact ⟨i, _, of_begun point rfl rfl rfl rfl rfl (fun _ call => by cases call) rfl⟩
  | wakesInPart i claim busy written point _ _ _ _ =>
    exact ⟨i, _, of_begun point rfl rfl rfl rfl rfl (fun _ call => (Option.some.inj call).symm)
      rfl⟩
  | begins i hdr body idle => exact ⟨i, _, of_end (by rw [idle]; rfl) ⟨rfl, rfl⟩⟩
  | sends i ready call point _ =>
    have last : ready ∈ s.channel ++ [ready] :=
      List.mem_append_right _ (List.mem_singleton_self _)
    refine ⟨i, _, of_sent rfl rfl (List.Subset.refl _) (fun other member => ?_)
      (fun won owed => ?_) (fun won next => ?_) ?_⟩
    · rcases List.mem_append.mp member with old | new
      · exact Or.inl old
      · rw [List.mem_singleton.mp new]
        exact Or.inr ⟨call, point⟩
    · rw [point] at owed
      exact Or.inr (Or.inl ⟨ready, List.mem_append_right _ last, owed⟩)
    · cases call <;> cases next
    · cases call <;> rfl
  | timesOut i ready point =>
    refine ⟨i, _, of_end (Option.eq_none_iff_forall_ne_some.mpr fun won owed => ?_) ⟨rfl, rfl⟩⟩
    have call := inv.own i won owed
    rw [point] at call
    cases call
  | returns i waiting => exact ⟨i, _, of_end (by rw [waiting]; rfl) ⟨rfl, rfl⟩⟩
  | drops i _ => exact ⟨i, _, of_end guarded ⟨rfl, rfl⟩⟩

variable {j : Nat}

theorem task_self (served : Serves event s t i p) : t.task i = p := by
  rw [served.task, Function.update_self]

theorem task_other (served : Serves event s t i p) (different : j ≠ i) : t.task j = s.task j := by
  rw [served.task, Function.update_of_ne different]

theorem call_cases (served : Serves event s t i p) (call : (t.task j).call = some claim) :
    (s.task j).call = some claim \/
      (j = i /\ claim = s.claims /\ t.claims = s.claims + 1) := by
  by_cases same : j = i
  · subst same
    rw [served.task_self] at call
    rcases served.claims with ⟨_, old⟩ | ⟨more, rfl, _⟩
    · exact Or.inl (old claim call)
    · cases call
      exact Or.inr ⟨rfl, rfl, more⟩
  · rw [served.task_other same] at call
    exact Or.inl call

theorem claims_le (served : Serves event s t i p) : s.claims <= t.claims := by
  rcases served.claims with ⟨same, _⟩ | ⟨more, _⟩ <;> omega

end Serves

namespace ClaimInv

theorem new (event : List UInt8) (working : Bool) : ClaimInv event (new working) where
  fresh := fun _ _ call => by cases call
  single := fun _ _ _ call => by cases call
  own := fun _ _ owed => by cases owed
  whole := fun _ _ _ same => by cases same
  entered := fun _ none => absurd none List.not_mem_nil
  located := fun _ none => absurd none (Nat.not_lt_zero _)

theorem step (inv : ClaimInv event s) (served : Serves event s t i p)
    (moved : WireStep event s t) : ClaimInv event t where
  fresh := by
    intro j claim call
    have older := served.claims_le
    rcases served.call_cases call with old | ⟨_, rfl, more⟩
    · have fresh := inv.fresh j claim old
      omega
    · omega
  single := by
    intro j k claim first second
    rcases served.call_cases first with old | ⟨atI, rfl, _⟩
    · rcases served.call_cases second with old' | ⟨_, rfl, _⟩
      · exact inv.single j k claim old old'
      · exact absurd (inv.fresh j _ old) (Nat.lt_irrefl _)
    · rcases served.call_cases second with old' | ⟨atI', _, _⟩
      · exact absurd (inv.fresh k _ old') (Nat.lt_irrefl _)
      · rw [atI, atI']
  own := by
    intro j claim owed
    by_cases same : j = i
    · subst same
      rw [served.task_self] at owed ⊢
      exact served.own claim owed
    · rw [served.task_other same] at owed ⊢
      exact inv.own j claim owed
  whole := by
    intro j ready call point
    by_cases same : j = i
    · subst same
      rw [served.task_self] at point
      exact served.whole ready call point
    · rw [served.task_other same] at point
      exact inv.whole j ready call point
  entered := by
    intro ready member
    rcases served.entered ready member with old | ⟨call, point⟩
    · exact inv.entered ready old
    · exact inv.whole i ready call point
  located := by
    intro claim known
    by_cases old : claim < s.claims
    · rcases inv.located claim old with ⟨j, owed⟩ | sent
      · by_cases same : j = i
        · subst same
          rcases served.owed claim owed with kept | sent
          · refine Or.inl ⟨j, ?_⟩
            rw [served.task_self]
            exact kept
          · exact Or.inr sent
        · refine Or.inl ⟨j, ?_⟩
          rw [served.task_other same]
          exact owed
      · exact Or.inr (sent.step moved served.signals)
    · rcases served.claims with ⟨equal, _⟩ | ⟨more, won, _⟩
      · omega
      · refine Or.inl ⟨i, ?_⟩
        rw [served.task_self, won, TaskPoint.owed]
        exact congrArg some (by omega)

theorem reachable
    (reached : (writerSystem mode event capacity working).ReachableUnder KeepsEvent s) :
    ClaimInv event s := by
  refine reached.invariant (P := ClaimInv event) ?_ ?_
  · rintro s rfl
    exact new event working
  · intro s a t _ guarded moved inv
    rcases Serves.of_moves inv guarded (moves_of_step moved) with ⟨i, p, served⟩
    exact inv.step served (wireStep moved)

theorem delivered (inv : ClaimInv event s) (wire : WireInv event s) (sent : s.Sent claim) :
    s.Delivered event claim := by
  have entered (ready : SendReady) (member : ready ∈ s.entered)
      (own : ready.wakeup = some claim) : ready = ⟨none, event, some claim⟩ :=
    inv.entered ready member claim own
  have order := wire.order
  rcases sent with signalled | ⟨ready, queued, own⟩ | ⟨frame, begun, own⟩
  · exact Or.inl signalled
  · refine Or.inr (Or.inl ⟨ready, queued, entered ready ?_ own⟩)
    rw [<- order, List.append_assoc]
    exact List.mem_append_right _ queued
  · rcases List.append_of_mem begun with ⟨before, after, split⟩
    have bytes : frame.bytes event = event := by
      cases frame with
      | wakeup won => rfl
      | queued ready =>
        have there : ready ∈ s.entered := by
          rw [<- order, List.append_assoc]
          exact List.mem_append_left _ (List.mem_filterMap.mpr ⟨_, begun, rfl⟩)
        rw [entered ready there own]
        rfl
    refine Or.inr (Or.inr ⟨before, frame, after, split, own, bytes, ?_⟩)
    -- the frame and the socket both begin what is written and to be written
    have whole : (before ++ [frame]).flatMap (Frame.bytes event) <+: s.socket ++ s.unwritten := by
      rw [wire.bytes, split]
      exact ⟨after.flatMap (Frame.bytes event), by simp⟩
    rcases List.prefix_or_prefix_of_prefix whole (List.prefix_append s.socket s.unwritten) with
      written | ⟨tail, rest⟩
    · exact Or.inl written
    · refine Or.inr ⟨tail, rest.symm, ?_⟩
      rw [<- rest] at whole
      exact (List.prefix_append_right_inj s.socket).mp whole

end ClaimInv

end Writers

open Writers

/-- In every run in which no call is dropped with its whole event in its hands, and no
write to the eventfd fails: when a call that has won its claim ends, by returning or
by being dropped, its wakeup is delivered; and at every moment each claim that was
won belongs to a call that goes on, or its wakeup is delivered. -/
theorem won_claim_is_delivered (mode : WakeupMode) (event : List UInt8) (capacity : Nat)
    (working : Bool) {s : Writers}
    (reached : (writerSystem mode event capacity working).ReachableUnder KeepsEvent s) :
    (forall i claim a t, (s.task i).call = some claim -> s.KeepsEvent a ->
      s.step mode event capacity a = some t -> t.task i = .idle -> t.Delivered event claim) /\
    (forall claim, claim < s.claims ->
      (Exists fun i => (s.task i).call = some claim) \/ s.Delivered event claim) := by
  have inv := ClaimInv.reachable reached
  refine ⟨fun i claim a t call guarded moved ended => ?_, fun claim won => ?_⟩
  · have reached' := reached.next guarded moved
    have inv' := ClaimInv.reachable reached'
    rcases Serves.of_moves inv guarded (moves_of_step moved) with ⟨j, p, served⟩
    have known : claim < t.claims := by
      have older := served.claims_le
      have fresh := inv.fresh i claim call
      omega
    rcases inv'.located claim known with ⟨k, owed⟩ | sent
    · -- no other task has the claim, and this one is idle
      have other := inv'.own k claim owed
      rcases served.call_cases other with old | ⟨_, rfl, _⟩
      · rw [inv.single k i claim old call, ended] at other
        cases other
      · exact absurd (inv.fresh i _ call) (Nat.lt_irrefl _)
    · exact inv'.delivered (WireInv.reachable reached') sent
  · rcases inv.located claim won with ⟨i, owed⟩ | sent
    · exact Or.inl ⟨i, inv.own i claim owed⟩
    · exact Or.inr (inv.delivered (WireInv.reachable reached) sent)

theorem won_claim_is_delivered_in_part :
    Exists fun s =>
      (writerSystem .socketEvent [0, 0, 0, 8, 119, 88, 2, 0] 4096 false).ReachableUnder
        KeepsEvent s /\
      s.working = true /\ s.carry = [8, 119, 88, 2, 0] /\
      Exists fun t => s.step .socketEvent [0, 0, 0, 8, 119, 88, 2, 0] 4096 (.drop 0) = some t /\
        t.Delivered [0, 0, 0, 8, 119, 88, 2, 0] 0 := by
  have test : ((writerSystem .socketEvent [0, 0, 0, 8, 119, 88, 2, 0] 4096 false).run KeepsEvent
      (.new false) [.wakeUpPeer 0, .tryWrite 0 false (some 3)]).any (fun s => decide
        (s.working = true /\ s.carry = [8, 119, 88, 2, 0] /\
          s.task 0 = .sending ⟨none, [], none⟩ (some 0))) = true := by
    decide
  rcases System.exists_reachable_of_run _ _ rfl test with ⟨s, reached, working, carry, point⟩
  have moved : s.step .socketEvent [0, 0, 0, 8, 119, 88, 2, 0] 4096 (.drop 0) =
      some (s.setTask 0 .idle) := by
    simp only [Writers.step, point]
  refine ⟨s, reached, working, carry, _, moved, ?_⟩
  refine (won_claim_is_delivered _ _ _ _ reached).1 0 0 (.drop 0) _ ?_ ?_ moved ?_
  · rw [point]
    rfl
  · show (s.task 0).owed = none
    rw [point]
    rfl
  · simp only [setTask, Function.update_self]

namespace Writers

/-- The write loop waits for a slow peer in the middle of a frame, and some frames are
in the channel behind it. -/
structure Stuck (queued : Nat) (s : Writers) : Prop where
  channel : s.channel = List.replicate queued ⟨none, [1], none⟩
  loop : s.loop = .writing [[1]]
  begun : s.begun = [.queued ⟨none, [1], none⟩]
  task : s.task = fun _ => .idle
  asleep : s.working = false
  claims : s.claims = 0
  signals : s.signals = []

variable {mode : WakeupMode} {event : List UInt8} {capacity : Nat} {awake : Bool} {s : Writers}

theorem update_idle (idle : s.task = fun _ => .idle) (p q : TaskPoint) :
    Function.update (Function.update (Function.update s.task 0 p) 0 q) 0 .idle =
      fun _ => .idle := by
  rw [Function.update_idem, Function.update_idem, idle]
  exact Function.update_eq_self (f := fun _ => TaskPoint.idle) 0

theorem run_send (idle : s.task = fun _ => .idle) (room : s.channel.length < capacity)
    (body : List UInt8) :
    (writerSystem mode event capacity awake).run (fun _ _ => True) s
        [.waitForSend 0 none body, .send 0, .drop 0] =
      some { s with
        channel := s.channel ++ [⟨none, body, none⟩]
        entered := s.entered ++ [⟨none, body, none⟩]
        task := fun _ => .idle } := by
  have here : s.task 0 = .idle := by rw [idle]
  simp only [System.run, if_true, writerSystem, step, here, setTask, Function.update_self,
    Option.bind_some, room, Option.isSome_none, Bool.false_eq_true, if_false, update_idle idle]

theorem exists_stuck (event : List UInt8) {capacity queued : Nat} (some : 0 < capacity)
    (room : queued <= capacity) :
    Exists fun s => (writerSystem .socketEvent event capacity false).Reachable s /\
      Stuck queued s := by
  induction queued with
  | zero =>
    have sent := System.reachable_run
      (.start rfl : (writerSystem .socketEvent event capacity false).Reachable (.new false))
      (run_send rfl some [1])
    have received := sent.next (a := .receive) trivial rfl
    have locked := received.next (a := .lock) trivial rfl
    exact ⟨_, locked, rfl, rfl, rfl, rfl, rfl, rfl, rfl⟩
  | succ queued ih =>
    rcases ih (Nat.le_of_succ_le room) with ⟨s, reached, stuck⟩
    have short : s.channel.length < capacity := by
      rw [stuck.channel, List.length_replicate]
      exact room
    refine ⟨_, System.reachable_run reached (run_send stuck.task short [1]), ?_, stuck.loop,
      stuck.begun, rfl, stuck.asleep, stuck.claims, stuck.signals⟩
    rw [List.replicate_succ', <- stuck.channel]

/-- With the socket locked and the channel full, a call that wins the claim waits for
room with the event in its hands. -/
theorem Stuck.run_dropped {queued : Nat} (stuck : Stuck queued s) :
    (writerSystem .socketEvent event capacity awake).run (fun _ _ => True) s
        [.wakeUpPeer 0, .tryWrite 0 false none, .drop 0] =
      some { s with working := true, claims := 1, task := fun _ => .idle } := by
  have here : s.task 0 = .idle := by rw [stuck.task]
  have locked : s.loop.locked = true := by rw [stuck.loop]; rfl
  have other : ¬ (WakeupMode.socketEvent = .queuePolling \/ s.working = true) := by
    rw [stuck.asleep]
    decide
  simp only [System.run, if_true, writerSystem, step, here, other, if_false, setTask,
    Function.update_self, Option.bind_some, tryWriteWakeup, locked, or_true, true_or,
    update_idle stuck.task, stuck.claims, Nat.zero_add]

end Writers

/-- The channel is full and the socket locked.  A task wins the claim and waits for
room; its future is dropped.  The flag is set, nobody is in a call, and there is no
wakeup anywhere. -/
theorem dropped_call_loses_wakeup :
    Exists fun s =>
      (writerSystem .socketEvent [0, 0, 0, 8, 119, 88, 2, 0] 4096 false).Reachable s /\
      s.working = true /\ s.claims = 1 /\ (forall i, s.task i = .idle) /\ s.carry = [] /\
      ¬ s.Delivered [0, 0, 0, 8, 119, 88, 2, 0] 0 := by
  rcases exists_stuck [0, 0, 0, 8, 119, 88, 2, 0] (Nat.succ_pos 4095) (Nat.le_refl 4096) with
    ⟨s, reached, stuck⟩
  have taken := (WireInv.reachable reached).taken (by rw [stuck.loop]; rfl)
  refine ⟨_, System.reachable_run reached stuck.run_dropped, rfl, rfl, fun _ => rfl, taken, ?_⟩
  rintro (signalled | ⟨ready, queued, own⟩ | ⟨before, frame, after, split, own, _⟩)
  · simp only [stuck.signals] at signalled
    exact absurd signalled List.not_mem_nil
  · simp only [stuck.loop, stuck.channel, WriteLoop.inHand, List.nil_append] at queued
    rw [own] at queued
    cases List.eq_of_mem_replicate queued
  · have member : frame ∈ [Frame.queued ⟨none, [1], none⟩] := by
      rw [<- stuck.begun, show s.begun = before ++ frame :: after from split]
      exact List.mem_append_right _ List.mem_cons_self
    rw [List.mem_singleton.mp member] at own
    cases own

end Session
end Shmipc
