import Shmipc.V5.Mpsc

namespace Shmipc
namespace V5

open Transition

/-!
# Waking the consumer of the ring

A producer whose push returned calls `claim_peer_consumer`, a compare-exchange
of the working flag from zero to one, and sends one wakeup message if it won.
The consumer sleeps until there is a message, pops until the head is not ready,
and then runs `mark_not_working`: it clears the flag, looks at the head once
more, and either sets the flag and goes on or sleeps.

The pushes and pops are those of the ring, access by access.  `head` is stored
by the consumer only, so of the two loads of `head_ready` the one of the turn
counter is the one that can race.  A producer that found the ring full also
claims before it retries, and a drain may start without a message, which is how
an event on the socket drains the ring.
-/

/-- Where the consumer stands outside `try_pop`. -/
inductive DrainPhase
  | asleep
  | draining
  | storing
  | testing
  | restoring
  deriving DecidableEq

/-- The ring, the working flag, and who is busy waking the consumer.  `claiming`
lists the producers between the end of their push and the end of their claim,
`waking` those that won and have not sent their message. -/
structure WakeupState (T : Type) where
  ring : MpscState T
  working : Bool
  claiming : List Nat
  waking : List Nat
  inFlight : Nat
  phase : DrainPhase

inductive WakeupAction (T : Type)
  | push (producer mapping : Nat) (value : T)
  | produce (producer : Nat) (spurious : Bool)
  | retry (producer : Nat)
  | claimPeerConsumer (producer : Nat)
  | sendWakeup (producer : Nat)
  | wake
  | beginDrain
  | pop
  | consume
  | drained
  | storeZero
  | testHead
  | storeOne

/-- The next access of the producer publishes its element. -/
def Producer.publishing {T : Type} : Producer T -> Bool
  | .publish _ _ => true
  | _ => false

namespace WakeupState

variable {T : Type}

def new (zero : T) : WakeupState T where
  ring := .new zero
  working := false
  claiming := []
  waking := []
  inFlight := 0
  phase := .asleep

/-- One atomic step of a producer or of the consumer. -/
def step (ring : Mpsc) (s : WakeupState T) : WakeupAction T -> Option (WakeupState T)
  | .push p mapping value =>
    if p ∉ s.claiming /\ p ∉ s.waking then
      (s.ring.step ring (.push p mapping value)).map fun next => { s with ring := next }
    else none
  | .produce p spurious =>
    (s.ring.step ring (.produce p spurious)).map fun next =>
      if (s.ring.producer p).publishing then
        { s with ring := next, claiming := p :: s.claiming }
      else { s with ring := next }
  | .retry p =>
    match s.ring.producer p with
    | .returned false =>
      if p ∉ s.claiming /\ p ∉ s.waking then some { s with claiming := p :: s.claiming }
      else none
    | _ => none
  | .claimPeerConsumer p =>
    if p ∈ s.claiming then
      if s.working then some { s with claiming := s.claiming.erase p }
      else
        some { s with
          claiming := s.claiming.erase p, waking := p :: s.waking, working := true }
    else none
  | .sendWakeup p =>
    if p ∈ s.waking then
      some { s with waking := s.waking.erase p, inFlight := s.inFlight + 1 }
    else none
  | .wake =>
    if s.phase = .asleep /\ 0 < s.inFlight then
      some { s with inFlight := s.inFlight - 1, phase := .draining }
    else none
  | .beginDrain => if s.phase = .asleep then some { s with phase := .draining } else none
  | .pop =>
    if s.phase = .draining then
      (s.ring.step ring .pop).map fun next => { s with ring := next }
    else none
  | .consume =>
    if s.phase = .draining then
      (s.ring.step ring .consume).map fun next => { s with ring := next }
    else none
  | .drained =>
    match s.phase, s.ring.consumer with
    | .draining, .returned .empty => some { s with phase := .storing }
    | .draining, .returned .headNotReady => some { s with phase := .storing }
    | _, _ => none
  | .storeZero =>
    if s.phase = .storing then some { s with working := false, phase := .testing } else none
  | .testHead =>
    if s.phase = .testing then
      if s.ring.headReady ring then some { s with phase := .restoring }
      else some { s with phase := .asleep }
    else none
  | .storeOne =>
    if s.phase = .restoring then some { s with working := true, phase := .draining } else none

end WakeupState

/-- All interleavings of the producers and the consumer. -/
def wakeupSystem {T : Type} (ring : Mpsc) (zero : T) : System (WakeupState T) (WakeupAction T) where
  init := fun s => s = WakeupState.new zero
  step := WakeupState.step ring

/-! ## No wakeup is lost -/

namespace WakeupState

variable {T : Type} {ring : Mpsc} {s t : WakeupState T}

/-- Some producer has won the claim, or its message is on the way. -/
def Announced (s : WakeupState T) : Prop :=
  0 < s.inFlight \/ s.waking ≠ []

/-- Between the two loads of `mark_not_working` and sleep nobody but a winner
sets the flag, and a ready head in front of a sleeping consumer has a producer
or a message behind it. -/
structure Inv (ring : Mpsc) (s : WakeupState T) : Prop where
  flag : s.working = true -> s.phase = .asleep \/ s.phase = .testing -> s.Announced
  asleep : s.phase = .asleep -> s.ring.headReady ring = true ->
    s.claiming ≠ [] \/ s.Announced

/-- Only the publication of an element makes the head ready. -/
theorem headReady_of_produce {r next : MpscState T} {p : Nat} {spurious : Bool}
    (quiet : (r.producer p).publishing = false)
    (moved : r.step ring (.produce p spurious) = some next) :
    next.headReady ring = r.headReady ring := by
  simp only [MpscState.step, MpscState.produce] at moved
  cases pc : r.producer p with
  | publish value position =>
    rw [pc] at quiet
    cases quiet
  | _ =>
    simp only [pc] at moved
    first
      | cases moved <;> rfl
      | split at moved <;> cases moved <;> rfl

theorem headReady_of_push {r next : MpscState T} {p mapping : Nat} {value : T}
    (moved : r.step ring (.push p mapping value) = some next) :
    next.headReady ring = r.headReady ring := by
  simp only [MpscState.step] at moved
  split at moved <;> cases moved <;> rfl

theorem inv_new (zero : T) : Inv ring (new zero) where
  flag := fun wrong => by cases wrong
  asleep := by
    intro _ ready
    exfalso
    revert ready
    simp [new, MpscState.headReady, MpscState.new, Mpsc.publishedTurn, Mpsc.freeTurn, Mpsc.turn]

namespace Inv

theorem ofAwake (awake : t.phase ≠ .asleep) (noTest : t.phase ≠ .testing) : Inv ring t where
  flag := fun _ phase => absurd phase (not_or.mpr ⟨awake, noTest⟩)
  asleep := fun phase => absurd phase awake

theorem setRing (inv : Inv ring s) {next : MpscState T}
    (same : next.headReady ring = s.ring.headReady ring) : Inv ring { s with ring := next } where
  flag := inv.flag
  asleep := fun phase ready => inv.asleep phase (same ▸ ready)

theorem startClaim (inv : Inv ring s) (p : Nat) (next : MpscState T) :
    Inv ring { s with ring := next, claiming := p :: s.claiming } where
  flag := inv.flag
  asleep := fun _ _ => Or.inl (List.cons_ne_nil _ _)

/-- A lost claim changes nothing for the others: the flag it found set is
somebody's announcement. -/
theorem loseClaim (inv : Inv ring s) (working : s.working = true) (claiming : List Nat) :
    Inv ring { s with claiming := claiming } where
  flag := inv.flag
  asleep := fun phase _ => Or.inr (inv.flag working (Or.inl phase))

/-- A won claim, or the message it leads to, announces itself. -/
theorem ofAnnounced (announced : t.Announced) : Inv ring t where
  flag := fun _ _ => announced
  asleep := fun _ _ => Or.inr announced

theorem step (inv : Inv ring s) {action : WakeupAction T}
    (moved : s.step ring action = some t) :
    Inv ring t := by
  cases action with
  | push p mapping value =>
    simp only [WakeupState.step, Option.ite_none_right_eq_some] at moved
    rcases Option.map_eq_some_iff.mp moved.2 with ⟨next, pushed, rfl⟩
    exact inv.setRing (headReady_of_push pushed)
  | produce p spurious =>
    rcases Option.map_eq_some_iff.mp moved with ⟨next, produced, rfl⟩
    split
    · exact inv.startClaim p next
    · next quiet =>
      exact inv.setRing (headReady_of_produce (Bool.not_eq_true _ ▸ quiet) produced)
  | retry p =>
    simp only [WakeupState.step] at moved
    split at moved
    · rcases of_guarded moved with ⟨_, rfl⟩
      exact inv.startClaim p s.ring
    · cases moved
  | claimPeerConsumer p =>
    rcases Option.ite_none_right_eq_some.mp moved with ⟨_, moved⟩
    split at moved
    · next working =>
      cases moved
      exact inv.loseClaim working _
    · cases moved
      exact ofAnnounced (Or.inr (List.cons_ne_nil _ _))
  | sendWakeup p =>
    rcases of_guarded moved with ⟨_, rfl⟩
    exact ofAnnounced (Or.inl (Nat.succ_pos _))
  | wake | beginDrain | storeOne =>
    rcases of_guarded moved with ⟨_, rfl⟩
    exact .ofAwake (by simp) (by simp)
  | pop | consume =>
    rcases Option.ite_none_right_eq_some.mp moved with ⟨draining, moved⟩
    rcases Option.map_eq_some_iff.mp moved with ⟨next, _, rfl⟩
    exact .ofAwake (by simp [draining]) (by simp [draining])
  | drained =>
    simp only [WakeupState.step] at moved
    split at moved
    · cases moved
      exact .ofAwake (by simp) (by simp)
    · cases moved
      exact .ofAwake (by simp) (by simp)
    · cases moved
  | storeZero =>
    rcases of_guarded moved with ⟨_, rfl⟩
    exact ⟨fun wrong => (by cases wrong), fun wrong => (by cases wrong)⟩
  | testHead =>
    rcases Option.ite_none_right_eq_some.mp moved with ⟨testing, moved⟩
    split at moved
    · cases moved
      exact .ofAwake (by simp) (by simp)
    · next unready =>
      cases moved
      exact ⟨fun working _ => inv.flag working (Or.inr testing),
        fun _ ready => absurd ready unready⟩

end Inv

theorem inv_of_reachable {zero : T} (reachable : (wakeupSystem ring zero).Reachable s) :
    Inv ring s := by
  refine reachable.invariant ?_ (fun _ _ _ _ _ moved inv => inv.step moved)
  intro start fresh
  rw [show start = WakeupState.new zero from fresh]
  exact inv_new zero

end WakeupState

/-- When the consumer sleeps, no message is in flight and no producer stands
between publishing and the end of its claim or between winning it and sending,
the head of the ring is not published. -/
theorem no_lost_wakeup {T : Type} {ring : Mpsc} {zero : T} {s : WakeupState T}
    (reachable : (wakeupSystem ring zero).Reachable s) (asleep : s.phase = .asleep)
    (delivered : s.inFlight = 0) (claimed : s.claiming = []) (sent : s.waking = []) :
    s.ring.shared.turn (ring.slotIndex s.ring.shared.head) ≠
      ring.publishedTurn s.ring.shared.head := by
  have inv := WakeupState.inv_of_reachable reachable
  intro ready
  rcases inv.asleep asleep (decide_eq_true ready) with claiming | inFlight | waking
  · exact claiming claimed
  · rw [delivered] at inFlight
    cases inFlight
  · exact waking sent

/-- One producer has claimed the head and not published it; another has
published behind it, woken the consumer in vain, and all is quiet. -/
theorem no_lost_wakeup_behind_claim :
    Exists fun s : WakeupState Nat => (wakeupSystem (Mpsc.mk 1 4 1 rfl) 0).Reachable s /\
      s.ring.shared.tail = 2 /\ s.ring.shared.turn 1 = 1 /\
      s.ring.shared.turn ((Mpsc.mk 1 4 1 rfl).slotIndex s.ring.shared.head) ≠
        (Mpsc.mk 1 4 1 rfl).publishedTurn s.ring.shared.head := by
  have found : Exists fun s : WakeupState Nat =>
      (wakeupSystem (Mpsc.mk 1 4 1 rfl) 0).Reachable s /\
      (s.ring.shared.tail = 2 /\ s.ring.shared.turn 1 = 1 /\ s.phase = .asleep /\
        s.inFlight = 0 /\ s.claiming = [] /\ s.waking = []) :=
    System.exists_reachable_of_run (WakeupState.new 0)
      (.push 0 0 7 :: List.replicate 3 (.produce 0 false) ++
        .push 1 0 8 :: List.replicate 6 (.produce 1 false) ++
        [.claimPeerConsumer 1, .sendWakeup 1, .wake, .pop, .consume, .consume, .consume,
          .drained, .storeZero, .testHead])
      rfl (by decide)
  rcases found with ⟨s, reachable, tail, turn, asleep, delivered, claimed, sent⟩
  exact ⟨s, reachable, tail, turn, no_lost_wakeup reachable asleep delivered claimed sent⟩

end V5
end Shmipc
