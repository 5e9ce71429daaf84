import Shmipc.V5.MpscOrder

namespace Shmipc
namespace V5

open Transition

/-!
# What a refused push says about the ring

A producer keeps the `tail` it loaded until its compare-exchange fails, but the
copy of `head` it compares with belongs to the mapping, and another producer may
refresh it meanwhile.  Once the consumer has passed the producer's `tail`, the
wrapping difference of the two is huge and `try_push` returns `false`, however
much room there is.

As long as `head` is only re-read by producers whose `tail` the consumer has not
passed, a refusal is justified at that very load: the ring is full then.
-/

/-- The action starts a call of the given producer. -/
def MpscAction.starts {T : Type} (p : Nat) : MpscAction T -> Bool
  | .push q _ _ => q == p
  | _ => false

deriving instance DecidableEq for Producer

def Producer.hasReturned {T : Type} : Producer T -> Bool
  | .returned _ => true
  | _ => false

namespace Producer

variable {T : Type}

/-- The copy of `tail` a producer decides on. -/
def tailCopy? : Producer T -> Option Nat
  | .loadCache _ _ tail | .loadHead _ _ tail | .storeCache _ _ tail _
  | .compareExchange _ _ tail => some tail
  | _ => none

/-- Nothing the producer has read so far makes it refuse. -/
def Undecided (ring : Mpsc) : Producer T -> Prop
  | .storeCache _ _ tail head => wrappingSub tail head <= ring.mask
  | .returned ok => ok = true
  | _ => True

end Producer

namespace MpscState

variable {T : Type}

/-- The ring holds as many claimed positions as it has slots, and the call of
the producer is still in progress. -/
def fullFor (ring : Mpsc) (p : Nat) (s : MpscState T) : Bool :=
  decide (s.shared.tail - s.shared.head = ring.cap) && !(s.producer p).hasReturned

/-- `head` is re-read only where it has not passed the producer's `tail`, and
`tail + 1` does not overflow. -/
def tailCurrent (s : MpscState T) : MpscAction T -> Bool
  | .produce p _ =>
    match s.producer p with
    | .loadHead _ _ tail => s.shared.head <= tail
    | .compareExchange _ _ tail => tail + 1 < 2 ^ 64
    | _ => true
  | _ => true

/-- Where an access takes the producer that makes it. -/
inductive Move (ring : Mpsc) (shared : MpscShared T) : Producer T -> Producer T -> Prop
  | loadTail {mapping : Nat} {value : T} :
      Move ring shared (.loadTail mapping value) (.loadCache mapping value shared.tail)
  | looksFull {mapping tail : Nat} {value : T} :
      Move ring shared (.loadCache mapping value tail) (.loadHead mapping value tail)
  | looksOpen {mapping tail : Nat} {value : T} :
      Move ring shared (.loadCache mapping value tail) (.compareExchange mapping value tail)
  | loadHead {mapping tail : Nat} {value : T} :
      Move ring shared (.loadHead mapping value tail) (.storeCache mapping value tail shared.head)
  | refused {mapping tail head : Nat} {value : T} (past : wrappingSub tail head > ring.mask) :
      Move ring shared (.storeCache mapping value tail head) (.returned false)
  | accepted {mapping tail head : Nat} {value : T} :
      Move ring shared (.storeCache mapping value tail head) (.compareExchange mapping value tail)
  | won {mapping tail : Nat} {value : T} :
      Move ring shared (.compareExchange mapping value tail) (.waitTurn value tail)
  | lost {mapping tail : Nat} {value : T} :
      Move ring shared (.compareExchange mapping value tail) (.loadCache mapping value shared.tail)
  | spin {position : Nat} {value : T} :
      Move ring shared (.waitTurn value position) (.waitTurn value position)
  | turned {position : Nat} {value : T} :
      Move ring shared (.waitTurn value position) (.write value position)
  | written {position : Nat} {value : T} :
      Move ring shared (.write value position) (.publish value position)
  | published {position : Nat} {value : T} :
      Move ring shared (.publish value position) (.returned true)

variable {ring : Mpsc} {s t : MpscState T} {p : Nat}

theorem Move.setProducer {u : MpscState T} {pc next : Producer T} (move : Move ring s.shared pc next)
    (same : u.producer = s.producer) :
    Move ring s.shared pc ((u.setProducer p next).producer p) /\
      forall q, q ≠ p -> (u.setProducer p next).producer q = s.producer q := by
  refine ⟨?_, fun q different => (setProducer_of_ne u next different).trans (congrFun same q)⟩
  rw [setProducer_self]
  exact move

theorem move_of_produce {spurious : Bool} (moved : s.produce ring p spurious = some t) :
    Move ring s.shared (s.producer p) (t.producer p) /\
      forall q, q ≠ p -> t.producer q = s.producer q := by
  revert moved
  rw [MpscState.produce]
  cases pc : s.producer p with
  | idle => rintro ⟨⟩
  | returned done => rintro ⟨⟩
  | loadTail mapping value =>
    rintro ⟨⟩
    exact Move.loadTail.setProducer rfl
  | loadCache mapping value tail =>
    dsimp only
    split
    · rintro ⟨⟩
      exact Move.looksFull.setProducer rfl
    · rintro ⟨⟩
      exact Move.looksOpen.setProducer rfl
  | loadHead mapping value tail =>
    rintro ⟨⟩
    exact Move.loadHead.setProducer rfl
  | storeCache mapping value tail head =>
    dsimp only
    split
    · next past =>
      rintro ⟨⟩
      exact (Move.refused past).setProducer rfl
    · rintro ⟨⟩
      exact Move.accepted.setProducer rfl
  | compareExchange mapping value tail =>
    dsimp only
    split
    · rintro ⟨⟩
      exact Move.won.setProducer rfl
    · rintro ⟨⟩
      exact Move.lost.setProducer rfl
  | waitTurn value position =>
    dsimp only
    split
    · rintro ⟨⟩
      rw [pc]
      exact ⟨.spin, fun _ _ => rfl⟩
    · rintro ⟨⟩
      exact Move.turned.setProducer rfl
  | write value position =>
    rintro ⟨⟩
    exact Move.written.setProducer rfl
  | publish value position =>
    rintro ⟨⟩
    exact Move.published.setProducer rfl

theorem Move.tailCopy {shared : MpscShared T} {pc next : Producer T} {tail : Nat}
    (move : Move ring shared pc next) (copied : next.tailCopy? = some tail) :
    pc.tailCopy? = some tail \/ tail = shared.tail := by
  cases move with
  | loadTail | lost => exact Or.inr (Option.some.inj copied).symm
  | looksFull | looksOpen | loadHead | accepted => exact Or.inl copied
  | _ => cases copied

/-- A producer that has decided nothing decides to refuse only when it loads a
`head` too far behind its `tail`. -/
theorem Move.undecided {shared : MpscShared T} {pc next : Producer T}
    (move : Move ring shared pc next) (undecided : pc.Undecided ring)
    (close : forall mapping value tail, pc = .loadHead mapping value tail ->
      wrappingSub tail shared.head <= ring.mask) : next.Undecided ring := by
  cases move with
  | loadHead => exact close _ _ _ rfl
  | refused past => exact absurd undecided (Nat.not_le_of_gt past)
  | published => rfl
  | _ => trivial

theorem producer_of_step {a : MpscAction T} (moved : s.step ring a = some t)
    (unstarted : a.starts p = false) :
    (Exists fun spurious => a = .produce p spurious) \/ t.producer p = s.producer p := by
  cases a with
  | push q mapping value =>
    have different : p ≠ q := by
      intro same
      subst same
      simp [MpscAction.starts] at unstarted
    rw [step_push moved]
    exact .inr (setProducer_of_ne _ _ different)
  | produce q spurious =>
    by_cases same : q = p
    · subst same
      exact Or.inl ⟨spurious, rfl⟩
    · exact Or.inr ((move_of_produce moved).2 p (fun equal => same equal.symm))
  | pop =>
    rw [(step_pop moved).1]
    exact .inr rfl
  | consume => exact .inr (congrFun (consume_frame moved).2.2.1 p)

theorem tail_lt_of_step {a : MpscAction T} (moved : s.step ring a = some t)
    (before : s.shared.tail < 2 ^ 64) : t.shared.tail < 2 ^ 64 := by
  rcases claims_of_step moved with ⟨same, _⟩ | ⟨tail, value, next, _⟩
  · rw [same]
    exact before
  · rw [next]
    exact Nat.mod_lt _ (by decide)

/-- The invariant of the ring together with what the copies of `tail` are. -/
structure Tracked (ring : Mpsc) (s : MpscState T) : Prop where
  inv : Inv ring s
  bound : s.shared.tail < 2 ^ 64
  copies : forall p tail, (s.producer p).tailCopy? = some tail -> tail <= s.shared.tail

theorem tracked_new (ring : Mpsc) (zero : T) : Tracked ring (new zero) where
  inv := inv_new ring zero
  bound := Nat.two_pow_pos 64
  copies := by
    intro p tail copied
    cases copied

theorem Tracked.step {a : MpscAction T} (tracked : Tracked ring s)
    (current : s.tailCurrent a = true) (moved : s.step ring a = some t) : Tracked ring t := by
  have inv := tracked.inv
  have tailEq := inv.tail_eq
  have bound := tracked.bound
  have claimable : forall p spurious, a = .produce p spurious -> s.Claimable p := by
    intro p spurious same mapping value pc
    subst same
    simpa only [tailCurrent, pc, decide_eq_true_eq] using current
  have next := inv.step (by omega) claimable moved
  have grows : s.shared.tail <= t.shared.tail := by
    rw [tailEq, next.tail_eq]
    exact claims_length_le_of_step moved
  refine ⟨next, tail_lt_of_step moved bound, ?_⟩
  intro p tail copied
  by_cases start : a.starts p = true
  · -- a new call has no copy yet
    cases a with
    | push q mapping value =>
      have same : q = p := by simpa [MpscAction.starts] using start
      subst same
      rw [step_push moved, setProducer_self] at copied
      cases copied
    | _ => cases start
  · rcases producer_of_step moved (Bool.not_eq_true _ ▸ start) with ⟨spurious, rfl⟩ | same
    · rcases (move_of_produce moved).1.tailCopy copied with old | new
      · exact (tracked.copies p tail old).trans grows
      · exact new ▸ grows
    · rw [same] at copied
      exact (tracked.copies p tail copied).trans grows

/-- A `head` loaded by a producer whose `tail` it has not passed is too far
behind only if the ring is full. -/
theorem Tracked.full (tracked : Tracked ring s) {mapping tail : Nat} {value : T}
    (pc : s.producer p = .loadHead mapping value tail) (le : s.shared.head <= tail)
    (past : wrappingSub tail s.shared.head > ring.mask) : s.fullFor ring p = true := by
  have copy : tail <= s.shared.tail := tracked.copies p tail (by rw [pc]; rfl)
  have bound := tracked.bound
  have window := tracked.inv.tail_le
  rw [wrappingSub_of_le le (by omega)] at past
  have full : s.shared.tail - s.shared.head = ring.cap := by
    unfold Mpsc.cap at window ⊢
    omega
  simp [fullFor, full, pc, Producer.hasReturned]

end MpscState

namespace Mpsc

variable {T : Type} (ring : Mpsc) (zero : T)

theorem tracked_of_reachable {s : MpscState T}
    (reachable : (ring.system zero).ReachableUnder (fun s a => s.tailCurrent a) s) :
    MpscState.Tracked ring s := by
  refine reachable.invariant ?_ (fun s a t _ current moved tracked => tracked.step current moved)
  rintro start rfl
  exact MpscState.tracked_new ring zero

/-- The run of one call: whoever moves, either the ring is full now, or the
producer still has no reason to refuse after the step. -/
theorem passes_of_undecided {p : Nat} {s u : MpscState T} {actions : List (MpscAction T)}
    (tracked : MpscState.Tracked ring s) (undecided : (s.producer p).Undecided ring)
    (sameCall : ∀ a ∈ actions, a.starts p = false)
    (ran : (ring.system zero).run (fun s a => s.tailCurrent a) s actions = some u)
    (returned : u.producer p = .returned false) :
    (ring.system zero).passes (MpscState.fullFor ring p) s actions = true := by
  induction actions generalizing s with
  | nil =>
    cases ran
    rw [returned] at undecided
    cases undecided
  | cons a rest ih =>
    rcases System.run_cons_eq_some ran with ⟨current, t, moved, remaining⟩
    have ih := fun undecided => ih (tracked.step current moved) undecided
      (fun b later => sameCall b (List.mem_cons_of_mem _ later)) remaining
    rcases MpscState.producer_of_step moved (sameCall a List.mem_cons_self) with
      ⟨spurious, rfl⟩ | same
    · have move := (MpscState.move_of_produce moved).1
      by_cases full : s.fullFor ring p = true
      · exact System.passes_of_test full _
      · refine System.passes_cons moved (ih (move.undecided undecided ?_))
        intro mapping value tail pc
        have le : s.shared.head <= tail := by
          simpa only [MpscState.tailCurrent, pc, decide_eq_true_eq] using current
        by_contra past
        exact full (tracked.full pc le (Nat.lt_of_not_le past))
    · exact System.passes_cons moved (ih (same ▸ undecided))

/-- In every run in which `head` is only re-read by producers whose `tail` it
has not passed, a call of `try_push` that returns `false` was in progress at a
moment when the ring was full. -/
theorem full_when_refused {p mapping : Nat} {value : T} {s t u : MpscState T}
    {actions : List (MpscAction T)}
    (reachable : (ring.system zero).ReachableUnder (fun s a => s.tailCurrent a) s)
    (called : (ring.system zero).step s (.push p mapping value) = some t)
    (sameCall : ∀ a ∈ actions, a.starts p = false)
    (ran : (ring.system zero).run (fun s a => s.tailCurrent a) t actions = some u)
    (returned : u.producer p = .returned false) :
    (ring.system zero).passes (MpscState.fullFor ring p) t actions = true := by
  have tracked := (ring.tracked_of_reachable zero reachable).step
    (a := .push p mapping value) rfl called
  refine passes_of_undecided ring zero tracked ?_ sameCall ran returned
  rw [@MpscState.step_push T ring s p mapping value t called, MpscState.setProducer_self]
  trivial

/-- A one-slot ring with a value in it refuses the second producer. -/
theorem full_when_refused_one_slot :
    Exists fun t : MpscState Nat => Exists fun u =>
      ((Mpsc.mk 0 4 0 rfl).system 0).run (fun s a => s.tailCurrent a) t
        (List.replicate 4 (.produce 1 false)) = some u /\
      u.producer 1 = .returned false /\
      ((Mpsc.mk 0 4 0 rfl).system 0).passes (MpscState.fullFor (Mpsc.mk 0 4 0 rfl) 1) t
        (List.replicate 4 (.produce 1 false)) = true := by
  have found : Exists fun u : MpscState Nat =>
      ((Mpsc.mk 0 4 0 rfl).system 0).run (fun s a => s.tailCurrent a) (MpscState.new 0)
        ((.push 0 0 7 :: List.replicate 6 (.produce 0 false)) ++
          (.push 1 0 8 :: List.replicate 4 (.produce 1 false))) = some u /\
      u.producer 1 = .returned false := System.exists_run_of_any (by decide +kernel)
  rcases found with ⟨u, ran, returned⟩
  rcases System.run_append_eq_some ran with ⟨s, before, after⟩
  rcases System.run_cons_eq_some after with ⟨_, t, called, rest⟩
  exact ⟨t, u, rest, returned, full_when_refused (Mpsc.mk 0 4 0 rfl) 0
    (System.reachable_run (.start rfl) before) called (by decide) rest returned⟩

/-- A two-slot ring.  Producer 0 loads `tail` and pauses.  Producer 1 pushes and
the consumer pops, twice, so `head` is 2; the third push of producer 1 refreshes
the mapping's copy of `head`.  Producer 0 goes on with its old `tail`, which
`head` has passed, and is refused, although at no moment of its call did the
ring hold more than one position. -/
theorem refused_below_capacity :
    Exists fun t : MpscState Nat => Exists fun u => Exists fun actions =>
      ((Mpsc.mk 1 4 1 rfl).system 0).step (MpscState.new 0) (.push 0 0 7) = some t /\
      (∀ a ∈ actions, a.starts 0 = false) /\
      ((Mpsc.mk 1 4 1 rfl).system 0).run (fun _ _ => True) t actions = some u /\
      u.producer 0 = .returned false /\
      ((Mpsc.mk 1 4 1 rfl).system 0).passes
        (fun m => decide ((Mpsc.mk 1 4 1 rfl).cap <= m.shared.tail - m.shared.head)) t actions =
        false := by
  let round : List (MpscAction Nat) := .push 1 0 8 :: (List.replicate 6 (.produce 1 false) ++
    .pop :: List.replicate 5 .consume)
  let actions : List (MpscAction Nat) := .produce 0 false :: (round ++ round ++
    .push 1 0 8 :: (List.replicate 5 (.produce 1 false) ++ List.replicate 3 (.produce 0 false)))
  have found : Exists fun u : MpscState Nat =>
      ((Mpsc.mk 1 4 1 rfl).system 0).run (fun _ _ => True) (MpscState.new 0)
        (.push 0 0 7 :: actions) = some u /\
      u.producer 0 = .returned false := System.exists_run_of_any (by decide +kernel)
  rcases found with ⟨u, ran, returned⟩
  rcases System.run_cons_eq_some ran with ⟨_, t, called, rest⟩
  refine ⟨t, u, actions, called, by decide, rest, returned, ?_⟩
  cases called
  decide +kernel

end Mpsc

end V5
end Shmipc
