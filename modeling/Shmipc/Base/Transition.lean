namespace Shmipc
namespace Transition

/-!
# Interleavings of atomic steps

A concurrent component is presented by the set of its initial states and by a
partial step function.  The action names the party that moves and whatever
choice that party makes; a step that is not enabled returns `none`.  Every
interleaving of the parties is then a sequence of actions, and a statement
about all interleavings is a statement about all reachable states.

Reachability carries a guard on single steps.  The unrestricted notion is the
guard that admits everything.  A stricter guard describes the runs in which a
particular step is only ever taken in states that satisfy some condition, and
the same induction principle serves both.
-/

universe u v

variable {State : Type u} {Action : Type v}

/-- A partial, action-labelled step function with its initial states. -/
structure System (State : Type u) (Action : Type v) where
  init : State -> Prop
  step : State -> Action -> Option State

namespace System

/-- States reached by runs whose every step is admitted where it is taken. -/
inductive ReachableUnder (M : System State Action)
    (admits : State -> Action -> Prop) : State -> Prop
  | start {s : State} : M.init s -> ReachableUnder M admits s
  | next {s t : State} {a : Action} : ReachableUnder M admits s -> admits s a ->
      M.step s a = some t -> ReachableUnder M admits t

/-- States reached by any interleaving at all. -/
abbrev Reachable (M : System State Action) : State -> Prop :=
  M.ReachableUnder (fun _ _ => True)

/-- What holds initially and survives every admitted step holds throughout.
The step obligation may use that the source state is itself reachable. -/
theorem ReachableUnder.invariant {M : System State Action}
    {admits : State -> Action -> Prop} {P : State -> Prop}
    (initial : forall s, M.init s -> P s)
    (preserved : forall s a t, M.ReachableUnder admits s -> admits s a ->
      M.step s a = some t -> P s -> P t)
    {s : State} (reachable : M.ReachableUnder admits s) : P s := by
  induction reachable with
  | start holds => exact initial _ holds
  | next earlier allowed step ih => exact preserved _ _ _ earlier allowed step ih

/-- Take the actions of a list in order, failing at the first one that is
disabled or not admitted. -/
def run (M : System State Action) (admits : State -> Action -> Prop)
    [forall s a, Decidable (admits s a)] : State -> List Action -> Option State
  | s, [] => some s
  | s, a :: rest =>
    if admits s a then (M.step s a).bind (fun t => M.run admits t rest) else none

/-- Some state of the run that the actions describe passes a test.  Both ends
of the run count. -/
def passes (M : System State Action) (test : State -> Bool) : State -> List Action -> Bool
  | s, [] => test s
  | s, a :: rest => test s || (M.step s a).any (fun t => M.passes test t rest)

theorem passes_of_test {M : System State Action} {test : State -> Bool} {s : State}
    (now : test s = true) (actions : List Action) : M.passes test s actions = true := by
  cases actions with
  | nil => exact now
  | cons a rest => rw [passes, now, Bool.true_or]

theorem passes_cons {M : System State Action} {test : State -> Bool} {s t : State} {a : Action}
    {rest : List Action} (step : M.step s a = some t) (later : M.passes test t rest = true) :
    M.passes test s (a :: rest) = true := by
  rw [passes, step, Option.any_some, later, Bool.or_true]

variable {M : System State Action} {admits : State -> Action -> Prop}
  [forall s a, Decidable (admits s a)]

theorem run_cons_eq_some {s u : State} {a : Action} {rest : List Action}
    (ran : M.run admits s (a :: rest) = some u) :
    admits s a /\ Exists fun t => M.step s a = some t /\ M.run admits t rest = some u := by
  rw [run, Option.ite_none_right_eq_some, Option.bind_eq_some_iff] at ran
  exact ran

theorem reachable_run {s t : State} {actions : List Action}
    (reachable : M.ReachableUnder admits s) (ran : M.run admits s actions = some t) :
    M.ReachableUnder admits t := by
  induction actions generalizing s with
  | nil =>
    cases ran
    exact reachable
  | cons a rest ih =>
    rcases run_cons_eq_some ran with ⟨allowed, middle, step, remaining⟩
    exact ih (.next reachable allowed step) remaining

theorem run_append_eq_some {s u : State} {first second : List Action}
    (ran : M.run admits s (first ++ second) = some u) :
    Exists fun t => M.run admits s first = some t /\ M.run admits t second = some u := by
  induction first generalizing s with
  | nil => exact ⟨s, rfl, ran⟩
  | cons a rest ih =>
    rcases run_cons_eq_some ran with ⟨allowed, middle, step, remaining⟩
    rcases ih remaining with ⟨t, before, after⟩
    refine ⟨t, ?_, after⟩
    rw [run, if_pos allowed, step]
    exact before

theorem exists_run_of_any {P : State -> Prop} [DecidablePred P] {s : State}
    {actions : List Action}
    (holds : (M.run admits s actions).any (fun t => decide (P t)) = true) :
    Exists fun t => M.run admits s actions = some t /\ P t := by
  rw [Option.any_eq_true_iff_get] at holds
  rcases holds with ⟨ran, test⟩
  exact ⟨_, (Option.some_get ran).symm, of_decide_eq_true test⟩

/-- A concrete schedule whose final state passes a decidable test exhibits a
reachable state with that property. -/
theorem exists_reachable_of_run {P : State -> Prop} [DecidablePred P]
    (s : State) (actions : List Action) (initial : M.init s)
    (holds : (M.run admits s actions).any (fun t => decide (P t)) = true) :
    Exists fun t => M.ReachableUnder admits t /\ P t := by
  rcases exists_run_of_any holds with ⟨t, ran, property⟩
  exact ⟨t, reachable_run (.start initial) ran, property⟩

end System

/-! ## Tests of concrete computations -/

theorem exists_ok_of_isOk {Error Value : Type} {result : Except Error Value}
    (ran : result.isOk = true) : Exists fun value => result = .ok value := by
  cases result with
  | error err => cases ran
  | ok value => exact ⟨value, rfl⟩

theorem exists_ok_of_any {Error Value : Type} {result : Except Error Value}
    {test : Value -> Bool} (holds : result.toOption.any test = true) :
    Exists fun value => result = .ok value /\ test value = true := by
  cases result with
  | error err => cases holds
  | ok value => exact ⟨value, rfl, holds⟩

/-! ## Common shapes of steps -/

theorem of_guarded {guard : Prop} [Decidable guard] {s t : State}
    (moved : (if guard then some s else none) = some t) : guard /\ s = t := by
  rcases Option.ite_none_right_eq_some.mp moved with ⟨holds, same⟩
  exact ⟨holds, Option.some.inj same⟩

theorem forall_mem_snoc {P : State -> Prop} {record : List State} {added : State}
    (old : ∀ x ∈ record, P x) (new : P added) : ∀ x ∈ record ++ [added], P x :=
  List.forall_mem_append.mpr ⟨old, List.forall_mem_singleton.mpr new⟩

end Transition
end Shmipc
