import Mathlib.Logic.Function.Basic
import Shmipc.Base.Transition

namespace Shmipc
namespace Pool

open Transition

/-!
# The global buffer managers

The sessions of a process share one buffer manager for each path.  A session gets it
from a global map, which counts the user in the manager's reference count or creates
the manager.  It gives it back by the path: the manager is taken out of the map, its
count is lowered, and it is unmapped if that was the last user, and put back into the
map otherwise.

Taking it out and putting it back are two acquisitions of the lock.  A call that
takes the lock between them does not find the manager.  A get then creates a second
one for the same path, and a release does nothing at all.

The model is of one path.  A get is one step: it holds the lock throughout.  A
release is a step for each acquisition of the lock, one for the count in between, and
one for `unmap`, which waits for buffers to come back.  `holding` has the manager of
every user that has not started to release it, and `got` and `released` count the
gets that returned a manager and the releases of its users that are past the count.
-/

/-- Where a release stands. -/
inductive ReleasePoint
  /-- The user of a manager has taken out of the map what was there. -/
  | removed (user : Nat) (taken : Option Nat)
  | insert (bm : Nat)
  | unmap (bm : Nat)
  deriving DecidableEq, Repr

/-- The entry of a path and the managers that were ever created for it, by number. -/
structure Registry where
  entry : Option Nat
  refCount : Nat -> Int
  unmaps : Nat -> Nat
  created : Nat
  holding : List Nat
  releasing : List ReleasePoint
  got : Nat -> Nat
  released : Nat -> Nat

inductive RegistryAction
  /-- `get_with_file` or `get_with_memfd`. -/
  | get
  /-- The user at this index calls `add_global_buffer_manager_ref_count(path, -1)`. -/
  | release (i : Nat)
  /-- The release at this index takes its next step. -/
  | proceed (i : Nat)
  deriving DecidableEq, Repr

namespace Registry

def new : Registry where
  entry := none
  refCount := fun _ => 0
  unmaps := fun _ => 0
  created := 0
  holding := []
  releasing := []
  got := fun _ => 0
  released := fun _ => 0

/-- A get returns the manager of this number. -/
def hold (s : Registry) (bm : Nat) : Registry :=
  { s with
    refCount := Function.update s.refCount bm (s.refCount bm + 1)
    holding := s.holding ++ [bm]
    got := Function.update s.got bm (s.got bm + 1) }

def get (s : Registry) : Registry :=
  match s.entry with
  | some bm => s.hold bm
  | none => { s with entry := some s.created, created := s.created + 1 }.hold s.created

/-- The release is past the count of its manager. -/
def countReleased (s : Registry) (user : Nat) : Registry :=
  { s with released := Function.update s.released user (s.released user + 1) }

def lower (s : Registry) (bm : Nat) : Registry :=
  { s with refCount := Function.update s.refCount bm (s.refCount bm - 1) }

/-- The rest of the release at an index. -/
def proceed (s : Registry) (i : Nat) : ReleasePoint -> Registry
  | .removed user none => { s.countReleased user with releasing := s.releasing.eraseIdx i }
  | .removed user (some bm) =>
    let point : ReleasePoint := if s.refCount bm - 1 <= 0 then .unmap bm else .insert bm
    { (s.lower bm).countReleased user with releasing := s.releasing.set i point }
  | .insert bm => { s with entry := some bm, releasing := s.releasing.eraseIdx i }
  | .unmap bm =>
    { s with
      unmaps := Function.update s.unmaps bm (s.unmaps bm + 1)
      releasing := s.releasing.eraseIdx i }

def step (s : Registry) : RegistryAction -> Option Registry
  | .get => some s.get
  | .release i =>
    s.holding[i]?.map fun user =>
      { s with
        entry := none
        holding := s.holding.eraseIdx i
        releasing := s.releasing ++ [.removed user s.entry] }
  | .proceed i => s.releasing[i]?.map fun point => s.proceed i point

/-- A manager that was created and not unmapped. -/
def Live (s : Registry) (bm : Nat) : Prop := bm < s.created /\ s.unmaps bm = 0

/-- No other release is under way when a get or a release takes the lock. -/
def Alone (s : Registry) : RegistryAction -> Prop
  | .get => s.releasing = []
  | .release _ => s.releasing = []
  | .proceed _ => True

instance (s : Registry) (a : RegistryAction) : Decidable (s.Alone a) :=
  match a with
  | .get => inferInstanceAs (Decidable (s.releasing = []))
  | .release _ => inferInstanceAs (Decidable (s.releasing = []))
  | .proceed _ => inferInstanceAs (Decidable True)

/-- The counts of the managers.  While somebody holds one, that is the only live one;
it is the one that the map has whenever no release is under way, so that a get
returns it; and its reference count is the number of gets less the number of
releases.  A manager is unmapped once, when the last of its users has released it. -/
structure Counted (s : Registry) : Prop where
  one : s.holding ≠ [] -> Exists fun bm => s.Live bm /\ (forall other, s.Live other -> other = bm) /\
    (∀ user ∈ s.holding, user = bm) /\ (s.releasing = [] -> s.entry = some bm)
  refCount : forall bm, s.Live bm -> s.refCount bm = (s.got bm : Int) - s.released bm
  once : forall bm, s.unmaps bm <= 1
  last : forall bm, s.unmaps bm = 1 -> bm ∉ s.holding /\ s.got bm = s.released bm
  soon : forall bm, bm < s.created -> s.releasing = [] -> bm ∉ s.holding -> s.unmaps bm = 1

end Registry

/-- All interleavings of gets and releases on a path. -/
def registrySystem : System Registry RegistryAction where
  init := fun s => s = Registry.new
  step := Registry.step

/-! ## Releases that are not interrupted -/

namespace Registry

variable {s t : Registry}

/-- All managers but the last one are unmapped, and nobody uses them. -/
structure Past (s : Registry) (bm : Nat) : Prop where
  created : s.created = bm + 1
  unmapped : forall other, other < bm -> s.unmaps other = 1 /\ s.got other = s.released other
  unused : forall other, bm < other -> s.unmaps other = 0 /\ s.got other = 0 /\
    s.released other = 0 /\ s.refCount other = 0
  users : ∀ user ∈ s.holding, user = bm
  got : (s.got bm : Int) = s.released bm + s.refCount bm

/-- The states of a path whose releases run without an interruption. -/
inductive Phase (s : Registry) : Prop
  | fresh (same : s = new)
  | shared (bm : Nat) (past : s.Past bm) (entry : s.entry = some bm) (live : s.unmaps bm = 0)
      (free : s.releasing = []) (used : s.holding ≠ []) (count : s.refCount bm = s.holding.length)
  | removed (bm : Nat) (past : s.Past bm) (entry : s.entry = none) (live : s.unmaps bm = 0)
      (busy : s.releasing = [.removed bm (some bm)]) (count : s.refCount bm = s.holding.length + 1)
  | inserting (bm : Nat) (past : s.Past bm) (entry : s.entry = none) (live : s.unmaps bm = 0)
      (busy : s.releasing = [.insert bm]) (used : s.holding ≠ [])
      (count : s.refCount bm = s.holding.length)
  | unmapping (bm : Nat) (past : s.Past bm) (entry : s.entry = none) (live : s.unmaps bm = 0)
      (busy : s.releasing = [.unmap bm]) (unused : s.holding = []) (count : s.refCount bm = 0)
  | closed (bm : Nat) (past : s.Past bm) (entry : s.entry = none) (unmapped : s.unmaps bm = 1)
      (free : s.releasing = []) (unused : s.holding = []) (count : s.refCount bm = 0)

variable {bm i : Nat}

theorem Past.hold (past : s.Past bm) : (s.hold bm).Past bm where
  created := past.created
  unmapped := fun other below => by
    refine ⟨(past.unmapped other below).1, ?_⟩
    show Function.update s.got bm _ other = _
    rw [Function.update_of_ne (Nat.ne_of_lt below)]
    exact (past.unmapped other below).2
  unused := fun other above => by
    rcases past.unused other above with ⟨unmaps, got, released, refCount⟩
    refine ⟨unmaps, ?_, released, ?_⟩
    · show Function.update s.got bm _ other = 0
      rw [Function.update_of_ne (Nat.ne_of_gt above), got]
    · show Function.update s.refCount bm _ other = 0
      rw [Function.update_of_ne (Nat.ne_of_gt above), refCount]
  users := fun user held => by
    rcases List.mem_append.mp held with held | held
    · exact past.users user held
    · exact List.mem_singleton.mp held
  got := by
    have before := past.got
    show ((Function.update s.got bm (s.got bm + 1) bm : Nat) : Int) =
      s.released bm + Function.update s.refCount bm (s.refCount bm + 1) bm
    rw [Function.update_self, Function.update_self]
    omega

theorem hold_refCount (s : Registry) (bm : Nat) : (s.hold bm).refCount bm = s.refCount bm + 1 :=
  Function.update_self _ _ _

theorem hold_length (s : Registry) (bm : Nat) :
    (s.hold bm).holding.length = s.holding.length + 1 := by
  show (s.holding ++ [bm]).length = _
  rw [List.length_append, List.length_singleton]

theorem hold_ne_nil (s : Registry) (bm : Nat) : (s.hold bm).holding ≠ [] :=
  List.append_ne_nil_of_right_ne_nil _ (List.cons_ne_nil _ _)

theorem Past.create {entry : Option Nat} (past : s.Past bm) (unmapped : s.unmaps bm = 1)
    (unused : s.holding = []) (count : s.refCount bm = 0) :
    Past { s with entry := entry, created := s.created + 1 } (bm + 1) where
  created := by
    show s.created + 1 = bm + 1 + 1
    rw [past.created]
  unmapped := fun other below => by
    by_cases last : other = bm
    · have got := past.got
      have even : s.got bm = s.released bm := by omega
      rw [last]
      exact ⟨unmapped, even⟩
    · exact past.unmapped other (by omega)
  unused := fun other above => past.unused other (by omega)
  users := fun user held => by
    have held : user ∈ s.holding := held
    rw [unused] at held
    cases held
  got := by
    rcases past.unused (bm + 1) (Nat.lt_succ_self bm) with ⟨_, got, released, refCount⟩
    show (s.got (bm + 1) : Int) = s.released (bm + 1) + s.refCount (bm + 1)
    rw [got, released, refCount]
    rfl

theorem past_new {entry : Option Nat} : Past { new with entry := entry, created := 1 } 0 where
  created := rfl
  unmapped := nofun
  unused := fun _ _ => ⟨rfl, rfl, rfl, rfl⟩
  users := nofun
  got := rfl

theorem Phase.get (phase : s.Phase) (alone : s.releasing = []) : s.get.Phase := by
  cases phase with
  | fresh same =>
    subst same
    have past : Past { new with entry := some 0, created := 1 } 0 := past_new
    exact .shared 0 past.hold rfl rfl rfl (hold_ne_nil _ _) rfl
  | shared bm past entry live free used count =>
    rw [Registry.get, entry]
    refine .shared bm past.hold entry live free (hold_ne_nil _ _) ?_
    rw [hold_refCount, hold_length, count]
    rfl
  | removed bm past entry live busy count | inserting bm past entry live busy used count
  | unmapping bm past entry live busy unused count => exact nomatch alone.symm.trans busy
  | closed bm past entry unmapped free unused count =>
    rcases past.unused (bm + 1) (Nat.lt_succ_self bm) with ⟨live, _, _, none⟩
    have made : Past { s with entry := some (bm + 1), created := s.created + 1 } (bm + 1) :=
      past.create unmapped unused count
    rw [Registry.get, entry]
    dsimp only
    rw [past.created] at made ⊢
    refine .shared (bm + 1) made.hold rfl live free (hold_ne_nil _ _) ?_
    rw [hold_refCount, hold_length]
    show s.refCount (bm + 1) + 1 = ((s.holding.length + 1 : Nat) : Int)
    rw [none, unused]
    rfl

theorem Phase.release (phase : s.Phase) (alone : s.releasing = [])
    (moved : s.step (.release i) = some t) : t.Phase := by
  rw [Registry.step, Option.map_eq_some_iff] at moved
  rcases moved with ⟨user, held, rfl⟩
  rw [List.getElem?_eq_some_iff] at held
  rcases held with ⟨inside, rfl⟩
  have member : s.holding[i] ∈ s.holding := List.getElem_mem inside
  cases phase with
  | fresh same =>
    subst same
    exact nomatch member
  | shared bm past entry live free used count =>
    have user : s.holding[i] = bm := past.users _ member
    rw [user, entry, free]
    apply Phase.removed bm
    case past =>
      exact { past with
        users := fun user held => past.users user ((List.eraseIdx_sublist _ _).subset held) }
    case entry => rfl
    case live => exact live
    case busy => rfl
    case count =>
      show s.refCount bm = ((s.holding.eraseIdx i).length : Int) + 1
      rw [List.length_eraseIdx_of_lt inside, count]
      omega
  | removed bm past entry live busy count | inserting bm past entry live busy used count
  | unmapping bm past entry live busy unused count => exact nomatch alone.symm.trans busy
  | closed bm past entry unmapped free unused count =>
    rw [unused] at inside
    exact absurd inside (Nat.not_lt_zero i)

theorem Past.lower {releasing : List ReleasePoint} (past : s.Past bm) :
    Past { (s.lower bm).countReleased bm with releasing := releasing } bm where
  created := past.created
  unmapped := fun other below => by
    refine ⟨(past.unmapped other below).1, ?_⟩
    show _ = Function.update s.released bm _ other
    rw [Function.update_of_ne (Nat.ne_of_lt below)]
    exact (past.unmapped other below).2
  unused := fun other above => by
    rcases past.unused other above with ⟨unmaps, got, released, refCount⟩
    refine ⟨unmaps, got, ?_, ?_⟩
    · show Function.update s.released bm _ other = 0
      rw [Function.update_of_ne (Nat.ne_of_gt above), released]
    · show Function.update s.refCount bm _ other = 0
      rw [Function.update_of_ne (Nat.ne_of_gt above), refCount]
  users := past.users
  got := by
    have before := past.got
    show (s.got bm : Int) = (Function.update s.released bm (s.released bm + 1) bm : Nat) +
      Function.update s.refCount bm (s.refCount bm - 1) bm
    rw [Function.update_self, Function.update_self]
    omega

theorem only_point {point found : ReleasePoint} (busy : s.releasing = [point])
    (at' : s.releasing[i]? = some found) : i = 0 /\ found = point := by
  rw [busy, List.getElem?_singleton, Option.ite_none_right_eq_some, Option.some.injEq] at at'
  exact ⟨at'.1, at'.2.symm⟩

theorem Phase.proceed (phase : s.Phase) (moved : s.step (.proceed i) = some t) :
    t.Phase := by
  rw [Registry.step, Option.map_eq_some_iff] at moved
  rcases moved with ⟨point, at', rfl⟩
  cases phase with
  | fresh same =>
    subst same
    cases at'
  | shared bm past entry live free used count | closed bm past entry unmapped free unused count =>
    rw [free] at at'
    cases at'
  | removed bm past entry live busy count =>
    rcases only_point busy at' with ⟨rfl, rfl⟩
    have lowered : Function.update s.refCount bm (s.refCount bm - 1) bm = s.holding.length := by
      rw [Function.update_self, count]
      omega
    rw [Registry.proceed, busy]
    by_cases last : s.refCount bm - 1 <= 0
    · have unused : s.holding = [] := List.length_eq_zero_iff.mp (by omega)
      rw [if_pos last]
      refine .unmapping bm past.lower entry live rfl unused ?_
      rw [unused] at lowered
      exact lowered
    · have used : s.holding ≠ [] := by
        intro unused
        rw [unused] at count
        exact last (by rw [count]; decide)
      rw [if_neg last]
      exact .inserting bm past.lower entry live rfl used lowered
  | inserting bm past entry live busy used count =>
    rcases only_point busy at' with ⟨rfl, rfl⟩
    rw [Registry.proceed, busy]
    exact .shared bm { past with } rfl live rfl used count
  | unmapping bm past entry live busy unused count =>
    rcases only_point busy at' with ⟨rfl, rfl⟩
    rw [Registry.proceed, busy]
    apply Phase.closed bm
    case past =>
      exact { past with
        unmapped := fun other below => by
          refine ⟨?_, (past.unmapped other below).2⟩
          show Function.update s.unmaps bm _ other = 1
          rw [Function.update_of_ne (Nat.ne_of_lt below)]
          exact (past.unmapped other below).1
        unused := fun other above => by
          refine ⟨?_, (past.unused other above).2⟩
          show Function.update s.unmaps bm _ other = 0
          rw [Function.update_of_ne (Nat.ne_of_gt above)]
          exact (past.unused other above).1 }
    case entry => exact entry
    case unmapped =>
      show Function.update s.unmaps bm (s.unmaps bm + 1) bm = 1
      rw [Function.update_self, live]
    case free => rfl
    case unused => exact unused
    case count => exact count

theorem Phase.step (phase : s.Phase) {a : RegistryAction} (alone : s.Alone a)
    (moved : s.step a = some t) : t.Phase := by
  cases a with
  | get =>
    cases moved
    exact phase.get alone
  | release i => exact phase.release alone moved
  | proceed i => exact phase.proceed moved

/-! ## What the phases say -/

theorem Past.counted (past : s.Past bm) (live : s.unmaps bm = 0)
    (entry : s.releasing = [] -> s.entry = some bm /\ s.holding ≠ []) : s.Counted where
  one := by
    intro _
    refine ⟨bm, ⟨by rw [past.created]; exact Nat.lt_succ_self bm, live⟩, ?_, past.users,
      fun free => (entry free).1⟩
    intro other ⟨old, alive⟩
    rw [past.created] at old
    by_contra different
    have unmapped := (past.unmapped other (by omega)).1
    omega
  refCount := by
    intro other ⟨old, alive⟩
    rw [past.created] at old
    by_cases last : other = bm
    · have got := past.got
      rw [last]
      omega
    · have unmapped := (past.unmapped other (by omega)).1
      omega
  once := by
    intro other
    rcases Nat.lt_trichotomy other bm with below | rfl | above
    · exact Nat.le_of_eq (past.unmapped other below).1
    · rw [live]
      exact Nat.zero_le 1
    · rw [(past.unused other above).1]
      exact Nat.zero_le 1
  last := by
    intro other unmapped
    rcases Nat.lt_trichotomy other bm with below | rfl | above
    · exact ⟨fun held => Nat.ne_of_lt below (past.users other held), (past.unmapped other below).2⟩
    · exact nomatch live.symm.trans unmapped
    · exact nomatch (past.unused other above).1.symm.trans unmapped
  soon := by
    intro other old free unheld
    rw [past.created] at old
    by_cases last : other = bm
    · rcases List.exists_mem_of_ne_nil _ (entry free).2 with ⟨user, held⟩
      rw [past.users user held, <- last] at held
      exact absurd held unheld
    · exact (past.unmapped other (by omega)).1

theorem Phase.counted (phase : s.Phase) : s.Counted := by
  cases phase with
  | fresh same =>
    subst same
    exact ⟨fun used => absurd rfl used, fun bm live => absurd live.1 (Nat.not_lt_zero bm),
      fun _ => Nat.zero_le 1, nofun, nofun⟩
  | shared bm past entry live free used count => exact past.counted live fun _ => ⟨entry, used⟩
  | removed bm past entry live busy count | inserting bm past entry live busy used count
  | unmapping bm past entry live busy unused count =>
    exact past.counted live fun free => nomatch free.symm.trans busy
  | closed bm past entry unmapped free unused count =>
    have all : forall other, other < s.created -> s.unmaps other = 1 /\
        s.got other = s.released other := by
      intro other old
      rw [past.created] at old
      by_cases last : other = bm
      · have got := past.got
        have even : s.got bm = s.released bm := by omega
        rw [last]
        exact ⟨unmapped, even⟩
      · exact past.unmapped other (by omega)
    have rest : forall other, s.created <= other -> s.unmaps other = 0 := by
      intro other new
      rw [past.created] at new
      exact (past.unused other new).1
    exact
      { one := fun used => absurd unused used
        refCount := fun other live => nomatch live.2.symm.trans (all other live.1).1
        once := fun other => by
          by_cases old : other < s.created
          · exact Nat.le_of_eq (all other old).1
          · rw [rest other (Nat.le_of_not_lt old)]
            exact Nat.zero_le 1
        last := fun other unmapped => by
          by_cases old : other < s.created
          · refine ⟨fun held => ?_, (all other old).2⟩
            rw [unused] at held
            cases held
          · exact nomatch (rest other (Nat.le_of_not_lt old)).symm.trans unmapped
        soon := fun other old _ _ => (all other old).1 }

end Registry

/-- In every run in which no call takes the lock while a release is under way, the
registry counts the users of a path, and the last one unmaps the manager. -/
theorem registry_counts_users {s : Registry}
    (reached : registrySystem.ReachableUnder Registry.Alone s) : s.Counted := by
  have phase : s.Phase := reached.invariant (P := Registry.Phase)
    (fun start fresh => .fresh fresh)
    (fun _ _ _ _ alone moved earlier => earlier.step alone moved)
  exact phase.counted

/-- Two users share a manager and release it one after the other, and a third gets a
new one. -/
theorem registry_counts_users_in_turn :
    Exists fun s => registrySystem.ReachableUnder Registry.Alone s /\ s.holding = [1] /\
      s.unmaps 0 = 1 /\ s.Counted := by
  have test : (registrySystem.run Registry.Alone Registry.new
      [.get, .get, .release 0, .proceed 0, .proceed 0, .release 0, .proceed 0, .proceed 0,
        .get]).any (fun s => decide (s.holding = [1] /\ s.unmaps 0 = 1)) = true := by
    decide
  rcases System.exists_reachable_of_run _ _ rfl test with ⟨s, reached, holding, unmaps⟩
  exact ⟨s, reached, holding, unmaps, registry_counts_users reached⟩

/-- Two users share a manager.  While one of them is releasing it, a third gets a
second manager for the same path; or the other one releases it as well, and that
release does nothing, so that the manager is never unmapped. -/
theorem interrupted_release_miscounts :
    (Exists fun s => registrySystem.Reachable s /\ s.holding = [0, 1] /\ s.Live 0 /\ s.Live 1 /\
      ¬ s.Counted) /\
    (Exists fun s => registrySystem.Reachable s /\ s.holding = [] /\ s.releasing = [] /\
      s.Live 0 /\ ¬ s.Counted) := by
  have second : (registrySystem.run (fun _ _ => True) Registry.new
      [.get, .get, .release 0, .get]).any
      (fun s => decide (s.holding = [0, 1] /\ s.created = 2 /\ s.unmaps 0 = 0 /\
        s.unmaps 1 = 0)) = true := by
    decide
  have lost : (registrySystem.run (fun _ _ => True) Registry.new
      [.get, .get, .release 0, .release 0, .proceed 1, .proceed 0, .proceed 0]).any
      (fun s => decide (s.holding = [] /\ s.releasing = [] /\ s.created = 1 /\
        s.unmaps 0 = 0)) = true := by
    decide
  constructor
  · rcases System.exists_reachable_of_run _ _ rfl second with
      ⟨s, reachable, holding, created, first, second⟩
    have live : s.Live 0 /\ s.Live 1 := by
      rw [Registry.Live, Registry.Live, created]
      exact ⟨⟨by decide, first⟩, ⟨by decide, second⟩⟩
    refine ⟨s, reachable, holding, live.1, live.2, fun counted => ?_⟩
    rcases counted.one (by rw [holding]; exact List.cons_ne_nil _ _) with ⟨bm, _, only, _⟩
    exact absurd ((only 0 live.1).trans (only 1 live.2).symm) (by decide)
  · rcases System.exists_reachable_of_run _ _ rfl lost with
      ⟨s, reachable, holding, releasing, created, unmaps⟩
    have live : s.Live 0 := by
      rw [Registry.Live, created]
      exact ⟨by decide, unmaps⟩
    refine ⟨s, reachable, holding, releasing, live, fun counted => ?_⟩
    have unmapped := counted.soon 0 live.1 releasing (by rw [holding]; exact List.not_mem_nil)
    exact nomatch unmaps.symm.trans unmapped

end Pool
end Shmipc
