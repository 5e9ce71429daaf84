import Mathlib.Data.List.Basic
import Mathlib.Data.List.Perm.Basic
import Mathlib.Data.List.Range
import Shmipc.Buffer.V5Read

namespace Shmipc
namespace Stream

open Transition
open BufV5 (PendingInput)

/-!
# The uses of a V5 stream

A stream that is reset starts a new use of its inbox: the generation of the inbox
goes up, and whatever the event loop still carries for the previous use is to be
refused.  The event loop resolves the stream, reads the generation, and collects
the chain into a batch of that generation; a batch is added only if the generation
is still the same and the stream is open, and its chains are released otherwise.  A
payload off the socket is added in the same way, one at a time.

Resolving and reading the generation are separate steps.  A reset between them
gives the chain, or the payload, to the use after the one it was resolved for.

The event loop is represented for one stream, and so are its user, who resets and
reads it, and whoever closes it.  The tests that `reset` makes before it takes the
lock of the inbox may be out of date by then, so only the one under the lock is
represented.  Chains are numbered as they are popped; the numbers, the generation
at which the stream was resolved, and the records of what was added, refused and
released are not read by any step.
-/

/-- A chain of blocks off the ring, with its number and the generation of the inbox
when its stream was resolved. -/
structure Chain where
  nr : Nat
  offset : Int
  resolvedAt : Nat
  deriving DecidableEq, Repr

/-- Bytes off the socket. -/
structure Payload where
  data : List UInt8
  resolvedAt : Nat
  deriving DecidableEq, Repr

/-- The chains collected for one generation. -/
structure NotifyBatch where
  generation : Nat
  chains : List Chain
  deriving DecidableEq, Repr

/-- Where the event loop stands. -/
inductive LoopPoint
  | idle
  /-- `get_stream` has returned for a chain. -/
  | resolved (chain : Chain)
  /-- The generation was read for a chain. -/
  | collecting (chain : Chain) (generation : Nat)
  /-- `get_stream` has returned for a payload. -/
  | resolvedPayload (payload : Payload)
  | sampledPayload (payload : Payload) (generation : Nat)
  /-- Handing over the batches, of which these are left. -/
  | flushing (batches : List NotifyBatch)
  /-- Releasing the chains of a batch that was refused. -/
  | releasing (chains : List Chain) (batches : List NotifyBatch)
  deriving DecidableEq, Repr

structure InboxState where
  generation : Nat
  isOpen : Bool
  pending : List PendingInput
  point : LoopPoint
  batches : List NotifyBatch
  popped : Nat
  addedChains : List (Chain × Nat)
  addedPayloads : List (Payload × Nat)
  refused : List Chain
  freed : List Chain
  deriving DecidableEq, Repr

inductive InboxAction
  /-- An element of the ring is popped and its stream resolved. -/
  | resolve (offset : Int)
  | readGeneration
  | collect
  /-- A payload is off the socket and its stream resolved. -/
  | resolvePayload (data : List UInt8)
  | samplePayload
  | addPayload
  | flush
  | addBatch
  /-- `free_chain` for the next chain of a refused batch. -/
  | release
  | finish
  | reset
  /-- The reader takes everything that is pending. -/
  | swapPending
  | close
  deriving DecidableEq, Repr

/-- Join the first open batch of the generation, or start one. -/
def joinBatch (chain : Chain) (generation : Nat) : List NotifyBatch -> List NotifyBatch
  | [] => [{ generation := generation, chains := [chain] }]
  | batch :: rest =>
    if batch.generation = generation then
      { batch with chains := batch.chains ++ [chain] } :: rest
    else batch :: joinBatch chain generation rest

namespace InboxState

def new : InboxState where
  generation := 0
  isOpen := true
  pending := []
  point := .idle
  batches := []
  popped := 0
  addedChains := []
  addedPayloads := []
  refused := []
  freed := []

/-- `add_pending_batch_if_generation`, and the record of a refusal. -/
def addBatch (s : InboxState) (batch : NotifyBatch) (rest : List NotifyBatch) : InboxState :=
  if s.generation = batch.generation /\ s.isOpen = true then
    { s with
      pending := s.pending ++ batch.chains.map fun chain => .shm chain.offset
      addedChains := s.addedChains ++ batch.chains.map fun chain => (chain, s.generation)
      point := .flushing rest }
  else
    { s with
      refused := s.refused ++ batch.chains
      point := .releasing batch.chains rest }

/-- `add_fallback_if_generation`. -/
def addFallback (s : InboxState) (payload : Payload) (generation : Nat) : InboxState :=
  if s.generation = generation /\ s.isOpen = true then
    { s with
      pending := s.pending ++ [.heap payload.data]
      addedPayloads := s.addedPayloads ++ [(payload, s.generation)]
      point := .idle }
  else { s with point := .idle }

def step (s : InboxState) : InboxAction -> Option InboxState
  | .resolve offset =>
    match s.point with
    | .idle =>
      some { s with
        point := .resolved { nr := s.popped, offset := offset, resolvedAt := s.generation }
        popped := s.popped + 1 }
    | _ => none
  | .readGeneration =>
    match s.point with
    | .resolved chain => some { s with point := .collecting chain s.generation }
    | _ => none
  | .collect =>
    match s.point with
    | .collecting chain generation =>
      some { s with point := .idle, batches := joinBatch chain generation s.batches }
    | _ => none
  | .resolvePayload data =>
    -- the frame was preceded by a drain, which has handed over its batches
    match s.point, s.batches with
    | .idle, [] =>
      some { s with point := .resolvedPayload { data := data, resolvedAt := s.generation } }
    | _, _ => none
  | .samplePayload =>
    match s.point with
    | .resolvedPayload payload =>
      if payload.data.isEmpty then some { s with point := .idle }
      else some { s with point := .sampledPayload payload s.generation }
    | _ => none
  | .addPayload =>
    match s.point with
    | .sampledPayload payload generation => some (s.addFallback payload generation)
    | _ => none
  | .flush =>
    match s.point with
    | .idle => some { s with point := .flushing s.batches, batches := [] }
    | _ => none
  | .addBatch =>
    match s.point with
    | .flushing (batch :: rest) => some (s.addBatch batch rest)
    | _ => none
  | .release =>
    match s.point with
    | .releasing (chain :: chains) rest =>
      some { s with freed := s.freed ++ [chain], point := .releasing chains rest }
    | .releasing [] rest => some { s with point := .flushing rest }
    | _ => none
  | .finish =>
    match s.point with
    | .flushing [] => some { s with point := .idle }
    | _ => none
  | .reset =>
    if s.pending = [] then some { s with generation := s.generation + 1 } else none
  | .swapPending => some { s with pending := [] }
  | .close => some { s with isOpen := false }

end InboxState

/-- One V5 stream, its user and the event loop. -/
def inboxSystem : System InboxState InboxAction where
  init := fun s => s = InboxState.new
  step := InboxState.step

/-- The steps, each with where the loop stands. -/
inductive InboxStep (s : InboxState) : InboxAction -> InboxState -> Prop
  | resolve {offset : Int} (point : s.point = .idle) : InboxStep s (.resolve offset)
      { s with
        point := .resolved { nr := s.popped, offset := offset, resolvedAt := s.generation }
        popped := s.popped + 1 }
  | readGeneration {chain : Chain} (point : s.point = .resolved chain) :
      InboxStep s .readGeneration { s with point := .collecting chain s.generation }
  | collect {chain : Chain} {generation : Nat} (point : s.point = .collecting chain generation) :
      InboxStep s .collect
        { s with point := .idle, batches := joinBatch chain generation s.batches }
  | resolvePayload {data : List UInt8} (point : s.point = .idle) :
      InboxStep s (.resolvePayload data)
        { s with point := .resolvedPayload { data := data, resolvedAt := s.generation } }
  | skipPayload {payload : Payload} (point : s.point = .resolvedPayload payload) :
      InboxStep s .samplePayload { s with point := .idle }
  | samplePayload {payload : Payload} (point : s.point = .resolvedPayload payload) :
      InboxStep s .samplePayload { s with point := .sampledPayload payload s.generation }
  | addPayload {payload : Payload} {generation : Nat}
      (point : s.point = .sampledPayload payload generation) :
      InboxStep s .addPayload (s.addFallback payload generation)
  | flush (point : s.point = .idle) :
      InboxStep s .flush { s with point := .flushing s.batches, batches := [] }
  | addBatch {batch : NotifyBatch} {rest : List NotifyBatch}
      (point : s.point = .flushing (batch :: rest)) : InboxStep s .addBatch (s.addBatch batch rest)
  | release {chain : Chain} {chains : List Chain} {rest : List NotifyBatch}
      (point : s.point = .releasing (chain :: chains) rest) :
      InboxStep s .release
        { s with freed := s.freed ++ [chain], point := .releasing chains rest }
  | released {rest : List NotifyBatch} (point : s.point = .releasing [] rest) :
      InboxStep s .release { s with point := .flushing rest }
  | finish (point : s.point = .flushing []) : InboxStep s .finish { s with point := .idle }
  | reset : InboxStep s .reset { s with generation := s.generation + 1 }
  | swapPending : InboxStep s .swapPending { s with pending := [] }
  | close : InboxStep s .close { s with isOpen := false }

theorem InboxState.step_cases {s t : InboxState} {action : InboxAction}
    (moved : s.step action = some t) : InboxStep s action t := by
  cases action <;> simp only [step] at moved
  case resolve offset =>
    split at moved <;> cases moved
    exact .resolve ‹_›
  case readGeneration =>
    split at moved <;> cases moved
    exact .readGeneration ‹_›
  case collect =>
    split at moved <;> cases moved
    exact .collect ‹_›
  case resolvePayload data =>
    split at moved <;> cases moved
    exact .resolvePayload ‹_›
  case samplePayload =>
    split at moved
    · split at moved <;> cases moved
      · exact .skipPayload ‹_›
      · exact .samplePayload ‹_›
    · cases moved
  case addPayload =>
    split at moved <;> cases moved
    exact .addPayload ‹_›
  case flush =>
    split at moved <;> cases moved
    exact .flush ‹_›
  case addBatch =>
    split at moved <;> cases moved
    exact .addBatch ‹_›
  case release =>
    split at moved <;> cases moved
    · exact .release ‹_›
    · exact .released ‹_›
  case finish =>
    split at moved <;> cases moved
    exact .finish ‹_›
  case reset =>
    rcases of_guarded moved with ⟨_, rfl⟩
    exact .reset
  case swapPending =>
    cases moved
    exact .swapPending
  case close =>
    cases moved
    exact .close

/-! ## Every chain is in one place -/

namespace LoopPoint

/-- The chains the event loop has in hand, apart from refused ones. -/
def held : LoopPoint -> List Chain
  | .resolved chain => [chain]
  | .collecting chain _ => [chain]
  | .flushing batches => batches.flatMap (·.chains)
  | .releasing _ batches => batches.flatMap (·.chains)
  | _ => []

/-- The refused chains that have yet to be released. -/
def toRelease : LoopPoint -> List Chain
  | .releasing chains _ => chains
  | _ => []

/-- The loop has resolved the stream and not read the generation yet. -/
def Resolved : LoopPoint -> Prop
  | .resolved _ => True
  | .resolvedPayload _ => True
  | _ => False

instance (point : LoopPoint) : Decidable point.Resolved :=
  match point with
  | .resolved _ => isTrue trivial
  | .resolvedPayload _ => isTrue trivial
  | .idle | .collecting _ _ | .sampledPayload _ _ | .flushing _ | .releasing _ _ => isFalse id

end LoopPoint

theorem joinBatch_perm (chain : Chain) (generation : Nat) (batches : List NotifyBatch) :
    ((joinBatch chain generation batches).flatMap (·.chains)).Perm
      (chain :: batches.flatMap (·.chains)) := by
  induction batches with
  | nil => exact List.Perm.refl _
  | cons batch rest ih =>
    rw [joinBatch]
    split
    · simp only [List.flatMap_cons, List.append_assoc, List.singleton_append]
      exact List.perm_middle
    · simp only [List.flatMap_cons]
      exact (ih.append_left batch.chains).trans List.perm_middle

/-- The number of every chain that was popped stands in one place: among the added
or the refused chains, in the event loop's hands, or in a batch.  The refused chains
were released, up to those that are about to be. -/
structure ChainsKept (s : InboxState) : Prop where
  kept : (s.addedChains.map (·.1.nr) ++ (s.refused.map (·.nr) ++
    (s.point.held ++ s.batches.flatMap (·.chains)).map (·.nr))).Perm (List.range s.popped)
  freed : s.refused = s.freed ++ s.point.toRelease

namespace ChainsKept

variable {s t : InboxState} {action : InboxAction}

theorem new : ChainsKept InboxState.new where
  kept := List.Perm.refl _
  freed := rfl

theorem of_point (inv : ChainsKept s) {point : LoopPoint} {batches : List NotifyBatch}
    (held : (point.held ++ batches.flatMap (·.chains)).Perm
      (s.point.held ++ s.batches.flatMap (·.chains)))
    (release : point.toRelease = s.point.toRelease) :
    ChainsKept { s with point := point, batches := batches } where
  kept := by
    refine List.Perm.trans ?_ inv.kept
    exact ((held.map _).append_left _).append_left _
  freed := by
    rw [release]
    exact inv.freed

theorem addBatch (inv : ChainsKept s) {batch : NotifyBatch} {rest : List NotifyBatch}
    (point : s.point = .flushing (batch :: rest)) : ChainsKept (s.addBatch batch rest) := by
  have kept := inv.kept
  have freed := inv.freed
  rw [point] at kept freed
  simp only [LoopPoint.held, List.flatMap_cons, List.map_append, List.append_assoc] at kept
  unfold InboxState.addBatch
  split_ifs
  · constructor
    · refine List.Perm.trans ?_ kept
      simp only [LoopPoint.held, List.map_append, List.map_map, List.append_assoc]
      refine List.Perm.append_left _ ?_
      exact List.perm_append_comm_assoc _ _ _
    · exact freed
  · constructor
    · simp only [LoopPoint.held, List.map_append, List.append_assoc]
      exact kept
    · exact congrArg (· ++ batch.chains) (freed.trans (List.append_nil _))

theorem step (inv : ChainsKept s) (moved : s.step action = some t) : ChainsKept t := by
  have kept := inv.kept
  have freed := inv.freed
  cases InboxState.step_cases moved with
  | resolve point =>
    rw [point] at kept freed
    refine ⟨?_, freed⟩
    rw [List.range_succ]
    refine List.Perm.trans ?_ (kept.append_right [s.popped])
    simp only [LoopPoint.held, List.map_append, List.append_assoc, List.nil_append,
      List.map_cons, List.map_nil]
    refine List.Perm.append_left _ (List.Perm.append_left _ ?_)
    exact List.perm_append_comm
  | collect point =>
    refine inv.of_point ?_ (by rw [point]; rfl)
    rw [point]
    exact joinBatch_perm _ _ s.batches
  | addPayload point =>
    have done : ChainsKept { s with point := .idle } :=
      inv.of_point (by rw [point]; rfl) (by rw [point]; rfl)
    unfold InboxState.addFallback
    split_ifs
    · exact ⟨done.kept, done.freed⟩
    · exact done
  | flush point =>
    refine inv.of_point ?_ (by rw [point]; rfl)
    rw [point, List.flatMap_nil, List.append_nil]
    exact List.Perm.refl _
  | addBatch point => exact inv.addBatch point
  | release point =>
    rw [point] at kept freed
    refine ⟨kept, freed.trans ?_⟩
    exact (List.append_assoc _ [_] _).symm
  | readGeneration point | resolvePayload point | skipPayload point | samplePayload point
  | released point | finish point => exact inv.of_point (by rw [point]; rfl) (by rw [point]; rfl)
  | reset | swapPending | close => exact ⟨kept, freed⟩

theorem nodup (inv : ChainsKept s) :
    (s.addedChains.map (·.1.nr) ++ s.refused.map (·.nr)).Nodup := by
  have all := inv.kept.nodup_iff.mpr List.nodup_range
  rw [<- List.append_assoc] at all
  exact (List.nodup_append.mp all).1

end ChainsKept

/-! ## What is added belongs to the current use -/

/-- The chains of a batch were resolved at its generation. -/
def NotifyBatch.Pure (batch : NotifyBatch) : Prop :=
  ∀ chain ∈ batch.chains, chain.resolvedAt = batch.generation

/-- The loop carries everything under the generation it was resolved at. -/
def LoopPoint.Timely (generation : Nat) : LoopPoint -> Prop
  | .idle => True
  | .resolved chain => chain.resolvedAt = generation
  | .collecting chain sampled => chain.resolvedAt = sampled
  | .resolvedPayload payload => payload.resolvedAt = generation
  | .sampledPayload payload sampled => payload.resolvedAt = sampled
  | .flushing batches => ∀ batch ∈ batches, batch.Pure
  | .releasing _ batches => ∀ batch ∈ batches, batch.Pure

theorem joinBatch_pure {chain : Chain} {generation : Nat} {batches : List NotifyBatch}
    (timely : chain.resolvedAt = generation) (pure : ∀ batch ∈ batches, batch.Pure) :
    ∀ batch ∈ joinBatch chain generation batches, batch.Pure := by
  induction batches with
  | nil =>
    intro batch member other held
    rw [List.mem_singleton.mp member] at held ⊢
    rw [List.mem_singleton.mp held]
    exact timely
  | cons first rest ih =>
    have front := pure first List.mem_cons_self
    have later := fun batch member => pure batch (List.mem_cons_of_mem _ member)
    rw [joinBatch]
    split
    · next same =>
        intro batch member
        rcases List.mem_cons.mp member with rfl | member
        · intro other held
          rcases List.mem_append.mp held with earlier | last
          · exact front other earlier
          · rw [List.mem_singleton.mp last, timely, same]
        · exact later batch member
    · intro batch member
      rcases List.mem_cons.mp member with rfl | member
      · exact front
      · exact ih later batch member

/-- Everything added so far was added at the generation its stream was resolved at,
and everything that is carried may be. -/
structure Timely (s : InboxState) : Prop where
  point : s.point.Timely s.generation
  batches : ∀ batch ∈ s.batches, batch.Pure
  chains : ∀ added ∈ s.addedChains, added.2 = added.1.resolvedAt
  payloads : ∀ added ∈ s.addedPayloads, added.2 = added.1.resolvedAt

/-- The stream is not reset while the event loop has resolved it and not yet read
its generation. -/
def Undisturbed (s : InboxState) : InboxAction -> Prop
  | .reset => ¬ s.point.Resolved
  | _ => True

instance (s : InboxState) (action : InboxAction) : Decidable (Undisturbed s action) :=
  match action with
  | .reset => inferInstanceAs (Decidable (¬ _))
  | .resolve _ | .readGeneration | .collect | .resolvePayload _ | .samplePayload | .addPayload
  | .flush | .addBatch | .release | .finish | .swapPending | .close => isTrue trivial

namespace Timely

variable {s t : InboxState} {action : InboxAction}

theorem new : Timely InboxState.new where
  point := trivial
  batches := nofun
  chains := nofun
  payloads := nofun

theorem of_point (inv : Timely s) {point : LoopPoint} (timely : point.Timely s.generation) :
    Timely { s with point := point } := { inv with
  point := timely }

theorem addFallback (inv : Timely s) {payload : Payload} {generation : Nat}
    (timely : payload.resolvedAt = generation) : Timely (s.addFallback payload generation) := by
  unfold InboxState.addFallback
  split_ifs with current
  · constructor
    case payloads =>
      exact forall_mem_snoc inv.payloads (current.1.trans timely.symm)
    case point => trivial
    case batches => exact inv.batches
    case chains => exact inv.chains
  · exact inv.of_point trivial

theorem addBatch (inv : Timely s) {batch : NotifyBatch} {rest : List NotifyBatch}
    (pure : batch.Pure) (later : ∀ batch ∈ rest, batch.Pure) : Timely (s.addBatch batch rest) := by
  unfold InboxState.addBatch
  split_ifs with current
  · constructor
    case chains =>
      intro added member
      rcases List.mem_append.mp member with earlier | last
      · exact inv.chains added earlier
      · rcases List.mem_map.mp last with ⟨chain, held, rfl⟩
        exact current.1.trans (pure chain held).symm
    case point => exact later
    case batches => exact inv.batches
    case payloads => exact inv.payloads
  · exact ⟨later, inv.batches, inv.chains, inv.payloads⟩

theorem step (inv : Timely s) (undisturbed : Undisturbed s action)
    (moved : s.step action = some t) : Timely t := by
  have timely := inv.point
  cases InboxState.step_cases moved with
  | resolve point => exact ⟨rfl, inv.batches, inv.chains, inv.payloads⟩
  | resolvePayload point => exact inv.of_point rfl
  | readGeneration point | samplePayload point | released point =>
    rw [point] at timely
    exact inv.of_point timely
  | collect point =>
    rw [point] at timely
    exact ⟨trivial, joinBatch_pure timely inv.batches, inv.chains, inv.payloads⟩
  | addPayload point =>
    rw [point] at timely
    exact inv.addFallback timely
  | flush point => exact ⟨inv.batches, nofun, inv.chains, inv.payloads⟩
  | addBatch point =>
    rw [point] at timely
    have later := fun batch member => timely batch (List.mem_cons_of_mem _ member)
    exact inv.addBatch (timely _ List.mem_cons_self) later
  | release point =>
    rw [point] at timely
    exact ⟨timely, inv.batches, inv.chains, inv.payloads⟩
  | skipPayload point | finish point => exact inv.of_point trivial
  | reset =>
    refine ⟨?_, inv.batches, inv.chains, inv.payloads⟩
    -- what the loop has sampled keeps its generation, and it has nothing unsampled
    cases point : s.point with
    | resolved chain | resolvedPayload payload => exact absurd (by rw [point]; trivial) undisturbed
    | _ =>
      rw [point] at timely
      exact timely
  | swapPending | close => exact ⟨timely, inv.batches, inv.chains, inv.payloads⟩

end Timely

/-- As long as no reset comes between resolving the stream and reading its
generation, whatever is added was resolved for the current use of the stream.  A
chain that is refused is released once, and it is not added as well. -/
theorem no_bytes_cross_uses {s : InboxState}
    (reached : inboxSystem.ReachableUnder Undisturbed s) :
    (∀ added ∈ s.addedChains, added.2 = added.1.resolvedAt) /\
      (∀ added ∈ s.addedPayloads, added.2 = added.1.resolvedAt) /\
      s.refused = s.freed ++ s.point.toRelease /\
      (s.addedChains.map (·.1.nr) ++ s.refused.map (·.nr)).Nodup := by
  have invariants : ChainsKept s /\ Timely s := by
    refine reached.invariant (P := fun s => ChainsKept s /\ Timely s) ?_ ?_
    · intro s started
      rw [show s = InboxState.new from started]
      exact ⟨ChainsKept.new, Timely.new⟩
    · intro s action t _ undisturbed moved inv
      exact ⟨inv.1.step moved, inv.2.step undisturbed moved⟩
  rcases invariants with ⟨kept, timely⟩
  exact ⟨timely.chains, timely.payloads, kept.freed, kept.nodup⟩

/-- A chain is added, the stream is read and reset, and a chain that was collected
before the reset is refused and released. -/
theorem no_bytes_cross_uses_refused_chain :
    Exists fun s => inboxSystem.ReachableUnder Undisturbed s /\
      (s.addedChains.length = 1 /\ s.refused = [⟨1, 640, 0⟩] /\ s.freed = s.refused) /\
      (∀ added ∈ s.addedChains, added.2 = added.1.resolvedAt) /\
        (∀ added ∈ s.addedPayloads, added.2 = added.1.resolvedAt) /\
        s.refused = s.freed ++ s.point.toRelease /\
        (s.addedChains.map (·.1.nr) ++ s.refused.map (·.nr)).Nodup := by
  have test : (inboxSystem.run Undisturbed InboxState.new
      [.resolve 512, .readGeneration, .collect, .flush, .addBatch, .finish, .resolve 640,
        .readGeneration, .collect, .swapPending, .reset, .flush, .addBatch, .release]).any
      (fun s => decide (s.addedChains.length = 1 /\ s.refused = [⟨1, 640, 0⟩] /\
        s.freed = s.refused)) = true := by
    decide
  rcases System.exists_reachable_of_run _ _ rfl test with ⟨s, reached, found⟩
  exact ⟨s, reached, found, no_bytes_cross_uses reached⟩

/-- A reset just after the stream was resolved: the chain is added to the next use
of the stream, and so is a payload. -/
theorem reset_after_resolve_crosses_uses :
    (Exists fun s => inboxSystem.Reachable s /\ s.addedChains = [(⟨0, 512, 0⟩, 1)]) /\
      Exists fun s => inboxSystem.Reachable s /\ s.addedPayloads = [(⟨[7], 0⟩, 1)] := by
  constructor
  · have test : (inboxSystem.run (fun _ _ => True) InboxState.new
        [.resolve 512, .reset, .readGeneration, .collect, .flush, .addBatch]).any
        (fun s => decide (s.addedChains = [(⟨0, 512, 0⟩, 1)])) = true := by
      decide
    exact System.exists_reachable_of_run _ _ rfl test
  · have test : (inboxSystem.run (fun _ _ => True) InboxState.new
        [.resolvePayload [7], .reset, .samplePayload, .addPayload]).any
        (fun s => decide (s.addedPayloads = [(⟨[7], 0⟩, 1)])) = true := by
      decide
    exact System.exists_reachable_of_run _ _ rfl test

end Stream
end Shmipc
