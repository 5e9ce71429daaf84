import Mathlib.Data.List.Perm.Basic
import Mathlib.Data.List.Nodup
import Shmipc.V5.Ownership

namespace Shmipc
namespace V5

open Transition

/-!
# One holder for every block

The invariant lists the blocks each party holds, expanding the root of a chain
to the blocks it stands for, and says that together they are a permutation of
the allocated blocks.  A step then either moves blocks from one holder to
another, or takes one in hand and frees it.  The invariant is therefore stated
with a list of blocks in hand: operations that free several blocks one after
the other keep it with a hand that gets shorter.
-/

/-! ## Chains -/

/-- Each block of the list links to the following one and the last to none. -/
def Linked (next : Nat -> Nat) : List Nat -> Prop
  | [] => True
  | [last] => next last = 0
  | first :: second :: rest => next first = second /\ Linked next (second :: rest)

variable {next : Nat -> Nat}

theorem Linked.update {blocks : List Nat} {offset value : Nat} (linked : Linked next blocks)
    (outside : offset ∉ blocks) :
    Linked (Function.update next offset value) blocks := by
  induction blocks with
  | nil => trivial
  | cons first rest ih =>
    have different : first ≠ offset := fun same => outside (same ▸ List.mem_cons_self)
    have restOutside : offset ∉ rest := fun inside => outside (List.mem_cons_of_mem _ inside)
    cases rest with
    | nil => exact (Function.update_of_ne different _ _).trans linked
    | cons second more =>
      exact ⟨(Function.update_of_ne different _ _).trans linked.1, ih linked.2 restOutside⟩

theorem Linked.append {blocks : List Nat} {last offset : Nat}
    (linked : Linked next (blocks ++ [last])) (ends : next offset = 0)
    (nodup : (blocks ++ [last]).Nodup) (fresh : offset ∉ blocks ++ [last]) :
    Linked (Function.update next last offset) (blocks ++ [last] ++ [offset]) := by
  induction blocks with
  | nil =>
    have different : offset ≠ last := by
      intro same
      exact fresh (same ▸ List.mem_cons_self)
    exact ⟨Function.update_self _ _ _, (Function.update_of_ne different _ _).trans ends⟩
  | cons first rest ih =>
    have restNodup : (rest ++ [last]).Nodup := (List.nodup_cons.mp nodup).2
    have restFresh : offset ∉ rest ++ [last] :=
      fun inside => fresh (List.mem_cons_of_mem _ inside)
    have different : first ≠ last := by
      intro same
      exact (List.nodup_cons.mp nodup).1 (List.mem_append_right _ (List.mem_singleton.mpr same))
    cases rest with
    | nil => exact ⟨(Function.update_of_ne different _ _).trans linked.1, ih linked.2 restNodup restFresh⟩
    | cons second more =>
      exact ⟨(Function.update_of_ne different _ _).trans linked.1,
        ih linked.2 restNodup restFresh⟩

/-- A reader that follows a linked list of distinct allocated blocks finds
exactly that list. -/
theorem walkChain_of_linked {live : List Nat} {fuel : Nat} {visited : List Nat} {root : Nat}
    {rest : List Nat} (linked : Linked next (root :: rest)) (nodup : (root :: rest).Nodup)
    (allocated : ∀ o ∈ root :: rest, o ∈ live) (positive : ∀ o ∈ live, 0 < o)
    (unvisited : ∀ o ∈ root :: rest, o ∉ visited) (room : (root :: rest).length <= fuel) :
    Endpoints.walkChain live next fuel visited root = (root :: rest, true) := by
  induction rest generalizing root fuel visited with
  | nil =>
    have rootPositive := positive root (allocated root List.mem_cons_self)
    rcases Nat.exists_eq_add_one_of_ne_zero (Nat.ne_of_gt rootPositive) with ⟨before, rfl⟩
    rcases Nat.exists_eq_add_of_le' room with ⟨less, rfl⟩
    have ends : next (before + 1) = 0 := linked
    have proceeds : ¬ (before + 1 ∈ visited \/ before + 1 ∉ live \/
        next (before + 1) = before + 1) := by
      rw [ends]
      rintro (seen | missing | same)
      · exact unvisited _ List.mem_cons_self seen
      · exact missing (allocated _ List.mem_cons_self)
      · omega
    change Endpoints.walkChain live next (less + 1) visited (before + 1) = _
    rw [Endpoints.walkChain, if_neg proceeds, ends]
    rw [Endpoints.walkChain]
  | cons second more ih =>
    have rootPositive := positive root (allocated root List.mem_cons_self)
    rcases Nat.exists_eq_add_one_of_ne_zero (Nat.ne_of_gt rootPositive) with ⟨before, rfl⟩
    have fueled : fuel ≠ 0 := by
      simp at room
      omega
    rcases Nat.exists_eq_add_one_of_ne_zero fueled with ⟨less, rfl⟩
    rcases List.nodup_cons.mp nodup with ⟨notInRest, restNodup⟩
    have follows : next (before + 1) = second := linked.1
    have proceeds : ¬ (before + 1 ∈ visited \/ before + 1 ∉ live \/
        next (before + 1) = before + 1) := by
      rw [follows]
      rintro (seen | missing | same)
      · exact unvisited _ List.mem_cons_self seen
      · exact missing (allocated _ List.mem_cons_self)
      · exact notInRest (same ▸ List.mem_cons_self)
    have tail : Endpoints.walkChain live next less ((before + 1) :: visited) second =
        (second :: more, true) := by
      refine ih linked.2 restNodup (fun o inside => allocated o (List.mem_cons_of_mem _ inside))
        ?_ (by simpa using room)
      intro o inside seen
      rcases List.mem_cons.mp seen with same | before
      · exact notInRest (same ▸ inside)
      · exact unvisited o (List.mem_cons_of_mem _ inside) before
    rw [Endpoints.walkChain, if_neg proceeds, follows, tail]

namespace Endpoints

/-! ## The invariant -/

/-- The roots travelling between the two sides. -/
def roots (s : Endpoints) : List Nat :=
  s.ring ++ (s.popped.toList ++ (s.batches.flatMap V5NotifyBatch.offsets ++ s.inbox))

/-- The offsets of the chunks that hold their block themselves. -/
def unpinned (chunks : List ReadChunk) : List Nat :=
  (chunks.filter (fun chunk => !chunk.pinned)).map ReadChunk.offset

/-- Every block with its holder, each root expanded to its message. -/
def owned (message : Nat -> List Nat) (s : Endpoints) : List Nat :=
  s.pending ++ (s.outgoing.flatMap V5Outgoing.allocs ++ (s.outChunks ++
    (s.roots.flatMap message ++ (unpinned s.ready ++ (s.pins ++
      (s.pendingRelease ++ s.releaseQueue))))))

/-- The blocks in hand and the blocks held are exactly the allocated ones, the
chains are linked as their holders believe, and a pin exists exactly while it
is shared. -/
structure Holding (caps : Capacities) (message : Nat -> List Nat) (hand : List Nat)
    (s : Endpoints) : Prop where
  nodup : s.live.Nodup
  bounded : s.live.length <= caps.blocks
  positive : ∀ o ∈ s.live, 0 < o
  owned_perm : (hand ++ s.owned message).Perm s.live
  pending_linked : Linked s.next s.pending
  outgoing_linked : ∀ out ∈ s.outgoing, out.allocs ≠ [] /\ Linked s.next out.allocs
  roots_linked : ∀ root ∈ s.roots, (message root).head? = some root /\
    Linked s.next (message root)
  ready_nodup : (s.ready.map ReadChunk.offset).Nodup
  pins_iff : forall o, o ∈ s.pins <-> 0 < s.shares o
  misfreed_eq : s.misfreed = false
  broken_eq : s.broken = false

variable {caps : Capacities} {message : Nat -> List Nat} {hand : List Nat} {s : Endpoints}

theorem holding_new : Holding caps message [] new where
  nodup := List.nodup_nil
  bounded := Nat.zero_le _
  positive := by simp [new]
  owned_perm := by simp [owned, new, roots, unpinned]
  pending_linked := trivial
  outgoing_linked := by simp [new]
  roots_linked := by simp [new, roots]
  ready_nodup := List.nodup_nil
  pins_iff := by simp [new, shares]
  misfreed_eq := rfl
  broken_eq := rfl

namespace Holding

theorem count_eq (inv : Holding caps message hand s) (o : Nat) :
    hand.count o + (s.owned message).count o = s.live.count o := by
  rw [<- List.count_append]
  exact inv.owned_perm.count_eq o

theorem count_le_one (inv : Holding caps message hand s) (o : Nat) :
    hand.count o + (s.owned message).count o <= 1 := by
  rw [inv.count_eq o]
  exact List.nodup_iff_count_le_one.mp inv.nodup o

variable {o size : Nat} {offsets : List Nat} {outgoing : V5Outgoing}

theorem mem_live (inv : Holding caps message hand s) (held : o ∈ hand ++ s.owned message) :
    o ∈ s.live :=
  inv.owned_perm.mem_iff.mp held

variable {t : Endpoints} {offset root index : Nat} {rest : List Nat}

theorem owned_of_count {message' : Nat -> List Nat} {hand' : List Nat}
    (inv : Holding caps message hand s) (liveEq : t.live = s.live)
    (moved : forall o, hand'.count o + (t.owned message').count o =
      hand.count o + (s.owned message).count o) : (hand' ++ t.owned message').Perm t.live := by
  rw [List.perm_iff_count]
  intro o
  rw [List.count_append, liveEq, moved o, inv.count_eq o]

/-! ## Giving blocks back -/

theorem freeAt (inv : Holding caps message (offset :: hand) s) :
    Holding caps message hand (s.freeAt offset) := by
  have allocated : offset ∈ s.live := inv.mem_live (List.mem_append_left _ List.mem_cons_self)
  rw [Endpoints.freeAt, if_pos allocated]
  exact {
    inv with
    nodup := inv.nodup.erase _
    bounded := (List.length_erase_le ..).trans inv.bounded
    positive := fun o inside => inv.positive o (List.mem_of_mem_erase inside)
    owned_perm := by
      have shorter := inv.owned_perm.erase offset
      rwa [List.cons_append, List.erase_cons_head] at shorter }

theorem freeAll (inv : Holding caps message (offsets ++ hand) s) :
    Holding caps message hand (s.freeAll offsets) := by
  induction offsets generalizing s with
  | nil => exact inv
  | cons first rest ih => exact ih inv.freeAt

theorem free (inv : Holding caps message (offset :: hand) s) :
    Holding caps message hand (s.free offset) := by
  have allocated : offset ∈ s.live := inv.mem_live (List.mem_append_left _ List.mem_cons_self)
  rw [Endpoints.free, if_pos allocated]
  refine { inv with owned_perm := inv.owned_of_count rfl fun o => ?_ }
  simp only [owned, roots, List.count_append, List.count_cons, List.count_nil]
  omega

theorem chain_eq (inv : Holding caps message (message root ++ hand) s)
    (head : (message root).head? = some root) (linked : Linked s.next (message root)) :
    s.chain root = (message root, true) := by
  rcases List.head?_eq_some_iff.mp head with ⟨rest, shape⟩
  have nodup : (message root).Nodup := by
    have all := inv.owned_perm.nodup_iff.mpr inv.nodup
    rw [List.append_assoc] at all
    exact (List.nodup_append.mp all).1
  have inside : ∀ o ∈ message root, o ∈ s.live := fun o held =>
    inv.mem_live (List.mem_append_left _ (List.mem_append_left _ held))
  have short : (message root).length <= maxChainNodes := by
    have total := inv.owned_perm.length_eq
    rw [List.length_append, List.length_append] at total
    have bounded := inv.bounded
    have limit := caps.blocks_le
    omega
  rw [shape] at linked nodup inside short
  rw [shape]
  exact walkChain_of_linked linked nodup inside inv.positive (fun _ _ => List.not_mem_nil) short

theorem freeChain (inv : Holding caps message (message root ++ hand) s)
    (head : (message root).head? = some root) (linked : Linked s.next (message root)) :
    Holding caps message hand (s.freeChain root) := by
  rw [Endpoints.freeChain, inv.chain_eq head linked]
  refine { inv with owned_perm := inv.owned_of_count rfl fun o => ?_ }
  simp only [owned, roots, List.count_append]
  omega

theorem freeChains (inv : Holding caps message (offsets.flatMap message ++ hand) s)
    (linked : ∀ root ∈ offsets, (message root).head? = some root /\
      Linked s.next (message root)) :
    Holding caps message hand (offsets.foldl Endpoints.freeChain s) := by
  induction offsets generalizing s with
  | nil => exact inv
  | cons root rest ih =>
    have ok := linked root List.mem_cons_self
    rw [List.flatMap_cons, List.append_assoc] at inv
    have sameNext : (s.freeChain root).next = s.next := by
      rw [Endpoints.freeChain, inv.chain_eq ok.1 ok.2]
    refine ih (inv.freeChain ok.1 ok.2) ?_
    intro later inside
    rw [sameNext]
    exact linked later (List.mem_cons_of_mem _ inside)

/-! ## The writing side -/

/-- A freshly allocated block extends the write buffer's chain.  The two links
this writes belong to no other holder's chain. -/
theorem appendBlock (inv : Holding caps message [] s) (allocatable : Allocatable caps s offset) :
    Holding caps message [] (s.appendBlock offset size) := by
  rcases allocatable with ⟨positive, unallocated, room⟩
  have unheld : forall o, o ∈ s.owned message -> o ≠ offset := by
    intro o held same
    exact unallocated (same ▸ inv.mem_live held)
  have pendingFresh : offset ∉ s.pending := fun inside =>
    unheld offset (List.mem_append_left _ inside) rfl
  have pendingLinked : Linked (s.appendBlock offset size).next (s.pending ++ [offset]) := by
    have cleared : Linked (Function.update s.next offset 0) s.pending :=
      inv.pending_linked.update pendingFresh
    rcases List.eq_nil_or_concat' s.pending with empty | ⟨front, last, shape⟩
    · simp only [Endpoints.appendBlock, empty]
      exact Function.update_self _ _ _
    · have nodup : s.pending.Nodup := by
        have all : (s.owned message).Nodup := inv.owned_perm.nodup_iff.mpr inv.nodup
        exact (List.nodup_append.mp all).1
      rw [shape] at cleared nodup pendingFresh
      simp only [Endpoints.appendBlock, shape, List.getLast?_concat]
      exact cleared.append (Function.update_self _ _ _) nodup pendingFresh
  have keep : forall blocks, Linked s.next blocks -> (∀ o ∈ blocks, o ≠ offset) ->
      (∀ o ∈ blocks, o ∉ s.pending) -> Linked (s.appendBlock offset size).next blocks := by
    intro blocks linked notFresh notPending
    have cleared : Linked (Function.update s.next offset 0) blocks :=
      linked.update (fun inside => notFresh offset inside rfl)
    cases last : s.pending.getLast? with
    | none =>
      simp only [Endpoints.appendBlock, last]
      exact cleared
    | some prev =>
      simp only [Endpoints.appendBlock, last]
      exact cleared.update (fun inside => notPending prev inside (List.mem_of_getLast? last))
  have apart : forall o, o ∈ s.outgoing.flatMap V5Outgoing.allocs ++
      s.roots.flatMap message -> o ∉ s.pending := by
    intro o held inside
    have once := inv.count_le_one o
    have first := List.count_pos_iff.mpr inside
    have second := List.count_pos_iff.mpr held
    simp only [owned, List.count_append] at once second
    omega
  exact { inv with
    nodup := List.nodup_cons.mpr ⟨unallocated, inv.nodup⟩
    bounded := room
    positive := by
      intro o inside
      rcases List.mem_cons.mp inside with same | before
      · exact same ▸ positive
      · exact inv.positive o before
    owned_perm := by
      rw [List.perm_iff_count]
      intro o
      have old := inv.count_eq o
      simp only [Endpoints.appendBlock, owned, roots, List.count_append, List.count_cons,
        List.count_nil] at old ⊢
      omega
    pending_linked := pendingLinked
    outgoing_linked := by
      intro out inside
      have old := inv.outgoing_linked out inside
      refine ⟨old.1, keep _ old.2 ?_ ?_⟩
      · intro o held
        apply unheld
        exact List.mem_append_right _
          (List.mem_append_left _ (List.mem_flatMap.mpr ⟨out, inside, held⟩))
      · intro o held
        exact apart o (List.mem_append_left _ (List.mem_flatMap.mpr ⟨out, inside, held⟩))
    roots_linked := by
      intro root inside
      have old := inv.roots_linked root inside
      refine ⟨old.1, keep _ old.2 ?_ ?_⟩
      · intro o held
        apply unheld
        exact List.mem_append_right _ (List.mem_append_right _ (List.mem_append_right _
          (List.mem_append_left _ (List.mem_flatMap.mpr ⟨root, inside, held⟩))))
      · intro o held
        exact apart o (List.mem_append_right _ (List.mem_flatMap.mpr ⟨root, inside, held⟩)) }

theorem reserve {fits : Bool} {alloc : Option Nat} (inv : Holding caps message [] s)
    (moved : s.reserve caps size fits alloc = some t) :
    Holding caps message [] t := by
  have heap : Holding caps message [] (s.reserveFallback size) := { inv with }
  unfold Endpoints.reserve at moved
  split at moved
  · cases moved
    exact inv
  · split at moved
    · cases moved
      exact heap
    · split at moved
      · cases moved
        exact heap
      · split at moved
        · cases moved
          exact { inv with }
        · split at moved
          · cases moved
            exact heap
          · split at moved
            · next allocatable =>
              cases moved
              exact inv.appendBlock allocatable
            · cases moved

theorem discard (inv : Holding caps message [] s) : Holding caps message [] s.discard := by
  apply freeAll
  refine { inv with
    pending_linked := trivial, owned_perm := inv.owned_of_count rfl fun o => ?_ }
  simp only [owned, roots, List.count_append, List.count_nil]
  omega

theorem flush (inv : Holding caps message [] s) : Holding caps message [] s.flush := by
  unfold Endpoints.flush
  split
  · exact inv.discard
  · split
    · exact inv
    · split
      · refine { inv with
          pending_linked := trivial, owned_perm := inv.owned_of_count rfl fun o => ?_ }
        simp only [takeFallback, owned, roots, List.count_append, List.count_nil]
        omega
      · next allShm =>
        rw [takeShm, if_neg allShm]
        split
        · next empty =>
          split at empty <;> cases empty
        · next t taken =>
          split at taken
          · cases taken
            exact inv
          · next filled =>
            cases taken
            refine { inv with
              pending_linked := trivial
              outgoing_linked :=
                forall_mem_snoc inv.outgoing_linked ⟨filled, inv.pending_linked⟩
              owned_perm := inv.owned_of_count rfl fun o => ?_ }
            simp only [owned, roots, List.flatMap_append, List.flatMap_cons, List.flatMap_nil,
              List.count_append, List.count_nil]
            omega

theorem takeOutgoing {outgoing : V5Outgoing} (inv : Holding caps message [] s)
    (found : s.outgoing[index]? = some outgoing) :
    Holding caps message outgoing.allocs
      { s with outgoing := s.outgoing.eraseIdx index } := by
  rcases List.getElem?_eq_some_iff.mp found with ⟨within, entry⟩
  refine { inv with
    owned_perm := inv.owned_of_count rfl fun o => ?_
    outgoing_linked := fun out inside =>
      inv.outgoing_linked out (List.mem_of_mem_eraseIdx inside) }
  · have split := List.getElem_cons_eraseIdx_perm within
    rw [entry] at split
    have counted := (split.flatMap_right V5Outgoing.allocs).count_eq o
    simp only [List.flatMap_cons, List.count_append] at counted
    simp only [owned, roots, List.count_append, List.count_nil]
    omega

theorem abandon (inv : Holding caps message [] s) (moved : s.abandon index = some t) :
    Holding caps message [] t := by
  unfold Endpoints.abandon at moved
  split at moved
  · cases moved
  · next outgoing found =>
    cases moved
    apply freeAll
    rw [List.append_nil]
    exact inv.takeOutgoing found

theorem dropOutChunk (inv : Holding caps message [] s) (moved : s.dropOutChunk = some t) :
    Holding caps message [] t := by
  unfold Endpoints.dropOutChunk at moved
  split at moved
  · cases moved
  · next offset rest chunks =>
    cases moved
    apply freeAt
    refine { inv with owned_perm := inv.owned_of_count rfl fun o => ?_ }
    simp only [owned, roots, chunks, List.count_append, List.count_cons, List.count_nil]
    omega

theorem recycle (inv : Holding caps message hand s)
    (roomy : s.pending = [] \/ outgoing.capacity <= s.pendingCapacity) :
    Holding caps message hand (s.recycle outgoing) := by
  unfold Endpoints.recycle
  split
  · next larger =>
    have empty : s.pending = [] := by
      rcases roomy with empty | smaller
      · exact empty
      · exact absurd larger (Nat.not_lt_of_le smaller)
    refine { inv with
      pending_linked := trivial, owned_perm := inv.owned_of_count rfl fun o => ?_ }
    simp only [owned, roots, empty]
  · exact inv

theorem put {index : Nat} {t : Endpoints} (inv : Holding caps message [] s)
    (roomy : forall outgoing, s.outgoing[index]? = some outgoing ->
      s.pending = [] \/ outgoing.capacity <= s.pendingCapacity)
    (moved : s.put caps index = some t) :
    Exists fun message' => Holding caps message' [] t := by
  unfold Endpoints.put at moved
  split at moved
  · cases moved
  · next outgoing found =>
    split at moved
    · cases moved
      rcases inv.outgoing_linked outgoing (List.mem_of_getElem? found) with ⟨filled, linked⟩
      rcases List.exists_cons_of_ne_nil filled with ⟨root, rest, shape⟩
      have taken := inv.takeOutgoing found
      have fresh : root ∉ s.roots := by
        intro travelling
        have headEq := (inv.roots_linked root travelling).1
        have inMessage : root ∈ message root := List.mem_of_mem_head? headEq
        have first : 0 < outgoing.allocs.count root :=
          List.count_pos_iff.mpr (shape ▸ List.mem_cons_self)
        have second : 0 < (s.roots.flatMap message).count root :=
          List.count_pos_iff.mpr (List.mem_flatMap.mpr ⟨root, travelling, inMessage⟩)
        have once := taken.count_le_one root
        simp only [owned, List.count_append] at once
        change _ + (_ + (_ + (_ + ((s.roots.flatMap message).count root + _)))) <= 1 at once
        omega
      have same : ∀ other ∈ s.roots, Function.update message root outgoing.allocs other =
          message other := by
        intro other inside
        have different : other ≠ root := fun equal => fresh (equal ▸ inside)
        exact Function.update_of_ne different _ _
      have sameFlat : s.roots.flatMap (Function.update message root outgoing.allocs) =
          s.roots.flatMap message := List.flatMap_congr same
      refine ⟨Function.update message root outgoing.allocs, recycle ?_ (roomy outgoing found)⟩
      refine { taken with
        owned_perm := taken.owned_of_count rfl fun o => ?_, roots_linked := ?_ }
      · have flat := congrArg (List.count o) sameFlat
        simp only [roots, List.flatMap_append, List.count_append] at flat
        simp only [owned, roots, shape, List.head?_cons, Option.toList_some, List.flatMap_append,
          List.flatMap_cons, List.flatMap_nil, List.count_append, List.count_nil,
          Function.update_self]
        rw [<- shape]
        omega
      · intro other inside
        have old : other = root \/ other ∈ s.roots := by
          simp only [roots, shape, List.head?_cons, Option.toList_some, List.mem_append,
            List.mem_singleton] at inside ⊢
          tauto
        rcases old with equal | travelling
        · rw [equal, Function.update_self]
          exact ⟨shape ▸ List.head?_cons, linked⟩
        · rw [same other travelling]
          exact inv.roots_linked other travelling
    · cases moved

/-! ## The event loop -/

/-- A step that takes roots from where they wait has their messages in hand. -/
theorem takeRoots {taken : List Nat} (inv : Holding caps message hand s)
    (rootsPerm : (taken ++ t.roots).Perm s.roots) (rest : t = { s with
      ring := t.ring, popped := t.popped, batches := t.batches, inbox := t.inbox }) :
    Holding caps message (taken.flatMap message ++ hand) t := by
  rw [rest] at rootsPerm ⊢
  refine { inv with
    owned_perm := inv.owned_of_count rfl fun o => ?_
    roots_linked := fun root inside =>
      inv.roots_linked root (rootsPerm.mem_iff.mp (List.mem_append_right taken inside)) }
  have counted := (rootsPerm.flatMap_right message).count_eq o
  simp only [owned, List.flatMap_append, List.count_append] at counted ⊢
  omega

theorem takeRoot (inv : Holding caps message hand s) (rootsPerm : (root :: t.roots).Perm s.roots)
    (rest : t = { s with
      ring := t.ring, popped := t.popped, batches := t.batches, inbox := t.inbox }) :
    Holding caps message (message root ++ hand) t := by
  rw [<- List.singleton_append] at rootsPerm
  rw [<- List.flatMap_singleton message root]
  exact inv.takeRoots rootsPerm rest

theorem moveRoots (inv : Holding caps message hand s) (rootsPerm : t.roots.Perm s.roots)
    (rest : t = { s with
      ring := t.ring, popped := t.popped, batches := t.batches, inbox := t.inbox }) :
    Holding caps message hand t := by
  rw [<- List.nil_append t.roots] at rootsPerm
  exact inv.takeRoots rootsPerm rest

theorem joinBatch_offsets (generation root : Nat) (batches : List V5NotifyBatch) :
    ((joinBatch generation root batches).flatMap V5NotifyBatch.offsets).Perm
      (root :: batches.flatMap V5NotifyBatch.offsets) := by
  induction batches with
  | nil => exact List.Perm.refl _
  | cons batch rest ih =>
    unfold joinBatch
    split
    · simp only [List.flatMap_cons, List.append_assoc]
      exact List.perm_middle
    · simp only [List.flatMap_cons]
      exact (ih.append_left _).trans List.perm_middle

theorem batchData {found : Bool} (inv : Holding caps message [] s)
    (moved : s.batchData found = some t) : Holding caps message [] t := by
  unfold Endpoints.batchData at moved
  split at moved
  · cases moved
  · next root inHand =>
    have travelling : root ∈ s.roots := by
      simp [roots, inHand]
    have ok := inv.roots_linked root travelling
    cases found with
    | true =>
      cases moved
      refine inv.moveRoots ?_ rfl
      simp only [roots, inHand, Option.toList_none, Option.toList_some, List.nil_append]
      apply List.Perm.append_left
      exact (joinBatch_offsets _ _ _).append_right _
    | false =>
      cases moved
      refine freeChain (inv.takeRoot ?_ rfl) ok.1 ok.2
      simp only [roots, inHand, Option.toList_none, Option.toList_some]
      exact List.perm_middle.symm

theorem flushBatch (inv : Holding caps message [] s) (moved : s.flushBatch = some t) :
    Holding caps message [] t := by
  unfold Endpoints.flushBatch at moved
  split at moved
  · cases moved
  · next first rest collected =>
    have taken : Holding caps message (first.offsets.flatMap message)
        { s with batches := rest } := by
      rw [<- List.append_nil (first.offsets.flatMap message)]
      refine inv.takeRoots (List.perm_iff_count.mpr fun o => ?_) rfl
      simp only [roots, collected, List.flatMap_cons, List.count_append]
      omega
    have linked : ∀ root ∈ first.offsets, (message root).head? = some root /\
        Linked s.next (message root) := by
      intro root inside
      apply inv.roots_linked
      simp only [roots, collected, List.flatMap_cons, List.mem_append]
      tauto
    split at moved
    · next empty =>
      cases moved
      rw [empty] at taken
      exact taken
    · split at moved
      · cases moved
        refine inv.moveRoots ?_ rfl
        simp only [roots, collected, List.flatMap_cons]
        apply List.Perm.append_left
        apply List.Perm.append_left
        rw [List.perm_iff_count]
        intro o
        simp only [List.count_append]
        omega
      · cases moved
        refine freeChains ?_ linked
        rw [List.append_nil]
        exact taken

theorem pop (inv : Holding caps message [] s) (idle : s.popped = none)
    (queued : s.ring = root :: rest) (moved : t = { s with popped := some root, ring := rest }) :
    Holding caps message [] t := by
  subst moved
  refine inv.moveRoots ?_ rfl
  simp only [roots, idle, queued, Option.toList_none, Option.toList_some, List.nil_append,
    List.cons_append]
  exact List.perm_middle

/-! ## The reader -/

theorem ready_held (inv : Holding caps message hand s) {o : Nat}
    (readable : o ∈ s.ready.map ReadChunk.offset) : o ∈ unpinned s.ready ++ s.pins := by
  rcases List.mem_map.mp readable with ⟨chunk, inside, offsetEq⟩
  by_cases pinned : chunk.pinned = true
  · apply List.mem_append_right
    rw [inv.pins_iff]
    apply Nat.add_pos_right
    exact List.countP_pos_iff.mpr ⟨chunk, inside, by simp [pinned, offsetEq]⟩
  · apply List.mem_append_left
    exact List.mem_map.mpr ⟨chunk, List.mem_filter.mpr ⟨inside, by simpa using pinned⟩, offsetEq⟩

theorem unpinned_freshChunks (t : Endpoints) (blocks : List Nat) :
    unpinned (blocks.map t.freshChunk) = blocks := by
  induction blocks with
  | nil => rfl
  | cons first rest ih =>
    change first :: unpinned (rest.map t.freshChunk) = first :: rest
    rw [ih]

theorem takeInput (inv : Holding caps message [] s) (waiting : s.inbox = root :: rest) :
    Holding caps message (message root ++ []) { s with inbox := rest } := by
  refine inv.takeRoot (List.perm_iff_count.mpr fun o => ?_) rfl
  simp only [roots, waiting, List.count_append, List.count_cons]
  omega

theorem readChain (inv : Holding caps message [] s) (waiting : s.inbox = root :: rest) :
    s.chain root = (message root, true) /\
    Holding caps message []
      { s with inbox := rest, ready := s.ready ++ (message root).map s.freshChunk } := by
  have travelling : root ∈ s.roots := by
    simp [roots, waiting]
  have ok := inv.roots_linked root travelling
  have inHand := inv.takeInput waiting
  have taken := inHand
  rw [List.append_nil] at taken
  refine ⟨inHand.chain_eq ok.1 ok.2, ?_⟩
  have offsets : ((message root).map s.freshChunk).map ReadChunk.offset = message root := by
    rw [List.map_map]
    exact List.map_id _
  have noShares : forall o, ((message root).map s.freshChunk).countP
      (fun chunk => chunk.pinned && chunk.offset == o) = 0 := by
    intro o
    rw [List.countP_eq_zero]
    intro chunk inside
    rcases List.mem_map.mp inside with ⟨block, _, rfl⟩
    simp [Endpoints.freshChunk]
  refine { taken with
    owned_perm := taken.owned_of_count rfl fun o => ?_, ready_nodup := ?_, pins_iff := ?_ }
  · have chunks := congrArg (List.count o) (unpinned_freshChunks s (message root))
    simp only [unpinned] at chunks
    simp only [owned, roots, unpinned, List.filter_append, List.map_append, List.flatMap_append,
      List.count_append, List.count_nil, chunks]
    omega
  · rw [List.map_append, offsets, List.nodup_append']
    refine ⟨inv.ready_nodup, ?_, ?_⟩
    · have all := taken.owned_perm.nodup_iff.mpr taken.nodup
      exact (List.nodup_append.mp all).1
    · intro o readable arriving
      have once := taken.count_le_one o
      have first := List.count_pos_iff.mpr (inv.ready_held readable)
      have second := List.count_pos_iff.mpr arriving
      simp only [owned, List.count_append] at once first
      omega
  · intro o
    rw [inv.pins_iff]
    simp only [shares, List.countP_append, noShares o, Nat.add_zero]

theorem drainInputs {inputs : List Nat} (inv : Holding caps message [] s)
    (waiting : s.inbox = inputs) : Holding caps message [] (s.drainInputs inputs) := by
  induction inputs generalizing s with
  | nil => exact inv
  | cons root rest ih =>
    rcases inv.readChain waiting with ⟨followed, read⟩
    rw [Endpoints.drainInputs, followed]
    exact ih read rfl

/-- Giving up a share of a pin: the pin stays while others share it, and its
block goes back with the last share. -/
theorem settlePin {ready : List ReadChunk} {leases : List Nat} (inv : Holding caps message [] s)
    (pinned : offset ∈ s.pins) (sameUnpinned : unpinned ready = unpinned s.ready)
    (readyNodup : (ready.map ReadChunk.offset).Nodup) (others : forall o, o ≠ offset ->
      ({ s with ready := ready, leases := leases } : Endpoints).shares o = s.shares o) :
    Holding caps message []
      (({ s with ready := ready, leases := leases } : Endpoints).settlePin offset) := by
  have pinsNodup : s.pins.Nodup := by
    have all : (s.owned message).Nodup := inv.owned_perm.nodup_iff.mpr inv.nodup
    simp only [owned, List.nodup_append] at all
    tauto
  unfold Endpoints.settlePin
  split
  · next lastShare =>
    apply free
    refine { inv with
      owned_perm := inv.owned_of_count rfl fun o => ?_, ready_nodup := readyNodup, pins_iff := ?_ }
    · have split := (List.perm_cons_erase pinned).count_eq o
      simp only [List.count_cons] at split
      simp only [owned, roots, sameUnpinned, List.count_append, List.count_cons, List.count_nil]
      omega
    · intro o
      rw [pinsNodup.mem_erase_iff]
      by_cases same : o = offset
      · subst same
        exact ⟨fun gone => absurd rfl gone.1, fun shared => absurd lastShare (Nat.ne_of_gt shared)⟩
      · change _ <-> 0 < ({ s with ready := ready, leases := leases } : Endpoints).shares o
        rw [others o same, <- inv.pins_iff]
        exact ⟨fun kept => kept.2, fun kept => ⟨same, kept⟩⟩
  · next shared =>
    refine { inv with
      owned_perm := inv.owned_of_count rfl fun o => ?_, ready_nodup := readyNodup, pins_iff := ?_ }
    · simp only [owned, roots, sameUnpinned]
    · intro o
      by_cases same : o = offset
      · subst same
        exact ⟨fun _ => Nat.pos_of_ne_zero shared, fun _ => pinned⟩
      · rw [others o same]
        exact inv.pins_iff o

theorem dropChunk (inv : Holding caps message [] s) (moved : s.dropChunk = some t) :
    Holding caps message [] t := by
  unfold Endpoints.dropChunk at moved
  split at moved
  · cases moved
  · next chunk rest front =>
    have nodup := inv.ready_nodup
    rw [front, List.map_cons, List.nodup_cons] at nodup
    cases pinned : chunk.pinned with
    | true =>
      simp only [pinned, if_true, Option.some.injEq] at moved
      subst moved
      refine inv.settlePin ?_ ?_ nodup.2 ?_
      · rw [inv.pins_iff, shares, front]
        apply Nat.add_pos_right
        exact List.countP_pos_iff.mpr ⟨chunk, List.mem_cons_self, by simp [pinned]⟩
      · simp [unpinned, front, pinned]
      · intro o different
        have elsewhere : (chunk.offset == o) = false := by
          simpa using Ne.symm different
        simp [shares, front, elsewhere]
    | false =>
      simp only [pinned, Bool.false_eq_true, if_false, Option.some.injEq] at moved
      subst moved
      apply free
      refine { inv with
        owned_perm := inv.owned_of_count rfl fun o => ?_, ready_nodup := nodup.2, pins_iff := ?_ }
      · simp only [owned, roots, unpinned, front, List.filter_cons, pinned, Bool.not_false,
          if_true, List.map_cons, List.count_append, List.count_cons, List.count_nil]
        omega
      · intro o
        rw [inv.pins_iff, shares, shares, front, List.countP_cons]
        simp [pinned]

theorem moveFront {chunk : ReadChunk} {rest : List ReadChunk} {pos : Nat}
    (inv : Holding caps message [] s) (front : s.ready = chunk :: rest) :
    Holding caps message [] { s with ready := { chunk with pos := pos } :: rest } := by
  refine { inv with
    owned_perm := inv.owned_of_count rfl fun o => ?_, ready_nodup := ?_, pins_iff := ?_ }
  · cases pinned : chunk.pinned <;>
      simp [owned, roots, unpinned, front, pinned]
  · have nodup := inv.ready_nodup
    rw [front] at nodup
    exact nodup
  · intro o
    rw [inv.pins_iff, shares, shares, front, List.countP_cons, List.countP_cons]

theorem advance {amount : Nat} {t : Endpoints} (inv : Holding caps message [] s)
    (moved : s.advance amount = some t) : Holding caps message [] t := by
  unfold Endpoints.advance at moved
  split at moved
  · cases moved
  · next chunk rest front =>
    have ahead : Holding caps message [] { s with
        ready := { chunk with pos := chunk.pos + min chunk.remaining amount } :: rest } :=
      inv.moveFront front
    simp only at moved
    split at moved
    · exact ahead.dropChunk moved
    · cases moved
      exact ahead

/-- A first borrow passes the block from the chunk to its new pin. -/
theorem lease (inv : Holding caps message [] s) (moved : s.lease = some t) :
    Holding caps message [] t := by
  unfold Endpoints.lease at moved
  split at moved
  · cases moved
  · next chunk rest front =>
    have nodup := inv.ready_nodup
    rw [front] at nodup
    cases pinned : chunk.pinned with
    | true =>
      simp only [pinned, if_true, Option.some.injEq] at moved
      subst moved
      refine { inv with pins_iff := fun o => ?_ }
      rw [inv.pins_iff, shares, shares, front, List.countP_cons, List.count_cons]
      by_cases same : chunk.offset = o <;> simp [same, pinned]
    | false =>
      simp only [pinned, Bool.false_eq_true, if_false, Option.some.injEq] at moved
      subst moved
      refine { inv with
        owned_perm := inv.owned_of_count rfl fun o => ?_, ready_nodup := nodup, pins_iff := ?_ }
      · simp only [owned, roots, unpinned, front, List.filter_cons, pinned, Bool.not_false,
          Bool.not_true, Bool.false_eq_true, if_true, if_false, List.map_cons,
          List.count_append, List.count_cons, List.count_nil]
        omega
      · intro o
        rw [List.mem_cons, inv.pins_iff, shares, shares, front, List.countP_cons,
          List.countP_cons, List.count_cons]
        by_cases same : o = chunk.offset
        · simp [same]
        · have elsewhere : (chunk.offset == o) = false := by
            simpa using Ne.symm same
          simp [same, elsewhere]

theorem dropLease (inv : Holding caps message [] s) (moved : s.dropLease offset = some t) :
    Holding caps message [] t := by
  unfold Endpoints.dropLease at moved
  split at moved
  · next leased =>
    cases moved
    refine inv.settlePin ?_ rfl inv.ready_nodup ?_
    · rw [inv.pins_iff]
      exact Nat.add_pos_left (List.count_pos_iff.mpr leased) _
    · intro o different
      simp only [shares]
      rw [List.count_erase_of_ne different]
  · cases moved

theorem cloneLease (inv : Holding caps message [] s) (leased : offset ∈ s.leases) :
    Holding caps message [] { s with leases := offset :: s.leases } := by
  refine { inv with pins_iff := fun o => ?_ }
  rw [inv.pins_iff, shares, shares, List.count_cons]
  by_cases same : offset = o
  · subst same
    have held := List.count_pos_iff.mpr leased
    constructor <;> intro _ <;> omega
  · simp [same]

theorem dropInput (inv : Holding caps message [] s) (moved : s.dropInput = some t) :
    Holding caps message [] t := by
  unfold Endpoints.dropInput at moved
  split at moved
  · cases moved
  · next root rest waiting =>
    cases moved
    have ok := inv.roots_linked root (by simp [roots, waiting])
    exact freeChain (inv.takeInput waiting) ok.1 ok.2

/-! ## The release path -/

theorem pushRelease (inv : Holding caps message [] s) (moved : s.pushRelease caps = some t) :
    Holding caps message [] t := by
  unfold Endpoints.pushRelease at moved
  split at moved
  · cases moved
  · next offset rest releases =>
    split at moved
    · cases moved
      refine { inv with owned_perm := inv.owned_of_count rfl fun o => ?_ }
      simp only [owned, roots, releases, List.count_append, List.count_cons, List.count_nil]
      omega
    · cases moved

theorem drainRelease (inv : Holding caps message [] s) (moved : s.drainRelease = some t) :
    Holding caps message [] t := by
  unfold Endpoints.drainRelease at moved
  split at moved
  · cases moved
  · next offset rest releases =>
    cases moved
    apply freeAt
    refine { inv with owned_perm := inv.owned_of_count rfl fun o => ?_ }
    simp only [owned, roots, releases, List.count_append, List.count_cons, List.count_nil]
    omega

end Holding

end Endpoints

end V5
end Shmipc
