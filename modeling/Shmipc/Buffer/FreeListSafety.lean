import Shmipc.Base.LinkedNodes
import Shmipc.Buffer.FreeList

namespace Shmipc
namespace Buffer

open Transition

/-!
# Who has a buffer

`pop` reads the head, then the link of that buffer, and exchanges the head for
the link if the head is still the same number.  Between the two a buffer can
leave the list and come back to its head with another successor, and the
exchange installs a successor that no longer is one.  A schedule of two threads
on four buffers does this.

In the runs where every exchange of the head finds the link that its `pop`
read, the free buffers form a list threaded through their headers, and nothing
a thread holds is on it.
-/

/-- A successful exchange of the head finds the link of that buffer as `pop`
read it. -/
def linkUnchanged (s : ListState) : ListAction -> Bool
  | .access p =>
    match s.thread p with
    | .exchangeHead oldHead next _ =>
      s.list.head ≠ oldHead \/
        ((s.list.header oldHead).flag.hasNext /\
          (s.list.header oldHead).nextBufferOffset = next)
    | _ => true
  | _ => true

namespace BufferList

/-- The link of a buffer, if its flag says that there is one. -/
def succ (l : BufferList) (node : Nat) : Option Nat :=
  if (l.header node).flag.hasNext then some (l.header node).nextBufferOffset else none

variable {l l' : BufferList} {node other next : Nat}

theorem succ_congr (same : l'.header node = l.header node) : l'.succ node = l.succ node := by
  unfold succ
  rw [same]

theorem succ_eq_none (noNext : (l.header node).flag.hasNext = false) : l.succ node = none := by
  simp [succ, noNext]

theorem succ_eq_some (hasNext : (l.header node).flag.hasNext = true)
    (target : (l.header node).nextBufferOffset = next) : l.succ node = some next := by
  simp [succ, hasNext, target]

@[simp]
theorem header_setNext_self : (l.setNext node next).header node =
    { l.header node with nextBufferOffset := next } :=
  Function.update_self ..

variable {flag : BufferFlag} {stride current : Nat}

@[simp]
theorem header_setFlag_self : (l.setFlag node flag).header node =
    { l.header node with flag := flag } :=
  Function.update_self ..

theorem header_setNext_of_ne (differs : other ≠ node) :
    (l.setNext node next).header other = l.header other :=
  Function.update_of_ne differs ..

theorem header_setFlag_of_ne (differs : other ≠ node) :
    (l.setFlag node flag).header other = l.header other :=
  Function.update_of_ne differs ..

/-! ## The list that `create` builds -/

/-- The offsets of consecutive buffers. -/
def offsets (stride : Nat) : Nat -> Nat -> List Nat
  | 0, _ => []
  | count + 1, current => current :: offsets stride count (current + stride)

theorem le_of_mem_offsets {count : Nat} (member : node ∈ offsets stride count current) :
    current <= node := by
  induction count generalizing current with
  | zero => cases member
  | succ count ih =>
    rcases List.mem_cons.mp member with rfl | later
    · exact Nat.le_refl _
    · exact Nat.le_trans (Nat.le_add_right ..) (ih later)

theorem nodup_offsets (positive : 0 < stride) (count current : Nat) :
    (offsets stride count current).Nodup := by
  induction count generalizing current with
  | zero => exact List.nodup_nil
  | succ count ih =>
    refine List.nodup_cons.mpr ⟨fun member => ?_, ih _⟩
    have above := le_of_mem_offsets member
    omega

theorem getLast_offsets (stride count current : Nat) :
    (offsets stride (count + 1) current).getLast? = some (current + count * stride) := by
  induction count generalizing current with
  | zero => simp [offsets]
  | succ count ih =>
    have last := ih (current + stride)
    rw [offsets, offsets, List.getLast?_cons_cons]
    rw [offsets] at last
    rw [last, Nat.succ_mul, Nat.add_assoc, Nat.add_comm stride]

theorem create_eq_ok {bufferNum capPerBuffer memLen offsetInMem : Nat}
    {memory : Nat -> BufferHeader} {list : BufferList}
    (created : create bufferNum capPerBuffer memLen offsetInMem memory = .ok list) :
    Exists fun last => Exists fun fresh : BufferList => fresh.head = 0 /\
      fresh.tail = last * (capPerBuffer + bufferHeaderSize) /\
      list = (linkBuffers (capPerBuffer + bufferHeaderSize) (last + 1) 0 fresh).setFlag
        (linkBuffers (capPerBuffer + bufferHeaderSize) (last + 1) 0 fresh).tail .clear := by
  simp only [create] at created
  split at created
  · cases created
  · next nonzero =>
    split at created
    · cases created
    · split at created
      · cases created
      · rcases Nat.exists_eq_succ_of_ne_zero (not_or.mp nonzero).1 with ⟨last, rfl⟩
        cases created
        exact ⟨last, _, rfl, rfl, rfl⟩

theorem header_linkBuffers_of_lt {rounds : Nat} (below : node < current) :
    (linkBuffers stride rounds current l).header node = l.header node := by
  induction rounds generalizing current l with
  | zero => rfl
  | succ rounds ih =>
    rw [linkBuffers, ih (Nat.lt_of_lt_of_le below (Nat.le_add_right ..))]
    split
    · rw [header_setFlag_of_ne (Nat.ne_of_lt below), header_setNext_of_ne (Nat.ne_of_lt below)]
    · rfl

theorem linkBuffers_shape (stride rounds current : Nat) (l : BufferList) :
    Exists fun header => linkBuffers stride rounds current l = { l with header := header } := by
  induction rounds generalizing current l with
  | zero => exact ⟨l.header, rfl⟩
  | succ rounds ih =>
    rw [linkBuffers]
    split
    · exact ih _ _
    · exact ih _ _

/-- Once the flag of the last buffer is cleared, the loop has linked all of
them. -/
theorem linked_linkBuffers (positive : 0 < stride) (count current : Nat) (l : BufferList) :
    Linked (((linkBuffers stride (count + 1) current l).setFlag
      (current + count * stride) .clear).succ) (offsets stride (count + 1) current) := by
  induction count generalizing current l with
  | zero => exact succ_eq_none (by simp [BufferFlag.clear])
  | succ count ih =>
    rw [linkBuffers, if_pos (Nat.succ_pos count)]
    have rest := ih (current + stride)
      ((l.setNext current (current + stride)).setFlag current ⟨true, false⟩)
    rw [Nat.add_assoc, Nat.add_comm stride, <- Nat.succ_mul] at rest
    refine ⟨fun target link => ?_, rest⟩
    -- the later rounds and the final store leave the header of the first buffer alone
    have apart : current ≠ current + (count + 1) * stride := by
      have : 0 < (count + 1) * stride := Nat.mul_pos (Nat.succ_pos count) positive
      omega
    have first : ((l.setNext current (current + stride)).setFlag current ⟨true, false⟩).succ
        current = some (current + stride) := succ_eq_some (by simp) (by simp)
    rw [succ_congr ((header_setFlag_of_ne apart).trans
      (header_linkBuffers_of_lt (Nat.lt_add_of_pos_right positive))), first] at link
    exact (Option.some.inj link).symm

end BufferList

/-! ## What the accesses keep -/

namespace ListThread

/-- The buffer whose link a `push` is about to write. -/
def linking : ListThread -> Option Nat
  | .linkNext _ oldTail => some oldTail
  | .loadLink _ oldTail => some oldTail
  | .linkFlag _ oldTail _ => some oldTail
  | _ => none

/-- What a thread relies on between two accesses: it holds the buffer that it
marks or resets, a buffer that is about to be appended has no link, and one that
has been appended stands behind the old tail, whose link only this thread
writes. -/
def Ok (l : BufferList) (free held : List Nat) : ListThread -> Prop
  | .clearFlag node => node ∈ held
  | .loadUsed node => node ∈ held
  | .setInUsed node _ => node ∈ held
  | .unlinkNext node => node ∈ held
  | .loadUnlink node => node ∈ held
  | .unlinkFlag node _ => node ∈ held
  | .resetFlag node => node ∈ held
  | .loadTail node => node ∈ held /\ (l.header node).flag.hasNext = false
  | .exchangeTail node _ => node ∈ held /\ (l.header node).flag.hasNext = false
  | .linkNext node oldTail =>
    Adjacent oldTail node free /\ (l.header oldTail).flag.hasNext = false
  | .loadLink node oldTail =>
    Adjacent oldTail node free /\ (l.header oldTail).flag.hasNext = false /\
      (l.header oldTail).nextBufferOffset = node
  | .linkFlag node oldTail _ =>
    Adjacent oldTail node free /\ (l.header oldTail).flag.hasNext = false /\
      (l.header oldTail).nextBufferOffset = node
  | _ => True

variable {l l' : BufferList} {free free' held held' : List Nat} {pc : ListThread}

/-- A thread relies on the headers of what it holds and of what it links, and
on the place of the latter in the list. -/
theorem Ok.congr (ok : Ok l free held pc)
    (headers : forall node, node ∈ held \/ pc.linking = some node ->
      l'.header node = l.header node)
    (kept : forall node, pc.linking = some node -> forall next,
      Adjacent node next free -> Adjacent node next free') : Ok l' free' held pc := by
  cases pc with
  | loadTail node | exchangeTail node oldTail =>
    exact ⟨ok.1, by rw [headers node (Or.inl ok.1)]; exact ok.2⟩
  | linkNext node oldTail | loadLink node oldTail | linkFlag node oldTail flag =>
    exact ⟨kept _ rfl _ ok.1, by rw [headers oldTail (Or.inr rfl)]; exact ok.2⟩
  | _ => exact ok

theorem Ok.linking_adjacent {node : Nat} (ok : Ok l free held pc)
    (links : pc.linking = some node) : Exists fun next => Adjacent node next free := by
  cases pc with
  | linkNext added oldTail | loadLink added oldTail | linkFlag added oldTail flag =>
    cases links
    exact ⟨added, ok.1⟩
  | _ => cases links

theorem Ok.linking_mem {node : Nat} (ok : Ok l free held pc) (links : pc.linking = some node) :
    node ∈ free := by
  rcases ok.linking_adjacent links with ⟨next, adjacent⟩
  exact adjacent.mem

theorem Ok.linking_hasNext {node : Nat} (ok : Ok l free held pc)
    (links : pc.linking = some node) : (l.header node).flag.hasNext = false := by
  cases pc with
  | linkNext added oldTail =>
    cases links
    exact ok.2
  | loadLink added oldTail | linkFlag added oldTail flag =>
    cases links
    exact ok.2.1
  | _ => cases links

end ListThread

namespace ListState

/-- The free buffers stand in a list from the head to the tail, threaded
through their headers; what the threads hold is apart from it and from each
other; no two threads write the same link. -/
structure Inv (s : ListState) (free : List Nat) : Prop where
  first : free.head? = some s.list.head
  last : free.getLast? = some s.list.tail
  distinct : free.Nodup
  linked : Linked s.list.succ free
  heldDistinct : forall p, (s.held p).Nodup
  heldFree : forall p, ∀ node ∈ s.held p, node ∉ free
  heldApart : forall p q node, node ∈ s.held p -> node ∈ s.held q -> p = q
  thread : forall p, (s.thread p).Ok s.list free (s.held p)
  linkers : forall p q node, (s.thread p).linking = some node ->
    (s.thread q).linking = some node -> p = q

namespace Inv

variable {s : ListState} {free : List Nat} {p : Nat} {pc : ListThread}

theorem linkers_update (inv : s.Inv free)
    (fresh : forall node, pc.linking = some node -> forall q, q ≠ p ->
      (s.thread q).linking ≠ some node) (q r node : Nat)
    (one : (Function.update s.thread p pc q).linking = some node)
    (two : (Function.update s.thread p pc r).linking = some node) : q = r := by
  by_cases qSame : q = p
  · by_cases rSame : r = p
    · rw [qSame, rSame]
    · rw [qSame, Function.update_self] at one
      rw [Function.update_of_ne rSame] at two
      exact absurd two (fresh node one r rSame)
  · rw [Function.update_of_ne qSame] at one
    by_cases rSame : r = p
    · rw [rSame, Function.update_self] at two
      exact absurd one (fresh node two q qSame)
    · rw [Function.update_of_ne rSame] at two
      exact inv.linkers q r node one two

theorem ok_update {l : BufferList} {held : Nat -> List Nat} (own : pc.Ok l free (held p))
    (others : forall q, q ≠ p -> (s.thread q).Ok l free (held q)) (q : Nat) :
    (Function.update s.thread p pc q).Ok l free (held q) := by
  by_cases same : q = p
  · subst same
    rw [Function.update_self]
    exact own
  · rw [Function.update_of_ne same]
    exact others q same

variable {list : BufferList} {t : ListState}

theorem access (inv : s.Inv free) (head : list.head = s.list.head) (tail : list.tail = s.list.tail)
    (linked : Linked list.succ free)
    (others : forall q, q ≠ p -> (s.thread q).Ok list free (s.held q))
    (own : pc.Ok list free (s.held p))
    (links : forall node, pc.linking = some node -> (s.thread p).linking = some node) :
    ((s.setList list).setThread p pc).Inv free := { inv with
  first := head ▸ inv.first
  last := tail ▸ inv.last
  linked := linked
  thread := ok_update own others
  linkers := inv.linkers_update fun node link q differs theirs =>
    differs (inv.linkers q p node theirs (links node link)) }

theorem accessSame (inv : s.Inv free) (head : list.head = s.list.head)
    (tail : list.tail = s.list.tail) (header : list.header = s.list.header)
    (own : pc.Ok list free (s.held p))
    (links : forall node, pc.linking = some node -> (s.thread p).linking = some node) :
    ((s.setList list).setThread p pc).Inv free := by
  have same : forall node, list.header node = s.list.header node := fun node => by rw [header]
  refine inv.access head tail (inv.linked.congr fun node _ => BufferList.succ_congr (same node))
    (fun q _ => (inv.thread q).congr (fun node _ => same node) fun _ _ _ next => next) own links

theorem accessHeld (inv : s.Inv free) {node : Nat} (holds : node ∈ s.held p)
    (head : list.head = s.list.head) (tail : list.tail = s.list.tail)
    (elsewhere : forall other, other ≠ node -> list.header other = s.list.header other)
    (own : pc.Ok list free (s.held p)) (links : pc.linking = none) :
    ((s.setList list).setThread p pc).Inv free := by
  have notFree := inv.heldFree p node holds
  refine inv.access head tail ?_ ?_ own (fun other wrong => by rw [links] at wrong; cases wrong)
  · refine inv.linked.congr fun other member => BufferList.succ_congr (elsewhere other ?_)
    rintro rfl
    exact notFree member
  · intro q differs
    refine (inv.thread q).congr (fun other relied => elsewhere other ?_) fun _ _ _ next => next
    rintro rfl
    rcases relied with theirs | links
    · exact differs (inv.heldApart q p other theirs holds)
    · exact notFree ((inv.thread q).linking_mem links)

theorem accessLinking (inv : s.Inv free) {oldTail : Nat}
    (links : (s.thread p).linking = some oldTail) (head : list.head = s.list.head)
    (tail : list.tail = s.list.tail)
    (elsewhere : forall other, other ≠ oldTail -> list.header other = s.list.header other)
    (linked : Linked list.succ free) (own : pc.Ok list free (s.held p))
    (stays : forall node, pc.linking = some node -> node = oldTail) :
    ((s.setList list).setThread p pc).Inv free := by
  have onList := (inv.thread p).linking_mem links
  refine inv.access head tail linked ?_ own (fun node link => stays node link ▸ links)
  intro q differs
  refine (inv.thread q).congr (fun other relied => elsewhere other ?_) fun _ _ _ next => next
  rintro rfl
  rcases relied with theirs | theirLink
  · exact inv.heldFree q other theirs onList
  · exact differs (inv.linkers q p other theirLink links)

/-- The exchange of the head, where the link is the one that was read: the
first buffer leaves the list and the second is the new head. -/
theorem take (inv : s.Inv free) {next : Nat} (link : s.list.succ s.list.head = some next) :
    Exists fun rest => (((s.setList { s.list with head := next }).setHeld p
      (s.held p ++ [s.list.head])).setThread p (.clearFlag s.list.head)).Inv rest := by
  rcases List.head?_eq_some_iff.mp inv.first with ⟨rest, rfl⟩
  rcases inv.linked.of_succ_eq_some link with ⟨after, rfl, linked⟩
  have distinct := List.nodup_cons.mp inv.distinct
  have unheld : forall q, s.list.head ∉ s.held q := fun q holds =>
    inv.heldFree q _ holds List.mem_cons_self
  have held_cases : forall q node,
      node ∈ Function.update s.held p (s.held p ++ [s.list.head]) q ->
      node ∈ s.held q \/ (q = p /\ node = s.list.head) := by
    intro q node member
    by_cases same : q = p
    · subst same
      simpa using member
    · exact Or.inl (by simpa [same] using member)
  refine ⟨next :: after, rfl, inv.last, distinct.2, linked, ?_, ?_, ?_, ?_, ?_⟩
  · intro q
    by_cases same : q = p
    · subst same
      have joined : (s.held q ++ [s.list.head]).Nodup :=
        (inv.heldDistinct q).append (List.nodup_singleton _) (by simpa using unheld q)
      simpa [setThread, setHeld] using joined
    · simpa [setThread, setHeld, setList, same] using inv.heldDistinct q
  · intro q node member onList
    rcases held_cases q node member with before | ⟨_, rfl⟩
    · exact inv.heldFree q node before (List.mem_cons_of_mem _ onList)
    · exact distinct.1 onList
  · intro q r node one two
    rcases held_cases q node one with oneBefore | ⟨oneNew, rfl⟩
    · rcases held_cases r node two with twoBefore | ⟨_, rfl⟩
      · exact inv.heldApart q r node oneBefore twoBefore
      · exact absurd oneBefore (unheld q)
    · rcases held_cases r _ two with twoBefore | ⟨twoNew, _⟩
      · exact absurd twoBefore (unheld r)
      · rw [oneNew, twoNew]
  · refine ok_update ?_ fun q differs => ?_
    · simp [setThread, setHeld, ListThread.Ok]
    · -- the first buffer has a link, so it is not one that a thread is linking
      have moved : (s.thread q).Ok { s.list with head := next } (next :: after) (s.held q) := by
        refine (inv.thread q).congr (fun _ _ => rfl) fun node links other pair =>
          pair.of_cons ?_
        rintro rfl
        rw [BufferList.succ_eq_none ((inv.thread q).linking_hasNext links)] at link
        cases link
      simpa [setThread, setHeld, setList, differs] using moved
  · exact inv.linkers_update fun node link => by cases link

/-- The exchange of the tail: the buffer is appended, and its thread owes the
link of the old tail. -/
theorem append (inv : s.Inv free) {node : Nat} (holds : node ∈ s.held p)
    (reset : (s.list.header node).flag.hasNext = false) :
    (((s.setList { s.list with tail := node }).setHeld p ((s.held p).erase node)).setThread p
      (.linkNext node s.list.tail)).Inv (free ++ [node]) := by
  have fresh := inv.heldFree p node holds
  have held_cases : forall q other,
      other ∈ Function.update s.held p ((s.held p).erase node) q ->
      other ∈ s.held q /\ other ≠ node := by
    intro q other member
    by_cases same : q = p
    · subst same
      rw [Function.update_self, (inv.heldDistinct q).mem_erase_iff] at member
      exact member.symm
    · rw [Function.update_of_ne same] at member
      refine ⟨member, ?_⟩
      rintro rfl
      exact same (inv.heldApart q p other member holds)
  have tailUnlinked : (s.list.header s.list.tail).flag.hasNext = false := by
    have none := inv.linked.succ_getLast inv.last
    by_contra wrong
    rw [BufferList.succ_eq_some (Bool.not_eq_false _ ▸ wrong) rfl] at none
    cases none
  refine ⟨?_, by simp [setThread, setHeld, setList], ?_,
    inv.linked.append (BufferList.succ_eq_none reset), ?_, ?_, ?_, ?_, ?_⟩
  · simp [setThread, setHeld, setList, inv.first]
  · exact inv.distinct.append (List.nodup_singleton _) (by simpa using fresh)
  · intro q
    by_cases same : q = p
    · subst same
      simpa [setThread, setHeld] using (inv.heldDistinct q).erase node
    · simpa [setThread, setHeld, setList, same] using inv.heldDistinct q
  · intro q other member onList
    rcases held_cases q other member with ⟨before, differs⟩
    rcases List.mem_append.mp onList with old | added
    · exact inv.heldFree q other before old
    · exact differs (List.mem_singleton.mp added)
  · intro q r other one two
    exact inv.heldApart q r other (held_cases q other one).1 (held_cases r other two).1
  · refine ok_update ⟨Adjacent.of_getLast inv.last node, tailUnlinked⟩ fun q differs => ?_
    have kept : (s.thread q).Ok { s.list with tail := node } (free ++ [node]) (s.held q) :=
      (inv.thread q).congr (fun _ _ => rfl) fun _ _ _ pair => pair.append [node]
    simpa [setThread, setHeld, setList, differs] using kept
  · -- the old tail was followed by nothing, so no other thread is linking it
    refine inv.linkers_update fun tail link q _ theirs => ?_
    cases link
    rcases (inv.thread q).linking_adjacent theirs with ⟨next, adjacent⟩
    exact adjacent.ne_getLast inv.distinct inv.last rfl

theorem accessNone (inv : s.Inv free) (own : pc.Ok s.list free (s.held p))
    (links : forall node, pc.linking = some node -> (s.thread p).linking = some node) :
    (s.setThread p pc).Inv free :=
  inv.accessSame rfl rfl rfl own links

theorem ok_retry (l : BufferList) (free held : List Nat) (oldHead tries : Nat) :
    (retry oldHead tries).Ok l free held := by
  cases tries <;> trivial

theorem linking_retry (oldHead tries : Nat) : (retry oldHead tries).linking = none := by
  cases tries <;> rfl

theorem popAccess (inv : s.Inv free) (unchanged : linkUnchanged s (.access p) = true)
    (moved : s.popAccess p (s.thread p) = some t) : Exists fun free => t.Inv free := by
  have ok := inv.thread p
  unfold linkUnchanged at unchanged
  revert moved ok
  cases pc : s.thread p with
  | loadHead | nextBufferOffset oldHead tries =>
    rintro ⟨⟩ -
    exact ⟨free, inv.accessNone trivial fun _ link => by cases link⟩
  | subSize oldHead =>
    rw [ListState.popAccess]
    split
    · rintro ⟨⟩ -
      exact ⟨free, inv.accessSame rfl rfl rfl trivial fun _ link => by cases link⟩
    · rintro ⟨⟩ -
      refine ⟨free, inv.accessSame rfl rfl rfl (ok_retry ..) fun _ link => ?_⟩
      rw [linking_retry] at link
      cases link
  | hasNext oldHead tries | testSize tries =>
    rw [ListState.popAccess]
    split <;> rintro ⟨⟩ - <;> exact ⟨free, inv.accessNone trivial fun _ link => by cases link⟩
  | exchangeHead oldHead next tries =>
    simp only [pc, decide_eq_true_eq] at unchanged
    rw [ListState.popAccess]
    split
    · next atHead =>
      rintro ⟨⟩ -
      subst atHead
      rcases unchanged.resolve_left (fun differs => differs rfl) with ⟨hasNext, target⟩
      exact inv.take (BufferList.succ_eq_some hasNext target)
    · rintro ⟨⟩ -
      exact ⟨free, inv.accessNone trivial fun _ link => by cases link⟩
  | clearFlag node =>
    rintro ⟨⟩ ok
    exact ⟨free, inv.accessHeld ok rfl rfl
      (fun _ differs => BufferList.header_setFlag_of_ne differs) ok rfl⟩
  | loadUsed node =>
    rintro ⟨⟩ ok
    exact ⟨free, inv.accessNone ok fun _ link => by cases link⟩
  | setInUsed node flag =>
    rintro ⟨⟩ ok
    exact ⟨free, inv.accessHeld ok rfl rfl
      (fun _ differs => BufferList.header_setFlag_of_ne differs) trivial rfl⟩
  | addCounter node | giveBack =>
    rintro ⟨⟩ -
    exact ⟨free, inv.accessSame rfl rfl rfl trivial fun _ link => by cases link⟩
  | reloadHead tries =>
    rintro ⟨⟩ -
    refine ⟨free, inv.accessNone (ok_retry ..) fun _ link => ?_⟩
    rw [linking_retry] at link
    cases link
  | _ => rintro ⟨⟩

theorem pushAccess (inv : s.Inv free) (moved : s.pushAccess p (s.thread p) = some t) :
    Exists fun free => t.Inv free := by
  have ok := inv.thread p
  revert moved ok
  cases pc : s.thread p with
  | unlinkNext node =>
    rintro ⟨⟩ ok
    exact ⟨free, inv.accessHeld ok rfl rfl
      (fun _ differs => BufferList.header_setNext_of_ne differs) ok rfl⟩
  | loadUnlink node | loadTail node =>
    rintro ⟨⟩ ok
    exact ⟨free, inv.accessNone ok fun _ link => by cases link⟩
  | unlinkFlag node flag =>
    rintro ⟨⟩ ok
    exact ⟨free, inv.accessHeld ok rfl rfl
      (fun _ differs => BufferList.header_setFlag_of_ne differs) ok rfl⟩
  | resetFlag node =>
    rintro ⟨⟩ ok
    refine ⟨free, inv.accessHeld ok rfl rfl
      (fun _ differs => BufferList.header_setFlag_of_ne differs) ⟨ok, ?_⟩ rfl⟩
    rw [BufferList.header_setFlag_self]
    rfl
  | exchangeTail node oldTail =>
    rw [ListState.pushAccess]
    split
    · next atTail =>
      rintro ⟨⟩ ok
      subst atTail
      exact ⟨_, inv.append ok.1 ok.2⟩
    · rintro ⟨⟩ ok
      exact ⟨free, inv.accessNone ok fun _ link => by cases link⟩
  | linkNext node oldTail =>
    rintro ⟨⟩ ok
    have links : (s.thread p).linking = some oldTail := by rw [pc]; rfl
    have elsewhere : forall other, other ≠ oldTail ->
        (s.list.setNext oldTail node).header other = s.list.header other :=
      fun _ differs => BufferList.header_setNext_of_ne differs
    -- the flag is still clear, so the new link cannot be followed
    have unlinked : (s.list.setNext oldTail node).succ oldTail = s.list.succ oldTail := by
      rw [BufferList.succ_eq_none ok.2, BufferList.succ_eq_none]
      rw [BufferList.header_setNext_self]
      exact ok.2
    refine ⟨free, inv.accessLinking links rfl rfl elsewhere ?_ ⟨ok.1, ?_, ?_⟩
      fun _ link => (Option.some.inj link).symm⟩
    · refine inv.linked.congr fun other _ => ?_
      by_cases same : other = oldTail
      · rw [same, unlinked]
      · exact BufferList.succ_congr (elsewhere other same)
    · rw [BufferList.header_setNext_self]
      exact ok.2
    · rw [BufferList.header_setNext_self]
  | loadLink node oldTail =>
    rintro ⟨⟩ ok
    exact ⟨free, inv.accessNone ok fun _ link => by rw [pc]; exact link⟩
  | linkFlag node oldTail flag =>
    rintro ⟨⟩ ok
    have links : (s.thread p).linking = some oldTail := by rw [pc]; rfl
    have elsewhere : forall other, other ≠ oldTail ->
        (s.list.setFlag oldTail { flag with hasNext := true }).header other =
          s.list.header other :=
      fun _ differs => BufferList.header_setFlag_of_ne differs
    refine ⟨free, inv.accessLinking links rfl rfl elsewhere ?_ trivial
      fun _ link => by cases link⟩
    refine inv.linked.link inv.distinct ok.1 (BufferList.succ_eq_some ?_ ?_)
      fun other differs => BufferList.succ_congr (elsewhere other differs)
    · rw [BufferList.header_setFlag_self]
    · rw [BufferList.header_setFlag_self]
      exact ok.2.2
  | addSize | subCounter =>
    rintro ⟨⟩ -
    exact ⟨free, inv.accessSame rfl rfl rfl trivial fun _ link => by cases link⟩
  | _ => rintro ⟨⟩

theorem step {action : ListAction} (inv : s.Inv free) (unchanged : linkUnchanged s action = true)
    (moved : s.step action = some t) :
    Exists fun free => t.Inv free := by
  cases action with
  | pop p =>
    rcases of_guarded moved with ⟨_, rfl⟩
    exact ⟨free, inv.accessNone trivial fun _ link => by cases link⟩
  | push p node =>
    rcases of_guarded moved with ⟨⟨_, holds⟩, rfl⟩
    exact ⟨free, inv.accessNone holds fun _ link => by cases link⟩
  | access p =>
    simp only [ListState.step, Option.or_eq_some_iff] at moved
    rcases moved with popped | ⟨_, pushed⟩
    · exact inv.popAccess unchanged popped
    · exact inv.pushAccess pushed

end Inv

theorem inv_create {bufferNum capPerBuffer memLen offsetInMem : Nat}
    {memory : Nat -> BufferHeader} {list : BufferList}
    (created : BufferList.create bufferNum capPerBuffer memLen offsetInMem memory = .ok list) :
    Exists fun free => (new list).Inv free := by
  rcases BufferList.create_eq_ok created with ⟨last, fresh, head, tail, rfl⟩
  have positive : 0 < capPerBuffer + bufferHeaderSize := Nat.add_pos_right _ (by decide)
  rcases BufferList.linkBuffers_shape
    (capPerBuffer + bufferHeaderSize) (last + 1) 0 fresh with ⟨header, shape⟩
  have linked := BufferList.linked_linkBuffers positive last 0 fresh
  rw [Nat.zero_add, <- tail] at linked
  rw [shape] at linked ⊢
  refine ⟨BufferList.offsets (capPerBuffer + bufferHeaderSize) (last + 1) 0, ?_⟩
  exact {
    first := congrArg some head.symm
    last := by rw [BufferList.getLast_offsets, Nat.zero_add, <- tail]; rfl
    distinct := BufferList.nodup_offsets positive ..
    linked := linked
    heldDistinct := fun _ => List.nodup_nil
    heldFree := fun _ _ member => by cases member
    heldApart := fun _ _ _ member => by cases member
    thread := fun _ => trivial
    linkers := fun _ _ _ link => by cases link }

theorem inv_of_reachable {bufferNum capPerBuffer : Nat} {s : ListState}
    (reachable : (listSystem bufferNum capPerBuffer).ReachableUnder
      (fun s action => linkUnchanged s action = true) s) : Exists fun free => s.Inv free := by
  refine reachable.invariant (P := fun s => Exists fun free => s.Inv free) ?_ ?_
  · rintro start ⟨memLen, offsetInMem, memory, list, created, rfl⟩
    exact inv_create created
  · rintro before action after _ unchanged moved ⟨free, inv⟩
    exact inv.step unchanged moved

end ListState

/-- In every run in which each exchange of the head finds the link that its
`pop` read, no buffer is held by two threads or twice by one, and the head names
no held buffer. -/
theorem pop_exclusive {bufferNum capPerBuffer : Nat} {s : ListState}
    (reachable : (listSystem bufferNum capPerBuffer).ReachableUnder
      (fun s action => linkUnchanged s action = true) s) :
    (forall p q node, node ∈ s.held p -> node ∈ s.held q -> p = q) /\
      (forall p, (s.held p).Nodup) /\ forall p, s.list.head ∉ s.held p := by
  rcases ListState.inv_of_reachable reachable with ⟨free, inv⟩
  refine ⟨inv.heldApart, inv.heldDistinct, fun p holds => inv.heldFree p _ holds ?_⟩
  exact List.mem_of_head? inv.first

/-- The accesses of an undisturbed `pop` and `push`. -/
def popAlone (p : Nat) : List ListAction :=
  .pop p :: List.replicate 9 (.access p)

def pushAlone (p node : Nat) : List ListAction :=
  .push p node :: List.replicate 11 (.access p)

/-- Four buffers of eight bytes in a zeroed mapping. -/
def fourBuffers : BufferList :=
  ((BufferList.create 4 8 148 0 (fun _ => ⟨0, .clear⟩)).toOption.get (by decide))

/-- A buffer taken off the head by one thread comes back behind the tail while
another thread holds the next one. -/
theorem pop_exclusive_recycled :
    Exists fun s : ListState => (listSystem 4 8).ReachableUnder
        (fun s action => linkUnchanged s action = true) s /\
      s.held 0 = [28] /\ s.held 1 = [56] /\ s.list.tail = 0 /\
      forall p, s.list.head ∉ s.held p := by
  have found : Exists fun s : ListState => (listSystem 4 8).ReachableUnder
      (fun s action => linkUnchanged s action = true) s /\
      (s.held 0 = [28] /\ s.held 1 = [56] /\ s.list.tail = 0) :=
    System.exists_reachable_of_run (.new fourBuffers)
      (popAlone 0 ++ popAlone 0 ++ popAlone 1 ++ pushAlone 0 0)
      ⟨148, 0, fun _ => ⟨0, .clear⟩, fourBuffers, rfl, rfl⟩ (by decide +kernel)
  rcases found with ⟨s, reachable, zero, one, tail⟩
  exact ⟨s, reachable, zero, one, tail, (pop_exclusive reachable).2.2⟩

/-- Thread 0 reads the head and its link and is then overtaken: thread 1 pops
the first two buffers, puts the first back, and pops and recycles until the
first is the head again.  The exchange of thread 0 succeeds and makes the head
the buffer that thread 1 still holds. -/
theorem pop_installs_held_head :
    Exists fun s : ListState => (listSystem 4 8).Reachable s /\
      s.list.head = 28 /\ s.held 0 = [0] /\ s.held 1 = [28, 84] := by
  exact System.exists_reachable_of_run (.new fourBuffers)
    (.pop 0 :: List.replicate 4 (.access 0) ++ popAlone 1 ++ popAlone 1 ++ pushAlone 1 0 ++
      popAlone 1 ++ pushAlone 1 56 ++ popAlone 1 ++ [.access 0])
    ⟨148, 0, fun _ => ⟨0, .clear⟩, fourBuffers, rfl, rfl⟩ (by decide +kernel)


end Buffer
end Shmipc
