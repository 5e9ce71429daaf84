import Mathlib.Data.List.Nodup
import Shmipc.Session.Accept

namespace Shmipc
namespace Session

open Transition
open Shmipc.Stream (Status)

/-!
# Each id is accepted at most once

A lookup that misses is taken for a new stream.  It may as well have missed because
the stream was there and has left the table, or because another task is about to
insert it.  In runs in which neither happens every id gets one object, so it is
accepted once and one object receives its data.

A stream leaves the table in order if no message that would open it is underway and
the client writes none to it later.  Two tasks must not both be about to insert an
id; sessions that take one message at a time see to that themselves.
-/

namespace WorkerPoint

/-- The id that the task would open a stream for if the lookup misses. -/
def opening : WorkerPoint -> Option Nat
  | .resolve msg => if msg.status = .opened then some msg.id else none
  | .create msg => some msg.id
  | _ => none

def creating : WorkerPoint -> Option Nat
  | .create msg => some msg.id
  | _ => none

def surfacing : WorkerPoint -> Option StreamRef
  | .surface _ stream => some stream
  | _ => none

/-- The stream that the task has found or created. -/
def holds : WorkerPoint -> Option StreamRef
  | .surface _ stream => some stream
  | .deliver _ stream => some stream
  | _ => none

end WorkerPoint

def SocketFrame.closing : SocketFrame -> Option Nat
  | .streamClose id => some id
  | .fallback _ _ => none

namespace Server

/-- A message that opens a stream of this id has not been looked up yet. -/
def Underway (s : Server) (id : Nat) : Prop :=
  (id, Status.opened) ∈ s.queue \/ SocketFrame.fallback id .opened ∈ s.socket \/
    (s.worker .reader).point.opening = some id \/ (s.worker .drainer).point.opening = some id

instance (s : Server) (id : Nat) : Decidable (s.Underway id) :=
  inferInstanceAs (Decidable (_ \/ _ \/ _ \/ _))

/-- There was a stream of this id and it has left the table. -/
def Left (s : Server) (id : Nat) : Prop := s.streams id = none /\ ∃ c ∈ s.created, c.id = id

instance (s : Server) (id : Nat) : Decidable (s.Left id) := inferInstanceAs (Decidable (_ /\ _))

theorem underway_of_point {s : Server} {id : Nat} (worker : WorkerId)
    (opens : (s.worker worker).point.opening = some id) : s.Underway id := by
  cases worker with
  | reader => exact .inr (.inr (.inl opens))
  | drainer => exact .inr (.inr (.inr opens))

end Server

/-- Streams leave the table in order, and no two tasks are about to insert the
same id. -/
def Orderly (version : ProtoVersion) (mode : WakeupMode) (s : Server) : AcceptAction -> Prop
  | .sendQueue id status => status = .opened -> ¬ s.Left id
  | .sendSocket id status => status = .opened -> ¬ s.Left id
  | .readFrame =>
    ∀ id ∈ s.socket.head?.bind SocketFrame.closing, s.streams id = none \/ ¬ s.Underway id
  | .close stream => s.state stream = .closed \/ ¬ s.Underway stream.id
  | .lookup worker =>
    ∀ id ∈ (s.worker worker).point.opening,
      Serial version mode \/ (s.worker worker.other).point.creating ≠ some id
  | _ => True

instance (version : ProtoVersion) (mode : WakeupMode) (s : Server) (action : AcceptAction) :
    Decidable (Orderly version mode s action) :=
  match action with
  | .sendQueue _ _ => inferInstanceAs (Decidable (_ -> _))
  | .sendSocket _ _ => inferInstanceAs (Decidable (_ -> _))
  | .readFrame => inferInstanceAs (Decidable (∀ id ∈ _, _))
  | .close _ => inferInstanceAs (Decidable (_ \/ _))
  | .lookup _ => inferInstanceAs (Decidable (∀ id ∈ _, _))
  | .openStream _ | .sendClose _ | .pop _ | .insert _ | .surface _ | .deliver _ | .flush _
  | .reset _ => isTrue trivial

/-- One object for each id: all objects in sight are among those created, no two
were created for one id, and what is still to come opens no id a second time. -/
structure AcceptInv (version : ProtoVersion) (mode : WakeupMode) (s : Server) : Prop where
  unique : (s.created.map (·.id)).Nodup
  table : forall id c, s.streams id = some c -> c ∈ s.created
  held : forall worker c, (s.worker worker).point.holds = some c -> c ∈ s.created
  batched : forall worker, ∀ batch ∈ (s.worker worker).batches, batch.1 ∈ s.created
  delivered : ∀ c ∈ s.received, c ∈ s.created
  surfaced : ∀ c ∈ s.accepted, c ∈ s.created
  once : s.accepted.Nodup
  surfacing : forall worker c, (s.worker worker).point.surfacing = some c ->
    c ∉ s.accepted /\ (s.worker worker.other).point.surfacing ≠ some c
  creating : forall worker id, (s.worker worker).point.creating = some id ->
    (∀ c ∈ s.created, c.id ≠ id) /\ (s.worker worker.other).point.creating ≠ some id
  gone : forall id, s.Underway id -> ¬ s.Left id
  serial : Serial version mode -> forall worker,
    (s.worker worker).AtRest \/ (s.worker worker.other).AtRest

namespace AcceptInv

variable {version : ProtoVersion} {mode : WakeupMode} {s t : Server}

theorem new : AcceptInv version mode Server.new := by
  constructor
  case gone =>
    intro id underway
    rcases underway with queued | sent | opens | opens
    · cases queued
    · cases sent
    · cases opens
    · cases opens
  case serial => exact fun _ _ => .inl ⟨rfl, rfl⟩
  all_goals first | exact List.nodup_nil | nofun

variable {worker : WorkerId} {msg : Incoming} {stream : StreamRef}

/-- A task that has taken a message is the only one, where one at a time takes. -/
theorem alone (inv : AcceptInv version mode s) (busy : (s.worker worker).point ≠ .idle)
    (serial : Serial version mode) :
    (s.worker worker.other).AtRest := by
  rcases inv.serial serial worker with rest | rest
  · exact absurd rest.1 busy
  · exact rest

theorem of_kept (inv : AcceptInv version mode s) (streams : t.streams = s.streams)
    (workers : t.worker = s.worker) (created : t.created = s.created)
    (accepted : t.accepted = s.accepted) (received : ∀ c ∈ t.received, c ∈ s.created)
    (gone : forall id, t.Underway id -> ¬ s.Left id) : AcceptInv version mode t where
  unique := by rw [created]; exact inv.unique
  table := by rw [streams, created]; exact inv.table
  held := by rw [workers, created]; exact inv.held
  batched := by rw [workers, created]; exact inv.batched
  delivered := by rw [created]; exact received
  surfaced := by rw [accepted, created]; exact inv.surfaced
  once := by rw [accepted]; exact inv.once
  surfacing := by rw [workers, accepted]; exact inv.surfacing
  creating := by rw [workers, created]; exact inv.creating
  gone := by
    intro id underway left
    rw [Server.Left, streams, created] at left
    exact gone id underway left
  serial := by rw [workers]; exact inv.serial

theorem setIncoming (inv : AcceptInv version mode s) {queue : List (Nat × Status)}
    {socket : List SocketFrame}
    (queued : forall id, (id, Status.opened) ∈ queue -> ¬ s.Left id)
    (sent : forall id, SocketFrame.fallback id .opened ∈ socket -> ¬ s.Left id) :
    AcceptInv version mode { s with queue := queue, socket := socket } := by
  refine inv.of_kept rfl rfl rfl rfl inv.delivered fun id underway => ?_
  rcases underway with member | member | opens | opens
  · exact queued id member
  · exact sent id member
  · exact inv.gone id (Server.underway_of_point .reader opens)
  · exact inv.gone id (Server.underway_of_point .drainer opens)

theorem setWorker (inv : AcceptInv version mode s) (worker : WorkerId) (next : Worker)
    (held : forall c, next.point.holds = some c -> c ∈ s.created)
    (batched : ∀ batch ∈ next.batches, batch.1 ∈ s.created)
    (surfacing : forall c, next.point.surfacing = some c ->
      c ∉ s.accepted /\ (s.worker worker.other).point.surfacing ≠ some c)
    (creating : forall id, next.point.creating = some id ->
      (∀ c ∈ s.created, c.id ≠ id) /\ (s.worker worker.other).point.creating ≠ some id)
    (opening : forall id, next.point.opening = some id -> ¬ s.Left id)
    (serial : Serial version mode -> (s.worker worker.other).AtRest \/ next.AtRest) :
    AcceptInv version mode (s.setWorker worker next) := by
  have self := s.setWorker_self worker next
  have other := s.setWorker_other worker next
  have back := worker.other_other
  refine { inv with
    held := ?held, batched := ?batched, surfacing := ?surfacing, creating := ?creating,
    gone := ?gone, serial := ?serial }
  case held =>
    refine WorkerId.both worker ?_ ?_
    · rw [self]
      exact held
    · rw [other]
      exact inv.held _
  case batched =>
    refine WorkerId.both worker ?_ ?_
    · rw [self]
      exact batched
    · rw [other]
      exact inv.batched _
  case surfacing =>
    refine WorkerId.both worker ?_ ?_
    · rw [self, other]
      exact surfacing
    · rw [back, self, other]
      intro c waits
      refine ⟨(inv.surfacing _ c waits).1, fun same => ?_⟩
      exact (surfacing c same).2 waits
  case creating =>
    refine WorkerId.both worker ?_ ?_
    · rw [self, other]
      exact creating
    · rw [back, self, other]
      intro id waits
      refine ⟨(inv.creating _ id waits).1, fun same => ?_⟩
      exact (creating id same).2 waits
  case gone =>
    intro id underway
    have opens : next.point.opening = some id \/ s.Underway id := by
      rcases underway with queued | sent | opens | opens
      · exact .inr (.inl queued)
      · exact .inr (.inr (.inl sent))
      all_goals
        cases worker with
        | reader | drainer =>
          first
            | exact .inl opens
            | exact .inr (Server.underway_of_point _ opens)
    rcases opens with opens | opens
    · exact opening id opens
    · exact inv.gone id opens
  case serial =>
    intro one
    refine WorkerId.both worker ?_ ?_
    · rw [self, other]
      exact (serial one).symm
    · rw [back, self, other]
      exact serial one

theorem idle (inv : AcceptInv version mode s) (busy : (s.worker worker).point ≠ .idle) :
    AcceptInv version mode (s.setPoint worker .idle) := by
  apply inv.setWorker worker
  · nofun
  · exact inv.batched worker
  · nofun
  · nofun
  · nofun
  · exact fun serial => .inl (inv.alone busy serial)

theorem take (inv : AcceptInv version mode s) (free : s.Free version mode worker)
    (present : msg.status = .opened -> ¬ s.Left msg.id) :
    AcceptInv version mode (s.setPoint worker (.resolve msg)) := by
  apply inv.setWorker worker
  · nofun
  · exact inv.batched worker
  · nofun
  · nofun
  · intro id opens
    rcases of_guarded opens with ⟨opened, rfl⟩
    exact present opened
  · exact fun serial => .inl (free.2 serial)

theorem found (inv : AcceptInv version mode s) (busy : (s.worker worker).point ≠ .idle)
    (known : stream ∈ s.created) :
    AcceptInv version mode (s.setPoint worker (.deliver msg stream)) := by
  apply inv.setWorker worker
  · intro c same
    cases same
    exact known
  · exact inv.batched worker
  · nofun
  · nofun
  · nofun
  · exact fun serial => .inl (inv.alone busy serial)

theorem lookup (inv : AcceptInv version mode s) (point : (s.worker worker).point = .resolve msg)
    (apart : msg.status = .opened -> Serial version mode \/
      (s.worker worker.other).point.creating ≠ some msg.id) :
    AcceptInv version mode (s.lookup worker msg) := by
  have busy : (s.worker worker).point ≠ .idle := by
    rw [point]
    nofun
  unfold Server.lookup
  cases entry : s.streams msg.id with
  | some stream => exact inv.found busy (inv.table _ _ entry)
  | none =>
    dsimp only
    by_cases opened : msg.status = .opened
    · rw [if_pos opened]
      have opens : (s.worker worker).point.opening = some msg.id := by
        rw [point, WorkerPoint.opening, if_pos opened]
      have absent := inv.gone _ (Server.underway_of_point worker opens)
      apply inv.setWorker worker
      · nofun
      · exact inv.batched worker
      · nofun
      · intro id creates
        cases creates
        constructor
        · exact fun c member same => absent ⟨entry, c, member, same⟩
        · rcases apart opened with serial | differs
          · rw [(inv.alone busy serial).1]
            nofun
          · exact differs
      · intro id opens
        cases opens
        exact absent
      · exact fun serial => .inl (inv.alone busy serial)
    · rw [if_neg opened]
      exact inv.idle busy

/-- A stream is created for an id that has none and that no task is about to
create one for. -/
theorem create (inv : AcceptInv version mode s) {id : Nat} (named : stream.id = id)
    (fresh : ∀ c ∈ s.created, c.id ≠ id)
    (none : forall worker, (s.worker worker).point.creating ≠ some id) :
    AcceptInv version mode
      { s with
        streams := Function.update s.streams id (some stream)
        created := s.created ++ [stream] } := by
  have grown {c : StreamRef} (member : c ∈ s.created) : c ∈ s.created ++ [stream] :=
    List.mem_append_left _ member
  refine { inv with
    unique := ?unique, table := ?table, creating := ?creating, gone := ?gone
    held := fun worker c holds => grown (inv.held worker c holds)
    batched := fun worker batch member => grown (inv.batched worker batch member)
    delivered := fun c member => grown (inv.delivered c member)
    surfaced := fun c member => grown (inv.surfaced c member) }
  case unique =>
    rw [List.map_append, List.map_singleton, List.nodup_append]
    refine ⟨inv.unique, List.nodup_singleton _, ?_⟩
    intro other member last single same
    rcases List.mem_map.mp member with ⟨c, known, rfl⟩
    rw [List.mem_singleton.mp single, named] at same
    exact fresh c known same
  case table =>
    intro key c entry
    by_cases same : key = id
    · subst same
      have stored : some stream = some c := (Function.update_self key _ _).symm.trans entry
      cases stored
      exact List.mem_append_right _ List.mem_cons_self
    · have stored : s.streams key = some c := (Function.update_of_ne same _ _).symm.trans entry
      exact grown (inv.table key c stored)
  case creating =>
    intro worker key creates
    rcases inv.creating worker key creates with ⟨absent, apart⟩
    refine ⟨fun c member same => ?_, apart⟩
    rcases List.mem_append.mp member with known | last
    · exact absent c known same
    · rw [List.mem_singleton.mp last, named] at same
      exact none worker (same ▸ creates)
  case gone =>
    intro key underway left
    rcases left with ⟨entry, c, member, same⟩
    by_cases own : key = id
    · subst own
      exact absurd ((Function.update_self key _ _).symm.trans entry) nofun
    · rcases List.mem_append.mp member with known | last
      · exact inv.gone key underway ⟨(Function.update_of_ne own _ _).symm.trans entry, c, known, same⟩
      · rw [List.mem_singleton.mp last, named] at same
        exact own same.symm

theorem insert (inv : AcceptInv version mode s) (point : (s.worker worker).point = .create msg) :
    AcceptInv version mode (s.insert worker msg) := by
  let stream : StreamRef := { id := msg.id, nr := s.created.length }
  have busy : (s.worker worker).point ≠ .idle := by
    rw [point]
    nofun
  have creates : (s.worker worker).point.creating = some msg.id := by
    rw [point, WorkerPoint.creating]
  rcases inv.creating worker msg.id creates with ⟨fresh, apart⟩
  have waits := inv.idle busy
  have other : (s.setPoint worker .idle).worker worker.other = s.worker worker.other :=
    Server.setWorker_other _ _ _
  have none : forall w, ((s.setPoint worker .idle).worker w).point.creating ≠ some msg.id := by
    refine WorkerId.both worker ?_ ?_
    · rw [Server.setPoint, Server.setWorker_self]
      nofun
    · rw [other]
      exact apart
  have made := waits.create (rfl : stream.id = msg.id) fresh none
  have unknown : stream ∉ s.created := fun member => fresh stream member rfl
  have placed := made.setWorker worker { s.worker worker with point := .surface msg stream }
    (by
      intro c same
      cases same
      exact List.mem_append_right _ List.mem_cons_self)
    (fun batch member => List.mem_append_left _ (inv.batched worker batch member))
    (by
      intro c same
      cases same
      refine ⟨fun accepted => unknown (inv.surfaced _ accepted), ?_⟩
      dsimp only
      rw [other]
      intro waiting
      apply unknown
      apply inv.held worker.other
      revert waiting
      cases (s.worker worker.other).point <;> simp [WorkerPoint.surfacing, WorkerPoint.holds])
    nofun nofun
    (by
      intro serial
      dsimp only
      rw [other]
      exact .inl (inv.alone busy serial))
  have same : Server.setWorker
      { s.setPoint worker .idle with
        streams := Function.update s.streams msg.id (some stream)
        created := s.created ++ [stream] }
      worker { s.worker worker with point := .surface msg stream } = s.insert worker msg := by
    simp only [Server.insert, Server.setPoint, Server.setWorker, Function.update_idem, stream]
  exact same ▸ placed

theorem surface (inv : AcceptInv version mode s)
    (point : (s.worker worker).point = .surface msg stream) :
    AcceptInv version mode
      ({ s with accepted := s.accepted ++ [stream] }.setPoint worker (.deliver msg stream)) := by
  have busy : (s.worker worker).point ≠ .idle := by
    rw [point]
    nofun
  have known : stream ∈ s.created := inv.held worker stream (by rw [point, WorkerPoint.holds])
  rcases inv.surfacing worker stream (by rw [point, WorkerPoint.surfacing]) with ⟨first, apart⟩
  have moved : AcceptInv version mode (s.setPoint worker (.deliver msg stream)) :=
    inv.found busy known
  have none : forall w,
      ((s.setPoint worker (.deliver msg stream)).worker w).point.surfacing ≠ some stream := by
    refine WorkerId.both worker ?_ ?_
    · rw [Server.setPoint, Server.setWorker_self]
      nofun
    · rw [Server.setPoint, Server.setWorker_other]
      exact apart
  refine { moved with
    surfaced := forall_mem_snoc inv.surfaced known, once := ?once, surfacing := ?surfacing }
  case once =>
    apply List.nodup_append.mpr
    refine ⟨inv.once, List.nodup_singleton _, ?_⟩
    intro c earlier last single same
    rw [List.mem_singleton.mp single] at same
    exact first (same ▸ earlier)
  case surfacing =>
    intro w c waits
    rcases moved.surfacing w c waits with ⟨absent, different⟩
    refine ⟨fun member => ?_, different⟩
    rcases List.mem_append.mp member with earlier | last
    · exact absent earlier
    · rw [List.mem_singleton.mp last] at waits
      exact none w waits

theorem remove (inv : AcceptInv version mode s) {id : Nat} (settled : ¬ s.Underway id) :
    AcceptInv version mode (s.remove id) := by
  refine { inv with table := ?table, gone := ?gone }
  case table =>
    intro key c entry
    by_cases same : key = id
    · subst same
      exact absurd ((Function.update_self key _ _).symm.trans entry) nofun
    · exact inv.table key c ((Function.update_of_ne same _ _).symm.trans entry)
  case gone =>
    intro key underway left
    by_cases same : key = id
    · exact settled (same ▸ underway)
    · exact inv.gone key underway ⟨(Function.update_of_ne same _ _).symm.trans left.1, left.2⟩

theorem halfClose (inv : AcceptInv version mode s) (stream : StreamRef) :
    AcceptInv version mode (s.halfClose stream) := by
  unfold Server.halfClose
  split
  · exact inv.of_kept rfl rfl rfl rfl inv.delivered inv.gone
  · exact inv

theorem receive (inv : AcceptInv version mode s) (known : stream ∈ s.created) :
    AcceptInv version mode (s.receive stream) :=
  inv.of_kept rfl rfl rfl rfl (forall_mem_snoc inv.delivered known) inv.gone

theorem deliver (inv : AcceptInv version mode s)
    (point : (s.worker worker).point = .deliver msg stream) :
    AcceptInv version mode (s.deliver version worker msg stream) /\
      ((s.deliver version worker msg stream).worker worker).point ≠ .idle := by
  have busy : (s.worker worker).point ≠ .idle := by
    rw [point]
    nofun
  have known : stream ∈ s.created := inv.held worker stream (by rw [point, WorkerPoint.holds])
  have closes {u : Server} (kept : AcceptInv version mode u) (same : u.worker = s.worker) :
      AcceptInv version mode (u.halfClose stream) /\
        ((u.halfClose stream).worker worker).point ≠ .idle := by
    refine ⟨kept.halfClose stream, ?_⟩
    have unmoved : (u.halfClose stream).worker = u.worker := by
      unfold Server.halfClose
      split <;> rfl
    rw [unmoved, same]
    exact busy
  unfold Server.deliver
  cases version with
  | v4 =>
    dsimp only [Server.deliverV4]
    split_ifs
    · exact closes inv rfl
    · exact ⟨inv, busy⟩
    · exact ⟨inv.receive known, busy⟩
  | v5 =>
    dsimp only
    cases msg.socket with
    | true =>
      simp only [if_true, Server.deliverV5Frame]
      by_cases opened : s.state stream = .opened
      · rw [if_pos opened]
        split_ifs
        · exact closes (inv.receive known) rfl
        · exact ⟨inv.receive known, busy⟩
      · rw [if_neg opened]
        split_ifs
        · exact closes inv rfl
        · exact ⟨inv, busy⟩
    | false =>
      simp only [Bool.false_eq_true, if_false, Server.deliverV5]
      split_ifs
      · constructor
        · apply inv.setWorker worker
          · exact inv.held worker
          · exact forall_mem_snoc (inv.batched worker) known
          · exact inv.surfacing worker
          · exact inv.creating worker
          · exact fun id opens => inv.gone id (Server.underway_of_point worker opens)
          · exact fun serial => .inl (inv.alone busy serial)
        · rw [Server.setWorker_self]
          exact busy
      · exact closes inv rfl

theorem flush (inv : AcceptInv version mode s) (idle : (s.worker worker).point = .idle) :
    AcceptInv version mode (s.flush worker) := by
  let delivered := (s.worker worker).batches.filter fun batch =>
    s.generation batch.1 = batch.2 /\ s.state batch.1 = .opened
  have received : ∀ c ∈ s.received ++ delivered.map Prod.fst, c ∈ s.created := by
    intro c member
    rcases List.mem_append.mp member with earlier | flushed
    · exact inv.delivered c earlier
    · rcases List.mem_map.mp flushed with ⟨batch, kept, rfl⟩
      exact inv.batched worker batch (List.mem_filter.mp kept).1
  have taken : AcceptInv version mode { s with received := s.received ++ delivered.map Prod.fst } :=
    inv.of_kept rfl rfl rfl rfl received inv.gone
  apply taken.setWorker worker
  · exact inv.held worker
  · nofun
  · exact inv.surfacing worker
  · exact inv.creating worker
  · exact fun id opens => inv.gone id (Server.underway_of_point worker opens)
  · exact fun _ => .inr ⟨idle, rfl⟩

theorem step {action : AcceptAction} (inv : AcceptInv version mode s)
    (orderly : Orderly version mode s action) (moved : s.step version mode action = some t) :
    AcceptInv version mode t := by
  have queued (id : Nat) (member : (id, Status.opened) ∈ s.queue) : ¬ s.Left id :=
    inv.gone id (.inl member)
  have sent (id : Nat) (member : SocketFrame.fallback id .opened ∈ s.socket) : ¬ s.Left id :=
    inv.gone id (.inr (.inl member))
  cases action with
  | openStream id =>
    rcases Option.ite_none_left_eq_some.mp moved with ⟨_, ⟨⟩⟩
    exact inv.of_kept rfl rfl rfl rfl inv.delivered inv.gone
  | sendQueue id status =>
    rcases of_guarded moved with ⟨_, rfl⟩
    refine inv.setIncoming (fun key member => ?_) sent
    rcases List.mem_append.mp member with earlier | last
    · exact queued key earlier
    · cases List.mem_singleton.mp last
      exact orderly rfl
  | sendSocket id status =>
    rcases of_guarded moved with ⟨_, rfl⟩
    refine inv.setIncoming queued fun key member => ?_
    rcases List.mem_append.mp member with earlier | last
    · exact sent key earlier
    · cases List.mem_singleton.mp last
      exact orderly rfl
  | sendClose id =>
    rcases of_guarded moved with ⟨_, rfl⟩
    refine inv.setIncoming queued fun key member => ?_
    rcases List.mem_append.mp member with earlier | last
    · exact sent key earlier
    · cases List.mem_singleton.mp last
  | pop worker =>
    rcases Option.ite_none_right_eq_some.mp moved with ⟨⟨_, free⟩, moved⟩
    cases elements : s.queue with
    | nil =>
      rw [elements] at moved
      cases moved
    | cons first rest =>
      rw [elements] at moved queued
      rcases Option.ite_none_left_eq_some.mp moved with ⟨_, ⟨⟩⟩
      have popped : AcceptInv version mode { s with queue := rest } :=
        inv.setIncoming (fun key member => queued key (List.mem_cons_of_mem _ member)) sent
      refine popped.take free fun opened => ?_
      apply queued
      rw [<- opened]
      exact List.mem_cons_self
  | readFrame =>
    rcases Option.ite_none_right_eq_some.mp moved with ⟨⟨free, _⟩, moved⟩
    cases frames : s.socket with
    | nil =>
      rw [frames] at moved
      cases moved
    | cons first rest =>
      rw [frames] at moved sent
      have read : AcceptInv version mode { s with socket := rest } :=
        inv.setIncoming queued fun key member => sent key (List.mem_cons_of_mem _ member)
      cases first with
      | fallback id status =>
        cases moved
        refine read.take free fun opened => ?_
        apply sent
        rw [<- opened]
        exact List.mem_cons_self
      | streamClose id =>
        cases moved
        unfold Server.handleStreamClose
        split
        · next stream found =>
          rcases orderly id (by rw [frames]; rfl) with none | settled
          · cases none.symm.trans found
          refine AcceptInv.halfClose (read.remove fun underway => settled ?_) stream
          rcases underway with member | member | opens | opens
          · exact .inl member
          · exact .inr (.inl (frames ▸ List.mem_cons_of_mem _ member))
          · exact .inr (.inr (.inl opens))
          · exact .inr (.inr (.inr opens))
        · exact read
  | lookup worker =>
    simp only [Server.step] at moved
    split at moved
    · next msg point =>
        cases moved
        apply inv.lookup point
        intro opened
        apply orderly
        rw [point, WorkerPoint.opening, if_pos opened]
        exact Option.mem_some_self _
    · cases moved
  | insert worker =>
    simp only [Server.step] at moved
    split at moved
    · next msg point =>
        cases moved
        exact inv.insert point
    · cases moved
  | surface worker =>
    simp only [Server.step] at moved
    split at moved
    · next msg stream point =>
        cases moved
        exact inv.surface point
    · cases moved
  | deliver worker =>
    simp only [Server.step] at moved
    split at moved
    · next msg stream point =>
        cases moved
        rcases inv.deliver point with ⟨delivered, busy⟩
        exact delivered.idle busy
    · cases moved
  | flush worker =>
    rcases of_guarded moved with ⟨idle, rfl⟩
    exact inv.flush idle
  | close stream =>
    rcases of_guarded moved with ⟨_, rfl⟩
    unfold Server.close
    split
    · exact inv
    · next unclosed =>
      have closed : AcceptInv version mode
          { s with state := Function.update s.state stream .closed } :=
        inv.of_kept rfl rfl rfl rfl inv.delivered inv.gone
      exact closed.remove (orderly.resolve_left unclosed)
  | reset stream =>
    rcases of_guarded moved with ⟨_, rfl⟩
    exact inv.of_kept rfl rfl rfl rfl inv.delivered inv.gone

end AcceptInv

theorem acceptInv_of_reachable {version : ProtoVersion} {mode : WakeupMode} {s : Server}
    (reached : (acceptSystem version mode).ReachableUnder (Orderly version mode) s) :
    AcceptInv version mode s := by
  refine reached.invariant ?_ ?_
  · intro s started
    rw [show s = Server.new from started]
    exact AcceptInv.new
  · intro s action t _ orderly moved inv
    exact inv.step orderly moved

/-- In orderly runs no id is surfaced twice, and the data of an id goes to one
object. -/
theorem ids_are_accepted_once {version : ProtoVersion} {mode : WakeupMode} {s : Server}
    (reached : (acceptSystem version mode).ReachableUnder (Orderly version mode) s) :
    (s.accepted.map (·.id)).Nodup /\
      ∀ c ∈ s.received, ∀ c' ∈ s.received, c.id = c'.id -> c = c' := by
  have inv := acceptInv_of_reachable reached
  have same {c c' : StreamRef} (known : c ∈ s.created) (known' : c' ∈ s.created)
      (ids : c.id = c'.id) : c = c' :=
    List.inj_on_of_nodup_map inv.unique known known' ids
  constructor
  · apply List.Nodup.map_on _ inv.once
    intro c member c' member' ids
    exact same (inv.surfaced c member) (inv.surfaced c' member') ids
  · intro c member c' member' ids
    exact same (inv.delivered c member) (inv.delivered c' member') ids

/-- Two streams of a V4 session with an eventfd, one of which is closed when its
data has come in and the other is served by both tasks. -/
theorem ids_are_accepted_once_two_streams :
    Exists fun s => (acceptSystem .v4 .eventFd).ReachableUnder (Orderly .v4 .eventFd) s /\
      (s.accepted.map (·.id) = [1, 2] /\ s.received = [⟨1, 0⟩, ⟨2, 1⟩, ⟨2, 1⟩]) /\
      (s.accepted.map (·.id)).Nodup /\
        ∀ c ∈ s.received, ∀ c' ∈ s.received, c.id = c'.id -> c = c' := by
  have test : ((acceptSystem .v4 .eventFd).run (Orderly .v4 .eventFd) Server.new
      [.openStream 1, .sendQueue 1 .opened, .pop .drainer, .lookup .drainer, .insert .drainer,
        .surface .drainer, .deliver .drainer, .close ⟨1, 0⟩, .openStream 2, .sendSocket 2 .opened,
        .sendQueue 2 .opened, .readFrame, .lookup .reader, .insert .reader, .pop .drainer,
        .lookup .drainer, .deliver .drainer, .surface .reader, .deliver .reader]).any
      (fun s => decide (s.accepted.map (·.id) = [1, 2] /\
        s.received = [⟨1, 0⟩, ⟨2, 1⟩, ⟨2, 1⟩])) = true := by
    decide
  rcases System.exists_reachable_of_run _ _ rfl test with ⟨s, reached, found⟩
  exact ⟨s, reached, found, ids_are_accepted_once reached⟩

/-- The client writes to a stream that the server's user has just closed: the id is
accepted a second time.  And two tasks that miss an id at the same time both create
a stream for it, both of which are open and receive data. -/
theorem late_data_opens_stream_again :
    (Exists fun s => (acceptSystem .v5 .socketEvent).Reachable s /\
      s.accepted.map (·.id) = [1, 1]) /\
    (Exists fun s => (acceptSystem .v4 .eventFd).Reachable s /\
      (s.accepted.map (·.id) = [1, 1] /\ s.received = [⟨1, 0⟩, ⟨1, 1⟩] /\
        s.state ⟨1, 0⟩ = .opened /\ s.state ⟨1, 1⟩ = .opened)) := by
  constructor
  · have test : ((acceptSystem .v5 .socketEvent).run (fun _ _ => True) Server.new
        [.openStream 1, .sendQueue 1 .opened, .pop .reader, .lookup .reader, .insert .reader,
          .surface .reader, .deliver .reader, .flush .reader, .sendQueue 1 .opened, .close ⟨1, 0⟩,
          .pop .reader, .lookup .reader, .insert .reader, .surface .reader]).any
        (fun s => decide (s.accepted.map (·.id) = [1, 1])) = true := by
      decide
    exact System.exists_reachable_of_run _ _ rfl test
  · have test : ((acceptSystem .v4 .eventFd).run (fun _ _ => True) Server.new
        [.openStream 1, .sendQueue 1 .opened, .sendSocket 1 .opened, .pop .drainer, .readFrame,
          .lookup .drainer, .lookup .reader, .insert .drainer, .insert .reader, .surface .drainer,
          .surface .reader, .deliver .drainer, .deliver .reader]).any
        (fun s => decide (s.accepted.map (·.id) = [1, 1] /\ s.received = [⟨1, 0⟩, ⟨1, 1⟩] /\
          s.state ⟨1, 0⟩ = .opened /\ s.state ⟨1, 1⟩ = .opened)) = true := by
      decide
    exact System.exists_reachable_of_run _ _ rfl test

end Session
end Shmipc
