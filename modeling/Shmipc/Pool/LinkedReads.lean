import Shmipc.Pool.FlatQueue

namespace Shmipc
namespace Pool
namespace Lease

open Transition

/-!
# Every call on a linked buffer

The calls that read like a flat queue are joined by the rest: `read_available_into`,
`recycle`, `clean` and a discard of nothing.  Two of them do not do what their callers
expect.  A discard of nothing on a buffer without slices looks for a slice forever, and
`read_available_into` gives up at a slice without bytes that it comes to after it has
copied some.
-/

namespace Pins

theorem abandon_spec (p : Pins) (slice : Slice) :
    (p.abandon slice).sliceList = p.sliceList /\ (p.abandon slice).hand = p.hand := by
  unfold abandon
  split
  · exact ⟨rfl, rfl⟩
  · exact ⟨dropState_sliceList _ _, Reader.dropState_hand _ _⟩

end Pins

namespace Reader

/-- The length is the number of bytes that can be read. -/
def Counts (s : Reader) : Prop := s.Holds s.readable

/-- Where a call stands that is not over. -/
inductive Underway (s : Reader) : Rest -> Prop
  | onQueue {queue : List UInt8} {c : Call} {rest : Rest} : s.Midway queue c rest -> Underway s rest
  | discardNone : s.Counts -> Underway s (.discard 0 0)
  | skipEmpty {room maxSlices : Nat} : s.Counts -> Underway s (.skipEmpty room maxSlices)
  | copyLoop {room maxSlices slicesRead : Nat} {copied : List UInt8} : s.Counts ->
      Underway s (.copyLoop room maxSlices slicesRead copied)
  | recycle : Underway s .recycle
  | clean : Underway s .clean

/-- Between calls the bytes are counted. -/
structure Valid (s : Reader) : Prop where
  idle : s.running = none -> s.Counts
  busy : forall rest, s.running = some rest -> s.Underway rest

/-- What is left of a call beside its steps: the loops of `read_available_into` follow
each other, and the last pass pops no slice. -/
def extra (s : Reader) : Rest -> Nat
  | .skipEmpty _ _ => 2
  | .copyLoop _ _ _ _ => if 0 < s.len then 1 else 0
  | _ => 0

/-- A bound on the steps of the running call. -/
def work (s : Reader) : Nat := s.stepsLeft + (s.running.map s.extra).getD 0

/-- A discard of nothing finds no slice. -/
def Spins (s : Reader) : Prop := s.running = some (.discard 0 0) /\ s.pins.sliceList = []

variable {s t : Reader} {rest : Rest} {slice : Slice} {slices : List Slice}

theorem Counts.congr (counts : s.Counts) (list : t.pins.sliceList = s.pins.sliceList)
    (len : t.len = s.len) : t.Counts := by
  have same : t.readable = s.readable := by rw [readable, list, readable]
  rw [Counts, same]
  exact Holds.congr counts list len

variable {queue : List UInt8} {c : Call}

theorem Holds.counts (holds : s.Holds queue) : s.Counts :=
  ⟨rfl, by rw [holds.len, holds.readable]⟩

theorem Valid.of_ended (ended : s.running = none) (counts : s.Counts) : s.Valid :=
  ⟨fun _ => counts, fun _ running => absurd (ended.symm.trans running) nofun⟩

theorem Valid.of_underway (running : s.running = some rest) (underway : s.Underway rest) :
    s.Valid := by
  refine ⟨fun ended => absurd (running.symm.trans ended) nofun, fun other same => ?_⟩
  cases running.symm.trans same
  exact underway

theorem Progress.valid (progress : s.Progress queue c) :
    s.Valid := by
  cases progress with
  | ended value ended _ _ holds => exact .of_ended ended holds.counts
  | goesOn rest running midway => exact .of_underway running (.onQueue midway)

theorem Progress.not_spins (progress : s.Progress queue c) :
    ¬ s.Spins := by
  rintro ⟨running, _⟩
  cases progress with
  | ended value ended _ _ _ => cases ended.symm.trans running
  | goesOn rest goesOn midway =>
    cases goesOn.symm.trans running
    cases midway with
    | discard _ _ some => exact absurd some (Nat.lt_irrefl 0)

theorem Underway.congr (underway : s.Underway rest)
    (list : t.pins.sliceList = s.pins.sliceList) (len : t.len = s.len) : t.Underway rest := by
  cases underway with
  | onQueue midway => exact .onQueue (midway.congr list len)
  | discardNone counts => exact .discardNone (counts.congr list len)
  | skipEmpty counts => exact .skipEmpty (counts.congr list len)
  | copyLoop counts => exact .copyLoop (counts.congr list len)
  | recycle => exact .recycle
  | clean => exact .clean

theorem work_of_progress (progress : s.Progress queue c) :
    s.work = s.stepsLeft := by
  cases progress with
  | ended value ended _ _ _ =>
    rw [work, ended]
    rfl
  | goesOn rest running midway =>
    rw [work, running]
    cases midway <;> rfl

theorem work_ended (running : s.running = some rest) (ended : t.running = none) :
    t.work < s.work := by
  have fewer := stepsLeft_ended running ended
  rw [work, work, ended]
  exact Nat.lt_of_lt_of_le fewer (Nat.le_add_right ..)

/-- A step of a call leaves it valid, and unless the call spins, some of its work is done
and it does not start to spin. -/
structure Went (s t : Reader) : Prop where
  valid : t.Valid
  moves : ¬ s.Spins -> t.work < s.work /\ ¬ t.Spins

theorem Went.ended (running : s.running = some rest) (ended : t.running = none)
    (counts : t.Counts) : Went s t :=
  ⟨.of_ended ended counts, fun _ => ⟨work_ended running ended, fun spins =>
    absurd (ended.symm.trans spins.1) nofun⟩⟩

theorem Went.goesOn (running : t.running = some rest) (underway : t.Underway rest)
    (other : rest ≠ .discard 0 0) (fewer : t.work < s.work) : Went s t :=
  ⟨.of_underway running underway, fun _ => ⟨fewer, fun spins =>
    other (Option.some.inj (running.symm.trans spins.1))⟩⟩

theorem counts_popRetire (counts : s.Counts) (list : s.pins.sliceList = slice :: slices)
    (empty : slice.unread = []) (next : Rest) : (s.popFront.retire slice next).Counts := by
  refine ⟨rfl, ?_⟩
  rw [readable_popEmpty list empty, (popRetire_spec list next).2.1]
  exact counts.len

/-- Bytes have been read from the front. -/
structure Took (s t : Reader) (bytes : List UInt8) : Prop where
  readable : bytes ++ t.readable = s.readable
  len : t.len + bytes.length = s.len

theorem Took.counts {bytes : List UInt8} (took : Took s t bytes) (counts : s.Counts) : t.Counts := by
  refine ⟨rfl, ?_⟩
  have whole := congrArg List.length took.readable
  rw [List.length_append, <- counts.len, <- took.len] at whole
  omega

/-- The first `n` bytes of the first slice, and the length without them. -/
def readFront (s : Reader) (n : Nat) : Reader := { s.consume n with len := s.len - n }

theorem took_readFront (counts : s.Counts) (list : s.pins.sliceList = slice :: slices) {n : Nat}
    (fits : n <= slice.size) : Took s (s.readFront n) (slice.unread.take n) := by
  have whole := readable_cons list
  have total := counts.len
  rw [whole, List.length_append] at total
  have unread : slice.size = slice.unread.length := rfl
  constructor
  · change _ ++ (s.consume n).readable = _
    rw [readable_consume list, whole, <- List.append_assoc, List.take_append_drop]
  · rw [readFront, List.length_take]
    dsimp only
    omega

theorem stepsLeft_readFront (list : s.pins.sliceList = slice :: slices) (n : Nat) :
    (s.readFront n).stepsLeft = s.stepsLeft := by
  have same : (s.readFront n).pins.sliceList.length = s.pins.sliceList.length := by
    rw [list]
    exact (congrArg List.length (sliceList_consume list n)).trans rfl
  rw [stepsLeft, stepsLeft, same]
  rfl

theorem copying_extra (s : Reader) (room maxSlices slicesRead : Nat) (copied : List UInt8) :
    s.extra (.copyLoop room maxSlices slicesRead copied) < 2 := by
  rw [extra]
  split <;> decide

theorem cleared (list : s.pins.sliceList = []) : s.clear.Counts := by
  refine ⟨rfl, ?_⟩
  rw [readable, show s.clear.pins.sliceList = [] from list]
  rfl

section Resume

variable (free : s.pins.hand = .empty)

include free

theorem work_popRetire (running : s.running = some rest)
    (list : s.pins.sliceList = slice :: slices) :
    (s.popFront.retire slice rest).work < s.work := by
  rcases popRetire_spec list rest with ⟨_, len, goesOn⟩
  have fewer := stepsLeft_popRetire list free running (Nat.le_refl rest.steps)
  have same : (s.popFront.retire slice rest).extra rest = s.extra rest := by
    simp only [extra, len]
  rw [work, work, goesOn, running, Option.map_some, Option.map_some, same]
  exact Nat.add_lt_add_right fewer _

/-- A pass of the copying loop with bytes, room and slices left: it gives up at an empty
slice, fills the destination, or takes a slice as a whole and goes on. -/
theorem resume_copyLoop {room maxSlices slicesRead : Nat} {copied : List UInt8}
    (counts : s.Counts) (running : s.running = some (.copyLoop room maxSlices slicesRead copied))
    (more : 0 < s.len /\ 0 < room /\ slicesRead < maxSlices) :
    Exists fun slice => Exists fun slices => s.pins.sliceList = slice :: slices /\
      ((slice.size = 0 /\ s.resume (.copyLoop room maxSlices slicesRead copied) =
          s.done .notEnoughData) \/
        Exists fun t => s.resume (.copyLoop room maxSlices slicesRead copied) = t /\
          slice.size ≠ 0 /\ Took s t (slice.unread.take (min slice.size room)) /\
          ((room < slice.size /\ t.running = none /\
              t.returned = some (.count (copied ++ slice.unread.take room).length)) \/
            (slice.size <= room /\
              t.running = some (.copyLoop (room - slice.size) maxSlices (slicesRead + 1)
                (copied ++ slice.unread)) /\
              (t.len = 0 \/ t.pins.sliceList = slices) /\ t.work < s.work))) := by
  cases list : s.pins.sliceList with
  | nil =>
    have none := counts.len
    rw [readable, list] at none
    exact absurd more.1 (none ▸ Nat.lt_irrefl 0)
  | cons slice slices =>
    refine ⟨slice, slices, rfl, ?_⟩
    rw [Reader.resume, if_pos more, list]
    dsimp only
    by_cases empty : slice.size = 0
    · exact .inl ⟨empty, if_pos empty⟩
    rw [if_neg empty]
    have took := took_readFront counts list (Nat.min_le_left slice.size room)
    by_cases whole : min slice.size room = slice.size
    · have fits : slice.size <= room := by omega
      have all : slice.unread.take slice.size = slice.unread := List.take_length
      rw [if_pos whole, whole, all]
      rw [whole, all] at took
      have steps := stepsLeft_readFront list slice.size
      have before : s.work = s.stepsLeft + 1 := by
        rw [work, running]
        exact congrArg (s.stepsLeft + ·) (if_pos more.1)
      split
      · next left =>
        have listed : (s.readFront slice.size).pins.sliceList =
            { slice with unread := [] } :: slices := by
          refine (sliceList_consume list slice.size).trans ?_
          rw [show slice.unread.drop slice.size = [] from List.drop_length]
        refine .inr ⟨(s.readFront slice.size).readNextSlice _, rfl, empty, ?_, .inr ⟨fits, ?_⟩⟩
        · rw [readNextSlice_eq listed]
          refine ⟨?_, ?_⟩
          · rw [readable_popEmpty listed rfl]
            exact took.readable
          · rw [(popRetire_spec listed _).2.1]
            exact took.len
        · rw [readNextSlice_eq listed]
          have spec := popRetire_spec listed (.copyLoop (room - slice.size) maxSlices
            (slicesRead + 1) (copied ++ slice.unread))
          refine ⟨spec.2.2, .inr spec.1, ?_⟩
          have fewer := @stepsLeft_popRetire (s.readFront slice.size) _ _ _
            (.copyLoop (room - slice.size) maxSlices (slicesRead + 1) (copied ++ slice.unread))
            listed free running (Nat.le_refl _)
          rw [work, spec.2.2, before, <- steps, Option.map_some, Option.getD_some]
          exact Nat.add_lt_add_of_lt_of_le fewer (Nat.le_of_lt_succ (copying_extra ..))
      · next spent =>
        have none : (s.readFront slice.size).len = 0 := Nat.eq_zero_of_not_pos spent
        refine .inr ⟨(s.readFront slice.size).continueWith _, rfl, empty,
          ⟨took.readable, took.len⟩, .inr ⟨fits, rfl, .inl none, ?_⟩⟩
        have same : ((s.readFront slice.size).continueWith (.copyLoop (room - slice.size) maxSlices
            (slicesRead + 1) (copied ++ slice.unread))).stepsLeft = s.stepsLeft := by
          rw [<- steps, stepsLeft, stepsLeft,
            show (s.readFront slice.size).running = _ from running]
          rfl
        rw [work, before, same]
        exact Nat.add_lt_add_left (Nat.lt_of_le_of_lt
          (Nat.le_of_eq (if_neg (none ▸ Nat.lt_irrefl 0))) Nat.zero_lt_one) _
    · rw [if_neg whole]
      have short : room < slice.size := by omega
      rw [Nat.min_eq_right (Nat.le_of_lt short)] at took ⊢
      exact .inr ⟨_, rfl, empty, ⟨took.readable, took.len⟩, .inl ⟨short, rfl, rfl⟩⟩

theorem Underway.resume (underway : s.Underway rest) (running : s.running = some rest) :
    Went s (s.resume rest) := by
  cases underway with
  | onQueue midway =>
    rcases Midway.resume free midway running with ⟨progress, fewer⟩
    rw [<- work_of_progress progress, <- work_of_progress (.goesOn rest running midway)] at fewer
    exact ⟨progress.valid, fun _ => ⟨fewer, progress.not_spins⟩⟩
  | discardNone counts =>
    rw [Reader.resume]
    cases list : s.pins.sliceList with
    | nil =>
      exact ⟨.of_underway running (.discardNone counts), fun moves => absurd ⟨running, list⟩ moves⟩
    | cons slice slices =>
      dsimp only
      rw [if_pos (Nat.zero_sub _), Nat.min_zero]
      have same : (s.consume 0).pins.sliceList = s.pins.sliceList := by
        rw [sliceList_consume list, list, List.drop_zero]
      exact .ended running rfl (counts.congr same rfl)
  | skipEmpty counts =>
    next room maxSlices =>
    rw [Reader.resume]
    split
    · next empty =>
      cases list : s.pins.sliceList with
      | nil =>
        rw [list] at empty
        cases empty.2
      | cons slice slices =>
        rw [list, List.head?_cons, Option.any_some, beq_iff_eq] at empty
        rw [readNextSlice_eq list]
        have spec := popRetire_spec list (.skipEmpty room maxSlices)
        have popped := counts_popRetire counts list (List.eq_nil_of_length_eq_zero empty.2)
          (.skipEmpty room maxSlices)
        exact .goesOn spec.2.2 (.skipEmpty popped) (by simp) (work_popRetire free running list)
    · refine .goesOn rfl (.copyLoop (counts.congr rfl rfl)) (by simp) ?_
      have same : (s.continueWith (.copyLoop room maxSlices 0 [])).stepsLeft = s.stepsLeft := by
        rw [stepsLeft, stepsLeft, running]
        rfl
      rw [work, work, running, same]
      exact Nat.add_lt_add_left (copying_extra _ room maxSlices 0 []) _
  | copyLoop counts =>
    next room maxSlices slicesRead copied =>
    by_cases more : 0 < s.len /\ 0 < room /\ slicesRead < maxSlices
    · rcases resume_copyLoop free counts running more with
        ⟨slice, slices, _, ⟨_, gaveUp⟩ | ⟨t, rfl, _, took, last | ⟨_, goesOn, _, fewer⟩⟩⟩
      · rw [gaveUp]
        exact .ended running rfl (counts.congr rfl rfl)
      · exact .ended running last.2.1 (took.counts counts)
      · exact .goesOn goesOn (.copyLoop (took.counts counts)) (by simp) fewer
    · rw [Reader.resume, if_neg more]
      exact .ended running rfl (counts.congr rfl rfl)
  | recycle =>
    rw [Reader.resume]
    cases list : s.pins.sliceList with
    | nil => exact .ended running rfl (cleared list)
    | cons slice slices =>
      exact .goesOn (popRetire_spec list _).2.2 .recycle (by simp) (work_popRetire free running list)
  | clean =>
    rw [Reader.resume]
    cases list : s.pins.sliceList with
    | nil => exact .ended running rfl (cleared list)
    | cons slice slices =>
      dsimp only
      split
      · exact .goesOn (popRetire_spec list _).2.2 .clean (by simp) (work_popRetire free running list)
      · refine .goesOn rfl .clean (by simp) ?_
        rcases Pins.abandon_spec s.popFront.pins slice with ⟨left, hand⟩
        have popped : s.popFront.pins = { s.pins with sliceList := slices } := by
          rw [popFront, list]
        rw [popped] at left hand
        have gone : forall pins : Pins, pins.sliceList = slices -> pins.hand = s.pins.hand ->
            ({ s.popFront with pins := pins }.continueWith .clean).work < s.work := by
          intro pins left hand
          simp only [work, stepsLeft, continueWith, running, left, hand, list, List.length_cons,
            Option.map_some, Option.getD_some, extra]
          omega
        rw [popped]
        split
        · exact gone _ left hand
        · exact gone _ left hand

end Resume

/-! ## Runs -/

/-- A discard of nothing is only started with a slice in the buffer. -/
def Stoppable (s : Reader) : Action -> Prop
  | .call (.discard size) => size ≠ 0 \/ s.pins.sliceList ≠ []
  | _ => True

theorem Counts.call (counts : s.Counts) (started : s.call c = some t) :
    t.Valid /\ (s.Stoppable (.call c) -> ¬ t.Spins) := by
  by_cases onQueue : c.OnQueue
  · have progress := Holds.call counts onQueue started
    exact ⟨progress.valid, fun _ => progress.not_spins⟩
  cases c with
  | discard size =>
    cases Nat.eq_zero_of_not_pos onQueue
    cases started
    refine ⟨.of_underway rfl (.discardNone (counts.congr rfl rfl)), fun stoppable spins => ?_⟩
    exact stoppable.elim (fun some => some rfl) (fun some => some spins.2)
  | readAvailableInto room maxSlices =>
    rw [Reader.call] at started
    split at started
    · cases started
      exact ⟨.of_ended rfl (counts.congr rfl rfl), fun _ spins => by cases spins.1⟩
    · split at started
      · cases started
      · split at started
        · cases started
          exact ⟨.of_ended rfl (counts.congr rfl rfl), fun _ spins => by cases spins.1⟩
        · cases started
          exact ⟨.of_underway rfl (.skipEmpty (counts.congr rfl rfl)), fun _ spins => by cases spins.1⟩
  | recycle =>
    cases started
    exact ⟨.of_underway rfl .recycle, fun _ spins => by cases spins.1⟩
  | clean =>
    cases started
    exact ⟨.of_underway rfl .clean, fun _ spins => by cases spins.1⟩
  | _ => exact absurd trivial onQueue

theorem Valid.advance (valid : s.Valid) (moved : s.advance = some t) : Went s t := by
  rcases advance_cases moved with ⟨rest, running, ⟨free, rfl⟩ | ⟨busy, rfl⟩⟩
  · exact (valid.busy rest running).resume free running
  · have list := Pins.retireStep_sliceList s.pins
    refine ⟨.of_underway running ((valid.busy rest running).congr list rfl),
      fun moves => ⟨?_, ?_⟩⟩
    · have fewer := hand_retireStep busy
      simp only [work, stepsLeft, running, list, Option.map_some, Option.getD_some, extra]
      omega
    · exact fun spins => moves ⟨spins.1, list ▸ spins.2⟩

theorem Valid.dropBuf {i : Nat} (valid : s.Valid) (moved : s.step (.dropBuf i) = some t) :
    t.Valid /\ t.work = s.work /\ (t.Spins -> s.Spins) := by
  rcases Option.map_eq_some_iff.mp moved with ⟨pins, dropped, rfl⟩
  have list := Pins.dropBuf_sliceList dropped
  refine ⟨⟨fun idle => (valid.idle idle).congr list rfl, fun rest running =>
    (valid.busy rest running).congr list rfl⟩, ?_, fun spins => ⟨spins.1, list ▸ spins.2⟩⟩
  simp only [work, stepsLeft, list, dropBuf_hand dropped]
  rfl

theorem Valid.step {a : Action} (valid : s.Valid) (moved : s.step a = some t) : t.Valid := by
  cases a with
  | call c =>
    rw [Reader.step, Option.ite_none_right_eq_some] at moved
    exact ((valid.idle moved.1).call moved.2).1
  | advance => exact (valid.advance moved).valid
  | dropBuf i => exact (valid.dropBuf moved).1

theorem valid_of_reachable (reachable : leaseSystem.Reachable s) : s.Valid := by
  refine reachable.invariant ?_ fun _ _ _ _ _ moved valid => valid.step moved
  rintro s rfl
  exact .of_ended rfl ⟨rfl, rfl⟩

/-- The bytes that the next step puts into the destination of the call. -/
def puts (s : Reader) : List UInt8 :=
  match s.running with
  | some (.copyLoop room maxSlices slicesRead _) =>
    if s.pins.hand = .empty /\ 0 < s.len /\ 0 < room /\ slicesRead < maxSlices then
      (s.pins.sliceList.head?.map fun slice => slice.unread.take (min slice.size room)).getD []
    else []
  | _ => []

end Reader

/-- One call, with its destination and with drops by any thread between its steps. -/
def callSystem (s : Reader) (c : Call) : System (Reader × List UInt8) Action where
  init w := s.call c = some w.1 /\ w.2 = []
  step w
    | .call _ => none
    | .advance => w.1.advance.map (·, w.2 ++ w.1.puts)
    | .dropBuf i => (w.1.step (.dropBuf i)).map (·, w.2)

namespace Reader

variable {s t : Reader} {c : Call} {w v : Reader × List UInt8}

theorem callSystem_step {a : Action} (moved : (callSystem s c).step w a = some v) :
    (a = .advance /\ w.1.advance = some v.1 /\ v.2 = w.2 ++ w.1.puts) \/
      Exists fun i => a = .dropBuf i /\ w.1.step (.dropBuf i) = some v.1 /\ v.2 = w.2 := by
  cases a with
  | call other => cases moved
  | advance =>
    rcases Option.map_eq_some_iff.mp moved with ⟨t, advanced, rfl⟩
    exact .inl ⟨rfl, advanced, rfl⟩
  | dropBuf i =>
    rcases Option.map_eq_some_iff.mp moved with ⟨t, dropped, rfl⟩
    exact .inr ⟨i, rfl, dropped, rfl⟩

/-- The steps of a call that does not spin are bounded, whatever `Buf` values are dropped
in between. -/
theorem Valid.advances_le {actions : List Action} (valid : w.1.Valid) (moves : ¬ w.1.Spins)
    (ran : (callSystem s c).run (fun _ _ => True) w actions = some v) :
    actions.count .advance <= w.1.work := by
  induction actions generalizing w with
  | nil => exact Nat.zero_le _
  | cons a rest ih =>
    rcases System.run_cons_eq_some ran with ⟨_, u, moved, remaining⟩
    rcases callSystem_step moved with ⟨rfl, advanced, _⟩ | ⟨i, rfl, dropped, _⟩
    · have went := valid.advance advanced
      rcases went.moves moves with ⟨fewer, moves'⟩
      have few := ih went.valid moves' remaining
      rw [List.count_cons_self]
      omega
    · rcases valid.dropBuf dropped with ⟨valid', same, moves'⟩
      rw [List.count_cons_of_ne (by nofun), <- same]
      exact ih valid' (fun spins => moves (moves' spins)) remaining

end Reader

/-! ## Calls that end -/

/-- A call can be made, it can always go on, and its steps are bounded. -/
def Ends (s : Reader) (c : Call) : Prop :=
  (s.call c).isSome = true /\
  (forall w, (callSystem s c).Reachable w -> w.1.running ≠ none ->
    ((callSystem s c).step w .advance).isSome = true) /\
  Exists fun bound => forall start actions w, (callSystem s c).init start ->
    (callSystem s c).run (fun _ _ => True) start actions = some w ->
      actions.count .advance <= bound

namespace Reader

variable {s t : Reader} {c : Call} {w v : Reader × List UInt8}

theorem advance_isSome (busy : s.running ≠ none) : s.advance.isSome = true := by
  cases running : s.running with
  | none => exact absurd running busy
  | some rest =>
    rw [advance, running]
    dsimp only
    split <;> rfl

theorem Counts.ends (counts : s.Counts) (made : (s.call c).isSome = true)
    (stoppable : s.Stoppable (.call c)) : Ends s c := by
  rcases Option.isSome_iff_exists.mp made with ⟨t, started⟩
  refine ⟨made, fun w _ busy => ?_, t.work, ?_⟩
  · exact (Option.isSome_map ..).trans (advance_isSome busy)
  · rintro ⟨u, dst⟩ actions w ⟨same, _⟩ ran
    cases started.symm.trans same
    rcases counts.call started with ⟨valid, moves⟩
    exact valid.advances_le (moves stoppable) ran

theorem Spins.run (spins : w.1.Spins) (n : Nat) : Exists fun v =>
    (callSystem s c).run (fun _ _ => True) w (List.replicate n .advance) = some v := by
  induction n generalizing w with
  | zero => exact ⟨w, rfl⟩
  | succ n ih =>
    have again : Exists fun t => w.1.advance = some t /\ t.Spins := by
      rw [advance, spins.1]
      dsimp only
      split
      · refine ⟨w.1, ?_, spins⟩
        rw [resume, spins.2]
      · exact ⟨_, rfl, rfl, (Pins.retireStep_sliceList _).trans spins.2⟩
    rcases again with ⟨t, moved, spins'⟩
    rcases @ih (t, w.2 ++ w.1.puts) spins' with ⟨v, ran⟩
    refine ⟨v, ?_⟩
    rw [List.replicate_succ, System.run, if_pos trivial]
    exact Option.bind_eq_some_iff.mpr ⟨_, Option.map_eq_some_iff.mpr ⟨t, moved, rfl⟩, ran⟩

/-- Where a discard stands: on its way to its answer, or it was asked for nothing. -/
def Discarding (queue : List UInt8) (size : Nat) (s : Reader) : Prop :=
  s.Progress queue (.discard size) \/ (size = 0 /\ (s.running = some (.discard 0 0) \/
    (s.running = none /\ s.returned = some (.count 0))))

variable {queue : List UInt8} {size : Nat}

theorem Discarding.advance (stands : s.Discarding queue size) (moved : s.advance = some t) :
    t.Discarding queue size := by
  rcases advance_cases moved with ⟨rest, runs, step⟩
  rcases stands with progress | ⟨rfl, running | ⟨ended, _⟩⟩
  · cases progress with
    | ended value ended _ _ _ => cases runs.symm.trans ended
    | goesOn rest running midway => exact .inl (midway.advance running moved).1
  · cases runs.symm.trans running
    rcases step with ⟨_, rfl⟩ | ⟨_, rfl⟩
    · rw [resume]
      cases list : s.pins.sliceList with
      | nil => exact .inr ⟨rfl, .inl running⟩
      | cons slice slices =>
        dsimp only
        rw [if_pos (Nat.zero_sub _), Nat.min_zero]
        exact .inr ⟨rfl, .inr ⟨rfl, rfl⟩⟩
    · exact .inr ⟨rfl, .inl running⟩
  · cases runs.symm.trans ended

theorem Discarding.dropBuf {i : Nat} (stands : s.Discarding queue size)
    (moved : s.step (.dropBuf i) = some t) : t.Discarding queue size := by
  rcases Option.map_eq_some_iff.mp moved with ⟨pins, dropped, rfl⟩
  have list := Pins.dropBuf_sliceList dropped
  rcases stands with progress | none
  · cases progress with
    | ended value ended returned answers holds =>
      exact .inl (.ended value ended returned answers (holds.congr list rfl))
    | goesOn rest running midway => exact .inl (.goesOn rest running (midway.congr list rfl))
  · exact .inr none

theorem Counts.discard (counts : s.Counts) (enough : size <= s.len)
    (reachable : (callSystem s (.discard size)).Reachable w) (ended : w.1.running = none) :
    w.1.returned = some (.count size) := by
  have stands : w.1.Discarding s.readable size := by
    refine reachable.invariant (P := fun w => w.1.Discarding s.readable size) ?_ ?_
    · rintro ⟨t, dst⟩ ⟨started, _⟩
      by_cases asked : 0 < size
      · exact .inl (Holds.call counts asked started)
      · cases Nat.eq_zero_of_not_pos asked
        cases started
        exact .inr ⟨rfl, .inl rfl⟩
    · intro w a v _ _ moved stands
      rcases callSystem_step moved with ⟨_, advanced, _⟩ | ⟨i, _, dropped, _⟩
      · exact stands.advance advanced
      · exact stands.dropBuf dropped
  rcases stands with progress | ⟨rfl, running | ⟨_, returned⟩⟩
  · cases progress with
    | goesOn rest running _ => cases running.symm.trans ended
    | ended value _ returned answers _ =>
      rw [Answers, Fifo.discard_of_le (counts.len ▸ enough)] at answers
      rw [returned]
      cases value with
      | count n => exact congrArg (some ∘ Returned.count) (Except.ok.inj answers)
      | _ => cases answers
  · cases running.symm.trans ended
  · exact returned

end Reader

/-- The calls that take bytes off the front or look at them. -/
def Call.Reads : Call -> Prop
  | .readChunk => True
  | .readExactBytes _ => True
  | .peek _ => True
  | .discard _ => True
  | _ => False

/-- Between any calls, a call that reads ends exactly if it is not a discard of nothing on
a buffer without slices, and a discard of no more than there is returns its size. -/
theorem linked_reads_end_iff {s : Reader} (reachable : leaseSystem.Reachable s)
    (idle : s.running = none) :
    (forall c, c.Reads -> (Ends s c <-> s.Stoppable (.call c))) /\
    forall size, size <= s.len -> s.Stoppable (.call (.discard size)) ->
      forall w, (callSystem s (.discard size)).Reachable w -> w.1.running = none ->
        w.1.returned = some (.count size) := by
  have counts := (Reader.valid_of_reachable reachable).idle idle
  refine ⟨fun c reads => ⟨fun ends => ?_, fun stoppable => ?_⟩, fun size enough _ w =>
    counts.discard enough⟩
  · cases c with
    | discard size =>
      by_contra spins
      rcases not_or.mp spins with ⟨none, empty⟩
      cases not_not.mp none
      rcases ends.2.2 with ⟨bound, bounded⟩
      have start : (callSystem s (.discard 0)).init (s.continueWith (.discard 0 0), []) :=
        ⟨rfl, rfl⟩
      have spinning : (s.continueWith (.discard 0 0)).Spins := ⟨rfl, not_not.mp empty⟩
      rcases @Reader.Spins.run s (.discard 0) (_, []) spinning (bound + 1) with ⟨v, ran⟩
      have few := bounded _ _ v start ran
      rw [List.count_replicate_self] at few
      omega
    | _ => exact trivial
  · refine counts.ends ?_ stoppable
    cases c with
    | discard size =>
      rw [Reader.call]
      split <;> rfl
    | readChunk => rfl
    | readExactBytes size | peek size => exact Reader.call_isSome trivial (by simp)
    | _ => exact absurd reads id

/-- A discard of two bytes from two slices. -/
theorem linked_reads_end_iff_two :
    Exists fun s => leaseSystem.Reachable s /\ s.len = 3 /\ Ends s (.discard 2) := by
  have found : Exists fun s => leaseSystem.Reachable s /\ (s.len = 3 /\ s.running = none) :=
    System.exists_reachable_of_run .new
      [.call (.appendBufferSlice 100 8 true [1]), .call (.appendBufferSlice 200 8 true [2, 3])] rfl
      (by decide +kernel)
  rcases found with ⟨s, reachable, len, idle⟩
  refine ⟨s, reachable, len, ?_⟩
  exact ((linked_reads_end_iff reachable idle).1 (.discard 2) trivial).mpr (.inl (by decide))

/-- A discard of nothing on a new buffer goes on without doing anything. -/
theorem discard_of_nothing_spins :
    Exists fun s => leaseSystem.Reachable s /\ s.len = 0 /\ s.running = some (.discard 0 0) /\
      s.advance = some s := by
  refine ⟨Reader.new.continueWith (.discard 0 0), ?_, rfl, rfl, rfl⟩
  exact .next (.start rfl) trivial (a := .call (.discard 0)) rfl

end Lease
end Pool
end Shmipc
