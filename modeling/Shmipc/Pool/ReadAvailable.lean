import Shmipc.Pool.LinkedReads

namespace Shmipc
namespace Pool
namespace Lease

open Transition

/-!
# Reading what is there

`read_available_into` skips the slices without bytes at the front and copies from the
next ones.  If it comes to a slice without bytes after that, it reports that there is not
enough data: what it has copied is gone from the buffer, and its caller does not know.
-/

/-- Copying comes to a slice without bytes: the slices before it all have some, are within
the limit and leave room in the destination, and there are bytes behind it. -/
def GapFrom (room maxSlices : Nat) (slices : List Slice) : Prop :=
  Exists fun before => Exists fun empty => Exists fun after =>
    slices = before ++ empty :: after /\ (∀ slice ∈ before, slice.size ≠ 0) /\ empty.size = 0 /\
    before.length < maxSlices /\ (before.flatMap Slice.unread).length < room /\
    after.flatMap Slice.unread ≠ []

/-- There is such a slice behind the first one with bytes. -/
def Reader.Gap (s : Reader) (room maxSlices : Nat) : Prop :=
  GapFrom room maxSlices (s.pins.sliceList.dropWhile fun slice => slice.size == 0)

section Gaps

variable {room maxSlices : Nat} {slice : Slice} {slices : List Slice}

theorem not_gapFrom (spent : slices.flatMap Slice.unread = [] \/ room = 0 \/ maxSlices = 0) :
    ¬ GapFrom room maxSlices slices := by
  rintro ⟨before, empty, after, rfl, _, _, few, fits, some⟩
  rcases spent with none | none | none
  · rw [List.flatMap_append, List.flatMap_cons, List.append_eq_nil_iff,
      List.append_eq_nil_iff] at none
    exact some none.2.2
  · omega
  · omega

theorem gapFrom_cons (holds : slice.size ≠ 0) :
    GapFrom room maxSlices (slice :: slices) <->
      GapFrom (room - slice.size) (maxSlices - 1) slices := by
  have size : slice.size = slice.unread.length := rfl
  constructor
  · rintro ⟨before, empty, after, same, nonempty, none, few, fits, some⟩
    cases before with
    | nil =>
      cases same
      exact absurd none holds
    | cons first before =>
      cases same
      rw [List.flatMap_cons, List.length_append] at fits
      rw [List.length_cons] at few
      exact ⟨before, empty, after, rfl, fun slice there =>
        nonempty slice (List.mem_cons_of_mem _ there), none, by omega, by omega, some⟩
  · rintro ⟨before, empty, after, rfl, nonempty, none, few, fits, some⟩
    refine ⟨slice :: before, empty, after, rfl, List.forall_mem_cons.mpr ⟨holds, nonempty⟩, none,
      ?_, ?_, some⟩
    · rw [List.length_cons]
      omega
    · rw [List.flatMap_cons, List.length_append]
      omega

end Gaps

/-! ## One call -/

/-- Where a call stands that found a queue: what it has copied is the front of the queue,
and there is a gap ahead of it if there was one ahead of the call. -/
inductive Copying (queue : List UInt8) (room maxSlices : Nat) (gap : Prop)
    (w : Reader × List UInt8) : Prop
  | skipEmpty : w.1.running = some (.skipEmpty room maxSlices) -> w.1.Holds queue -> w.2 = [] ->
      0 < w.1.len /\ 0 < room /\ 0 < maxSlices -> (w.1.Gap room maxSlices <-> gap) -> Copying ..
  | copyLoop {left slicesRead : Nat} :
      w.1.running = some (.copyLoop left maxSlices slicesRead w.2) ->
      w.2 ++ w.1.readable = queue -> w.1.Counts ->
      (w.2 = [] -> (0 < w.1.len /\ 0 < left /\ slicesRead < maxSlices) /\
        ∀ slice ∈ w.1.pins.sliceList.head?, slice.size ≠ 0) ->
      (GapFrom left (maxSlices - slicesRead) w.1.pins.sliceList <-> gap) -> Copying ..
  | ended (value : Returned) : w.1.running = none -> w.1.returned = some value ->
      w.2 ++ w.1.readable = queue -> w.1.Counts -> w.2 ≠ [] ->
      (value = .count w.2.length /\ ¬ gap) \/ (value = .notEnoughData /\ gap) -> Copying ..

namespace Copying

variable {queue : List UInt8} {room maxSlices : Nat} {gap : Prop} {w : Reader × List UInt8}
  {t : Reader}

theorem congr (copying : Copying queue room maxSlices gap w)
    (list : t.pins.sliceList = w.1.pins.sliceList) (len : t.len = w.1.len)
    (running : t.running = w.1.running) (returned : t.returned = w.1.returned) :
    Copying queue room maxSlices gap (t, w.2) := by
  have readable : t.readable = w.1.readable := by rw [Reader.readable, list, Reader.readable]
  cases copying with
  | skipEmpty runs holds none some iff =>
    refine .skipEmpty (running.trans runs) (holds.congr list len) none (len ▸ some) ?_
    rw [Reader.Gap, list]
    exact iff
  | copyLoop runs bytes counts fresh iff =>
    refine .copyLoop (running.trans runs) (readable.symm ▸ bytes) (counts.congr list len) ?_ ?_
    · rw [list, len]
      exact fresh
    · rw [list]
      exact iff
  | ended value ends back bytes counts some outcome =>
    exact .ended value (running.trans ends) (returned.trans back) (readable.symm ▸ bytes)
      (counts.congr list len) some outcome

theorem resume_copyLoop {s : Reader} {dst : List UInt8} {left slicesRead : Nat}
    (free : s.pins.hand = .empty)
    (running : s.running = some (.copyLoop left maxSlices slicesRead dst))
    (bytes : dst ++ s.readable = queue) (counts : s.Counts)
    (fresh : dst = [] -> (0 < s.len /\ 0 < left /\ slicesRead < maxSlices) /\
      ∀ slice ∈ s.pins.sliceList.head?, slice.size ≠ 0)
    (iff : GapFrom left (maxSlices - slicesRead) s.pins.sliceList <-> gap) :
    Copying queue room maxSlices gap
      (s.resume (.copyLoop left maxSlices slicesRead dst), dst ++ s.puts) := by
  by_cases more : 0 < s.len /\ 0 < left /\ slicesRead < maxSlices
  · have puts : s.puts = (s.pins.sliceList.head?.map fun slice =>
        slice.unread.take (min slice.size left)).getD [] := by
      rw [Reader.puts, running]
      exact if_pos ⟨free, more⟩
    rcases Reader.resume_copyLoop free counts running more with
      ⟨slice, slices, list, ⟨empty, gaveUp⟩ | ⟨t, rfl, holds, took, last⟩⟩
    · -- bytes are left, and the slice in front has none
      have unread : slice.unread = [] := List.eq_nil_of_length_eq_zero empty
      rw [list, List.head?_cons, Option.map_some, Option.getD_some, unread, List.take_nil] at puts
      have behind : slices.flatMap Slice.unread ≠ [] := by
        have total := counts.len
        rw [Reader.readable_cons list, unread, List.nil_append] at total
        exact List.ne_nil_of_length_pos (total ▸ more.1)
      rw [gaveUp, puts, List.append_nil]
      refine .ended .notEnoughData rfl rfl bytes (counts.congr rfl rfl) (fun none => ?_)
        (.inr ⟨rfl, iff.mp ?_⟩)
      · exact (fresh none).2 slice (by rw [list]; rfl) empty
      · rw [list]
        exact ⟨[], slice, slices, rfl, by simp, empty, Nat.sub_pos_of_lt more.2.2, more.2.1, behind⟩
    · rw [list, List.head?_cons, Option.map_some, Option.getD_some] at puts
      rw [list, gapFrom_cons holds] at iff
      rw [puts]
      have size : slice.size = slice.unread.length := rfl
      have some : dst ++ slice.unread.take (min slice.size left) ≠ [] := by
        intro none
        have short := congrArg List.length (List.append_eq_nil_iff.mp none).2
        rw [List.length_take, List.length_nil] at short
        omega
      have split : (dst ++ slice.unread.take (min slice.size left)) ++ Reader.readable _ = queue :=
        (List.append_assoc ..).trans ((congrArg (dst ++ ·) took.readable).trans bytes)
      rcases last with ⟨short, ended, returned⟩ | ⟨fits, goesOn, rest, _⟩
      · have all : min slice.size left = left := by omega
        rw [all] at some split ⊢
        refine .ended _ ended returned split (took.counts counts) some (.inl ⟨rfl, ?_⟩)
        rw [<- iff]
        exact not_gapFrom (.inr (.inl (by omega)))
      · have all : slice.unread.take (min slice.size left) = slice.unread :=
          List.take_of_length_le (by omega)
        rw [all] at some split took ⊢
        refine .copyLoop goesOn split (took.counts counts) (fun none => absurd none some) ?_
        rw [<- iff, Nat.sub_sub]
        rcases rest with none | same
        · -- the buffer is read to its end, so nothing is behind any slice
          have spent : Reader.readable _ = [] :=
            List.eq_nil_of_length_eq_zero ((took.counts counts).len.symm.trans none)
          have behind : slices.flatMap Slice.unread = [] := by
            have whole := took.readable
            rw [spent, Reader.readable_cons list, List.append_nil] at whole
            exact List.self_eq_append_right.mp whole
          exact iff_of_false (not_gapFrom (.inl spent)) (not_gapFrom (.inl behind))
        · rw [same]
  · have puts : s.puts = [] := by
      rw [Reader.puts, running]
      exact if_neg fun all => more all.2
    rw [Reader.resume, if_neg more, puts, List.append_nil]
    refine .ended _ rfl rfl bytes (counts.congr rfl rfl) (fun none => more (fresh none).1)
      (.inl ⟨rfl, ?_⟩)
    rw [<- iff]
    apply not_gapFrom
    by_cases none : s.len = 0
    · exact .inl (List.eq_nil_of_length_eq_zero (counts.len.symm.trans none))
    · exact .inr (by omega)

theorem resume {rest : Rest} (copying : Copying queue room maxSlices gap w)
    (free : w.1.pins.hand = .empty) (running : w.1.running = some rest) :
    Copying queue room maxSlices gap (w.1.resume rest, w.2 ++ w.1.puts) := by
  rcases w with ⟨s, dst⟩
  cases copying with
  | skipEmpty runs holds none some iff =>
    dsimp only at *
    cases running.symm.trans runs
    have puts : s.puts = [] := by rw [Reader.puts, runs]
    rw [none, puts, Reader.resume]
    cases list : s.pins.sliceList with
    | nil =>
      have length := holds.counts.len
      rw [Reader.readable, list] at length
      exact absurd some.1 (length ▸ Nat.lt_irrefl 0)
    | cons slice slices =>
      rw [List.head?_cons, Option.any_some]
      by_cases empty : slice.size = 0
      · have spec := Reader.popRetire_spec list (.skipEmpty room maxSlices)
        rw [if_pos ⟨some.1, beq_iff_eq.mpr empty⟩, Reader.readNextSlice_eq list]
        refine .skipEmpty spec.2.2 ⟨?_, spec.2.1.trans holds.len⟩ rfl (spec.2.1.symm ▸ some) ?_
        · rw [Reader.readable_popEmpty list (List.eq_nil_of_length_eq_zero empty)]
          exact holds.readable
        · rw [<- iff, Reader.Gap, Reader.Gap, spec.1, list, List.dropWhile_cons,
            if_pos (beq_iff_eq.mpr empty)]
      · rw [if_neg fun all => empty (beq_iff_eq.mp all.2)]
        refine .copyLoop rfl holds.readable (holds.counts.congr rfl rfl) (fun _ => ⟨some, ?_⟩) ?_
        · intro first there
          rw [show (s.continueWith _).pins.sliceList = _ from list] at there
          cases there
          exact empty
        · rw [<- iff, Reader.Gap, list, List.dropWhile_cons,
            if_neg (fun none => empty (beq_iff_eq.mp none)), <- list]
          exact Iff.rfl
  | copyLoop runs bytes counts fresh iff =>
    cases running.symm.trans runs
    exact resume_copyLoop free running bytes counts fresh iff
  | ended value ends back bytes counts some outcome => cases running.symm.trans ends

theorem step {s : Reader} {c : Call} {a : Action} {v : Reader × List UInt8}
    (copying : Copying queue room maxSlices gap w) (moved : (callSystem s c).step w a = some v) :
    Copying queue room maxSlices gap v := by
  rcases v with ⟨t, dst⟩
  rcases Reader.callSystem_step moved with ⟨_, advanced, same⟩ | ⟨i, _, dropped, same⟩
  · dsimp only at advanced same
    rw [same]
    rcases Reader.advance_cases advanced with ⟨rest, running, ⟨free, rfl⟩ | ⟨busy, rfl⟩⟩
    · exact copying.resume free running
    · have puts : w.1.puts = [] := by
        unfold Reader.puts
        split
        · exact if_neg fun all => busy all.1
        · rfl
      rw [puts, List.append_nil]
      exact copying.congr (Pins.retireStep_sliceList _) rfl rfl rfl
  · rcases Option.map_eq_some_iff.mp dropped with ⟨pins, gone, rfl⟩
    dsimp only at same
    rw [same]
    exact copying.congr (Pins.dropBuf_sliceList gone) rfl rfl rfl

end Copying

/-- With bytes to read, a call that is over has returned how many bytes it has copied, at
least one, and they are those that the buffer has lost at its front; and if it has returned
an error, nothing has changed. -/
def Progressed (s : Reader) (w : Reader × List UInt8) : Prop :=
  (0 < s.len -> w.1.returned = some (.count w.2.length) /\ 1 <= w.2.length /\
    w.2 ++ w.1.readable = s.readable /\ w.1.len + w.2.length = s.len) /\
  (w.1.returned = some .notEnoughData -> w.2 = [] /\ w.1.readable = s.readable)

/-- A call that copies what is there ends, and it makes progress or has no effect exactly
if there is no gap ahead of it. -/
theorem read_available_progresses_iff {s : Reader} (reachable : leaseSystem.Reachable s)
    (idle : s.running = none) {room maxSlices : Nat} (free : 0 < room) (some : 1 <= maxSlices) :
    Ends s (.readAvailableInto room maxSlices) /\
    forall w, (callSystem s (.readAvailableInto room maxSlices)).Reachable w ->
      w.1.running = none -> (Progressed s w <-> ¬ s.Gap room maxSlices) := by
  have counts := (Reader.valid_of_reachable reachable).idle idle
  have made : s.call (.readAvailableInto room maxSlices) =
      if s.len = 0 then Option.some (s.done .notEnoughData)
      else Option.some (s.continueWith (.skipEmpty room maxSlices)) := by
    rw [Reader.call, if_neg (by omega), if_neg (by omega)]
  refine ⟨counts.ends ?_ trivial, fun w during ended => ?_⟩
  · rw [made]
    split <;> rfl
  by_cases none : s.len = 0
  · -- nothing is there, and the call returns at once
    rw [if_pos none] at made
    have spent : s.readable = [] := List.eq_nil_of_length_eq_zero (counts.len.symm.trans none)
    have stays : w.1.running = Option.none /\ w.1.pins.sliceList = s.pins.sliceList /\ w.2 = [] := by
      refine during.invariant (P := fun w => w.1.running = Option.none /\
        w.1.pins.sliceList = s.pins.sliceList /\ w.2 = []) ?_ ?_
      · rintro ⟨t, dst⟩ ⟨started, rfl⟩
        cases made.symm.trans started
        exact ⟨rfl, rfl, rfl⟩
      · rintro w a ⟨t, dst⟩ _ _ moved ⟨ended, list, empty⟩
        rcases Reader.callSystem_step moved with ⟨_, advanced, _⟩ | ⟨i, _, dropped, same⟩
        · rcases Reader.advance_cases advanced with ⟨rest, running, _⟩
          cases running.symm.trans ended
        · rcases Option.map_eq_some_iff.mp dropped with ⟨pins, gone, rfl⟩
          exact ⟨ended, (Pins.dropBuf_sliceList gone).trans list, same.trans empty⟩
    refine iff_of_true ⟨fun some => absurd none (Nat.ne_of_gt some), fun _ => ⟨stays.2.2, ?_⟩⟩ ?_
    · rw [Reader.readable, stays.2.1, Reader.readable]
    · refine not_gapFrom (.inl ?_)
      have whole := List.takeWhile_append_dropWhile (p := fun slice : Slice => slice.size == 0)
        (l := s.pins.sliceList)
      rw [Reader.readable, <- whole, List.flatMap_append] at spent
      exact (List.append_eq_nil_iff.mp spent).2
  · rw [if_neg none] at made
    have positive : 0 < s.len := Nat.pos_of_ne_zero none
    have copying : Copying s.readable room maxSlices (s.Gap room maxSlices) w := by
      refine during.invariant (P := Copying s.readable room maxSlices (s.Gap room maxSlices)) ?_
        fun w a v _ _ moved copying => copying.step moved
      rintro ⟨t, dst⟩ ⟨started, rfl⟩
      cases made.symm.trans started
      exact .skipEmpty rfl (Reader.Holds.congr counts rfl rfl) rfl ⟨positive, free, some⟩ Iff.rfl
    cases copying with
    | skipEmpty runs _ _ _ _ | copyLoop runs _ _ _ _ => cases runs.symm.trans ended
    | ended value _ returned bytes counts' copied outcome =>
      rcases outcome with ⟨rfl, clear⟩ | ⟨rfl, gap⟩
      · refine iff_of_true ⟨fun _ => ⟨returned, ?_, bytes, ?_⟩, fun wrong => ?_⟩ clear
        · exact List.length_pos_of_ne_nil copied
        · rw [counts.len, <- bytes, List.length_append, <- counts'.len, Nat.add_comm]
        · cases returned.symm.trans wrong
      · refine iff_of_false (fun progressed => ?_) (not_not.mpr gap)
        cases returned.symm.trans (progressed.1 positive).1

/-- Two slices with an empty one in front of them are copied to a destination of three. -/
theorem read_available_progresses_iff_full :
    Exists fun s => leaseSystem.Reachable s /\ s.len = 3 /\
      (s.pins.sliceList.map Slice.unread = [[], [1], [2, 3]] /\
        Ends s (.readAvailableInto 3 2) /\
        forall w, (callSystem s (.readAvailableInto 3 2)).Reachable w -> w.1.running = none ->
          Progressed s w) := by
  have found : Exists fun s => leaseSystem.Reachable s /\
      (s.len = 3 /\ s.pins.sliceList.map Slice.unread = [[], [1], [2, 3]] /\ s.running = none /\
        ∀ slice ∈ s.pins.sliceList.dropWhile fun slice => slice.size == 0, slice.size ≠ 0) :=
    System.exists_reachable_of_run .new
      [.call (.appendBufferSlice 1 0 false []), .call (.appendBufferSlice 100 8 true [1]),
        .call (.appendBufferSlice 200 8 true [2, 3])] rfl (by decide +kernel)
  rcases found with ⟨s, reachable, len, slices, idle, full⟩
  have clear : ¬ s.Gap 3 2 := by
    rintro ⟨before, empty, after, split, _, none, _⟩
    exact full empty (split ▸ List.mem_append_right _ List.mem_cons_self) none
  rcases read_available_progresses_iff reachable idle (by decide : 0 < 3) (by decide : 1 <= 2) with
    ⟨ends, progress⟩
  exact ⟨s, reachable, len, slices, ends, fun w during idle => (progress w during idle).mpr clear⟩

/-- An empty slice lies between two bytes.  The first byte is copied and gone from the
buffer, and the call returns `NotEnoughData`. -/
theorem read_available_loses_byte_at_gap :
    Exists fun s => leaseSystem.Reachable s /\ s.running = none /\ s.readable = [1, 2] /\
      Exists fun w => (callSystem s (.readAvailableInto 8 8)).Reachable w /\
        w.1.running = none /\ w.1.returned = some .notEnoughData /\ w.2 = [1] /\
        w.1.readable = [2] := by
  have found : Exists fun s => leaseSystem.Reachable s /\
      (s.running = none /\ s.readable = [1, 2] /\
        ((callSystem s (.readAvailableInto 8 8)).run (fun _ _ => True)
          (s.continueWith (.skipEmpty 8 8), []) [.advance, .advance, .advance]).any (fun w =>
            decide (w.1.running = none /\ w.1.returned = some .notEnoughData /\ w.2 = [1] /\
              w.1.readable = [2])) = true /\ s.len = 2) :=
    System.exists_reachable_of_run .new
      [.call (.appendBufferSlice 100 8 true [1]), .call (.appendBufferSlice 1 0 false []),
        .call (.appendBufferSlice 200 8 true [2])] rfl (by decide +kernel)
  rcases found with ⟨s, reachable, idle, readable, ran, len⟩
  rcases System.exists_run_of_any ran with ⟨w, ran, outcome⟩
  refine ⟨s, reachable, idle, readable, w, System.reachable_run (.start ⟨?_, rfl⟩) ran, outcome⟩
  rw [Reader.call, if_neg (by decide), if_neg (by decide), if_neg (by rw [len]; decide)]

end Lease
end Pool
end Shmipc
