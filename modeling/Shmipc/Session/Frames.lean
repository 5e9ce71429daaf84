import Mathlib.Algebra.Order.Group.Nat
import Mathlib.Data.List.Basic

namespace Shmipc
namespace Session

/-!
# What a direction of a session carries

A message travels in shared memory, where it is named by its first slice, or over the
unix socket as one or more frames.  A close travels behind the messages of its stream.
A fallback message is recut into frames of the size that the socket carries.
-/

/-- The largest frame the socket carries, and the bytes of it an event header takes. -/
def maxControlFrameSize : Nat := 256 * 2 ^ 20

def eventHeaderSize : Nat := 16

/-- What a flush handed over, in slices or copied into frames, and the close. -/
inductive Item
  | shm (root : Nat)
  | heap (bytes : List UInt8)
  | close
  deriving DecidableEq

/-! ## Frames of a fallback message -/

/-- One chunk of a fallback message is copied into frames of at most `room`
bytes.  Every round of the loop copies a byte, so the chunk's length bounds it. -/
def fillFrames (room : Nat) :
    Nat -> List (List UInt8) × List UInt8 -> List UInt8 -> List (List UInt8) × List UInt8
  | 0, state, _ => state
  | fuel + 1, (frames, current), rest =>
    if rest = [] then (frames, current)
    else
      let take := min (room - current.length) rest.length
      let current := current ++ rest.take take
      if current.length = room then fillFrames room fuel (frames ++ [current], []) (rest.drop take)
      else fillFrames room fuel (frames, current) (rest.drop take)

/-- The payloads of the frames a fallback message is sent in. -/
def frameFallback (chunks : List (List UInt8)) : List (List UInt8) :=
  let room := maxControlFrameSize - eventHeaderSize
  let filled := chunks.foldl (fun state chunk => fillFrames room chunk.length state chunk) ([], [])
  if filled.2 = [] then filled.1 else filled.1 ++ [filled.2]

/-- A chunk is put behind the bytes framed before it; the finished frames are full
and the open one is not. -/
theorem fillFrames_spec {room : Nat} (fuel : Nat) (state : List (List UInt8) × List UInt8)
    (rest : List UInt8) (enough : rest.length <= fuel) (below : state.2.length < room)
    (full : ∀ frame ∈ state.1, frame.length = room) :
    (fillFrames room fuel state rest).1.flatten ++ (fillFrames room fuel state rest).2 =
        state.1.flatten ++ state.2 ++ rest /\
      (fillFrames room fuel state rest).2.length < room /\
      ∀ frame ∈ (fillFrames room fuel state rest).1, frame.length = room := by
  induction fuel generalizing state rest with
  | zero =>
    have empty : rest = [] := List.eq_nil_of_length_eq_zero (Nat.le_zero.mp enough)
    rw [empty, List.append_nil]
    exact ⟨rfl, below, full⟩
  | succ fuel ih =>
    rcases state with ⟨frames, current⟩
    have below : current.length < room := below
    by_cases empty : rest = []
    · rw [fillFrames, if_pos empty, empty, List.append_nil]
      exact ⟨rfl, below, full⟩
    · -- Each round copies a byte, so the fuel lasts.
      have some : 0 < rest.length := List.length_pos_iff.mpr empty
      have left : (rest.drop (min (room - current.length) rest.length)).length <= fuel := by
        rw [List.length_drop]
        omega
      rw [fillFrames, if_neg empty]
      dsimp only
      split
      · next filledUp =>
        have filled := ih (frames ++ [current ++ rest.take (min (room - current.length)
          rest.length)], []) _ left (Nat.zero_lt_of_lt below)
          (List.forall_mem_append.mpr ⟨full, List.forall_mem_singleton.mpr filledUp⟩)
        simpa only [List.flatten_append, List.flatten_singleton, List.append_nil,
          List.append_assoc, List.take_append_drop] using filled
      · next partly =>
        have short : (current ++ rest.take (min (room - current.length) rest.length)).length <
            room := by
          rw [List.length_append, List.length_take] at partly ⊢
          omega
        have filled := ih (frames, _) _ left short full
        simpa only [List.append_assoc, List.take_append_drop] using filled

/-- The frames of a message hold its bytes, in order; no frame is empty, so no
frame is dropped on arrival, and none exceeds the limit. -/
theorem frameFallback_spec (chunks : List (List UInt8)) :
    (frameFallback chunks).flatten = chunks.flatten /\
      ∀ frame ∈ frameFallback chunks,
        frame ≠ [] /\ frame.length <= maxControlFrameSize - eventHeaderSize := by
  have positive : 0 < maxControlFrameSize - eventHeaderSize := by decide
  have filled : forall state : List (List UInt8) × List UInt8,
      state.2.length < maxControlFrameSize - eventHeaderSize ->
      (∀ frame ∈ state.1, frame.length = maxControlFrameSize - eventHeaderSize) ->
      let result := chunks.foldl (fun state chunk => fillFrames
        (maxControlFrameSize - eventHeaderSize) chunk.length state chunk) state
      result.1.flatten ++ result.2 = state.1.flatten ++ state.2 ++ chunks.flatten /\
        result.2.length < maxControlFrameSize - eventHeaderSize /\
        ∀ frame ∈ result.1, frame.length = maxControlFrameSize - eventHeaderSize := by
    induction chunks with
    | nil =>
      intro state below full
      exact ⟨(List.append_nil _).symm, below, full⟩
    | cons chunk rest ih =>
      intro state below full
      have first := fillFrames_spec chunk.length state chunk (Nat.le_refl _) below full
      have whole := ih _ first.2.1 first.2.2
      rw [first.1, List.append_assoc] at whole
      exact whole
  rcases filled ([], []) positive (fun _ none => absurd none List.not_mem_nil) with
    ⟨whole, below, full⟩
  have fullOk : ∀ frame : List UInt8, frame.length = maxControlFrameSize - eventHeaderSize ->
      frame ≠ [] /\ frame.length <= maxControlFrameSize - eventHeaderSize := by
    intro frame long
    refine ⟨fun empty => ?_, Nat.le_of_eq long⟩
    rw [empty] at long
    exact absurd long (Nat.ne_of_lt positive)
  unfold frameFallback
  dsimp only at whole below full ⊢
  rw [List.flatten_nil, List.nil_append, List.nil_append] at whole
  split
  · next empty =>
    rw [empty, List.append_nil] at whole
    exact ⟨whole, fun frame member => fullOk frame (full frame member)⟩
  · next remainder =>
    rw [List.flatten_append, List.flatten_singleton]
    refine ⟨whole, fun frame member => ?_⟩
    rcases List.mem_append.mp member with early | last
    · exact fullOk frame (full frame early)
    · rw [List.mem_singleton.mp last]
      exact ⟨remainder, Nat.le_of_lt below⟩

end Session
end Shmipc
