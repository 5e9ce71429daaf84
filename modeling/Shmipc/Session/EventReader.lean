import Shmipc.Session.Events
import Shmipc.Util.BufReader

namespace Shmipc
namespace Session

open ByteStream

/-!
# The read loop and its buffer

`BufReader` keeps the bytes it has read ahead in a buffer that never grows.  The
read loop asks it for at least as many bytes as the next event needs, handles
every event that is buffered whole, and has the payload of fallback data read
into an allocation of its own: what is buffered first, the rest straight from
the socket.

Of the reader only the live bytes are kept here; the buffer they lie in, and what a
dropped fill leaves there, is in `Util.BufReader`.

The socket delivers its bytes in pieces.  Whatever the pieces, the loop comes to
the events of the stream as a whole and to the same end (`parse`).
-/

/-- The valid bytes `buf[pos..len]` of the reader and where they start.  The
capacity is a parameter, since it never changes. -/
structure BufReader where
  pos : Nat
  data : List UInt8
deriving DecidableEq, Repr

namespace BufReader

def new : BufReader := { pos := 0, data := [] }

/-- The end of the valid bytes. -/
def len (r : BufReader) : Nat := r.pos + r.data.length

def compact (r : BufReader) : BufReader := { r with pos := 0 }

def consume (r : BufReader) (amt : Nat) : BufReader :=
  { pos := min (r.pos + amt) r.len, data := r.data.drop amt }

end BufReader

/-- What the reader's operations come to: they stop where the bytes are used up,
or return with the reader and the pieces still to come. -/
inductive ReadResult where
  | stopped (stop : Stop)
  | returned (bytes : List UInt8) (reader : BufReader) (rest : List (List UInt8))

/-- The loop of `fill_buf_at_least`: read behind the valid bytes until there are
enough of them. -/
def fillLoop (cap len : Nat) (ended : Bool) (r : BufReader) (pieces : List (List UInt8)) :
    ReadResult :=
  if len <= r.data.length then .returned r.data r pieces
  else match _met : arrive (cap - r.len) pieces with
    | .dry => .stopped (.atEnd ended .invalidEof)
    | .pending rest => fillLoop cap len ended r rest
    | .bytes taken rest =>
      if taken.isEmpty then .stopped (.failed .invalidEof)
      else fillLoop cap len ended { r with data := r.data ++ taken } rest
termination_by pieces.length + (len - r.data.length)
decreasing_by
  · have spec := arrive_spec (cap - r.len) pieces
    rw [_met] at spec
    dsimp only at spec
    omega
  · have spec := arrive_spec (cap - r.len) pieces
    rw [_met] at spec
    dsimp only at spec
    rename_i notEmpty
    have some : taken.length ≠ 0 := fun none => notEmpty (List.isEmpty_iff_length_eq_zero.mpr none)
    rw [List.length_append]
    omega

def BufReader.fillBufAtLeast (cap len : Nat) (ended : Bool) (r : BufReader)
    (pieces : List (List UInt8)) : ReadResult :=
  let r := if r.pos = r.len then r.compact else r
  if len = 0 then .returned [] r pieces
  else if len <= r.data.length then .returned r.data r pieces
  else if cap < len then .stopped (.failed (.doesNotFit len cap))
  else fillLoop cap len ended (if cap - r.pos < len then r.compact else r) pieces

/-- What polling the reader comes to. -/
inductive Polled where
  /-- There is nothing buffered and nothing more to come. -/
  | dry
  | pending (rest : List (List UInt8))
  | ready (bytes : List UInt8) (reader : BufReader) (rest : List (List UInt8))

def BufReader.pollFillBuf (cap : Nat) (r : BufReader) (pieces : List (List UInt8)) : Polled :=
  if cap <= r.pos then
    match arrive cap pieces with
    | .dry => .dry
    | .pending rest => .pending rest
    | .bytes taken rest => .ready taken { pos := 0, data := taken } rest
  else if r.len < cap then
    match arrive (cap - r.len) pieces with
    | .dry => if r.data.isEmpty then .dry else .ready r.data r pieces
    | .pending rest => if r.data.isEmpty then .pending rest else .ready r.data r rest
    | .bytes taken rest => .ready (r.data ++ taken) { r with data := r.data ++ taken } rest
  else .ready r.data r pieces

def BufReader.pollRead (cap remaining : Nat) (r : BufReader) (pieces : List (List UInt8)) : Polled :=
  if r.pos = r.len /\ cap <= remaining then
    match arrive remaining pieces with
    | .dry => .dry
    | .pending rest => .pending rest
    | .bytes taken rest => .ready taken .new rest
  else match r.pollFillBuf cap pieces with
    | .dry => .dry
    | .pending rest => .pending rest
    | .ready rem r rest =>
      let amt := min rem.length remaining
      .ready (rem.take amt) (r.consume amt) rest

section Poll

variable {cap remaining : Nat} {r : BufReader} (pieces : List (List UInt8))

/-- Polling gives the bytes in front of the stream, those that are buffered first;
it gives at least one byte whenever there is one to give. -/
theorem BufReader.pollFillBuf_spec (positive : 0 < cap) (fits : r.len <= cap) :
    match r.pollFillBuf cap pieces with
    | .dry => r.data = [] /\ pieces = []
    | .pending rest => r.data = [] /\ rest.flatten = pieces.flatten
    | .ready bytes r' rest =>
      bytes = r'.data /\ r'.data ++ rest.flatten = r.data ++ pieces.flatten /\
        0 < r'.data.length /\ r'.len <= cap := by
  have length : r.len = r.pos + r.data.length := rfl
  unfold pollFillBuf
  by_cases used : cap <= r.pos
  · simp only [if_pos used]
    have empty : r.data = [] := List.eq_nil_of_length_eq_zero (by omega)
    have spec := arrive_spec cap pieces
    cases met : arrive cap pieces with
    | dry =>
      rw [met] at spec
      exact ⟨empty, spec⟩
    | pending rest =>
      rw [met] at spec
      exact ⟨empty, spec.1⟩
    | bytes taken rest =>
      rw [met] at spec
      rcases spec with ⟨whole, _, small, some⟩
      refine ⟨rfl, by rw [empty]; exact whole, some positive, ?_⟩
      simpa only [len, Nat.zero_add] using small
  simp only [if_neg used]
  by_cases space : r.len < cap
  · simp only [if_pos space]
    have spec := arrive_spec (cap - r.len) pieces
    cases met : arrive (cap - r.len) pieces with
    | dry =>
      rw [met] at spec
      by_cases empty : r.data.isEmpty
      · simp only [if_pos empty]
        exact ⟨List.isEmpty_iff.mp empty, spec⟩
      · simp only [if_neg empty]
        refine ⟨trivial, trivial, List.length_pos_iff.mpr ?_, fits⟩
        exact fun nil => empty (List.isEmpty_iff.mpr nil)
    | pending rest =>
      rw [met] at spec
      by_cases empty : r.data.isEmpty
      · simp only [if_pos empty]
        exact ⟨List.isEmpty_iff.mp empty, spec.1⟩
      · simp only [if_neg empty]
        refine ⟨trivial, by rw [spec.1], List.length_pos_iff.mpr ?_, fits⟩
        exact fun nil => empty (List.isEmpty_iff.mpr nil)
    | bytes taken rest =>
      rw [met] at spec
      rcases spec with ⟨whole, _, small, some⟩
      have got := some (by omega)
      refine ⟨rfl, by rw [List.append_assoc, whole], ?_, ?_⟩
      · rw [List.length_append]
        omega
      · simp only [len, List.length_append]
        omega
  · simp only [if_neg space]
    exact ⟨trivial, trivial, by omega, fits⟩

theorem BufReader.pollRead_spec (positive : 0 < cap) (fits : r.len <= cap) (wanted : 0 < remaining) :
    match r.pollRead cap remaining pieces with
    | .dry => r.data = [] /\ pieces = []
    | .pending rest => r.data = [] /\ rest.flatten = pieces.flatten
    | .ready bytes r' rest =>
      bytes ++ (r'.data ++ rest.flatten) = r.data ++ pieces.flatten /\
        0 < bytes.length /\ bytes.length <= remaining /\ r'.len <= cap := by
  have length : r.len = r.pos + r.data.length := rfl
  unfold pollRead
  by_cases massive : r.pos = r.len /\ cap <= remaining
  · simp only [if_pos massive]
    have empty : r.data = [] := List.eq_nil_of_length_eq_zero (by omega)
    have spec := arrive_spec remaining pieces
    cases met : arrive remaining pieces with
    | dry =>
      rw [met] at spec
      exact ⟨empty, spec⟩
    | pending rest =>
      rw [met] at spec
      exact ⟨empty, spec.1⟩
    | bytes taken rest =>
      rw [met] at spec
      rcases spec with ⟨whole, _, small, some⟩
      exact ⟨by rw [empty]; exact whole, some wanted, small, Nat.zero_le _⟩
  · simp only [if_neg massive]
    have spec := pollFillBuf_spec pieces positive fits
    cases met : r.pollFillBuf cap pieces with
    | dry | pending rest =>
      rw [met] at spec
      exact spec
    | ready rem r' rest =>
      rw [met] at spec
      rcases spec with ⟨rfl, whole, some, inside⟩
      refine ⟨?_, ?_, ?_, ?_⟩
      · rw [<- whole, consume, <- List.append_assoc, List.take_append_drop]
      · rw [List.length_take]
        omega
      · rw [List.length_take]
        omega
      · have end_ : r'.len = r'.pos + r'.data.length := rfl
        simp only [consume, len, List.length_drop]
        omega

end Poll

theorem BufReader.pollFillBuf_pieces (cap : Nat) (r : BufReader) (pieces : List (List UInt8)) :
    match r.pollFillBuf cap pieces with
    | .dry => True
    | .pending rest => rest.length < pieces.length
    | .ready _ _ rest => rest.length <= pieces.length := by
  unfold pollFillBuf
  by_cases used : cap <= r.pos
  · rw [if_pos used]
    have spec := arrive_spec cap pieces
    cases met : arrive cap pieces with
    | dry => trivial
    | pending rest =>
      rw [met] at spec
      exact spec.2
    | bytes taken rest =>
      rw [met] at spec
      exact spec.2.1
  rw [if_neg used]
  by_cases space : r.len < cap
  · rw [if_pos space]
    have spec := arrive_spec (cap - r.len) pieces
    cases met : arrive (cap - r.len) pieces with
    | dry =>
      cases r.data.isEmpty
      · exact Nat.le_refl _
      · trivial
    | pending rest =>
      rw [met] at spec
      cases r.data.isEmpty
      · exact Nat.le_of_lt spec.2
      · exact spec.2
    | bytes taken rest =>
      rw [met] at spec
      exact spec.2.1
  · rw [if_neg space]

theorem BufReader.pollRead_pieces (cap remaining : Nat) (r : BufReader)
    (pieces : List (List UInt8)) :
    match r.pollRead cap remaining pieces with
    | .dry => True
    | .pending rest => rest.length < pieces.length
    | .ready _ _ rest => rest.length <= pieces.length := by
  unfold pollRead
  split_ifs
  · have spec := arrive_spec remaining pieces
    cases met : arrive remaining pieces with
    | dry => trivial
    | pending rest =>
      rw [met] at spec
      exact spec.2
    | bytes taken rest =>
      rw [met] at spec
      exact spec.2.1
  · have spec := pollFillBuf_pieces cap r pieces
    cases met : r.pollFillBuf cap pieces with
    | dry => trivial
    | pending rest | ready rem r' rest =>
      rw [met] at spec
      exact spec

/-- Reading a payload: poll the reader until the allocation is full. -/
def readExact (cap : Nat) (ended : Bool) (remaining : Nat) (r : BufReader)
    (pieces : List (List UInt8)) : ReadResult :=
  if remaining = 0 then .returned [] r pieces
  else match _met : r.pollRead cap remaining pieces with
    | .dry => .stopped (.atEnd ended .unexpectedEof)
    | .pending rest => readExact cap ended remaining r rest
    | .ready bytes r' rest =>
      if bytes.isEmpty then .stopped (.failed .unexpectedEof)
      else match readExact cap ended (remaining - bytes.length) r' rest with
        | .stopped stop => .stopped stop
        | .returned more r'' rest' => .returned (bytes ++ more) r'' rest'
termination_by remaining + pieces.length
decreasing_by
  · have spec := BufReader.pollRead_pieces cap remaining r pieces
    rw [_met] at spec
    exact Nat.add_lt_add_left spec remaining
  · rename_i notEmpty
    have spec := BufReader.pollRead_pieces cap remaining r pieces
    have some : bytes.length ≠ 0 := fun none => notEmpty (List.isEmpty_iff_length_eq_zero.mpr none)
    rw [_met] at spec
    dsimp only at spec
    omega

/-! ## What the reader's operations give -/

section Reads

variable {cap len : Nat} {ended : Bool} {r : BufReader} {pieces : List (List UInt8)}

theorem fillLoop_spec (inside : r.len <= cap) (fits : r.pos + len <= cap) :
    match fillLoop cap len ended r pieces with
    | .stopped stop =>
      (r.data ++ pieces.flatten).length < len /\ stop = .atEnd ended .invalidEof
    | .returned bytes r' rest =>
      bytes = r'.data /\ r'.data ++ rest.flatten = r.data ++ pieces.flatten /\
        len <= r'.data.length /\ r'.len <= cap := by
  have length : r.len = r.pos + r.data.length := rfl
  fun_induction fillLoop cap len ended r pieces with
  | case1 r pieces enough => exact ⟨rfl, rfl, enough, inside⟩
  | case2 r pieces few met =>
    have spec := arrive_spec (cap - r.len) pieces
    rw [met] at spec
    dsimp only at spec
    rw [spec, List.flatten_nil, List.append_nil]
    exact ⟨Nat.not_le.mp few, rfl⟩
  | case3 r pieces few rest met ih =>
    have spec := arrive_spec (cap - r.len) pieces
    rw [met] at spec
    rw [<- spec.1]
    exact ih inside fits length
  | case4 r pieces few taken rest met none =>
    have spec := arrive_spec (cap - r.len) pieces
    rw [met] at spec
    have some := spec.2.2.2 (by omega)
    rw [List.isEmpty_iff.mp none] at some
    exact absurd some (Nat.lt_irrefl 0)
  | case5 r pieces few taken rest met some ih =>
    have spec := arrive_spec (cap - r.len) pieces
    rw [met] at spec
    rcases spec with ⟨whole, _, small, _⟩
    rw [<- whole, <- List.append_assoc]
    refine ih ?_ fits rfl
    simp only [BufReader.len, List.length_append]
    omega

variable (ended pieces) in
/-- The reader's buffer holds as many bytes as were asked for, or the stream does
not have them. -/
theorem BufReader.fillBufAtLeast_spec (inside : r.len <= cap) (positive : 0 < len)
    (fits : len <= cap) :
    match r.fillBufAtLeast cap len ended pieces with
    | .stopped stop =>
      (r.data ++ pieces.flatten).length < len /\ stop = .atEnd ended .invalidEof
    | .returned bytes r' rest =>
      bytes = r'.data /\ r'.data ++ rest.flatten = r.data ++ pieces.flatten /\
        len <= r'.data.length /\ r'.len <= cap := by
  -- moving the valid bytes to the front changes where they are, not what they are
  have moved (r : BufReader) (inside : r.len <= cap) (test : Prop) [Decidable test] :
      (if test then r.compact else r).data = r.data /\
        (if test then r.compact else r).len <= cap := by
    have length : r.len = r.pos + r.data.length := rfl
    split_ifs
    · refine ⟨rfl, ?_⟩
      simp only [compact, BufReader.len]
      omega
    · exact ⟨rfl, inside⟩
  unfold fillBufAtLeast
  rcases moved r inside (r.pos = r.len) with ⟨same, within⟩
  generalize (if r.pos = r.len then r.compact else r) = first at same within ⊢
  dsimp only
  rw [if_neg (Nat.ne_of_gt positive), <- same]
  by_cases enough : len <= first.data.length
  · rw [if_pos enough]
    exact ⟨rfl, rfl, enough, within⟩
  rw [if_neg enough, if_neg (Nat.not_lt.mpr fits)]
  have room : (if cap - first.pos < len then first.compact else first).pos + len <= cap := by
    split_ifs with tight
    · simpa only [compact, Nat.zero_add] using fits
    · have start : first.pos <= first.len := Nat.le_add_right _ _
      omega
  rcases moved first within (cap - first.pos < len) with ⟨same', within'⟩
  rw [<- same']
  exact fillLoop_spec within' room

variable (ended pieces) in
/-- A payload is the next bytes of the stream, and the stream goes on behind it. -/
theorem readExact_spec (remaining : Nat) (positive : 0 < cap) (inside : r.len <= cap) :
    match readExact cap ended remaining r pieces with
    | .stopped stop =>
      (r.data ++ pieces.flatten).length < remaining /\ stop = .atEnd ended .unexpectedEof
    | .returned bytes r' rest =>
      bytes ++ (r'.data ++ rest.flatten) = r.data ++ pieces.flatten /\
        bytes.length = remaining /\ r'.len <= cap := by
  fun_induction readExact cap ended remaining r pieces with
  | case1 r pieces => exact ⟨rfl, rfl, inside⟩
  | case2 remaining r pieces wanted met =>
    have spec := BufReader.pollRead_spec pieces positive inside (Nat.pos_of_ne_zero wanted)
    rw [met] at spec
    rw [spec.1, spec.2]
    exact ⟨Nat.pos_of_ne_zero wanted, rfl⟩
  | case3 remaining r pieces wanted rest met ih =>
    have spec := BufReader.pollRead_spec pieces positive inside (Nat.pos_of_ne_zero wanted)
    rw [met] at spec
    rw [<- spec.2]
    exact ih inside
  | case4 remaining r pieces wanted bytes r' rest met none =>
    have spec := BufReader.pollRead_spec pieces positive inside (Nat.pos_of_ne_zero wanted)
    rw [met] at spec
    have some := spec.2.1
    rw [List.isEmpty_iff.mp none] at some
    exact absurd some (Nat.lt_irrefl 0)
  | case5 remaining r pieces wanted bytes r' rest met some stop stopped ih =>
    have spec := BufReader.pollRead_spec pieces positive inside (Nat.pos_of_ne_zero wanted)
    rw [met] at spec
    rcases spec with ⟨whole, _, _, within⟩
    have short := ih within
    rw [stopped] at short
    refine ⟨?_, short.2⟩
    rw [<- whole, List.length_append]
    have := short.1
    omega
  | case6 remaining r pieces wanted bytes r' rest met some more r'' rest' returned ih =>
    have spec := BufReader.pollRead_spec pieces positive inside (Nat.pos_of_ne_zero wanted)
    rw [met] at spec
    rcases spec with ⟨whole, _, small, within⟩
    have read := ih within
    rw [returned] at read
    rcases read with ⟨behind, count, within'⟩
    refine ⟨?_, ?_, within'⟩
    · rw [List.append_assoc, behind, whole]
    · rw [List.length_append, count]
      omega

end Reads

/-! ## The reader with its buffer

A fill over the pieces of a socket is a fill of the reader with its buffer that gets the
answers the pieces amount to. -/

namespace BufReader

/-- The live bytes of the reader with its buffer. -/
def of (r : Util.BufReader) : BufReader := { pos := r.pos, data := r.buffer }

variable {r : Util.BufReader}

theorem len_of (valid : r.Valid) : (of r).len = r.len := by
  have start := valid.start
  have live := valid.length_buffer
  change r.pos + r.buffer.length = r.len
  omega

/-- Moving the live bytes to the front is the same for both. -/
theorem of_compact (valid : r.Valid) (test : Prop) [Decidable test] :
    (if test then r.compact else r).Valid /\ (if test then r.compact else r).cap = r.cap /\
      of (if test then r.compact else r) = if test then (of r).compact else of r := by
  split
  · have front : r.compact.pos = 0 /\ r.compact.cap = r.cap := by
      rw [Util.BufReader.compact]
      split <;> exact ⟨rfl, rfl⟩
    refine ⟨valid.compact.1, front.2, ?_⟩
    rw [of, valid.compact.2, front.1]
    rfl
  · exact ⟨valid, rfl, rfl⟩

end BufReader

/-- The two readers end alike: with the same live bytes and the same bytes taken off the
stream, or neither with what was asked for. -/
def ReadResult.EndsLike (stream : List UInt8) (done : Util.BufReader × List UInt8 × Util.Outcome) :
    ReadResult -> Prop
  | .returned bytes reader rest =>
    done.2.2 = .ok bytes /\ BufReader.of done.1 = reader /\ done.2.1 ++ rest.flatten = stream
  | .stopped _ => forall bytes, done.2.2 ≠ .ok bytes

theorem fillLoop_endsLike {cap len : Nat} {ended : Bool} {reader : BufReader}
    {pieces : List (List UInt8)} {r : Util.BufReader} (valid : r.Valid) (capacity : r.cap = cap)
    (same : BufReader.of r = reader) :
    Exists fun answers =>
      (fillLoop cap len ended reader pieces).EndsLike pieces.flatten (r.fillLoop len answers) := by
  have live := valid.length_buffer
  fun_induction fillLoop cap len ended reader pieces generalizing r with
  | case1 reader pieces enough =>
    subst same
    exact ⟨[], if_neg (live ▸ Nat.not_lt.mpr enough), rfl, rfl⟩
  | case2 reader pieces few met =>
    subst same
    have less : r.len - r.pos < len := live ▸ Nat.not_le.mp few
    refine ⟨[], fun bytes => ?_⟩
    rw [Util.BufReader.fillLoop, if_pos less]
    simp
  | case3 reader pieces few rest met ih =>
    have spec := arrive_spec (cap - reader.len) pieces
    rw [met] at spec
    rcases ih valid capacity same live with ⟨answers, ends⟩
    subst same
    have less : r.len - r.pos < len := live ▸ Nat.not_le.mp few
    refine ⟨.pending :: answers, ?_⟩
    rw [Util.BufReader.fillLoop, if_pos less, <- spec.1]
    exact ends
  | case4 reader pieces few taken rest met none =>
    subst same
    have less : r.len - r.pos < len := live ▸ Nat.not_le.mp few
    refine ⟨[.ready []], fun bytes => ?_⟩
    rw [Util.BufReader.fillLoop, if_pos less]
    simp
  | case5 reader pieces few taken rest met some ih =>
    have spec := arrive_spec (cap - reader.len) pieces
    rw [met] at spec
    rcases spec with ⟨whole, _, fits, _⟩
    rw [<- same, BufReader.len_of valid, <- capacity] at fits
    rcases valid.receive fits with ⟨received, longer⟩
    have grown : BufReader.of (r.receive taken) = { reader with data := reader.data ++ taken } := by
      rw [BufReader.of, longer, <- same]
      rfl
    rcases ih received capacity grown received.length_buffer with ⟨answers, ends⟩
    subst same
    have less : r.len - r.pos < len := live ▸ Nat.not_le.mp few
    have nonempty : taken.length ≠ 0 := fun none =>
      some (List.isEmpty_iff_length_eq_zero.mpr none)
    refine ⟨.ready taken :: answers, ?_⟩
    rw [Util.BufReader.fillLoop, if_pos less]
    dsimp only
    rw [List.take_of_length_le fits, if_neg nonempty, <- whole]
    revert ends
    cases fillLoop cap len ended _ rest with
    | stopped stop => exact id
    | returned bytes reader rest' =>
      rintro ⟨outcome, reached, behind⟩
      refine ⟨outcome, reached, ?_⟩
      rw [List.append_assoc, behind]

/-- Whatever the pieces, a fill ends like one of the reader with its buffer. -/
theorem BufReader.fillBufAtLeast_endsLike (len : Nat) (ended : Bool) (pieces : List (List UInt8))
    {r : Util.BufReader} (valid : r.Valid) :
    Exists fun answers => ((of r).fillBufAtLeast r.cap len ended pieces).EndsLike pieces.flatten
      (r.fillBufAtLeast len answers) := by
  unfold fillBufAtLeast Util.BufReader.fillBufAtLeast
  have front : (of r).pos = r.pos := rfl
  rcases of_compact valid (r.pos = r.len) with ⟨moved, capacity, same⟩
  rw [len_of valid, front, <- same, <- capacity]
  generalize (if r.pos = r.len then r.compact else r) = q at moved
  have live : (of q).data.length = q.len - q.pos := moved.length_buffer
  have place : (of q).pos = q.pos := rfl
  dsimp only
  rw [live, place]
  by_cases none : len = 0
  · simp only [if_pos none]
    exact ⟨[], rfl, rfl, rfl⟩
  by_cases enough : len <= q.len - q.pos
  · simp only [if_neg none, if_pos enough]
    exact ⟨[], rfl, rfl, rfl⟩
  by_cases large : q.cap < len
  · simp only [if_neg none, if_neg enough, if_pos large]
    exact ⟨[], fun bytes wrong => by cases wrong⟩
  simp only [if_neg none, if_neg enough, if_neg large]
  rcases of_compact moved (q.cap - q.pos < len) with ⟨again, capacity', same'⟩
  exact fillLoop_endsLike again capacity' same'

end Session
end Shmipc
