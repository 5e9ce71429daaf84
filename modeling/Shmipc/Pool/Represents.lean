import Mathlib.Algebra.Ring.Int.Defs
import Shmipc.Base.LinkedNodes
import Shmipc.Pool.Ledger

namespace Shmipc
namespace Pool

open ByteMemory Tiling
open Buffer (bufferHeaderSize bufferListHeaderSize)

/-!
# Shared bytes that hold a ledger

The bytes of a pool represent a ledger if every list header says how many free
buffers the list has and where the first and the last of them are, if the
headers of the free buffers are linked in that order, and if every buffer,
free or out, still carries its capacity.  The two counters of a list hold what
the two processes took from it less what they gave back, each for itself.
-/

/-- The state of a list as its header holds it. -/
structure ListHeader where
  size : Int
  cap : Nat
  head : Nat
  tail : Nat
  capPerBuffer : Nat
  counter : Side -> Int

namespace ListHeader

/-- The words of the counters, by the side that uses them. -/
def counters (mem : Memory) (offset : Nat) (side : Side) : Int :=
  readSigned mem (offset + side.counterOffset) 4

def read (mem : Memory) (offset : Nat) : ListHeader where
  size := readSigned mem offset 4
  cap := readWord mem (offset + 4) 4
  head := readWord mem (offset + 8) 4
  tail := readWord mem (offset + 12) 4
  capPerBuffer := readWord mem (offset + 16) 4
  counter := counters mem offset

variable {mem mem' : Memory} {offset : Nat}

theorem read_congr (agree : AgreeOn mem mem' offset bufferListHeaderSize) :
    read mem' offset = read mem offset := by
  have part : forall first, first + 4 <= bufferListHeaderSize ->
      AgreeOn mem mem' (offset + first) 4 :=
    fun first fits => agree.mono (Nat.le_add_right ..) (by omega)
  have counter : counters mem' offset = counters mem offset := by
    funext side
    refine readSigned_congr (part side.counterOffset ?_)
    cases side <;> decide
  have size : readSigned mem' offset 4 = readSigned mem offset 4 :=
    readSigned_congr (part 0 (by decide))
  rw [read, read, size, readWord_congr (part 4 (by decide)), readWord_congr (part 8 (by decide)),
    readWord_congr (part 12 (by decide)), readWord_congr (part 16 (by decide)), counter]

variable {field value : Nat}

theorem word_of_agreeOutside {other : Nat} (written : AgreeOutside mem mem' (offset + field) 4)
    (apart : other + 4 <= field \/ field + 4 <= other) :
    readWord mem' (offset + other) 4 = readWord mem (offset + other) 4 :=
  readWord_congr (written.agreeOn (by omega))

theorem size_of_agreeOutside (written : AgreeOutside mem mem' (offset + field) 4)
    (apart : 4 <= field) : readSigned mem' offset 4 = readSigned mem offset 4 :=
  readSigned_congr (written.agreeOn (by omega))

theorem counter_of_agreeOutside (written : AgreeOutside mem mem' (offset + field) 4)
    (below : field + 4 <= 20) : counters mem' offset = counters mem offset := by
  funext side
  refine readSigned_congr (written.agreeOn (Or.inr ?_))
  cases side <;> simp only [Side.counterOffset] <;> omega

theorem read_addSize (mem : Memory) (offset : Nat) (delta : Int) :
    read (fetchAdd mem offset 4 delta) offset =
      { read mem offset with size := ((read mem offset).size + delta).bmod (2 ^ 32) } := by
  have written : AgreeOutside mem (fetchAdd mem offset 4 delta) (offset + 0) 4 :=
    fetchAdd_agreeOutside mem offset 4 delta
  have size : readSigned (fetchAdd mem offset 4 delta) offset 4 =
      (readSigned mem offset 4 + delta).bmod (2 ^ 32) := readSigned_fetchAdd mem offset 4 delta
  rw [read, size]
  simp (disch := decide) only [word_of_agreeOutside written, counter_of_agreeOutside written, read]

/-- A store to one of the words of a header changes that field alone. -/
theorem read_writeWord (mem : Memory) (offset : Nat) (fits : value < 2 ^ 32)
    (known : field ∈ [4, 8, 12, 16]) :
    read (writeWord mem (offset + field) 4 value) offset =
      { read mem offset with
        cap := if field = 4 then value else (read mem offset).cap
        head := if field = 8 then value else (read mem offset).head
        tail := if field = 12 then value else (read mem offset).tail
        capPerBuffer := if field = 16 then value else (read mem offset).capPerBuffer } := by
  have written := writeWord_agreeOutside mem (offset + field) 4 value
  have stored : readWord (writeWord mem (offset + field) 4 value) (offset + field) 4 = value :=
    readWord_writeWord_of_lt mem _ fits
  simp only [List.mem_cons, List.not_mem_nil, or_false] at known
  rcases known with rfl | rfl | rfl | rfl
  all_goals
    rw [read, stored]
    simp (disch := decide) only [size_of_agreeOutside written, word_of_agreeOutside written,
      counter_of_agreeOutside written, read]
    rfl

theorem read_setHead (mem : Memory) (offset : Nat) (fits : value < 2 ^ 32) :
    read (writeWord mem (offset + 8) 4 value) offset =
      { read mem offset with head := value } :=
  read_writeWord mem offset fits (by decide)

theorem read_setTail (mem : Memory) (offset : Nat) (fits : value < 2 ^ 32) :
    read (writeWord mem (offset + 12) 4 value) offset =
      { read mem offset with tail := value } :=
  read_writeWord mem offset fits (by decide)

theorem read_addCounter (mem : Memory) (offset : Nat) (side : Side) (delta : Int) :
    read (fetchAdd mem (offset + side.counterOffset) 4 delta) offset =
      { read mem offset with
        counter := Function.update (read mem offset).counter side
          (((read mem offset).counter side + delta).bmod (2 ^ 32)) } := by
  have written := fetchAdd_agreeOutside mem (offset + side.counterOffset) 4 delta
  have above : 20 <= side.counterOffset := by cases side <;> decide
  have stored : readSigned (fetchAdd mem (offset + side.counterOffset) 4 delta)
      (offset + side.counterOffset) 4 =
        (readSigned mem (offset + side.counterOffset) 4 + delta).bmod (2 ^ 32) :=
    readSigned_fetchAdd mem _ 4 delta
  have counter : counters (fetchAdd mem (offset + side.counterOffset) 4 delta) offset =
      Function.update (counters mem offset) side
        ((counters mem offset side + delta).bmod (2 ^ 32)) := by
    funext other
    by_cases same : other = side
    · subst same
      rw [Function.update_self]
      exact stored
    · rw [Function.update_of_ne same]
      refine readSigned_congr (written.agreeOn ?_)
      cases other <;> cases side <;> simp [Side.counterOffset] at same ⊢
  rw [read, size_of_agreeOutside written (by omega), word_of_agreeOutside written (by omega),
    word_of_agreeOutside written (by omega), word_of_agreeOutside written (by omega),
    word_of_agreeOutside written (by omega), counter]
  dsimp only [read]

end ListHeader

/-! ## The record of takes and returns -/

/-- What an entry of the log adds to the number of buffers taken through a view
of a list. -/
def PoolEvent.effect (l : BufferList) : PoolEvent -> Int
  | .took list _ => if list = l then 1 else 0
  | .returned list _ => if list = l then -1 else 0

/-- The buffers taken through a view of a list, less those given back through
it. -/
def netTakes (log : List PoolEvent) (l : BufferList) : Int :=
  (log.map (PoolEvent.effect l)).sum

theorem netTakes_snoc (log : List PoolEvent) (event : PoolEvent) (l : BufferList) :
    netTakes (log ++ [event]) l = netTakes log l + event.effect l := by
  simp [netTakes]

/-! ## The representation -/

/-- The header of a list as the ledger has it. -/
def Ledger.listHeader (ledger : Ledger) (log : List PoolEvent) (g : ListLayout) : ListHeader where
  size := (ledger.chain g.offset).length
  cap := g.count
  head := (ledger.chain g.offset).headD g.region - g.region
  tail := (ledger.chain g.offset).getLastD g.region - g.region
  capPerBuffer := g.cap
  counter := fun side => (netTakes log (g.view side)).bmod (2 ^ 32)

/-- The link of a free buffer, which is relative to the buffer region. -/
def freeLink (mem : Memory) (g : ListLayout) (b : Nat) : Option Nat :=
  (BufferHeader.read mem b).link.map fun next => g.region + next

structure Represents (layout : PoolLayout) (shm : Shm) (ledger : Ledger) : Prop where
  sound : ledger.Sound layout
  number : readWord shm.mem layout.start 2 = layout.lists.length % 2 ^ 16
  used : readWord shm.mem (layout.start + bmCapOffset) 4 = layout.stop - bufferManagerHeaderSize
  header : ∀ g ∈ layout.lists, ListHeader.read shm.mem g.offset = ledger.listHeader shm.log g
  thread : ∀ g ∈ layout.lists, Threaded (freeLink shm.mem g) (ledger.chain g.offset)
  empty : ∀ g ∈ layout.lists, ∀ b ∈ ledger.chain g.offset,
    (BufferHeader.read shm.mem b).size = 0 /\ (BufferHeader.read shm.mem b).start = 0
  cap : ∀ g ∈ layout.lists, ∀ b ∈ g.buffers, (BufferHeader.read shm.mem b).cap = g.cap
  logged : ∀ event ∈ shm.log, ∃ g ∈ layout.lists, Exists fun side => Exists fun b =>
    (event = .took (g.view side) b \/ event = .returned (g.view side) b) /\
      Ledger.Fits layout g b
  balance : ∀ g ∈ layout.lists, ((ledger.chain g.offset).length : Int) +
    (netTakes shm.log (g.view .creator) + netTakes shm.log (g.view .mapper)) = g.count

end Pool
end Shmipc
