import Mathlib.Logic.Function.Basic
import Shmipc.Base.Tiling

namespace Shmipc
namespace ByteMemory

/-!
# Words in a byte-addressed memory

A memory assigns a byte to every address.  Words are stored with their least
significant byte first, at any address and of any width; runs of bytes are
copied as they are.  A write changes the bytes of its own range and no others,
so what was written is read back unless a later write touches its range.
-/

/-- The contents of an address space. -/
abbrev Memory := Nat -> UInt8

/-- Store the lowest `width` bytes of a value at an address. -/
def writeWord (m : Memory) : Nat -> Nat -> Nat -> Memory
  | _, 0, _ => m
  | a, width + 1, value =>
    Function.update (writeWord m (a + 1) width (value / 256)) a (UInt8.ofNat value)

/-- The value of the `width` bytes at an address. -/
def readWord (m : Memory) : Nat -> Nat -> Nat
  | _, 0 => 0
  | a, width + 1 => (m a).toNat + 256 * readWord m (a + 1) width

/-- The two memories hold the same bytes from `a` on for `n` bytes. -/
def AgreeOn (m m' : Memory) (a n : Nat) : Prop :=
  forall x, a <= x -> x < a + n -> m' x = m x

/-- The two memories differ at most from `a` on for `n` bytes. -/
def AgreeOutside (m m' : Memory) (a n : Nat) : Prop :=
  forall x, x < a \/ a + n <= x -> m' x = m x

variable {m m' m'' : Memory} {a b n k : Nat}

theorem AgreeOn.mono (agree : AgreeOn m m' a n) (lower : a <= b) (upper : b + k <= a + n) :
    AgreeOn m m' b k :=
  fun x fromStart beforeEnd => agree x (by omega) (by omega)

theorem AgreeOutside.refl (m : Memory) (a n : Nat) : AgreeOutside m m a n :=
  fun _ _ => rfl

theorem AgreeOutside.trans (first : AgreeOutside m m' a n) (second : AgreeOutside m' m'' a n) :
    AgreeOutside m m'' a n :=
  fun x outside => (second x outside).trans (first x outside)

theorem AgreeOutside.mono (agree : AgreeOutside m m' b k) (lower : a <= b)
    (upper : b + k <= a + n) : AgreeOutside m m' a n :=
  fun x outside => agree x (by omega)

theorem AgreeOutside.agreeOn (agree : AgreeOutside m m' a n) (apart : b + k <= a \/ a + n <= b) :
    AgreeOn m m' b k :=
  fun x lower upper => agree x (by omega)

/-- The two memories differ at most inside the given ranges. -/
def AgreeOff (spans : List Tiling.Span) (m m' : Memory) : Prop :=
  forall x, (∀ span ∈ spans, ¬ span.Contains x) -> m' x = m x

theorem AgreeOff.refl (spans : List Tiling.Span) (m : Memory) : AgreeOff spans m m :=
  fun _ _ => rfl

variable {spans : List Tiling.Span} {width value : Nat}

theorem AgreeOff.trans (first : AgreeOff spans m m') (second : AgreeOff spans m' m'') :
    AgreeOff spans m m'' :=
  fun x outside => (second x outside).trans (first x outside)

theorem AgreeOff.step {span : Tiling.Span} (first : AgreeOff spans m m')
    (second : AgreeOutside m' m'' a n) (listed : span ∈ spans) (lower : span.start <= a)
    (upper : a + n <= span.start + span.size) : AgreeOff spans m m'' := by
  refine first.trans fun x outside => second x ?_
  have missed := outside span listed
  unfold Tiling.Span.Contains at missed
  omega

theorem AgreeOff.agreeOn (agree : AgreeOff spans m m') (apart : ∀ span ∈ spans, span.Apart ⟨a, n⟩) :
    AgreeOn m m' a n := by
  intro x lower upper
  refine agree x fun span listed inside => ?_
  have clear := apart span listed
  simp only [Tiling.Span.Apart] at clear
  unfold Tiling.Span.Contains at inside
  omega

theorem writeWord_agreeOutside (m : Memory) (a width value : Nat) :
    AgreeOutside m (writeWord m a width value) a width := by
  induction width generalizing a value with
  | zero => exact AgreeOutside.refl m a 0
  | succ width ih =>
    intro x outside
    have different : x ≠ a := by omega
    exact (Function.update_of_ne different _ _).trans (ih (a + 1) (value / 256) x (by omega))

theorem readWord_congr (agree : AgreeOn m m' a width) :
    readWord m' a width = readWord m a width := by
  induction width generalizing a with
  | zero => rfl
  | succ width ih =>
    rw [readWord, readWord, agree a (Nat.le_refl a) (by omega)]
    rw [ih (agree.mono (by omega) (by omega))]

theorem readWord_eq_zero (zero : forall x, a <= x -> x < a + width -> m x = 0) :
    readWord m a width = 0 := by
  induction width generalizing a with
  | zero => rfl
  | succ width ih =>
    rw [readWord, zero a (Nat.le_refl a) (by omega),
      ih fun x lower upper => zero x (by omega) (by omega)]
    rfl

theorem readWord_writeWord (m : Memory) (a width value : Nat) :
    readWord (writeWord m a width value) a width = value % 256 ^ width := by
  induction width generalizing a value with
  | zero => simp [readWord, Nat.mod_one]
  | succ width ih =>
    have first : writeWord m a (width + 1) value a = UInt8.ofNat value :=
      Function.update_self _ _ _
    have rest : AgreeOn (writeWord m (a + 1) width (value / 256))
        (writeWord m a (width + 1) value) (a + 1) width := by
      intro x lower _
      exact Function.update_of_ne (by omega) _ _
    have split : 256 ^ (width + 1) = 256 * 256 ^ width := Nat.pow_succ'
    rw [readWord, first, readWord_congr rest, ih, UInt8.toNat_ofNat', split, Nat.mod_mul]

theorem readWord_writeWord_of_lt (m : Memory) (a : Nat) (fits : value < 256 ^ width) :
    readWord (writeWord m a width value) a width = value := by
  rw [readWord_writeWord, Nat.mod_eq_of_lt fits]

theorem readWord_writeWord_of_apart {other : Nat} (m : Memory)
    (apart : b + other <= a \/ a + width <= b) :
    readWord (writeWord m a width value) b other = readWord m b other :=
  readWord_congr ((writeWord_agreeOutside m a width value).agreeOn apart)

theorem readWord_lt (m : Memory) (a width : Nat) : readWord m a width < 256 ^ width := by
  induction width generalizing a with
  | zero => exact Nat.zero_lt_one
  | succ width ih =>
    have byte := (m a).toNat_lt
    have rest := ih (a + 1)
    rw [readWord, Nat.pow_succ']
    omega

theorem writeWord_apply (m : Memory) (a width value x : Nat) :
    writeWord m a width value x =
      if a <= x /\ x < a + width then UInt8.ofNat (value / 256 ^ (x - a)) else m x := by
  induction width generalizing a value with
  | zero => exact (if_neg (by omega)).symm
  | succ width ih =>
    by_cases here : x = a
    · subst here
      rw [writeWord, Function.update_self, if_pos (by omega), Nat.sub_self, Nat.pow_zero,
        Nat.div_one]
    · rw [writeWord, Function.update_of_ne here, ih]
      by_cases inside : a <= x /\ x < a + (width + 1)
      · have shift : x - a = x - (a + 1) + 1 := by omega
        rw [if_pos inside, if_pos (by omega), Nat.div_div_eq_div_mul, shift, Nat.pow_succ']
      · rw [if_neg inside, if_neg (by omega)]

theorem writeWord_writeWord (m : Memory) (a width first second : Nat) :
    writeWord (writeWord m a width first) a width second = writeWord m a width second := by
  funext x
  simp only [writeWord_apply]
  split_ifs <;> rfl

theorem writeWord_readWord (m : Memory) (a width : Nat) :
    writeWord m a width (readWord m a width) = m := by
  induction width generalizing a with
  | zero => rfl
  | succ width ih =>
    have byte := (m a).toNat_lt
    have low : UInt8.ofNat (readWord m a (width + 1)) = m a := by
      apply UInt8.toNat_inj.mp
      rw [UInt8.toNat_ofNat', readWord]
      omega
    have high : readWord m a (width + 1) / 256 = readWord m (a + 1) width := by
      rw [readWord]
      omega
    rw [writeWord, low, high, ih, Function.update_eq_self]

/-! ## Signed words -/

/-- Store an integer in two's complement. -/
def writeSigned (m : Memory) (a width : Nat) (value : Int) : Memory :=
  writeWord m a width (value % (256 ^ width : Nat)).toNat

/-- The integer whose two's complement stands at an address. -/
def readSigned (m : Memory) (a width : Nat) : Int :=
  let value := readWord m a width
  if 2 * value < 256 ^ width then value else value - (256 ^ width : Nat)

theorem writeSigned_agreeOutside (m : Memory) (a width : Nat) (value : Int) :
    AgreeOutside m (writeSigned m a width value) a width :=
  writeWord_agreeOutside m a width _

theorem readSigned_congr (agree : AgreeOn m m' a width) :
    readSigned m' a width = readSigned m a width := by
  rw [readSigned, readSigned, readWord_congr agree]

theorem readSigned_writeSigned (m : Memory) (a : Nat) (fits : 2 * value < 256 ^ width) :
    readSigned (writeSigned m a width value) a width = value := by
  have small : value < 256 ^ width := by omega
  have stored : ((value : Int) % (256 ^ width : Nat)).toNat = value := by
    rw [Int.emod_eq_of_lt (Int.natCast_nonneg _) (Int.ofNat_lt.mpr small), Int.toNat_natCast]
  rw [readSigned, writeSigned, stored, readWord_writeWord_of_lt m a small]
  exact if_pos fits

theorem readSigned_writeSigned_bmod (m : Memory) (a width : Nat) (value : Int) :
    readSigned (writeSigned m a width value) a width = value.bmod (256 ^ width) := by
  have positive : (0 : Int) < (256 ^ width : Nat) := by exact_mod_cast Nat.pow_pos (by decide)
  have lower := Int.emod_nonneg value (Int.ne_of_gt positive)
  have upper := Int.emod_lt_of_pos value positive
  rw [readSigned, writeSigned, readWord_writeWord_of_lt m a (by omega), Int.bmod_def]
  generalize 256 ^ width = range at *
  split_ifs <;> omega

/-- Add to a signed word in place, wrapping around. -/
def fetchAdd (m : Memory) (a width : Nat) (delta : Int) : Memory :=
  writeSigned m a width (readSigned m a width + delta)

theorem fetchAdd_agreeOutside (m : Memory) (a width : Nat) (delta : Int) :
    AgreeOutside m (fetchAdd m a width delta) a width :=
  writeSigned_agreeOutside m a width _

theorem readSigned_fetchAdd (m : Memory) (a width : Nat) (delta : Int) :
    readSigned (fetchAdd m a width delta) a width =
      (readSigned m a width + delta).bmod (256 ^ width) :=
  readSigned_writeSigned_bmod m a width _

theorem writeSigned_congr (m : Memory) (a width : Nat) {first second : Int}
    (same : first % (256 ^ width : Nat) = second % (256 ^ width : Nat)) :
    writeSigned m a width first = writeSigned m a width second := by
  rw [writeSigned, writeSigned, same]

theorem fetchAdd_fetchAdd (m : Memory) (a width : Nat) (first second : Int) :
    fetchAdd (fetchAdd m a width first) a width second =
      fetchAdd m a width (first + second) := by
  rw [fetchAdd, readSigned_fetchAdd, fetchAdd, writeSigned, writeSigned, writeWord_writeWord]
  refine writeSigned_congr m a width ?_
  rw [Int.add_emod, Int.bmod_emod, <- Int.add_emod, Int.add_assoc]

theorem fetchAdd_zero (m : Memory) (a width : Nat) : fetchAdd m a width 0 = m := by
  have small := readWord_lt m a width
  have stored : (readSigned m a width % (256 ^ width : Nat)).toNat = readWord m a width := by
    rw [readSigned]
    generalize 256 ^ width = range at *
    generalize readWord m a width = value at *
    split_ifs
    · rw [Int.emod_eq_of_lt (by omega) (by omega), Int.toNat_natCast]
    · rw [Int.sub_emod_right, Int.emod_eq_of_lt (by omega) (by omega), Int.toNat_natCast]
  rw [fetchAdd, Int.add_zero, writeSigned, stored, writeWord_readWord]

/-! ## Runs of bytes -/

/-- Copy bytes into memory. -/
def writeBytes (m : Memory) : Nat -> List UInt8 -> Memory
  | _, [] => m
  | a, byte :: rest => Function.update (writeBytes m (a + 1) rest) a byte

/-- The next `n` bytes from an address on. -/
def readBytes (m : Memory) : Nat -> Nat -> List UInt8
  | _, 0 => []
  | a, n + 1 => m a :: readBytes m (a + 1) n

theorem length_readBytes (m : Memory) (a n : Nat) : (readBytes m a n).length = n := by
  induction n generalizing a with
  | zero => rfl
  | succ n ih => rw [readBytes, List.length_cons, ih]

theorem readBytes_add (m : Memory) (a n k : Nat) :
    readBytes m a (n + k) = readBytes m a n ++ readBytes m (a + n) k := by
  induction n generalizing a with
  | zero => rw [Nat.zero_add, readBytes, List.nil_append, Nat.add_zero]
  | succ n ih =>
    rw [Nat.succ_add, readBytes, readBytes, List.cons_append, ih, Nat.succ_add_eq_add_succ]

theorem readBytes_congr (agree : AgreeOn m m' a n) : readBytes m' a n = readBytes m a n := by
  induction n generalizing a with
  | zero => rfl
  | succ n ih =>
    rw [readBytes, readBytes, agree a (Nat.le_refl a) (by omega),
      ih (agree.mono (by omega) (by omega))]

theorem writeBytes_agreeOutside (m : Memory) (a : Nat) (bytes : List UInt8) :
    AgreeOutside m (writeBytes m a bytes) a bytes.length := by
  induction bytes generalizing a with
  | nil => exact AgreeOutside.refl m a 0
  | cons byte rest ih =>
    intro x outside
    rw [List.length_cons] at outside
    have different : x ≠ a := by omega
    exact (Function.update_of_ne different _ _).trans (ih (a + 1) x (by omega))

theorem readBytes_writeBytes (m : Memory) (a : Nat) (bytes : List UInt8) :
    readBytes (writeBytes m a bytes) a bytes.length = bytes := by
  induction bytes generalizing a with
  | nil => rfl
  | cons byte rest ih =>
    have first : writeBytes m a (byte :: rest) a = byte := Function.update_self _ _ _
    have later : AgreeOn (writeBytes m (a + 1) rest) (writeBytes m a (byte :: rest)) (a + 1)
        rest.length := by
      intro x lower _
      exact Function.update_of_ne (by omega) _ _
    rw [List.length_cons, readBytes, first, readBytes_congr later, ih]

end ByteMemory
end Shmipc
