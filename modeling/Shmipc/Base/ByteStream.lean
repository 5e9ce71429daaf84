import Mathlib.Data.List.Basic
import Mathlib.Tactic.Ring

namespace Shmipc
namespace ByteStream

/-!
# Byte streams that arrive in pieces

Words travel with their most significant byte first.  The bytes of a stream
reach their reader in pieces of any length: a read takes what the first piece
holds, as far as the reader has room for it, and leaves the rest of the piece
for the next read.  An empty piece is a moment at which nothing has come in yet.
-/

/-! ## Words -/

/-- The lowest `width` bytes of a value, most significant first. -/
def toBeBytes : Nat -> Nat -> List UInt8
  | 0, _ => []
  | width + 1, value => UInt8.ofNat (value / 256 ^ width) :: toBeBytes width value

/-- The value of a string of bytes, most significant first. -/
def fromBeBytes (bytes : List UInt8) : Nat :=
  bytes.foldl (fun value byte => value * 256 + byte.toNat) 0

@[simp]
theorem length_toBeBytes (width value : Nat) : (toBeBytes width value).length = width := by
  induction width with
  | zero => rfl
  | succ width ih => rw [toBeBytes, List.length_cons, ih]

private theorem foldl_toBeBytes (width value start : Nat) :
    (toBeBytes width value).foldl (fun value byte => value * 256 + byte.toNat) start =
      start * 256 ^ width + value % 256 ^ width := by
  induction width generalizing start with
  | zero => simp [toBeBytes, Nat.mod_one]
  | succ width ih =>
    have digits : value % 256 ^ (width + 1) =
        value / 256 ^ width % 256 * 256 ^ width + value % 256 ^ width := by
      rw [Nat.pow_succ, Nat.mod_mul]
      ring
    have byte : (UInt8.ofNat (value / 256 ^ width)).toNat = value / 256 ^ width % 256 := by
      simp
    rw [toBeBytes, List.foldl_cons, ih, digits, byte]
    ring

theorem fromBeBytes_toBeBytes_mod (width value : Nat) :
    fromBeBytes (toBeBytes width value) = value % 256 ^ width := by
  rw [fromBeBytes, foldl_toBeBytes, Nat.zero_mul, Nat.zero_add]

theorem fromBeBytes_toBeBytes {width value : Nat} (fits : value < 256 ^ width) :
    fromBeBytes (toBeBytes width value) = value := by
  rw [fromBeBytes_toBeBytes_mod, Nat.mod_eq_of_lt fits]

theorem take_toBeBytes (width value : Nat) (rest : List UInt8) :
    (toBeBytes width value ++ rest).take width = toBeBytes width value :=
  List.take_left' (length_toBeBytes width value)

theorem drop_toBeBytes (width value : Nat) (rest : List UInt8) :
    (toBeBytes width value ++ rest).drop width = rest :=
  List.drop_left' (length_toBeBytes width value)

/-! ## Arrival -/

variable {α : Type}

/-- What one attempt to read meets. -/
inductive Arrival (α : Type) where
  /-- Every piece has been taken. -/
  | dry
  /-- Nothing has come in yet. -/
  | pending (rest : List (List α))
  | bytes (taken : List α) (rest : List (List α))

/-- Take what has come in, with room for `room` bytes. -/
def arrive (room : Nat) : List (List α) -> Arrival α
  | [] => .dry
  | [] :: rest => .pending rest
  | piece :: rest =>
    .bytes (piece.take room)
      (if (piece.drop room).isEmpty then rest else piece.drop room :: rest)

/-- A read takes bytes off the front of the stream: the pieces still to come hold
what it left, at least one byte is taken if there is room, and no more than fit. -/
theorem arrive_spec (room : Nat) (pieces : List (List α)) :
    match arrive room pieces with
    | .dry => pieces = []
    | .pending rest => rest.flatten = pieces.flatten /\ rest.length < pieces.length
    | .bytes taken rest =>
      taken ++ rest.flatten = pieces.flatten /\ rest.length <= pieces.length /\
        taken.length <= room /\ (0 < room -> 0 < taken.length) := by
  cases pieces with
  | nil => rfl
  | cons piece rest =>
    cases piece with
    | nil => exact ⟨rfl, Nat.lt_succ_self _⟩
    | cons first tail =>
      refine ⟨?_, ?_, List.length_take_le _ _, fun positive => ?_⟩
      · by_cases whole : ((first :: tail).drop room).isEmpty
        · have all : (first :: tail).take room = first :: tail := by
            rw [List.isEmpty_iff, List.drop_eq_nil_iff] at whole
            exact List.take_of_length_le whole
          rw [if_pos whole, all, List.flatten_cons]
        · rw [if_neg whole, List.flatten_cons, List.flatten_cons, <- List.append_assoc,
            List.take_append_drop]
      · split
        · exact Nat.le_succ _
        · exact Nat.le_refl _
      · rw [List.length_take, List.length_cons]
        omega

end ByteStream
end Shmipc
