import Mathlib.Data.Nat.ModEq
import Mathlib.Logic.Function.Basic

namespace Shmipc
namespace Ring

/-!
# Positions in a ring of slots

A queue keeps its elements in a fixed number of slots.  Positions only grow, and
the element at a position stands in the slot of the position modulo the capacity.
`Holds` relates the slots to the log of everything that was ever put in: from the
head to the tail, the slots hold what the log has there.
-/

variable {α : Type} {cap head tail : Nat} {slots : Nat -> α} {log : List α}

theorem mod_ne_of_lt {i j : Nat} (before : i < j) (near : j < i + cap) : i % cap ≠ j % cap := by
  intro same
  have divides : cap ∣ j - i := (Nat.modEq_iff_dvd' (Nat.le_of_lt before)).mp same
  have large := Nat.le_of_dvd (by omega) divides
  omega

/-- The slots from the head to the tail hold what the log has at those positions. -/
def Holds (cap head tail : Nat) (slots : Nat -> α) (log : List α) : Prop :=
  forall i, head <= i -> i < tail -> log[i]? = some (slots (i % cap))

theorem Holds.write (holds : Holds cap head tail slots log) (space : tail < head + cap)
    (value : α) : Holds cap head tail (Function.update slots (tail % cap) value) log := by
  intro i lower upper
  have apart : i % cap ≠ tail % cap := mod_ne_of_lt upper (by omega)
  rw [Function.update_of_ne apart]
  exact holds i lower upper

theorem Holds.push (holds : Holds cap head tail slots log) (length : log.length = tail) :
    Holds cap head (tail + 1) slots (log ++ [slots (tail % cap)]) := by
  intro i lower upper
  rcases Nat.lt_succ_iff_lt_or_eq.mp upper with earlier | rfl
  · rw [List.getElem?_append_left (by omega)]
    exact holds i lower earlier
  · rw [<- length, List.getElem?_concat_length]

theorem Holds.pop (holds : Holds cap head tail slots log) : Holds cap (head + 1) tail slots log :=
  fun i lower upper => holds i (by omega) upper

end Ring
end Shmipc
