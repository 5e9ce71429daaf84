namespace Shmipc
namespace Fifo

/-!
# A flat queue

What a buffer looks like from the outside: the elements that went in and did not
come out yet, in order.  A request for more than there is fails and takes
nothing.
-/

universe u v

variable {α : Type u} {ε : Type v}

/-- Take exactly `n` elements. -/
def readExact (short : ε) (n : Nat) (queue : List α) : Except ε (List α) × List α :=
  if queue.length < n then (.error short, queue) else (.ok (queue.take n), queue.drop n)

/-- Look at the next `n` elements. -/
def peek (short : ε) (n : Nat) (queue : List α) : Except ε (List α) :=
  if queue.length < n then .error short else .ok (queue.take n)

/-- Throw the next `n` elements away. -/
def discard (short : ε) (n : Nat) (queue : List α) : Except ε Nat × List α :=
  if queue.length < n then (.error short, queue) else (.ok n, queue.drop n)

/-- Take up to `n` elements. -/
def read (n : Nat) (queue : List α) : List α × List α :=
  (queue.take n, queue.drop n)

section Lemmas

variable {short : ε} {n : Nat} {queue : List α}

theorem readExact_of_lt (few : queue.length < n) :
    readExact short n queue = (.error short, queue) :=
  if_pos few

theorem readExact_of_le (enough : n <= queue.length) :
    readExact short n queue = (.ok (queue.take n), queue.drop n) :=
  if_neg (Nat.not_lt.mpr enough)

theorem peek_of_lt (few : queue.length < n) : peek short n queue = .error short :=
  if_pos few

theorem peek_of_le (enough : n <= queue.length) : peek short n queue = .ok (queue.take n) :=
  if_neg (Nat.not_lt.mpr enough)

theorem discard_of_lt (few : queue.length < n) : discard short n queue = (.error short, queue) :=
  if_pos few

theorem discard_of_le (enough : n <= queue.length) :
    discard short n queue = (.ok n, queue.drop n) :=
  if_neg (Nat.not_lt.mpr enough)

end Lemmas

end Fifo
end Shmipc
