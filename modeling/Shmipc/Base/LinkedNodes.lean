import Mathlib.Data.List.Nodup
import Mathlib.Logic.Function.Basic

namespace Shmipc

/-!
# A list threaded through its nodes

The nodes of a singly linked list are reached through a partial successor
function, read off the memory of the nodes.  A node whose link has not been
written yet has no successor, and a list may be extended at its end before the
link into the new node is written.  So the nodes of the list are given
separately, and the successor function is only required never to disagree with
them: where it is defined it names the next node, and at the last node it is
undefined.
-/

universe u

variable {Node : Type u}

/-- Every link that can be followed leads to the next node of the list, and
none leads out of the last one. -/
def Linked (succ : Node -> Option Node) : List Node -> Prop
  | [] => True
  | [last] => succ last = none
  | node :: next :: rest =>
    (forall target, succ node = some target -> target = next) /\ Linked succ (next :: rest)

/-- The second node directly follows the first. -/
def Adjacent (node next : Node) (nodes : List Node) : Prop :=
  Exists fun before => Exists fun after => nodes = before ++ node :: next :: after

namespace Adjacent

variable {node next : Node} {nodes : List Node}

theorem mem (adjacent : Adjacent node next nodes) : node ∈ nodes := by
  rcases adjacent with ⟨before, after, rfl⟩
  simp

theorem append (adjacent : Adjacent node next nodes) (more : List Node) :
    Adjacent node next (nodes ++ more) := by
  rcases adjacent with ⟨before, after, rfl⟩
  exact ⟨before, after ++ more, by simp⟩

theorem of_getLast (last : nodes.getLast? = some node) (added : Node) :
    Adjacent node added (nodes ++ [added]) := by
  rcases List.getLast?_eq_some_iff.mp last with ⟨before, rfl⟩
  exact ⟨before, [], by simp⟩

/-- Taking the first node off the list keeps every pair that does not start
with it. -/
theorem of_cons {first : Node} (adjacent : Adjacent node next (first :: nodes))
    (later : node ≠ first) : Adjacent node next nodes := by
  rcases adjacent with ⟨before, after, split⟩
  cases before with
  | nil =>
    simp only [List.nil_append, List.cons.injEq] at split
    exact absurd split.1.symm later
  | cons head before =>
    simp only [List.cons_append, List.cons.injEq] at split
    exact ⟨before, after, split.2⟩

theorem ne_getLast {last : Node} (distinct : nodes.Nodup) (adjacent : Adjacent node next nodes)
    (atEnd : nodes.getLast? = some last) : node ≠ last := by
  rcases adjacent with ⟨before, after, rfl⟩
  have later : last ∈ next :: after := by
    refine List.mem_of_getLast? ?_
    rw [<- atEnd, List.getLast?_append_cons, List.getLast?_cons_cons]
  have fresh := (List.nodup_cons.mp (List.nodup_append.mp distinct).2.1).1
  rintro rfl
  exact fresh later

end Adjacent

namespace Linked

variable {succ succ' : Node -> Option Node} {nodes : List Node}

theorem congr (linked : Linked succ nodes) (same : ∀ node ∈ nodes, succ' node = succ node) :
    Linked succ' nodes := by
  induction nodes with
  | nil => trivial
  | cons node rest ih =>
    rcases List.forall_mem_cons.mp same with ⟨atNode, atRest⟩
    cases rest with
    | nil => exact atNode.trans linked
    | cons next rest => exact ⟨by rw [atNode]; exact linked.1, ih linked.2 atRest⟩

theorem of_succ_eq_some {first next : Node} (linked : Linked succ (first :: nodes))
    (link : succ first = some next) :
    Exists fun rest => nodes = next :: rest /\ Linked succ (next :: rest) := by
  cases nodes with
  | nil =>
    rw [show succ first = none from linked] at link
    cases link
  | cons second rest =>
    cases linked.1 next link
    exact ⟨rest, rfl, linked.2⟩

theorem succ_getLast {last : Node} (linked : Linked succ nodes)
    (atEnd : nodes.getLast? = some last) : succ last = none := by
  induction nodes with
  | nil => cases atEnd
  | cons node rest ih =>
    cases rest with
    | nil =>
      cases atEnd
      exact linked
    | cons next rest => exact ih linked.2 (by simpa using atEnd)

theorem append {added : Node} (linked : Linked succ nodes) (unlinked : succ added = none) :
    Linked succ (nodes ++ [added]) := by
  induction nodes with
  | nil => exact unlinked
  | cons node rest ih =>
    cases rest with
    | nil =>
      refine ⟨fun target link => ?_, unlinked⟩
      rw [show succ node = none from linked] at link
      cases link
    | cons next rest => exact ⟨linked.1, ih linked.2⟩

theorem link [DecidableEq Node] {node next : Node} (linked : Linked succ nodes)
    (distinct : nodes.Nodup) (adjacent : Adjacent node next nodes)
    (atNode : succ' node = some next) (elsewhere : forall other, other ≠ node ->
      succ' other = succ other) :
    Linked succ' nodes := by
  rcases adjacent with ⟨before, after, rfl⟩
  induction before with
  | nil =>
    have fresh := (List.nodup_cons.mp distinct).1
    refine ⟨fun target link => ?_, linked.2.congr fun later member => elsewhere later ?_⟩
    · rw [atNode] at link
      exact (Option.some.inj link).symm
    · rintro rfl
      exact fresh member
  | cons first before ih =>
    have fresh := (List.nodup_cons.mp distinct).1
    have restDistinct := (List.nodup_cons.mp distinct).2
    have firstElsewhere := elsewhere first (by rintro rfl; simp at fresh)
    cases before with
    | nil | cons second before =>
      exact ⟨by rw [firstElsewhere]; exact linked.1, ih linked.2 restDistinct⟩

end Linked

/-! ## Complete lists -/

/-- Every link is written: it leads to the next node, and the last node has
none. -/
def Threaded (succ : Node -> Option Node) : List Node -> Prop
  | [] => True
  | [last] => succ last = none
  | node :: next :: rest => succ node = some next /\ Threaded succ (next :: rest)

namespace Threaded

variable {succ succ' : Node -> Option Node} {nodes : List Node}

theorem congr (threaded : Threaded succ nodes) (same : ∀ node ∈ nodes, succ' node = succ node) :
    Threaded succ' nodes := by
  induction nodes with
  | nil => trivial
  | cons node rest ih =>
    rcases List.forall_mem_cons.mp same with ⟨atNode, atRest⟩
    cases rest with
    | nil => exact atNode.trans threaded
    | cons next rest => exact ⟨atNode.trans threaded.1, ih threaded.2 atRest⟩

theorem snoc {last added : Node} (threaded : Threaded succ (nodes ++ [last]))
    (same : ∀ node ∈ nodes, succ' node = succ node) (linked : succ' last = some added)
    (unlinked : succ' added = none) : Threaded succ' (nodes ++ [last] ++ [added]) := by
  induction nodes with
  | nil => exact ⟨linked, unlinked⟩
  | cons node rest ih =>
    rcases List.forall_mem_cons.mp same with ⟨atNode, atRest⟩
    cases rest with
    | nil => exact ⟨atNode.trans threaded.1, linked, unlinked⟩
    | cons next rest => exact ⟨atNode.trans threaded.1, ih threaded.2 atRest⟩

theorem of_range {node : Nat -> Node} {count : Nat}
    (inner : forall i, i + 1 < count -> succ (node i) = some (node (i + 1)))
    (last : forall i, i + 1 = count -> succ (node i) = none) :
    Threaded succ ((List.range count).map node) := by
  have shifted : forall rest start, start + rest = count ->
      Threaded succ ((List.range' start rest).map node) := by
    intro rest
    induction rest with
    | zero => exact fun _ _ => trivial
    | succ rest ih =>
      intro start total
      cases rest with
      | zero => exact last start total
      | succ rest => exact ⟨inner start (by omega), ih (start + 1) (by omega)⟩
  rw [List.range_eq_range']
  exact shifted count 0 (Nat.zero_add count)

end Threaded

end Shmipc
