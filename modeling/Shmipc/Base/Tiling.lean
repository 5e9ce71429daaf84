import Mathlib.Data.List.Perm.Basic
import Mathlib.Algebra.Order.Group.Nat
import Mathlib.Tactic.SplitIfs

namespace Shmipc
namespace Tiling

/-!
# Ranges that tile an interval

A list of ranges tiles `[0, total)` when every point of it lies in exactly one
of them and no point beyond it in any.  Counting how many ranges contain a
point makes the notion insensitive to the order of the list, additive over
concatenation and stable under cutting a range in two, which is all that an
allocator does to its free and outstanding blocks.
-/

/-- A half-open range of addresses. -/
structure Span where
  start : Nat
  size : Nat
  deriving DecidableEq

namespace Span

def Contains (span : Span) (x : Nat) : Prop :=
  span.start <= x /\ x < span.start + span.size

instance (span : Span) (x : Nat) : Decidable (span.Contains x) :=
  inferInstanceAs (Decidable (_ /\ _))

/-- No point lies in both ranges. -/
def Apart (a b : Span) : Prop :=
  a.start + a.size <= b.start \/ b.start + b.size <= a.start

theorem exists_of_not_apart {a b : Span} (overlap : ¬ a.Apart b) (positive : 0 < a.size)
    (otherPositive : 0 < b.size) : Exists fun x => a.Contains x /\ b.Contains x := by
  refine ⟨max a.start b.start, ?_⟩
  unfold Apart at overlap
  unfold Contains
  omega

end Span

/-- How many ranges of a list contain a point. -/
def cover (spans : List Span) (x : Nat) : Nat :=
  spans.countP (fun span => decide (span.Contains x))

/-- Every point below `total` lies in exactly one range, every other in none. -/
def Tiles (spans : List Span) (total : Nat) : Prop :=
  forall x, cover spans x = if x < total then 1 else 0

theorem cover_append (first second : List Span) (x : Nat) :
    cover (first ++ second) x = cover first x + cover second x :=
  List.countP_append

theorem cover_cons (span : Span) (rest : List Span) (x : Nat) :
    cover (span :: rest) x = cover rest x + if span.Contains x then 1 else 0 := by
  unfold cover
  rw [List.countP_cons]
  simp

theorem cover_split (start first second x : Nat) :
    cover [⟨start, first⟩, ⟨start + first, second⟩] x = cover [⟨start, first + second⟩] x := by
  rw [cover_cons, cover_cons, cover_cons]
  split_ifs <;> simp only [Span.Contains] at * <;> omega

/-- Equal ranges laid end to end cover what one range over all of them covers. -/
theorem cover_row (start size count x : Nat) :
    cover ((List.range count).map (fun i => ⟨start + i * size, size⟩)) x =
      cover [⟨start, count * size⟩] x := by
  induction count with
  | zero =>
    rw [cover_cons, if_neg (by simp only [Span.Contains]; omega)]
    rfl
  | succ count ih =>
    rw [List.range_succ, List.map_append, cover_append, ih, Nat.succ_mul, <- cover_split]
    exact (cover_append [⟨start, count * size⟩] [⟨start + count * size, size⟩] x).symm

theorem cover_perm {first second : List Span} (perm : first.Perm second) (x : Nat) :
    cover first x = cover second x :=
  perm.countP_eq _

theorem tiles_whole (total : Nat) : Tiles [⟨0, total⟩] total := by
  intro x
  rw [cover_cons]
  split_ifs <;> simp only [Span.Contains] at * <;> first | rfl | omega

theorem Tiles.of_cover_eq {first second : List Span} {total : Nat} (tiles : Tiles first total)
    (same : forall x, cover second x = cover first x) : Tiles second total :=
  fun x => (same x).trans (tiles x)

variable {spans rest : List Span} {span other : Span} {total : Nat}

theorem cover_pos_of_mem {x : Nat} (inside : span ∈ spans) (contains : span.Contains x) :
    0 < cover spans x :=
  List.countP_pos_iff.mpr ⟨span, inside, decide_eq_true contains⟩

theorem Tiles.end_le (tiles : Tiles spans total) (inside : span ∈ spans) (positive : 0 < span.size) :
    span.start + span.size <= total := by
  have contains : span.Contains (span.start + span.size - 1) := by
    constructor <;> omega
  have covered := cover_pos_of_mem inside contains
  rw [tiles] at covered
  split at covered
  · omega
  · omega

theorem Tiles.apart (tiles : Tiles (span :: rest) total) (inside : other ∈ rest)
    (positive : 0 < span.size) (otherPositive : 0 < other.size) : span.Apart other := by
  by_contra overlap
  rcases Span.exists_of_not_apart overlap positive otherPositive with ⟨x, first, second⟩
  have covered := cover_pos_of_mem inside second
  have once := tiles x
  rw [cover_cons, if_pos first] at once
  split at once <;> omega

/-- Ranges of at least `unit` points that lie apart below `top` start in different
multiples of `unit`, so there are not many of them. -/
theorem length_le_of_apart {unit top : Nat} (positive : 0 < unit)
    (apart : spans.Pairwise Span.Apart)
    (bounds : ∀ span ∈ spans, unit <= span.size /\ span.start + span.size <= top) :
    spans.length <= top / unit := by
  have distinct : (spans.map fun span => span.start / unit).Nodup := by
    refine List.pairwise_map.mpr (apart.imp_of_mem fun {a b} inside inside' apart same => ?_)
    have size := (bounds a inside).1
    have size' := (bounds b inside').1
    have first := Nat.div_add_mod a.start unit
    have second := Nat.div_add_mod b.start unit
    have small := Nat.mod_lt a.start positive
    have small' := Nat.mod_lt b.start positive
    rw [same] at first
    unfold Span.Apart at apart
    omega
  have below : (spans.map fun span => span.start / unit) ⊆ List.range (top / unit) := by
    intro index member
    rcases List.mem_map.mp member with ⟨span, inside, rfl⟩
    have bound := bounds span inside
    have whole : (span.start + unit) / unit <= top / unit := Nat.div_le_div_right (by omega)
    rw [Nat.add_div_right _ positive] at whole
    exact List.mem_range.mpr whole
  have count := (List.subperm_of_subset distinct below).length_le
  rwa [List.length_map, List.length_range] at count

/-! ## Ranges stacked downwards -/

theorem Span.Apart.symm (apart : span.Apart other) : other.Apart span :=
  Or.symm apart

/-- The ranges follow each other downwards without a gap, from `top` to
`bottom`. -/
def Stacked : Nat -> List Span -> Nat -> Prop
  | top, [], bottom => bottom = top
  | top, span :: rest, bottom => span.start + span.size = top /\ Stacked span.start rest bottom

namespace Stacked

variable {top bottom : Nat}

theorem bottom_le (stacked : Stacked top spans bottom) : bottom <= top := by
  induction spans generalizing top with
  | nil => exact Nat.le_of_eq stacked
  | cons span rest ih =>
    have lower := ih stacked.2
    have upper := stacked.1
    omega

theorem bounds (stacked : Stacked top spans bottom) (inside : span ∈ spans) :
    bottom <= span.start /\ span.start + span.size <= top := by
  induction spans generalizing top with
  | nil => cases inside
  | cons first rest ih =>
    rcases stacked with ⟨upper, below⟩
    rcases List.mem_cons.mp inside with rfl | later
    · exact ⟨below.bottom_le, Nat.le_of_eq upper⟩
    · rcases ih below later with ⟨lower, highest⟩
      exact ⟨lower, by omega⟩

theorem pairwise (stacked : Stacked top spans bottom) : spans.Pairwise Span.Apart := by
  induction spans generalizing top with
  | nil => exact List.Pairwise.nil
  | cons span rest ih =>
    refine List.pairwise_cons.mpr ⟨fun other inside => ?_, ih stacked.2⟩
    exact Or.inr (stacked.2.bounds inside).2

theorem concat {low : Span} (stacked : Stacked top spans (low.start + low.size)) :
    Stacked top (spans ++ [low]) low.start := by
  induction spans generalizing top with
  | nil => exact ⟨stacked, rfl⟩
  | cons span rest ih => exact ⟨stacked.1, ih stacked.2⟩

theorem of_append {upper lower : List Span} (stacked : Stacked top (upper ++ lower) bottom) :
    Stacked top upper ((upper.getLast?.map Span.start).getD top) := by
  induction upper generalizing top with
  | nil => rfl
  | cons span rest ih =>
    refine ⟨stacked.1, ?_⟩
    have below := ih stacked.2
    rw [List.getLast?_cons]
    cases last : rest.getLast? with
    | none | some low => simpa [last] using below

end Stacked

end Tiling
end Shmipc
