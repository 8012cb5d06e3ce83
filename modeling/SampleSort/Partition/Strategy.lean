import SampleSort.Partition.Placement
import SampleSort.Partition.Sequential

set_option relaxedAutoImplicit false
set_option autoImplicit false

/-!
# Partitioning a labelled window

There are two ways to bring the elements of a window together by buckets: to place them by their
labels, which takes no comparisons, and to separate them by one splitter after the other, which
takes no labels.

## Main definitions

* `SampleSort.Strategy` — the two ways.
* `SampleSort.Partitioned` — a window in buckets.
* `SampleSort.Strategy.partition` — how each way brings it about.
-/

namespace SampleSort

variable {α : Type}

/-- How a window is partitioned. -/
inductive Strategy where
  /-- Elements are moved to the windows of their buckets, which the bucket sizes determine. -/
  | placement
  /-- The rest of the window is separated by one splitter after the other. -/
  | sequential
  deriving DecidableEq, Repr

/-- A window whose elements stand together by buckets. -/
structure Partitioned (α : Type) where
  /-- The elements. -/
  window : List α
  /-- The labels, moved along with their elements where the strategy reads them. -/
  labels : List UInt8
  /-- Where every bucket begins, and where the last one ends. -/
  starts : List Nat
  deriving DecidableEq, Repr

/-- The window `v` brought together by buckets. Placement trusts the labels and the bucket sizes
`counts`; the sequential strategy goes by the splitters and leaves the labels alone. -/
def Strategy.partition (less : α → α → Bool) (strategy : Strategy) (splitters : List α)
    (counts : List Nat) (labels : List UInt8) (v : List α) :
    Counted (Except Fault (Partitioned α)) :=
  match strategy with
  | .placement => pure <|
    if maxBuckets < counts.length then .error .tooManyBuckets
    else if labels.length ≠ v.length then .error .outOfBounds
    else
      match placeByLabels counts labels v with
      | .ok p => .ok {
          window := p.slots.toList.map Prod.snd
          labels := p.slots.toList.map Prod.fst
          starts := offsets counts }
      | .error _ => .error .outOfBounds
  | .sequential => do
    let buckets ← cutBySplitters less splitters v
    return .ok {
      window := buckets.flatten
      labels
      starts := offsets (buckets.map List.length) }

end SampleSort
