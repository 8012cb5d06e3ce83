import SampleSort.Partition.Separation

set_option relaxedAutoImplicit false
set_option autoImplicit false

/-!
# Partitioning by one pass for every splitter

The elements less than the first splitter are moved to the front; the rest is partitioned by the
other splitters in the same way. No labels are needed, but every splitter costs a pass.

## Main definitions

* `SampleSort.cutBySplitters` — the buckets, from the first to the last.

## Main results

* `SampleSort.length_cutBySplitters` — there is one bucket more than there are splitters.
* `SampleSort.flatten_cutBySplitters_perm` — nothing is lost.
-/

namespace SampleSort

variable {α : Type}

/-- The buckets of `v`: the elements less than the first splitter, then those of the rest that are
less than the second, and so on, and at last those that are less than none. -/
def cutBySplitters (less : α → α → Bool) : List α → List α → Counted (List (List α))
  | [], v => return [v]
  | s :: splitters, v => do
    let (below, rest) ← separate (fun x => Counted.ask less x s) v
    return below :: (← cutBySplitters less splitters rest)

/-- There is one bucket more than there are splitters. -/
@[simp] theorem length_cutBySplitters (less : α → α → Bool) (splitters v : List α) :
    (cutBySplitters less splitters v).value.length = splitters.length + 1 := by
  induction splitters generalizing v with
  | nil => rfl
  | cons s splitters ih => simp [cutBySplitters, ih]

/-- The buckets, one after the other, are a permutation of the window. -/
theorem flatten_cutBySplitters_perm (less : α → α → Bool) (splitters v : List α) :
    (cutBySplitters less splitters v).value.flatten.Perm v := by
  induction splitters generalizing v with
  | nil => simp [cutBySplitters]
  | cons s splitters ih =>
    exact ((ih _).append_left _).trans (separate_perm _ v)

end SampleSort
