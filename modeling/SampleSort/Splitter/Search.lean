import SampleSort.Counted

set_option relaxedAutoImplicit false
set_option autoImplicit false

/-!
# Finding an element's bucket

Splitters in ascending order cut the elements into buckets: an element belongs to the bucket whose
number is that of the splitters not greater than it. A binary search finds it.

## Main definitions

* `SampleSort.partitionPoint` — where a predicate on positions turns from true to false.
* `SampleSort.bucketOf` — the bucket of an element.

## Main results

* `SampleSort.partitionPoint_le` — the search stays within its positions, whatever the predicate.
* `SampleSort.bucketOf_le` — there is one bucket more than there are splitters.
-/

namespace SampleSort

variable {α : Type}

/-- The position of `base` and the `size - 1` after it to which halving leads: at every halving
the upper part is kept if the predicate holds of its first position. -/
def narrow (p : Nat → Counted Bool) (base size : Nat) : Counted Nat :=
  if size ≤ 1 then return base
  else do
    if ← p (base + size / 2) then narrow p (base + size / 2) (size - size / 2)
    else narrow p base (size - size / 2)
termination_by size

/-- How many of the positions below `n` come before the one at which `p` turns from true to
false, if it does so only once. -/
def partitionPoint (p : Nat → Counted Bool) (n : Nat) : Counted Nat :=
  if n = 0 then return 0
  else do
    let position ← narrow p 0 n
    if ← p position then return position + 1 else return position

/-- The bucket of `x`: the number of splitters that are not greater than it. -/
def bucketOf (less : α → α → Bool) (splitters : List α) (x : α) : Counted Nat :=
  partitionPoint
    (fun i =>
      match splitters[i]? with
      | some s => not <$> Counted.ask less x s
      | none => return false)
    splitters.length

/-- Halving stays within the positions it started from. -/
theorem narrow_lt (p : Nat → Counted Bool) (base size : Nat) (h : 0 < size) :
    (narrow p base size).value < base + size := by
  fun_induction narrow p base size with
  | case1 base size hs =>
    rw [Counted.value_pure]
    omega
  | case2 base size hs ih₁ ih₂ =>
    rw [Counted.value_bind]
    split
    · have := ih₁ (by omega); omega
    · have := ih₂ (by omega); omega

/-- The search stays within its positions, whatever the predicate. -/
theorem partitionPoint_le (p : Nat → Counted Bool) (n : Nat) :
    (partitionPoint p n).value ≤ n := by
  unfold partitionPoint
  split
  · simp
  · next hn =>
    have h := narrow_lt p 0 n (by omega)
    rw [Counted.value_bind, Counted.value_bind]
    split <;> rw [Counted.value_pure] <;> omega

/-- There is one bucket more than there are splitters. -/
theorem bucketOf_le (less : α → α → Bool) (splitters : List α) (x : α) :
    (bucketOf less splitters x).value ≤ splitters.length :=
  partitionPoint_le _ _

end SampleSort
