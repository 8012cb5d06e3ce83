import SampleSort.Small.Shape

set_option relaxedAutoImplicit false
set_option autoImplicit false

/-!
# Sorting small windows

Small windows are sorted by stable linear insertion: each element in turn is compared with the
sorted elements before it, from the last one backwards, and is put behind the first that is not
greater.

## Main definitions

* `SampleSort.insertBack` — an insertion into a sorted list that is held last element first.
* `SampleSort.insertionSort` — the sorted window.
* `SampleSort.sortSmall` — the same, with windows that are resolved at a glance left to
  `SampleSort.Shape.detect`.

## Main results

* `SampleSort.insertionSort_concat` — the last element is inserted last.
* `SampleSort.insertionSort_perm`, `SampleSort.sortSmall_perm` — the window is permuted.
-/

namespace SampleSort

variable {α : Type}

/-- The element `x` put into a sorted list that is held last element first. It goes behind all
elements that it is not less than, ties included. -/
def insertBack (less : α → α → Bool) (x : α) : List α → Counted (List α)
  | [] => return [x]
  | y :: ys => do
    if ← Counted.ask less x y then
      return y :: (← insertBack less x ys)
    else
      return x :: y :: ys

/-- The window, sorted; ties keep their order. -/
def insertionSort (less : α → α → Bool) (v : List α) : Counted (List α) := do
  let backwards ← v.foldlM (fun sorted x => insertBack less x sorted) []
  return backwards.reverse

/-- The window, sorted, with no more than one scan if it is sorted or reversed already. -/
def sortSmall (less : α → α → Bool) (v : List α) : Counted (List α) := do
  match ← Shape.detect less v with
  | .unsorted => insertionSort less v
  | shape => return shape.arrange v

/-- The last element is inserted into what the others have been sorted to. -/
theorem insertionSort_concat (less : α → α → Bool) (v : List α) (x : α) :
    insertionSort less (v ++ [x]) = do
      let sorted ← insertionSort less v
      let backwards ← insertBack less x sorted.reverse
      return backwards.reverse := by
  simp [insertionSort]

/-- An insertion adds one element. -/
theorem insertBack_perm (less : α → α → Bool) (x : α) (ys : List α) :
    (insertBack less x ys).value.Perm (x :: ys) := by
  induction ys with
  | nil => exact .refl _
  | cons y ys ih =>
    cases h : less x y
    · simp [insertBack, h]
    · simpa [insertBack, h] using (ih.cons y).trans (.swap x y ys)

/-- Insertion sort permutes the elements. -/
theorem insertionSort_perm (less : α → α → Bool) (v : List α) :
    (insertionSort less v).value.Perm v := by
  have h : ∀ (v sorted : List α),
      (v.foldlM (fun sorted x => insertBack less x sorted) sorted).value.Perm (v ++ sorted) := by
    intro v
    induction v with
    | nil => exact fun _ => .refl _
    | cons x v ih =>
      intro sorted
      exact (ih _).trans (((insertBack_perm less x sorted).append_left v).trans
        List.perm_middle)
  have h' := h v []
  rw [List.append_nil] at h'
  exact (List.reverse_perm _).trans h'

/-- So does sorting with the windows in order picked out first. -/
theorem sortSmall_perm (less : α → α → Bool) (v : List α) :
    (sortSmall less v).value.Perm v := by
  unfold sortSmall
  rw [Counted.value_bind]
  split
  · exact insertionSort_perm less v
  · exact Shape.arrange_perm _ v

end SampleSort
