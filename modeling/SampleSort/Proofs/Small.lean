import Mathlib.Data.List.Induction
import SampleSort.Proofs.Shape
import SampleSort.Proofs.SortedBut
import SampleSort.Small.Insertion

set_option relaxedAutoImplicit false
set_option autoImplicit false

/-!
# Small windows are sorted

The two ways in which a window is sorted without being split: it is recognised as sorted or
reversed, or its elements are inserted one by one.

## Main results

* `SampleSort.Shape.sorted_arrange` — a window that is not found unsorted is put in order.
* `SampleSort.insertionSort_sorted`, `SampleSort.sortSmall_sorted` — both sorts sort.
-/

namespace SampleSort

variable {α : Type} {less : α → α → Bool}

/-- A window that is not found unsorted is put in order. -/
theorem Shape.sorted_arrange (hless : StrictWeak less) {v : List α}
    (h : (detect less v).value ≠ .unsorted) :
    Sorted less ((detect less v).value.arrange v) := by
  have hdescribes := describes_detect hless v
  cases hshape : (detect less v).value with
  | empty =>
    rw [hshape] at hdescribes
    obtain rfl : v = [] := hdescribes
    exact List.Pairwise.nil
  | sorted =>
    rw [hshape] at hdescribes
    exact hdescribes.2
  | reversed =>
    rw [hshape] at hdescribes
    exact List.pairwise_reverse.2 hdescribes.2
  | unsorted => exact absurd hshape h

/-- An insertion into a list that is sorted backwards leaves one that is. -/
lemma insertBack_sorted (hless : StrictWeak less) (x : α) {ys : List α}
    (h : ys.Pairwise fun a b => less a b = false) :
    (insertBack less x ys).value.Pairwise fun a b => less a b = false := by
  induction ys with
  | nil => simp [insertBack]
  | cons y ys ih =>
    obtain ⟨hy, hys⟩ := List.pairwise_cons.1 h
    rw [insertBack, Counted.value_bind, Counted.value_ask]
    cases hxy : less x y with
    | true =>
      simp only [if_true, Counted.value_bind, Counted.value_pure]
      refine List.pairwise_cons.2 ⟨?_, ih hys⟩
      intro z hz
      rcases List.mem_cons.1 ((insertBack_perm less x ys).mem_iff.1 hz) with rfl | hz
      · exact hless.asymm hxy
      · exact hy z hz
    | false =>
      simp only [Bool.false_eq_true, if_false, Counted.value_pure]
      refine List.pairwise_cons.2 ⟨?_, h⟩
      intro z hz
      rcases List.mem_cons.1 hz with rfl | hz
      · exact hxy
      · exact hless.notGreater_trans (hy z hz) hxy

/-- Insertion sort sorts. -/
theorem insertionSort_sorted (hless : StrictWeak less) (v : List α) :
    Sorted less (insertionSort less v).value := by
  induction v using List.reverseRecOn with
  | nil => exact List.Pairwise.nil
  | append_singleton v x ih =>
    rw [insertionSort_concat]
    exact List.pairwise_reverse.2 (insertBack_sorted hless x (List.pairwise_reverse.2 ih))

/-- So does sorting with the windows in order picked out first. -/
theorem sortSmall_sorted (hless : StrictWeak less) (v : List α) :
    Sorted less (sortSmall less v).value := by
  unfold sortSmall
  rw [Counted.value_bind]
  split
  · exact insertionSort_sorted hless v
  · next h => exact Shape.sorted_arrange hless h

end SampleSort
