import Mathlib.Data.List.Chain
import Mathlib.Data.List.Pairwise
import SampleSort.Proofs.Order
import SampleSort.Small.Shape

set_option relaxedAutoImplicit false
set_option autoImplicit false

/-!
# What a glance tells of a window

The shape of a window is found from its two ends and from one scan over its neighbours. Under a
strict weak ordering that decides about all pairs of elements. A window whose ends are not in
descending order might still be reversed, but only if all its elements are ties, and then it is
sorted as well.

## Main definitions

* `SampleSort.Shape.Describes` — what a shape says of the pairs of elements of a window.

## Main results

* `SampleSort.Shape.value_detect_iff` — the shape that is found is the one that describes the
  window.
* `SampleSort.Shape.compares_detect` — how many comparisons that takes.
* `SampleSort.Shape.detect_resolves` — both, and what becomes of the window.
-/

namespace SampleSort

variable {α : Type} {less : α → α → Bool} {v : List α}

/-- What a shape says of the pairs of elements of a window. -/
def Shape.Describes (less : α → α → Bool) (v : List α) : Shape → Prop
  | .empty => v = []
  | .sorted => v ≠ [] ∧ Sorted less v
  | .reversed => ¬Sorted less v ∧ v.Pairwise fun x y => less x y = false
  | .unsorted => ¬Sorted less v ∧ ¬v.Pairwise fun x y => less x y = false

/-! ### Neighbours -/

/-- Asking all neighbours from the left tells whether the relation holds of all of them. -/
lemma value_allNeighbours (r : α → α → Counted Bool) (v : List α) :
    (allNeighbours r v).value = true ↔ v.IsChain fun a b => (r a b).value = true := by
  match v with
  | [] => simp [allNeighbours]
  | [a] => simp [allNeighbours]
  | a :: b :: rest =>
    rw [allNeighbours, Counted.value_bind, List.isChain_cons_cons,
      ← value_allNeighbours r (b :: rest)]
    by_cases h : (r a b).value = true
    · simp [h]
    · simp [h]

/-- A scan asks no more questions than there are neighbours, and just as many if all answers are
yes. -/
lemma compares_allNeighbours (r : α → α → Counted Bool) (hr : ∀ a b, (r a b).compares = 1)
    (v : List α) :
    (allNeighbours r v).compares ≤ v.length - 1 ∧
      ((allNeighbours r v).value = true → (allNeighbours r v).compares = v.length - 1) := by
  match v with
  | [] => simp [allNeighbours]
  | [a] => simp [allNeighbours]
  | a :: b :: rest =>
    obtain ⟨hle, heq⟩ := compares_allNeighbours r hr (b :: rest)
    rw [allNeighbours, Counted.compares_bind, Counted.value_bind, hr]
    simp only [List.length_cons] at hle heq ⊢
    by_cases h : (r a b).value = true
    · simp only [h, if_true]
      refine ⟨by omega, fun hrest => ?_⟩
      rw [heq hrest]
      omega
    · simp only [h, Bool.false_eq_true, if_false, Counted.value_pure, Counted.compares_pure]
      exact ⟨by omega, nofun⟩

/-- A list is sorted if no two neighbours descend. -/
lemma isChain_iff_sorted (hless : StrictWeak less) (v : List α) :
    (v.IsChain fun a b => less b a = false) ↔ Sorted less v := by
  have : Trans (fun a b => less b a = false) (fun a b => less b a = false)
      (fun a b => less b a = false) := ⟨hless.notGreater_trans⟩
  exact List.isChain_iff_pairwise

/-- A list is sorted backwards if no two neighbours ascend. -/
lemma isChain_iff_pairwise_notLess (hless : StrictWeak less) (v : List α) :
    (v.IsChain fun a b => less a b = false) ↔ v.Pairwise fun x y => less x y = false := by
  rw [← List.isChain_reverse, isChain_iff_sorted hless, Sorted, List.pairwise_reverse]

/-! ### Ends -/

/-- The elements of a sorted list are not less than the first one. -/
lemma notLess_first (hless : StrictWeak less) {first x : α} {rest : List α}
    (h : Sorted less (first :: rest)) (hx : x ∈ first :: rest) : less x first = false :=
  h.rel_head_of_rel_head_head hx (hless.irrefl first)

/-- A list that is sorted backwards, and whose last element is not less than its first, has only
ties.

**Proof sketch.** Every element is not greater than the first one and not less than the last one,
while the first is not greater than the last. -/
lemma notLess_of_ends (hless : StrictWeak less) {first x y : α} {rest : List α}
    (hends : less (rest.getLastD first) first = false)
    (h : (first :: rest).Pairwise fun a b => less a b = false) (hx : x ∈ first :: rest)
    (hy : y ∈ first :: rest) : less x y = false := by
  have hfirst : less first y = false := h.rel_head_of_rel_head_head hy (hless.irrefl first)
  have hlast := h.rel_getLast_of_rel_getLast_getLast hx (hless.irrefl _)
  rw [List.getLast_eq_getLastD] at hlast
  exact hless.notGreater_trans hfirst (hless.notGreater_trans hends hlast)

namespace Shape

/-! ### What is found -/

/-- Only one shape describes a window. -/
lemma Describes.eq {shape shape' : Shape} (h : shape.Describes less v)
    (h' : shape'.Describes less v) : shape = shape' := by
  have hnil : v = [] → Sorted less v := by
    rintro rfl
    exact List.Pairwise.nil
  cases shape <;> cases shape' <;> simp only [Describes] at h h' <;> grind

/-- The shape that is found describes the window.

**Proof sketch.** If the last element is less than the first, the window is not sorted, and the scan
tells whether it is reversed. Otherwise the scan tells whether it is sorted; if it is not, it is not
reversed either, since all its elements would be ties. -/
lemma describes_detect (hless : StrictWeak less) (v : List α) :
    (detect less v).value.Describes less v := by
  cases v with
  | nil => rfl
  | cons first rest =>
    rw [detect, Counted.value_bind, Counted.value_ask]
    cases hends : less (rest.getLastD first) first with
    | true =>
      have hunsorted : ¬Sorted less (first :: rest) := by
        intro hsorted
        have hlast := notLess_first hless hsorted List.getLastD_mem_cons
        rw [hends] at hlast
        cases hlast
      have hscan := value_allNeighbours (fun a b => not <$> Counted.ask less a b) (first :: rest)
      simp only [Counted.value_map, Counted.value_ask, Bool.not_eq_true',
        isChain_iff_pairwise_notLess hless] at hscan
      simp only [if_true, Counted.value_bind, Counted.value_pure]
      split
      · next hdescends => exact ⟨hunsorted, hscan.1 hdescends⟩
      · next hdescends => exact ⟨hunsorted, fun h => hdescends (hscan.2 h)⟩
    | false =>
      have hscan := value_allNeighbours (fun a b => not <$> Counted.ask less b a) (first :: rest)
      simp only [Counted.value_map, Counted.value_ask, Bool.not_eq_true',
        isChain_iff_sorted hless] at hscan
      simp only [Bool.false_eq_true, if_false, Counted.value_bind, Counted.value_pure]
      split
      · next hascends => exact ⟨List.cons_ne_nil _ _, hscan.1 hascends⟩
      · next hascends =>
        have hunsorted : ¬Sorted less (first :: rest) := fun h => hascends (hscan.2 h)
        refine ⟨hunsorted, fun h => hunsorted ?_⟩
        exact List.pairwise_of_forall_mem_list fun x hx y hy => notLess_of_ends hless hends h hy hx

/-- The shape that is found is the one that describes the window. -/
theorem value_detect_iff (hless : StrictWeak less) (v : List α) (shape : Shape) :
    (detect less v).value = shape ↔ shape.Describes less v := by
  constructor
  · rintro rfl
    exact describes_detect hless v
  · exact (describes_detect hless v).eq

/-! ### What it costs -/

/-- A scan that decides between a shape and `unsorted` asks no more questions than there are
neighbours, and just as many if it decides for the shape. -/
lemma compares_scan (r : α → α → Counted Bool) (hr : ∀ a b, (r a b).compares = 1) (shape : Shape)
    (first : α) (rest : List α) {scan : Counted Shape}
    (hscan : scan = do
      let holds ← allNeighbours r (first :: rest)
      return if holds then shape else .unsorted) :
    scan.compares ≤ rest.length ∧ (scan.value ≠ .unsorted → scan.compares = rest.length) := by
  obtain ⟨hle, heq⟩ := compares_allNeighbours r hr (first :: rest)
  rw [List.length_cons, Nat.add_sub_cancel] at hle heq
  rw [hscan, Counted.compares_bind, Counted.value_bind, Counted.compares_pure, Counted.value_pure,
    Nat.add_zero]
  exact ⟨hle, fun hshape => heq (by_contra fun hfails => hshape (if_neg hfails))⟩

/-- To find the shape takes no more comparisons than there are elements, and just as many unless the
window is unsorted. -/
theorem compares_detect (less : α → α → Bool) (v : List α) :
    (detect less v).compares ≤ v.length ∧
      ((detect less v).value ≠ .unsorted → (detect less v).compares = v.length) := by
  cases v with
  | nil => simp [detect]
  | cons first rest =>
    rw [detect, Counted.compares_bind, Counted.value_bind, Counted.value_ask, Counted.compares_ask,
      List.length_cons, Nat.add_comm 1]
    cases less (rest.getLastD first) first with
    | true =>
      obtain ⟨hle, heq⟩ := compares_scan (fun a b => not <$> Counted.ask less a b) (by simp)
        .reversed first rest rfl
      exact ⟨Nat.succ_le_succ hle, fun hshape => congrArg Nat.succ (heq hshape)⟩
    | false =>
      obtain ⟨hle, heq⟩ := compares_scan (fun a b => not <$> Counted.ask less b a) (by simp)
        .sorted first rest rfl
      exact ⟨Nat.succ_le_succ hle, fun hshape => congrArg Nat.succ (heq hshape)⟩

/-! ### What becomes of the window -/

/-- The shape of a window is decided by the order of all its pairs of elements; a reversed window
is turned round, and then it is sorted, while any other is left alone; and comparisons are made at
most once for each element, and exactly so often if the window is sorted or reversed. -/
theorem detect_resolves (hless : StrictWeak less) (v : List α) :
    (∀ shape, (detect less v).value = shape ↔ shape.Describes less v) ∧
      ((detect less v).value = .reversed →
        (detect less v).value.arrange v = v.reverse ∧ Sorted less v.reverse) ∧
      ((detect less v).value ≠ .reversed → (detect less v).value.arrange v = v) ∧
      (detect less v).compares ≤ v.length ∧
      ((detect less v).value = .sorted ∨ (detect less v).value = .reversed →
        (detect less v).compares = v.length) := by
  obtain ⟨hle, heq⟩ := compares_detect less v
  refine ⟨value_detect_iff hless v, ?_, fun h => arrange_of_ne_reversed h v, hle, ?_⟩
  · intro hreversed
    have hdescribes := (value_detect_iff hless v _).1 hreversed
    refine ⟨by rw [hreversed]; rfl, ?_⟩
    exact List.pairwise_reverse.2 hdescribes.2
  · rintro (hsorted | hreversed)
    · exact heq (by simp [hsorted])
    · exact heq (by simp [hreversed])

/-- Four numbers, two of them ties, stand in reverse order, which takes four comparisons to find. -/
theorem detect_resolves_of_four :
    (detect (fun a b : Nat => decide (a < b)) [7, 4, 4, 1]).value = .reversed ∧
      (detect (fun a b : Nat => decide (a < b)) [7, 4, 4, 1]).value.arrange [7, 4, 4, 1] =
        [1, 4, 4, 7] ∧
      (detect (fun a b : Nat => decide (a < b)) [7, 4, 4, 1]).compares = 4 := by
  obtain ⟨hshape, hreversed, -, -, hcompares⟩ := detect_resolves .natural [7, 4, 4, 1]
  have hfound := (hshape .reversed).2 ⟨by unfold Sorted; decide, by decide⟩
  exact ⟨hfound, (hreversed hfound).1, hcompares (.inr hfound)⟩

end Shape

end SampleSort
