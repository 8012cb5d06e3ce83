import Mathlib.Algebra.BigOperators.Intervals
import SampleSort.Proofs.Classes
import SampleSort.Proofs.Small

set_option relaxedAutoImplicit false
set_option autoImplicit false

/-!
# Insertion sort is stable, and what it costs

An insertion passes only elements that are greater than the one that is inserted, so ties stay in
the order in which they stood. A sorted list with the ties of a given list in their order is unique:
the first element is determined up to ties, and among these it is the first one.

The elements that an insertion passes are those before the element that are greater. They have been
sorted in the meantime, but there are as many of them as before. One more comparison ends the
search, unless it ends at the front.

## Main definitions

* `SampleSort.StablySorted` — a list in order, with ties in the order of another list.
* `SampleSort.inversions` — how many elements before a position are greater than the one there.

## Main results

* `SampleSort.StablySorted.eq` — there is only one such list.
* `SampleSort.insertionSort_stablySorted` — insertion sort yields it.
* `SampleSort.compares_insertBack`, `SampleSort.compares_insertionSort` — the comparisons of one
  insertion, and of all.
* `SampleSort.insertionSort_stable` — both.
-/

namespace SampleSort

variable {α : Type} {less : α → α → Bool} {u v w ys : List α} {a x y : α}

/-- The list `w` has the elements of `v` in order, and those that are tied with each other stand as
they do in `v`. -/
structure StablySorted (less : α → α → Bool) (v w : List α) : Prop where
  /-- No element is less than one before it. -/
  sorted : Sorted less w
  /-- Nothing is lost. -/
  perm : w.Perm v
  /-- Ties keep their order. -/
  ties : ∀ a, w.filter (tied less a) = v.filter (tied less a)

/-- The number of elements before position `i` that are greater than the one there. -/
def inversions (less : α → α → Bool) (v : List α) (i : Nat) : Nat :=
  match v[i]? with
  | some x => (v.take i).countP fun y => less x y
  | none => 0

/-! ### There is only one stable order -/

/-- Sorted lists whose ties stand in the same order begin alike.

**Proof sketch.** Each of the first elements occurs in the other list as well, and so neither is
less than the other. Therefore both are the first of their ties. -/
lemma head_eq_of_ties (hless : StrictWeak less) (hv : Sorted less (x :: v))
    (hw : Sorted less (y :: w))
    (h : ∀ a, (x :: v).filter (tied less a) = (y :: w).filter (tied less a)) : x = y := by
  have hx : x ∈ y :: w := by
    have hmem : x ∈ (x :: v).filter (tied less x) := by simp [hless.tied_self x]
    rw [h x] at hmem
    exact (List.mem_filter.1 hmem).1
  have hy : y ∈ x :: v := by
    have hmem : y ∈ (y :: w).filter (tied less y) := by simp [hless.tied_self y]
    rw [← h y] at hmem
    exact (List.mem_filter.1 hmem).1
  have htied : tied less x y = true :=
    tied_iff.2 ⟨notLess_first hless hw hx, notLess_first hless hv hy⟩
  have hfirst := h x
  rw [List.filter_cons_of_pos (hless.tied_self x), List.filter_cons_of_pos htied] at hfirst
  exact (List.cons.inj hfirst).1

/-- Sorted lists whose ties stand in the same order are equal. -/
lemma eq_of_sorted_of_ties (hless : StrictWeak less) (hv : Sorted less v) (hw : Sorted less w)
    (h : ∀ a, v.filter (tied less a) = w.filter (tied less a)) : v = w := by
  induction v generalizing w with
  | nil =>
    cases w with
    | nil => rfl
    | cons y w => simpa [hless.tied_self y] using h y
  | cons x v ih =>
    cases w with
    | nil => simpa [hless.tied_self x] using h x
    | cons y w =>
      obtain rfl := head_eq_of_ties hless hv hw h
      congr 1
      refine ih (List.pairwise_cons.1 hv).2 (List.pairwise_cons.1 hw).2 fun a => ?_
      have ha := h a
      rw [List.filter_cons, List.filter_cons] at ha
      split at ha
      · exact (List.cons.inj ha).2
      · exact ha

/-- There is only one stable order of a list. -/
theorem StablySorted.eq (hless : StrictWeak less) (hv : StablySorted less u v)
    (hw : StablySorted less u w) : v = w :=
  eq_of_sorted_of_ties hless hv.sorted hw.sorted fun a => (hv.ties a).trans (hw.ties a).symm

/-! ### Insertions keep the order of ties -/

/-- An insertion passes no ties. -/
lemma filter_tied_insertBack (hless : StrictWeak less) (a x : α) (ys : List α) :
    (insertBack less x ys).value.filter (tied less a) = (x :: ys).filter (tied less a) := by
  induction ys with
  | nil => rfl
  | cons y ys ih =>
    rw [insertBack, Counted.value_bind, Counted.value_ask]
    cases hxy : less x y with
    | true =>
      simp only [if_true, Counted.value_bind, Counted.value_pure]
      -- not both of `x` and `y` are tied with `a`
      rw [List.filter_cons, ih, List.filter_cons, List.filter_cons, List.filter_cons]
      by_cases hx : tied less a x = true
      · have hy : tied less a y = false := by
          by_contra hy
          have hay : tied less a y = true := by simpa using hy
          have htied := hless.tied_trans (tied_comm.trans hx) hay
          rw [untied_of_less hxy] at htied
          cases htied
        simp [hx, hy]
      · simp [hx]
    | false => simp

/-- Insertion sort keeps the order of ties. -/
lemma filter_tied_insertionSort (hless : StrictWeak less) (a : α) (v : List α) :
    (insertionSort less v).value.filter (tied less a) = v.filter (tied less a) := by
  induction v using List.reverseRecOn with
  | nil => rfl
  | append_singleton v x ih =>
    rw [insertionSort_concat]
    calc (insertBack less x (insertionSort less v).value.reverse).value.reverse.filter (tied less a)
      _ = ((x :: (insertionSort less v).value.reverse).filter (tied less a)).reverse := by
        rw [List.filter_reverse, filter_tied_insertBack hless]
      _ = (insertionSort less v).value.filter (tied less a) ++ [x].filter (tied less a) := by
        rw [← List.filter_reverse, List.reverse_cons, List.reverse_reverse, List.filter_append]
      _ = (v ++ [x]).filter (tied less a) := by rw [ih, List.filter_append]

/-- Insertion sort yields the stable order. -/
theorem insertionSort_stablySorted (hless : StrictWeak less) (v : List α) :
    StablySorted less v (insertionSort less v).value :=
  ⟨insertionSort_sorted hless v, insertionSort_perm less v,
    fun a => filter_tied_insertionSort hless a v⟩

/-! ### What insertions cost -/

/-- An insertion into a list that is sorted backwards compares the elements that are greater, and
one more if there is one. -/
lemma compares_insertBack (hless : StrictWeak less) (x : α)
    (h : ys.Pairwise fun a b => less a b = false) :
    (insertBack less x ys).compares =
      (ys.countP fun y => less x y) +
        if (ys.countP fun y => less x y) < ys.length then 1 else 0 := by
  induction ys with
  | nil => rfl
  | cons y ys ih =>
    obtain ⟨hy, hys⟩ := List.pairwise_cons.1 h
    rw [insertBack, Counted.compares_bind, Counted.value_ask, Counted.compares_ask]
    cases hxy : less x y with
    | true =>
      have hcount : ((y :: ys).countP fun y => less x y) = (ys.countP fun y => less x y) + 1 :=
        List.countP_cons_of_pos hxy
      rw [hcount]
      simp only [if_true, Counted.compares_bind, Counted.compares_pure, ih hys, List.length_cons,
        Nat.add_lt_add_iff_right]
      omega
    | false =>
      -- what stands further on is not greater than `y`, and so not greater than `x`
      have hcount : ((y :: ys).countP fun y => less x y) = 0 := by
        rw [List.countP_eq_zero]
        intro z hz
        rcases List.mem_cons.1 hz with rfl | hz
        · simp [hxy]
        · simp [hless.notGreater_trans (hy z hz) hxy]
      rw [hcount]
      simp

/-- Inversions at a position are not changed by what stands behind it. -/
lemma inversions_append {i : Nat} (hi : i < u.length) (v : List α) :
    inversions less (u ++ v) i = inversions less u i := by
  rw [inversions, List.getElem?_append_left hi, List.take_append_of_le_length (Nat.le_of_lt hi)]
  rfl

/-- The inversions of a last element. -/
lemma inversions_concat (less : α → α → Bool) (v : List α) (x : α) :
    inversions less (v ++ [x]) v.length = v.countP fun y => less x y := by
  simp [inversions]

/-- Insertion sort compares every element with those before it that are greater, and with one more
if there is one.

**Proof sketch.** Induction along the insertions. What the last element is inserted into has been
sorted, so `compares_insertBack` applies, and it has as many greater elements as the list itself had
before. -/
theorem compares_insertionSort (hless : StrictWeak less) (v : List α) :
    (insertionSort less v).compares =
      ∑ i ∈ Finset.range v.length,
        (inversions less v i + if inversions less v i < i then 1 else 0) := by
  induction v using List.reverseRecOn with
  | nil => rfl
  | append_singleton v x ih =>
    have hbackwards : (insertionSort less v).value.reverse.Pairwise fun a b => less a b = false :=
      List.pairwise_reverse.2 (insertionSort_sorted hless v)
    have hperm : (insertionSort less v).value.reverse.Perm v :=
      (List.reverse_perm _).trans (insertionSort_perm less v)
    have hearlier : ∀ i ∈ Finset.range v.length,
        inversions less (v ++ [x]) i = inversions less v i :=
      fun i hi => inversions_append (Finset.mem_range.1 hi) [x]
    rw [insertionSort_concat, Counted.compares_bind, Counted.compares_bind, Counted.compares_pure,
      Nat.add_zero, ih, compares_insertBack hless x hbackwards, hperm.countP_eq, hperm.length_eq,
      List.length_append, List.length_singleton, Finset.sum_range_succ, inversions_concat]
    congr 1
    exact Finset.sum_congr rfl fun i hi => by rw [hearlier i hi]

/-- The first element is not compared with any. -/
lemma sum_inversions_eq (less : α → α → Bool) (v : List α) :
    ∑ i ∈ Finset.range v.length,
        (inversions less v i + if inversions less v i < i then 1 else 0) =
      ∑ i ∈ Finset.Ico 1 v.length,
        (inversions less v i + if inversions less v i < i then 1 else 0) := by
  cases v with
  | nil => rfl
  | cons x v =>
    rw [Finset.range_eq_Ico, Finset.sum_eq_sum_Ico_succ_bot (by simp)]
    simp [inversions]

/-- Insertion sort yields the one stable order of a list, and every element is compared with those
before it that are greater, and with one more if there is one. -/
theorem insertionSort_stable (hless : StrictWeak less) (v : List α) :
    (∀ w, StablySorted less v w ↔ w = (insertionSort less v).value) ∧
      (insertionSort less v).compares =
        ∑ i ∈ Finset.Ico 1 v.length,
          (inversions less v i + if inversions less v i < i then 1 else 0) := by
  have hstable := insertionSort_stablySorted hless v
  refine ⟨fun w => ⟨fun hw => hw.eq hless hstable, ?_⟩, ?_⟩
  · rintro rfl
    exact hstable
  · rw [compares_insertionSort hless, sum_inversions_eq]

/-- Five pairs that are compared by their first components. -/
theorem insertionSort_stable_of_five :
    StablySorted (fun a b : Nat × Nat => decide (a.1 < b.1))
        [(2, 0), (1, 0), (2, 1), (1, 1), (3, 0)] [(1, 0), (1, 1), (2, 0), (2, 1), (3, 0)] ∧
      (insertionSort (fun a b : Nat × Nat => decide (a.1 < b.1))
        [(2, 0), (1, 0), (2, 1), (1, 1), (3, 0)]).compares = 6 := by
  obtain ⟨hstable, hcompares⟩ := insertionSort_stable (StrictWeak.natural.ofKey Prod.fst)
    [((2, 0) : Nat × Nat), (1, 0), (2, 1), (1, 1), (3, 0)]
  exact ⟨(hstable _).2 (by decide), hcompares.trans (by decide)⟩

end SampleSort
