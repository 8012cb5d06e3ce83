import SampleSort.Proofs.Buckets
import SampleSort.Proofs.Checked.Buckets

set_option relaxedAutoImplicit false
set_option autoImplicit false

/-!
# One pass for every splitter

The passes ask for no order, neither of the splitters nor of the predicate. An element is set apart
by the first splitter that it is less than, and stays to the end if there is none. A pass compares
each element that has not been set apart yet, once; those that it sets apart keep their order, while
the others are scrambled.

## Main definitions

* `SampleSort.passOf` — the pass that sets an element apart.
* `SampleSort.Partitioned.ByPasses` — a window is partitioned by the passes.

## Main results

* `SampleSort.cutBySplitters_perm_filter` — a bucket has the elements that its pass sets apart.
* `SampleSort.compares_cutBySplitters` — a pass compares what has not been set apart before it.
* `SampleSort.Strategy.sequential_byPasses` — what the passes do, and what they cost.
-/

namespace SampleSort

variable {α : Type} {less : α → α → Bool} {splitters v : List α} {b : Nat} {bucket : List α}

/-- The pass that sets the element `x` apart: the number of the first splitter that it is less than,
or the number of splitters if it is less than none. -/
def passOf (less : α → α → Bool) (splitters : List α) (x : α) : Nat :=
  splitters.findIdx fun s => less x s

/-- The window `v` is partitioned by one pass for every splitter. -/
structure Partitioned.ByPasses (less : α → α → Bool) (splitters v : List α) (p : Partitioned α) :
    Prop where
  /-- There is one bucket more than there are splitters. -/
  length : p.starts.length = splitters.length + 2
  /-- No bucket begins before the one in front of it. -/
  ascending : p.starts.Pairwise (· ≤ ·)
  /-- The first bucket begins at the front. -/
  first : p.starts[0]? = some 0
  /-- The last bucket ends with the window. -/
  last : p.starts[splitters.length + 1]? = some v.length
  /-- Nothing is lost. -/
  perm : p.window.Perm v
  /-- A bucket has just the elements that its pass sets apart. -/
  elements : ∀ i ≤ splitters.length, ∃ first stop,
    p.starts[i]? = some first ∧ p.starts[i + 1]? = some stop ∧
      (SampleSort.window p.window first stop).Perm (v.filter fun x => passOf less splitters x == i)
  /-- The elements of the first bucket keep their order. -/
  order : ∃ stop, p.starts[1]? = some stop ∧
    SampleSort.window p.window 0 stop = v.filter fun x => passOf less splitters x == 0

/-! ### What the passes set apart -/

/-- The first pass sets apart what is less than the first splitter. -/
lemma passOf_cons (less : α → α → Bool) (s : α) (splitters : List α) (x : α) :
    passOf less (s :: splitters) x = if less x s then 0 else passOf less splitters x + 1 := by
  rw [passOf, List.findIdx_cons, passOf]
  cases less x s <;> rfl

/-- The first bucket has the elements that the first pass sets apart, in their order. -/
lemma getElem?_cutBySplitters_zero (less : α → α → Bool) (splitters v : List α) :
    (cutBySplitters less splitters v).value[0]? =
      some (v.filter fun x => passOf less splitters x == 0) := by
  cases splitters with
  | nil => simp [cutBySplitters, passOf]
  | cons s splitters =>
    have htest : ∀ x, (passOf less (s :: splitters) x == 0) = less x s := by
      intro x
      rw [passOf_cons]
      cases less x s <;> rfl
    simp [cutBySplitters, separate_fst, htest]

/-- A bucket has the elements that its pass sets apart.

**Proof sketch.** Induction along the splitters. What the first pass leaves is not less than the
first splitter, so each of these elements is set apart one pass later than by the other splitters
alone. -/
lemma cutBySplitters_perm_filter (hb : (cutBySplitters less splitters v).value[b]? = some bucket) :
    bucket.Perm (v.filter fun x => passOf less splitters x == b) := by
  induction splitters generalizing v b with
  | nil =>
    obtain rfl : b = 0 := by simpa [cutBySplitters] using (List.getElem?_eq_some_iff.1 hb).1
    rw [getElem?_cutBySplitters_zero] at hb
    exact .of_eq (Option.some.inj hb).symm
  | cons s splitters ih =>
    cases b with
    | zero =>
      rw [getElem?_cutBySplitters_zero] at hb
      exact .of_eq (Option.some.inj hb).symm
    | succ b =>
      have hb' : (cutBySplitters less splitters
          (separate (fun x => Counted.ask less x s) v).value.2).value[b]? = some bucket := by
        simpa [cutBySplitters] using hb
      have hlater : ∀ x, (passOf less (s :: splitters) x == b + 1) =
          (passOf less splitters x == b && !less x s) := by
        intro x
        rw [passOf_cons]
        cases less x s <;> simp
      calc bucket
        _ |>.Perm ((separate (fun x => Counted.ask less x s) v).value.2.filter
            fun x => passOf less splitters x == b) := ih hb'
        _ |>.Perm ((v.filter fun x => !less x s).filter fun x => passOf less splitters x == b) :=
          (separate_snd_perm _ v).filter _
        _ = v.filter fun x => passOf less (s :: splitters) x == b + 1 := by
          rw [List.filter_filter]
          exact List.filter_congr fun x _ => (hlater x).symm

/-! ### What the passes cost -/

/-- A pass compares every element from the start of its bucket on, if the first bucket begins at
`start`. -/
lemma compares_cutBySplitters (less : α → α → Bool) (splitters v : List α) (start : Nat) :
    (cutBySplitters less splitters v).compares =
      (((offsetsFrom start ((cutBySplitters less splitters v).value.map List.length)).take
        splitters.length).map fun first => start + v.length - first).sum := by
  induction splitters generalizing v start with
  | nil => rfl
  | cons s splitters ih =>
    have hpass := compares_separate (fun x => Counted.ask less x s) (fun _ => rfl) v
    have hlength := (separate_perm (fun x => Counted.ask less x s) v).length_eq
    rw [cutBySplitters, Counted.compares_bind, Counted.value_bind, hpass]
    generalize (separate (fun x => Counted.ask less x s) v).value = parts at hlength
    obtain ⟨below, rest⟩ := parts
    rw [List.length_append] at hlength
    have hrest := ih rest (start + below.length)
    rw [Nat.add_assoc, hlength] at hrest
    simp [offsetsFrom, hrest]

/-! ### The window as a whole -/

/-- The buckets that the passes yield partition the window. -/
lemma byPasses_cutBySplitters (less : α → α → Bool) (splitters v : List α) (labels : List UInt8) :
    Partitioned.ByPasses less splitters v
      ⟨(cutBySplitters less splitters v).value.flatten, labels,
        offsets ((cutBySplitters less splitters v).value.map List.length)⟩ := by
  have hlength := length_cutBySplitters less splitters v
  have hperm := flatten_cutBySplitters_perm less splitters v
  have hfirst := getElem?_cutBySplitters_zero less splitters v
  refine ⟨?_, offsets_ascending _, ?_, ?_, hperm, ?_, ?_⟩
  · simp
  · rw [getElem?_offsets (Nat.zero_le _), bucketStart_zero]
  · rw [← hlength, ← List.length_map List.length, getElem?_offsets (Nat.le_refl _),
      bucketStart_length, ← List.length_flatten, hperm.length_eq]
  · intro i hi
    have hbucket := List.getElem?_eq_getElem (l := (cutBySplitters less splitters v).value)
      (i := i) (by omega)
    obtain ⟨first, stop, hstart, hstop, hwindow⟩ := exists_bounds hbucket
    refine ⟨first, stop, hstart, hstop, ?_⟩
    rw [hwindow]
    exact cutBySplitters_perm_filter hbucket
  · obtain ⟨first, stop, hstart, hstop, hwindow⟩ := exists_bounds hfirst
    rw [getElem?_offsets (Nat.zero_le _), bucketStart_zero] at hstart
    obtain rfl := Option.some.inj hstart
    exact ⟨stop, hstop, hwindow⟩

/-- The passes partition every window, and together they compare, for every splitter, the elements
from the start of its bucket on. In place, too, nothing stops them, whatever bounds of buckets stand
there from before. -/
theorem Strategy.sequential_byPasses (less : α → α → Bool) (splitters : List α)
    {counts : List Nat} (labels : List UInt8) (v : List α)
    (hcounts : counts.length = splitters.length + 1) :
    ∃ result : Partitioned α,
      (sequential.partition less splitters counts labels v).value = .ok result ∧
      result.ByPasses less splitters v ∧
      (sequential.partition less splitters counts labels v).compares =
        ((result.starts.take splitters.length).map fun first => v.length - first).sum ∧
      (v.length < wordBound → ∀ starts,
        Checked.partition less sequential splitters counts labels v starts = .ok result) := by
  have hcost := compares_cutBySplitters less splitters v 0
  rw [Nat.zero_add] at hcost
  exact ⟨_, rfl, byPasses_cutBySplitters less splitters v labels, hcost,
    Checked.partition_sequential_eq less labels hcounts⟩

/-- Six numbers and splitters that descend: nothing is left for the second pass to set apart. -/
theorem Strategy.sequential_byPasses_of_six :
    ∃ result : Partitioned Nat,
      (sequential.partition (fun a b => decide (a < b)) [5, 3] [0, 0, 0] [7]
        [8, 1, 5, 4, 9, 2]).value = .ok result ∧
      result.ByPasses (fun a b => decide (a < b)) [5, 3] [8, 1, 5, 4, 9, 2] ∧
      (sequential.partition (fun a b => decide (a < b)) [5, 3] [0, 0, 0] [7]
        [8, 1, 5, 4, 9, 2]).compares =
          ((result.starts.take 2).map fun first => 6 - first).sum ∧
      ([8, 1, 5, 4, 9, 2].length < wordBound → ∀ starts,
        Checked.partition (fun a b => decide (a < b)) sequential [5, 3] [0, 0, 0] [7]
          [8, 1, 5, 4, 9, 2] starts = .ok result) :=
  Strategy.sequential_byPasses _ [5, 3] [7] [8, 1, 5, 4, 9, 2] (by decide)

end SampleSort
