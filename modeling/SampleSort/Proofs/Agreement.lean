import SampleSort.Proofs.Checked.Buckets
import SampleSort.Proofs.Partition

set_option relaxedAutoImplicit false
set_option autoImplicit false

/-!
# Both strategies come to the same

Placement by labels compares no elements, and separation by splitters reads no labels. Yet on a
labelled window they agree: both find the buckets where the running sums of the bucket sizes say,
and in each bucket both have the elements that the binary search assigns to it, though not in the
same order.

## Main definitions

* `SampleSort.Histogram.Made` — the histograms that there can be.
* `SampleSort.Partitioned.InBuckets` — a window is partitioned as its labelling demands.

## Main results

* `SampleSort.Histogram.Made.exists_reset` — a histogram that is reset counts from zero.
* `SampleSort.Strategy.exists_inBuckets` — what each strategy does.
* `SampleSort.Strategy.agree` — the strategies agree.
-/

namespace SampleSort

variable {α : Type} {less : α → α → Bool} {splitters v bucket : List α} {buckets : List (List α)}
  {b : Nat}

/-! ### Fresh counts -/

namespace Histogram

/-- The histogram has come about by resetting and by counting in buckets that were in use. -/
inductive Made : Histogram → Prop where
  /-- At first there are no buckets. -/
  | empty : Made empty
  /-- A histogram is reset. -/
  | reset {h h' : Histogram} {size : Nat} (made : Made h) (hreset : h.reset size = .ok h') :
      Made h'
  /-- One element is counted. -/
  | increment {h h' : Histogram} {bucket : Nat} (made : Made h) (hused : bucket < h.size)
      (hincrement : h.increment bucket = .ok h') : Made h'

/-- The table has a zero for every bucket that is not in use. -/
lemma Made.eq_zero {h : Histogram} (made : h.Made) (hb : b < maxBuckets) (hunused : h.size ≤ b) :
    h.table[b] = 0 := by
  induction made with
  | empty =>
    show (Vector.replicate maxBuckets 0)[b] = 0
    simp
  | @reset h h' size _ hreset ih =>
    unfold Histogram.reset at hreset
    split at hreset
    · obtain rfl := Except.ok.inj hreset
      by_cases hused : b < h.size
      · simp [hused]
      · simpa [hused] using ih (Nat.not_lt.1 hused)
    · cases hreset
  | @increment h h' bucket _ hused hincrement ih =>
    unfold Histogram.increment at hincrement
    split at hincrement
    · obtain rfl := Except.ok.inj hincrement
      have hne : bucket ≠ b := by
        rintro rfl
        exact absurd hused (Nat.not_lt.2 hunused)
      simpa [Vector.getElem_set, hne] using ih hunused
    · cases hincrement

/-- A histogram that is reset has a zero for every bucket, whatever it has counted before. -/
theorem Made.exists_reset {h : Histogram} (made : h.Made) {size : Nat} (hsize : size ≤ maxBuckets) :
    ∃ h', h.reset size = .ok h' ∧ h'.toList = List.replicate size 0 := by
  obtain ⟨h', hreset, rfl, htable⟩ := h.exists_reset hsize fun _ hb => made.eq_zero hb
  exact ⟨h', hreset, toList_of_table_eq htable⟩

end Histogram

/-! ### Where buckets begin and end -/

/-- Where windows begin and end are the sums of their sizes so far. -/
lemma offsetsFrom_eq_scanl (start : Nat) (sizes : List Nat) :
    offsetsFrom start sizes = sizes.scanl (· + ·) start := by
  induction sizes generalizing start with
  | nil => rfl
  | cons size sizes ih => rw [offsetsFrom, ih, List.scanl_cons]

/-! ### What the strategies do -/

/-- The window `v` is partitioned as the bucket sizes `counts` demand: the buckets begin at their
running sums, and each has the elements for which the binary search finds it. -/
structure Partitioned.InBuckets (less : α → α → Bool) (splitters v : List α) (counts : List Nat)
    (p : Partitioned α) : Prop where
  /-- The bounds of the buckets are the running sums of their sizes. -/
  starts : p.starts = counts.scanl (· + ·) 0
  /-- There is one bucket more than there are splitters. -/
  length : p.starts.length = splitters.length + 2
  /-- The last bucket ends with the window. -/
  last : p.starts[splitters.length + 1]? = some v.length
  /-- A bucket has just the elements that belong there. -/
  elements : ∀ i ≤ splitters.length, ∃ first stop,
    p.starts[i]? = some first ∧ p.starts[i + 1]? = some stop ∧
      (SampleSort.window p.window first stop).Perm
        (v.filter fun x => (bucketOf less splitters x).value == i)

/-- Either strategy partitions a window as its labelling demands.

**Proof sketch.** The result consists of buckets in which elements stand by their ranks. A bucket of
these is all elements of a rank, and the binary search finds the rank. -/
theorem Strategy.exists_inBuckets (strategy : Strategy) (hless : StrictWeak less)
    (hs : splitters.Pairwise fun s t => less t s = false)
    (hlength : splitters.length + 1 ≤ maxBuckets) {counts : List Nat} {labels : List UInt8}
    (hlabels : labels.map UInt8.toNat = v.map (rank less splitters))
    (hcounts : counts = tally (splitters.length + 1) (v.map (rank less splitters))) :
    ∃ p, (strategy.partition less splitters counts labels v).value = .ok p ∧
      p.InBuckets less splitters v counts := by
  obtain ⟨p, buckets, hp, hperm, hbucketed, hstarts⟩ :=
    strategy.exists_partition hless hs hlength hlabels hcounts
  have hsizes : buckets.map List.length = counts := by
    rw [hbucketed.sizes, hcounts, tally_perm _ (hperm.map _)]
  have hcount : counts.length = splitters.length + 1 := by rw [hcounts, length_tally]
  have hsum : counts.sum = v.length := by
    rw [← hsizes, ← List.length_flatten, hbucketed.flatten, hperm.length_eq]
  refine ⟨p, hp, ?_, ?_, ?_, ?_⟩
  · rw [hstarts, offsets, offsetsFrom_eq_scanl]
  · rw [hstarts, length_offsets, hcount]
  · rw [hstarts, ← hcount, getElem?_offsets (Nat.le_refl _), bucketStart_length, hsum]
  · intro i hi
    have hib : i < buckets.length := by
      rw [hbucketed.length]
      exact Nat.lt_succ_of_le hi
    have hbucket := List.getElem?_eq_getElem hib
    obtain ⟨first, stop, hfirst, hstop, hwindow⟩ := exists_bounds hbucket
    rw [hsizes, ← hstarts] at hfirst hstop
    rw [hbucketed.flatten] at hwindow
    refine ⟨first, stop, hfirst, hstop, ?_⟩
    have hranks : v.filter (fun x => (bucketOf less splitters x).value == i) =
        v.filter fun x => rank less splitters x == i :=
      List.filter_congr fun x _ => by rw [value_bucketOf hless hs]
    rw [hwindow, hranks, ← hbucketed.filter_rank hbucket]
    exact hperm.filter _

/-- The strategies agree. On a window that has been labelled by splitters that do not descend, in
counts that have been reset, both succeed, with the same bounds: these are the running sums of the
counts, and the last one is the end of the window. Between the bounds of a bucket both leave the
elements for which the binary search finds it. In place they do the same, whatever bounds stand
there from before.

**Proof sketch.** After the reset all counts are zero, so labelling leaves the ranks and their
tally. With these `Strategy.exists_inBuckets` applies to either strategy, and the bounds of both
results are the running sums of the same counts. -/
theorem Strategy.agree (hless : StrictWeak less)
    (hs : splitters.Pairwise fun s t => less t s = false) (hlength : splitters.length ≤ 255)
    {h : Histogram} (made : h.Made) (v : List α) :
    ∃ (counts : Histogram) (labelling : Labelling) (placed separated : Partitioned α),
      h.reset (splitters.length + 1) = .ok counts ∧
      (labelWindow less splitters counts v).value = .ok labelling ∧
      (placement.partition less splitters labelling.counts.toList labelling.labels v).value =
        .ok placed ∧
      (sequential.partition less splitters labelling.counts.toList labelling.labels v).value =
        .ok separated ∧
      separated.starts = placed.starts ∧
      placed.InBuckets less splitters v labelling.counts.toList ∧
      separated.InBuckets less splitters v labelling.counts.toList ∧
      (v.length < wordBound → ∀ starts,
        Checked.partition less placement splitters labelling.counts.toList labelling.labels v
          starts = .ok placed ∧
        Checked.partition less sequential splitters labelling.counts.toList labelling.labels v
          starts = .ok separated) := by
  have hbuckets : splitters.length + 1 ≤ maxBuckets := Nat.succ_le_succ hlength
  obtain ⟨counts, hreset, hzeros⟩ := made.exists_reset hbuckets
  obtain ⟨labelling, hlabelling, hlabels, hcounts⟩ := exists_labelWindow hless hs hzeros v
  obtain ⟨placed, hplaced, hplaced'⟩ :=
    placement.exists_inBuckets hless hs hbuckets hlabels hcounts
  obtain ⟨separated, hseparated, hseparated'⟩ :=
    sequential.exists_inBuckets hless hs hbuckets hlabels hcounts
  have hcount : labelling.counts.toList.length = splitters.length + 1 := by
    rw [hcounts, length_tally]
  have hsum := sum_of_tally hcounts
  have hmany : labelling.labels.length = v.length := by simpa using congrArg List.length hlabels
  exact ⟨counts, labelling, placed, separated, hreset, hlabelling, hplaced, hseparated,
    hseparated'.starts.trans hplaced'.starts.symm, hplaced', hseparated', fun hlength starts =>
      ⟨Checked.partition_eq hcount (hcount.trans_le hbuckets) hmany hsum hlength hplaced starts,
        Checked.partition_eq hcount (hcount.trans_le hbuckets) hmany hsum hlength hseparated
          starts⟩⟩

/-- Five numbers and three splitters with a tie, so that the bucket between these is empty. -/
theorem Strategy.agree_of_five :
    ∃ (counts : Histogram) (labelling : Labelling) (placed separated : Partitioned Nat),
      Histogram.empty.reset 4 = .ok counts ∧
      (labelWindow (fun a b => decide (a < b)) [3, 3, 5] counts [4, 1, 5, 3, 2]).value =
        .ok labelling ∧
      (placement.partition (fun a b => decide (a < b)) [3, 3, 5] labelling.counts.toList
        labelling.labels [4, 1, 5, 3, 2]).value = .ok placed ∧
      (sequential.partition (fun a b => decide (a < b)) [3, 3, 5] labelling.counts.toList
        labelling.labels [4, 1, 5, 3, 2]).value = .ok separated ∧
      separated.starts = placed.starts ∧
      placed.InBuckets (fun a b => decide (a < b)) [3, 3, 5] [4, 1, 5, 3, 2]
        labelling.counts.toList ∧
      separated.InBuckets (fun a b => decide (a < b)) [3, 3, 5] [4, 1, 5, 3, 2]
        labelling.counts.toList ∧
      ([4, 1, 5, 3, 2].length < wordBound → ∀ starts,
        Checked.partition (fun a b => decide (a < b)) placement [3, 3, 5]
          labelling.counts.toList labelling.labels [4, 1, 5, 3, 2] starts = .ok placed ∧
        Checked.partition (fun a b => decide (a < b)) sequential [3, 3, 5]
          labelling.counts.toList labelling.labels [4, 1, 5, 3, 2] starts = .ok separated) :=
  Strategy.agree .natural
    (show [3, 3, 5].Pairwise fun s t => decide (t < s) = false by decide) (by decide) .empty
    [4, 1, 5, 3, 2]

end SampleSort
