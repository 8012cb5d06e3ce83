import SampleSort.Proofs.Agreement
import SampleSort.Proofs.Checked.Buckets

set_option relaxedAutoImplicit false
set_option autoImplicit false

/-!
# Placement carries out any labelling

Placement knows nothing of an order. Whatever the labels of a window are, as long as each is the
number of a bucket and the bucket sizes count them, placement brings every element, its label with
it, to the bucket that the label names. That takes one move for each element and no comparison, and
no move leads out of the window.

## Main definitions

* `SampleSort.Partitioned.ByLabels` — a window is partitioned as its labels say.

## Main results

* `SampleSort.consistent_of_countP` — labels that are counted are consistent with the counts.
* `SampleSort.Strategy.placement_byLabels` — what placement does, and what it costs.
-/

namespace SampleSort

variable {α : Type} {counts : List Nat} {labels : List UInt8} {v : List α}

/-- The window `v` is partitioned as its labels say: the bounds of the buckets are the running sums
of their sizes, elements are permuted together with their labels, and between the bounds of a bucket
stand labels that name it. -/
structure Partitioned.ByLabels (counts : List Nat) (labels : List UInt8) (v : List α)
    (p : Partitioned α) : Prop where
  /-- The bounds of the buckets are the running sums of their sizes. -/
  starts : p.starts = counts.scanl (· + ·) 0
  /-- Every element still has a label. -/
  length : p.labels.length = p.window.length
  /-- Labels go where their elements go. -/
  perm : (p.labels.zip p.window).Perm (labels.zip v)
  /-- A bucket has just the labels that name it. -/
  label : ∀ b < counts.length, ∃ first stop,
    p.starts[b]? = some first ∧ p.starts[b + 1]? = some stop ∧
      ∀ k, first ≤ k → k < stop → p.labels[k]?.map UInt8.toNat = some b

/-- Labels that are numbers of buckets are consistent with the bucket sizes if these count them. -/
lemma consistent_of_countP (hsize : counts.length ≤ maxBuckets)
    (hlabels : labels.length = v.length) (hlt : ∀ label ∈ labels, label.toNat < counts.length)
    (hcounts : ∀ b (hb : b < counts.length),
      counts[b] = labels.countP fun label => label.toNat == b) :
    Consistent counts (labels.zip v) := by
  have htally : tally counts.length (labels.map UInt8.toNat) = counts := by
    apply List.ext_getElem (length_tally _ _)
    intro b hb hb'
    simp only [tally, List.getElem_map, List.getElem_range, List.count, List.countP_map]
    exact (hcounts b hb').symm
  have hc := consistent_of_labels hsize hlabels hlt
  rwa [htally] at hc

/-- Placement carries out any labelling that is consistent with the bucket sizes. It succeeds
without a comparison and with one move for each element. In place, too, nothing stops it, whatever
bounds of buckets stand there from before.

**Proof sketch.** Labels and sizes are consistent, which makes every move settle one position for
good (`exists_placeByLabels`). The bounds of the result are the running sums of the sizes, and the
positions between two of them have been settled with the label of their bucket. -/
theorem Strategy.placement_byLabels (less : α → α → Bool) (splitters : List α)
    (hsize : counts.length ≤ maxBuckets) (hlabels : labels.length = v.length)
    (hlt : ∀ label ∈ labels, label.toNat < counts.length)
    (hcounts : ∀ b (hb : b < counts.length),
      counts[b] = labels.countP fun label => label.toNat == b) :
    ∃ (p : Placement α) (result : Partitioned α),
      (placement.partition less splitters counts labels v).value = .ok result ∧
      (placement.partition less splitters counts labels v).compares = 0 ∧
      result.ByLabels counts labels v ∧
      placeByLabels counts labels v = .ok p ∧ p.moves = v.length ∧
      (v.length < wordBound → ∀ starts,
        Checked.partition less placement splitters counts labels v starts = .ok result) := by
  have hc := consistent_of_countP hsize hlabels hlt hcounts
  obtain ⟨p, hp, hperm, hplaced, hmoves⟩ := exists_placeByLabels hc
  have hzip : (labels.zip v).length = v.length := by
    rw [List.length_zip, hlabels, Nat.min_self]
  have hsum : counts.sum = v.length := by rw [hc.sum, hzip]
  refine ⟨p, _, partition_placement_eq less splitters hsize hlabels hp, rfl, ?_, hp, ?_, ?_⟩
  · refine ⟨?_, ?_, ?_, ?_⟩
    · show offsets counts = _
      rw [offsets, offsetsFrom_eq_scanl]
    · simp
    · rwa [← List.zip_of_prod rfl rfl]
    · intro b hb
      refine ⟨_, _, getElem?_offsets (Nat.le_of_lt hb), getElem?_offsets hb, ?_⟩
      intro k hk hk'
      have hkn : k < p.slots.size := by
        have := bucketStart_le_sum counts (b + 1)
        rw [← Array.length_toList, hperm.length_eq, hzip]
        omega
      have hslot := Array.getElem?_eq_getElem hkn
      simp [hslot, hplaced b k _ hb hk hk' hslot]
  · rw [hmoves, hzip]
  · intro hlength
    exact Checked.placeByLabels_eq hsize hlabels hsum hlength hp

/-- Five elements for three buckets, which belong where others stand. -/
theorem Strategy.placement_byLabels_of_five :
    ∃ (p : Placement Nat) (result : Partitioned Nat),
      (placement.partition (fun a b => decide (a < b)) [] [2, 1, 2] [2, 0, 1, 2, 0]
        [10, 11, 12, 13, 14]).value = .ok result ∧
      (placement.partition (fun a b => decide (a < b)) [] [2, 1, 2] [2, 0, 1, 2, 0]
        [10, 11, 12, 13, 14]).compares = 0 ∧
      result.ByLabels [2, 1, 2] [2, 0, 1, 2, 0] [10, 11, 12, 13, 14] ∧
      placeByLabels [2, 1, 2] [2, 0, 1, 2, 0] [10, 11, 12, 13, 14] = .ok p ∧ p.moves = 5 ∧
      ([10, 11, 12, 13, 14].length < wordBound → ∀ starts,
        Checked.partition (fun a b => decide (a < b)) placement [] [2, 1, 2] [2, 0, 1, 2, 0]
          [10, 11, 12, 13, 14] starts = .ok result) :=
  Strategy.placement_byLabels _ [] (by decide) (by decide) (by simp) (by decide)

end SampleSort
