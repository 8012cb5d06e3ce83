import SampleSort.Proofs.Checked.Buckets

set_option relaxedAutoImplicit false
set_option autoImplicit false

/-!
# Labels are ranks

The bucket that the binary search finds for an element is the number of splitters that are not
greater than it. So the splitter that opens a bucket is not greater than its elements, the one that
opens the next bucket is, and elements in order have buckets in order. Labelling a window writes
these numbers down, each in one byte, and adds the elements to a histogram, whatever that has
counted before.

## Main definitions

* `SampleSort.FindsRanks` — what the search for buckets finds among splitters.
* `SampleSort.Labelling.ExtendedBy` — a labelling of a window, on top of an earlier one.

## Main results

* `SampleSort.findsRanks` — the search finds ranks among splitters that do not descend.
* `SampleSort.Histogram.Grows.total_eq` — the total of a histogram grows by what is counted.
* `SampleSort.labelWindow_byRank` — labels are ranks, and the histogram grows by them.
-/

namespace SampleSort

variable {α : Type} {less : α → α → Bool} {splitters v : List α}

/-- The search among the splitters finds the rank of every element. -/
structure FindsRanks (less : α → α → Bool) (splitters : List α) : Prop where
  /-- An element's bucket is the number of splitters that are not greater than it. -/
  value_eq : ∀ x, (bucketOf less splitters x).value = splitters.countP fun s => !less x s
  /-- The splitter that opens a bucket is not greater than its elements. -/
  opening : ∀ x s, 0 < (bucketOf less splitters x).value →
    splitters[(bucketOf less splitters x).value - 1]? = some s → less x s = false
  /-- The one that opens the next bucket is. -/
  closing : ∀ x s, splitters[(bucketOf less splitters x).value]? = some s → less x s = true
  /-- Elements in order have buckets in order. -/
  mono : ∀ x y, less y x = false →
    (bucketOf less splitters x).value ≤ (bucketOf less splitters y).value
  /-- Ties share a bucket. -/
  ties : ∀ x y, less x y = false → less y x = false →
    (bucketOf less splitters x).value = (bucketOf less splitters y).value

/-- A labelling of the window `v` that counts its elements on top of what an earlier one has
counted. -/
structure Labelling.ExtendedBy (before : Labelling) (less : α → α → Bool) (splitters v : List α)
    (labelling : Labelling) : Prop where
  /-- The labels are the buckets of the elements, of which none is lost in a byte. -/
  labels_eq :
    labelling.labels.map UInt8.toNat = v.map fun x => (bucketOf less splitters x).value
  /-- As many buckets are in use as before. -/
  size_eq : labelling.counts.size = before.counts.size
  /-- The count of every bucket in use grows by the number of elements with its label. -/
  counts_eq : ∀ b, labelling.counts.toList[b]? =
    before.counts.toList[b]?.map (· + (labelling.labels.map UInt8.toNat).count b)
  /-- The rest of the table stays as it is. -/
  unused_eq : ∀ b, before.counts.size ≤ b →
    labelling.counts.table.toList[b]? = before.counts.table.toList[b]?
  /-- The total grows by the number of elements. -/
  total_eq : labelling.counts.total = before.counts.total + v.length

/-! ### The search -/

/-- The search among splitters that do not descend finds ranks. -/
theorem findsRanks (hless : StrictWeak less)
    (hs : splitters.Pairwise fun s t => less t s = false) : FindsRanks less splitters := by
  have hvalue := value_bucketOf hless hs
  have hmono : ∀ x y, less y x = false →
      (bucketOf less splitters x).value ≤ (bucketOf less splitters y).value := by
    intro x y hxy
    rw [hvalue x, hvalue y]
    by_contra hlt
    have := less_of_rank_lt hless hs (Nat.lt_of_not_le hlt)
    simp [hxy] at this
  refine ⟨hvalue, ?_, ?_, hmono, fun x y hxy hyx => ?_⟩
  · intro x s hpos hopens
    rw [hvalue x] at hpos hopens
    exact (notLess_iff_lt_rank hless hs hopens).2 (Nat.sub_one_lt_of_lt hpos)
  · intro x s hcloses
    rw [hvalue x] at hcloses
    rw [← Bool.not_eq_false, notLess_iff_lt_rank hless hs hcloses]
    exact Nat.lt_irrefl _
  · exact Nat.le_antisymm (hmono x y hyx) (hmono y x hxy)

/-! ### The histogram -/

/-- If every entry of a list grows by an amount that depends on its position, the sum grows by the
amounts. -/
lemma sum_of_getElem?_add (amount : Nat → Nat) {counts counts' : List Nat}
    (h : ∀ b : Nat, counts'[b]? = counts[b]?.map (· + amount b)) :
    counts'.sum = counts.sum + ((List.range counts.length).map amount).sum := by
  induction counts generalizing counts' amount with
  | nil =>
    cases counts' with
    | nil => rfl
    | cons c' counts' => simpa using h 0
  | cons c counts ih =>
    cases counts' with
    | nil => simpa using h 0
    | cons c' counts' =>
      have hfirst : c' = c + amount 0 := by simpa using h 0
      have hrest := ih (fun b => amount (b + 1)) fun b => by simpa using h (b + 1)
      rw [List.length_cons, List.range_succ_eq_map, List.map_cons, List.map_map, List.sum_cons,
        List.sum_cons, List.sum_cons, hfirst, hrest]
      simp only [Function.comp_def, Nat.succ_eq_add_one]
      omega

/-- The total of a histogram grows by how many numbers are counted, if these are numbers of buckets
in use. -/
lemma Histogram.Grows.total_eq {h h' : Histogram} {numbers : List Nat} (hg : h.Grows numbers h')
    (hnumbers : ∀ n ∈ numbers, n < h.size) : h'.total = h.total + numbers.length := by
  have hsum := sum_of_getElem?_add (fun b => numbers.count b) hg.getElem?_toList
  rw [length_toList] at hsum
  exact hsum.trans (congrArg (h.total + ·) (sum_tally hnumbers))

/-- **Labels are ranks.** Among splitters that do not descend, the search finds the number of those
that are not greater than an element. On top of any labelling with one bucket more than there are
splitters, a window is labelled with these numbers, and its elements are counted by them. In place,
nothing is stopped as long as the counts have room for the elements.

**Proof sketch.** The number of the bucket that the search finds is a bucket in use, so that there
is a count for it and it fits into a byte. Hence labelling succeeds, and each count grows by how
often its bucket is found. -/
theorem labelWindow_byRank (hless : StrictWeak less)
    (hs : splitters.Pairwise fun s t => less t s = false) (before : Labelling)
    (hsize : before.counts.size = splitters.length + 1) (v : List α) :
    FindsRanks less splitters ∧
      ∃ labelling, (labelWindow less splitters before.counts v).value = .ok labelling ∧
        before.ExtendedBy less splitters v labelling ∧
        (Checked.HasRoom v.length before.counts →
          Checked.relabelWindow less splitters before v = .ok labelling) := by
  have hroom : splitters.length < maxBuckets := by
    have := before.counts.size_le
    omega
  obtain ⟨labelling, hvalue, hlabels, hgrows⟩ :=
    exists_labelWindow_grows less hroom before.counts v
  have hused : ∀ b ∈ v.map (fun x => (bucketOf less splitters x).value),
      b < before.counts.size := by
    intro b hb
    obtain ⟨x, _, rfl⟩ := List.mem_map.1 hb
    rw [hsize]
    exact Nat.lt_succ_of_le (bucketOf_le less splitters x)
  refine ⟨findsRanks hless hs, labelling, hvalue, ⟨hlabels, hgrows.size_eq, ?_, ?_, ?_⟩, ?_⟩
  · rw [hlabels]
    exact hgrows.getElem?_toList
  · intro b hb
    have hnone : (v.map fun x => (bucketOf less splitters x).value).count b = 0 :=
      List.count_eq_zero.2 fun hmem => Nat.not_lt_of_le hb (hused b hmem)
    simp [hgrows.getElem?_table, hnone]
  · rw [hgrows.total_eq hused, List.length_map]
  · intro hcounts
    rw [Checked.relabelWindow_eq]
    exact Checked.labelWindow_eq hsize hcounts hvalue

/-- Six numbers are labelled by three splitters, two of them ties, where two labels and three counts
stand already. -/
theorem labelWindow_byRank_of_six :
    ∃ before labelling : Labelling, before.labels = [9, 9] ∧ before.counts.toList = [1, 0, 0, 2] ∧
      Checked.relabelWindow (fun a b : Nat => decide (a < b)) [4, 4, 7] before [7, 3, 4, 9, 5, 4] =
        .ok labelling ∧
      labelling.labels.map UInt8.toNat = [3, 0, 2, 3, 2, 2] ∧
      labelling.counts.toList = [2, 0, 3, 4] ∧ labelling.counts.total = 9 := by
  let before : Labelling :=
    ⟨⟨Vector.ofFn fun b => if b.val = 0 then 1 else if b.val = 3 then 2 else 0, 4, by decide⟩,
      [9, 9]⟩
  have hs : [4, 4, 7].Pairwise fun s t : Nat => decide (t < s) = false := by decide
  obtain ⟨hfinds, labelling, -, hextended, hchecked⟩ :=
    labelWindow_byRank .natural hs before rfl [7, 3, 4, 9, 5, 4]
  have hcounts : before.counts.toList = [1, 0, 0, 2] := by decide +kernel
  have hlabels : labelling.labels.map UInt8.toNat = [3, 0, 2, 3, 2, 2] := by
    rw [hextended.labels_eq]
    simp only [hfinds.value_eq]
    decide
  have hafter : labelling.counts.toList = [2, 0, 3, 4] := by
    apply List.ext_getElem?
    intro b
    rw [hextended.counts_eq, hlabels, hcounts]
    match b with
    | 0 => rfl
    | 1 => rfl
    | 2 => rfl
    | 3 => rfl
    | b + 4 => rfl
  refine ⟨before, labelling, rfl, hcounts, hchecked ?_, hlabels, hafter, ?_⟩
  · unfold Checked.HasRoom
    decide +kernel
  · rw [Histogram.total, hafter]
    rfl

end SampleSort
