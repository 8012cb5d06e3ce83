import SampleSort.Partition.Strategy
import SampleSort.Proofs.Placement

set_option relaxedAutoImplicit false
set_option autoImplicit false

/-!
# Both strategies partition

Whether elements are placed by their labels or separated by one splitter after the other, the window
is permuted into the same buckets: one for each rank, of the sizes that were counted.

## Main results

* `SampleSort.bucketed_cutBySplitters` — separating yields the buckets.
* `SampleSort.exists_bucketed_of_labels` — so does placing by labels.
* `SampleSort.Strategy.exists_partition` — a strategy partitions every labelled window.
* `SampleSort.Strategy.exists_partition_perm` — what is left of this if the predicate is no
  ordering.
-/

namespace SampleSort

variable {α : Type} {less : α → α → Bool} {splitters v : List α} {counts : List Nat}
  {labels : List UInt8}

/-- A splitter in front raises the rank of the elements that are not less than it. -/
lemma rank_cons (less : α → α → Bool) (s : α) (splitters : List α) (x : α) :
    rank less (s :: splitters) x = rank less splitters x + if less x s then 0 else 1 := by
  rw [rank, List.countP_cons, rank]
  cases less x s <;> rfl

/-- The tally does not depend on the order. -/
lemma tally_perm (size : Nat) {l l' : List Nat} (h : l.Perm l') : tally size l = tally size l' :=
  List.map_congr_left fun b _ => h.count_eq b

/-! ### Separating by one splitter after the other -/

/-- Every element comes into the bucket of its rank.

**Proof sketch.** Induction along the splitters. What is less than the first splitter is less than
all of them; what is not is ranked one higher than among the others. -/
lemma rank_of_mem_cut (hless : StrictWeak less)
    (hs : splitters.Pairwise fun s t => less t s = false) {b : Nat} {bucket : List α}
    (hb : (cutBySplitters less splitters v).value[b]? = some bucket) {x : α} (hx : x ∈ bucket) :
    rank less splitters x = b := by
  induction splitters generalizing v b with
  | nil =>
    cases b with
    | zero => rfl
    | succ b => simp [cutBySplitters] at hb
  | cons s splitters ih =>
    obtain ⟨hfirst, hrest⟩ := List.pairwise_cons.1 hs
    rw [cutBySplitters, Counted.value_bind] at hb
    cases b with
    | zero =>
      -- the first bucket: less than the first splitter, and so than all of them
      obtain rfl : _ = bucket := by simpa using hb
      rw [separate_fst, List.mem_filter] at hx
      have hxs : less x s = true := hx.2
      rw [rank, List.countP_eq_zero]
      intro t ht
      rcases List.mem_cons.1 ht with rfl | ht
      · simp [hxs]
      · simp [hless.less_of_less_of_notGreater hxs (hfirst t ht)]
    | succ b =>
      have hb' : (cutBySplitters less splitters
          (separate (fun x => Counted.ask less x s) v).value.2).value[b]? = some bucket := by
        simpa using hb
      have hmem : x ∈ (separate (fun x => Counted.ask less x s) v).value.2 :=
        (flatten_cutBySplitters_perm less splitters _).mem_iff.1
          (List.mem_flatten.2 ⟨bucket, List.mem_of_getElem? hb', hx⟩)
      rw [(separate_snd_perm _ v).mem_iff, List.mem_filter] at hmem
      have hxs : less x s = false := by simpa using hmem.2
      rw [rank_cons, ih hrest hb', hxs]
      rfl

/-- Separating yields the buckets. -/
theorem bucketed_cutBySplitters (hless : StrictWeak less)
    (hs : splitters.Pairwise fun s t => less t s = false) (v : List α) :
    Bucketed less splitters (cutBySplitters less splitters v).value.flatten
      (cutBySplitters less splitters v).value :=
  ⟨rfl, length_cutBySplitters less splitters v,
    fun _ _ hb _ hx => rank_of_mem_cut hless hs hb hx⟩

/-! ### Placing by labels -/

/-- A label stands beside an element whose rank it is. -/
lemma toNat_eq_rank_of_mem_zip (hlabels : labels.map UInt8.toNat = v.map (rank less splitters))
    {slot : UInt8 × α} (hslot : slot ∈ labels.zip v) :
    slot.1.toNat = rank less splitters slot.2 := by
  obtain ⟨i, hi⟩ := List.mem_iff_getElem?.1 hslot
  obtain ⟨hlabel, hx⟩ := List.getElem?_zip_eq_some.1 hi
  have h := congrArg (fun l => l[i]?) hlabels
  simpa [hlabel, hx] using h

/-- As many elements are counted by their ranks as there are. -/
lemma sum_of_tally {counts : List Nat}
    (h : counts = tally (splitters.length + 1) (v.map (rank less splitters))) :
    counts.sum = v.length := by
  rw [h, sum_tally, List.length_map]
  intro n hn
  obtain ⟨x, _, rfl⟩ := List.mem_map.1 hn
  exact Nat.lt_succ_of_le (rank_le_length less splitters x)

/-- Labels that are given by numbers below a bound are below it. -/
lemma label_lt_of_map_eq {number : α → Nat} {size : Nat}
    (hlabels : labels.map UInt8.toNat = v.map number) (hnumber : ∀ x, number x < size) :
    ∀ label ∈ labels, label.toNat < size := by
  intro label hlabel
  have hmem : label.toNat ∈ labels.map UInt8.toNat := List.mem_map_of_mem hlabel
  rw [hlabels] at hmem
  obtain ⟨x, _, hx⟩ := List.mem_map.1 hmem
  rw [← hx]
  exact hnumber x

/-- Labels that are numbers of buckets are consistent with their tally. -/
lemma consistent_of_labels {size : Nat} (hsize : size ≤ maxBuckets)
    (hsame : labels.length = v.length) (hlt : ∀ label ∈ labels, label.toNat < size) :
    Consistent (tally size (labels.map UInt8.toNat)) (labels.zip v) := by
  refine ⟨by rw [length_tally]; exact hsize, ?_, ?_⟩
  · intro slot hslot
    rw [length_tally]
    exact hlt slot.1 (List.of_mem_zip hslot).1
  · have hfst : (labels.zip v).map (fun slot => slot.1.toNat) =
        ((labels.zip v).map Prod.fst).map UInt8.toNat := by
      rw [List.map_map]
      rfl
    rw [List.map_fst_zip (Nat.le_of_eq hsame)] at hfst
    rw [length_tally, hfst]

/-- Labels that are the ranks are consistent with the tally of the ranks. -/
lemma consistent_of_ranks (hlength : splitters.length + 1 ≤ maxBuckets)
    (hlabels : labels.map UInt8.toNat = v.map (rank less splitters)) :
    Consistent (tally (splitters.length + 1) (v.map (rank less splitters))) (labels.zip v) := by
  rw [← hlabels]
  exact consistent_of_labels hlength (by simpa using congrArg List.length hlabels)
    (label_lt_of_map_eq hlabels fun x => Nat.lt_succ_of_le (rank_le_length less splitters x))

/-- Placing by labels that are the ranks yields the buckets.

**Proof sketch.** Labels that are the ranks are consistent with their tally, so placement succeeds,
with a permutation in which the positions of each bucket hold its label. Cut at the bounds, the
result is a list of buckets as long as the counts say; and the label of an element is its rank. -/
theorem exists_bucketed_of_labels (hlength : splitters.length + 1 ≤ maxBuckets)
    (hlabels : labels.map UInt8.toNat = v.map (rank less splitters))
    (hcounts : counts = tally (splitters.length + 1) (v.map (rank less splitters))) :
    ∃ p buckets, placeByLabels counts labels v = .ok p ∧
      (p.slots.toList.map Prod.snd).Perm v ∧
      Bucketed less splitters (p.slots.toList.map Prod.snd) buckets := by
  subst hcounts
  have hsame : labels.length = v.length := by simpa using congrArg List.length hlabels
  have hc := consistent_of_ranks hlength hlabels
  obtain ⟨p, hp, hperm, hplaced, -⟩ := exists_placeByLabels hc
  generalize hcounts : tally (splitters.length + 1) (v.map (rank less splitters)) = counts at *
  have hsum : counts.sum = (p.slots.toList.map Prod.snd).length := by
    rw [hc.sum, List.length_map, hperm.length_eq]
  have hflatten := List.flatten_splitLengths (p.slots.toList.map Prod.snd) counts
    (Nat.le_of_eq hsum.symm)
  have hsizes := List.map_splitLengths_length (p.slots.toList.map Prod.snd) counts
    (Nat.le_of_eq hsum)
  have hlengths : counts.length = splitters.length + 1 := by rw [← hcounts, length_tally]
  refine ⟨p, counts.splitLengths (p.slots.toList.map Prod.snd), hp, ?_, hflatten, ?_, ?_⟩
  · have h := hperm.map Prod.snd
    rwa [List.map_snd_zip (Nat.le_of_eq hsame.symm)] at h
  · rw [List.length_splitLengths, hlengths]
  · intro b bucket hb x hx
    obtain ⟨k, hk⟩ := List.mem_iff_getElem?.1 hx
    have hbn : b < counts.length := by
      have := (List.getElem?_eq_some_iff.1 hb).1
      rwa [List.length_splitLengths] at this
    have hwindow := window_flatten hb
    rw [hflatten, hsizes] at hwindow
    rw [← hwindow, getElem?_window] at hk
    by_cases hlt : bucketStart counts b + k < bucketStart counts (b + 1)
    · rw [if_pos hlt, List.getElem?_map, Array.getElem?_toList, Option.map_eq_some_iff] at hk
      obtain ⟨slot, hslot, rfl⟩ := hk
      have hmem : slot ∈ labels.zip v :=
        hperm.mem_iff.1 (Array.mem_toList_iff.2 (Array.mem_of_getElem? hslot))
      rw [← toNat_eq_rank_of_mem_zip hlabels hmem]
      exact hplaced b _ slot hbn (Nat.le_add_right _ _) hlt hslot
    · rw [if_neg hlt] at hk
      cases hk

/-! ### Either way -/

/-- Placement by labels succeeds as a strategy if the elements can be placed. -/
lemma Strategy.partition_placement_eq {p : Placement α} (less : α → α → Bool) (splitters : List α)
    (hlength : counts.length ≤ maxBuckets) (hsame : labels.length = v.length)
    (hp : placeByLabels counts labels v = .ok p) :
    (placement.partition less splitters counts labels v).value =
      .ok ⟨p.slots.toList.map Prod.snd, p.slots.toList.map Prod.fst, offsets counts⟩ := by
  rw [partition, Counted.value_pure, if_neg (Nat.not_lt.2 hlength), if_neg (by simpa using hsame),
    hp]

/-- Either strategy brings the buckets of a labelled window together: the window is permuted, it
consists of buckets, and they begin where the counts say. -/
theorem Strategy.exists_partition (strategy : Strategy) (hless : StrictWeak less)
    (hs : splitters.Pairwise fun s t => less t s = false)
    (hlength : splitters.length + 1 ≤ maxBuckets)
    (hlabels : labels.map UInt8.toNat = v.map (rank less splitters))
    (hcounts : counts = tally (splitters.length + 1) (v.map (rank less splitters))) :
    ∃ result buckets, (strategy.partition less splitters counts labels v).value = .ok result ∧
      result.window.Perm v ∧ Bucketed less splitters result.window buckets ∧
      result.starts = offsets counts := by
  cases strategy with
  | placement =>
    obtain ⟨p, buckets, hp, hperm, hbucketed⟩ :=
      exists_bucketed_of_labels hlength hlabels hcounts
    have hsize : counts.length ≤ maxBuckets := by rwa [hcounts, length_tally]
    have hsame : labels.length = v.length := by simpa using congrArg List.length hlabels
    exact ⟨_, buckets, partition_placement_eq less splitters hsize hsame hp, hperm, hbucketed, rfl⟩
  | sequential =>
    have hbucketed := bucketed_cutBySplitters hless hs v
    have hperm := flatten_cutBySplitters_perm less splitters v
    refine ⟨_, _, rfl, hperm, hbucketed, ?_⟩
    show offsets ((cutBySplitters less splitters v).value.map List.length) = offsets counts
    rw [hbucketed.sizes, hcounts, tally_perm _ (hperm.map _)]

/-- Whatever the predicate, either strategy permutes a window whose labels are numbers of buckets,
and yields bounds of as many windows as there are buckets, which make up all of it. -/
theorem Strategy.exists_partition_perm (strategy : Strategy) (less : α → α → Bool)
    (hlength : splitters.length + 1 ≤ maxBuckets) (hsame : labels.length = v.length)
    (hlt : ∀ label ∈ labels, label.toNat < splitters.length + 1)
    (hcounts : counts = tally (splitters.length + 1) (labels.map UInt8.toNat)) :
    ∃ result sizes, (strategy.partition less splitters counts labels v).value = .ok result ∧
      result.window.Perm v ∧ result.starts = offsets sizes ∧
      sizes.length = splitters.length + 1 ∧ sizes.sum = v.length := by
  cases strategy with
  | placement =>
    have hc := consistent_of_labels hlength hsame hlt
    rw [← hcounts] at hc
    obtain ⟨p, hp, hperm, -⟩ := exists_placeByLabels hc
    have hwindow := hperm.map Prod.snd
    rw [List.map_snd_zip (Nat.le_of_eq hsame.symm)] at hwindow
    refine ⟨_, counts, partition_placement_eq less splitters hc.length_le hsame hp, hwindow, rfl,
      by rw [hcounts, length_tally], ?_⟩
    rw [hc.sum, List.length_zip, hsame, Nat.min_self]
  | sequential =>
    have hperm := flatten_cutBySplitters_perm less splitters v
    refine ⟨_, (cutBySplitters less splitters v).value.map List.length, rfl, hperm, rfl, ?_, ?_⟩
    · rw [List.length_map, length_cutBySplitters]
    · rw [← List.length_flatten, hperm.length_eq]

end SampleSort
