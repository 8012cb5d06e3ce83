import Mathlib.Algebra.BigOperators.Group.Finset.Basic
import Mathlib.Algebra.Ring.Nat
import Mathlib.Data.List.SplitLengths
import SampleSort.Bucket.Labelling
import SampleSort.Proofs.Rank
import SampleSort.Proofs.Rearranged

set_option relaxedAutoImplicit false
set_option autoImplicit false

/-!
# Buckets and their sizes

A labelling gives every element its rank and counts how many elements have each rank. If a window
consists of buckets, one for each rank, then those counts are the sizes of the buckets, and their
running sums are where the buckets begin.

## Main definitions

* `SampleSort.bucketStart` — where a bucket begins.
* `SampleSort.tally` — how often each of the first numbers occurs.
* `SampleSort.Bucketed` — a window that consists of one bucket for each rank.
* `SampleSort.Histogram.Grows` — what counting several elements does to a histogram.

## Main results

* `SampleSort.exists_labelWindow_grows` — labelling succeeds, whatever the predicate, and the
  histogram grows by the buckets that are found.
* `SampleSort.exists_labelWindow` — under an ordering it yields the ranks and their tally.
* `SampleSort.Bucketed.sizes` — the tally of the ranks is the list of the bucket sizes.
* `SampleSort.Bucketed.filter_rank` — a bucket has all elements of its rank.
* `SampleSort.window_flatten` — a bucket is the window from its start to that of the next one.
* `SampleSort.exists_bounds` — the same, with both positions from the list of starts.
-/

namespace SampleSort

variable {α : Type} {less : α → α → Bool} {splitters v : List α} {buckets : List (List α)}

/-- Where bucket number `b` begins, if `sizes` are the sizes of the buckets. -/
def bucketStart (sizes : List Nat) (b : Nat) : Nat :=
  (sizes.take b).sum

/-- How often each of the numbers below `size` occurs in a list. -/
def tally (size : Nat) (numbers : List Nat) : List Nat :=
  (List.range size).map fun b => numbers.count b

/-- The window `v` consists of the buckets, one after the other, and bucket number `b` is made up of
elements of rank `b`. -/
structure Bucketed (less : α → α → Bool) (splitters v : List α) (buckets : List (List α)) :
    Prop where
  /-- Together the buckets are the window. -/
  flatten : buckets.flatten = v
  /-- There is one bucket more than there are splitters. -/
  length : buckets.length = splitters.length + 1
  /-- Elements stand in the bucket of their rank. -/
  ranked : ∀ b bucket, buckets[b]? = some bucket → ∀ x ∈ bucket, rank less splitters x = b

/-! ### Where buckets begin -/

/-- The bounds of windows are the neighbouring positions at which windows begin and end. -/
lemma zip_tail_offsetsFrom (start size : Nat) (sizes : List Nat) :
    (offsetsFrom start (size :: sizes)).zip (offsetsFrom start (size :: sizes)).tail =
      (start, start + size) ::
        (offsetsFrom (start + size) sizes).zip (offsetsFrom (start + size) sizes).tail := by
  cases sizes <;> rfl

/-- The first bucket begins at the front. -/
@[simp] lemma bucketStart_zero (sizes : List Nat) : bucketStart sizes 0 = 0 := by
  simp [bucketStart]

/-- Behind a first bucket the others begin later by its size. -/
@[simp] lemma bucketStart_cons_succ (size : Nat) (sizes : List Nat) (b : Nat) :
    bucketStart (size :: sizes) (b + 1) = size + bucketStart sizes b := by
  simp [bucketStart]

/-- After its start comes a bucket's size. -/
lemma bucketStart_succ {sizes : List Nat} {b size : Nat} (hb : sizes[b]? = some size) :
    bucketStart sizes (b + 1) = bucketStart sizes b + size := by
  obtain ⟨hlt, rfl⟩ := List.getElem?_eq_some_iff.1 hb
  rw [bucketStart, List.sum_take_succ sizes b hlt, bucketStart]

/-- The last bucket ends where all of them do. -/
lemma bucketStart_length (sizes : List Nat) : bucketStart sizes sizes.length = sizes.sum := by
  rw [bucketStart, List.take_length]

/-- Later buckets begin later. -/
lemma bucketStart_mono (sizes : List Nat) {a b : Nat} (h : a ≤ b) :
    bucketStart sizes a ≤ bucketStart sizes b := by
  induction sizes generalizing a b with
  | nil => simp [bucketStart]
  | cons size sizes ih =>
    cases a with
    | zero => simp
    | succ a =>
      cases b with
      | zero => omega
      | succ b =>
        have := ih (a := a) (b := b) (by omega)
        simp only [bucketStart_cons_succ]
        omega

/-- No bucket begins behind the end of all of them. -/
lemma bucketStart_le_sum (sizes : List Nat) (b : Nat) : bucketStart sizes b ≤ sizes.sum := by
  by_cases hb : b ≤ sizes.length
  · rw [← bucketStart_length]
    exact bucketStart_mono sizes hb
  · rw [bucketStart, List.take_of_length_le (by omega)]

/-- The positions at which windows begin are running sums. -/
lemma getElem?_offsetsFrom (start : Nat) {sizes : List Nat} {k : Nat} (hk : k ≤ sizes.length) :
    (offsetsFrom start sizes)[k]? = some (start + bucketStart sizes k) := by
  induction sizes generalizing start k with
  | nil =>
    obtain rfl : k = 0 := by simpa using hk
    rfl
  | cons size sizes ih =>
    cases k with
    | zero => rfl
    | succ k =>
      rw [offsetsFrom, List.getElem?_cons_succ, ih (start + size) (by simpa using hk),
        bucketStart_cons_succ, Nat.add_assoc]

/-- The positions at which windows begin, the first at the front, are running sums. -/
lemma getElem?_offsets {sizes : List Nat} {k : Nat} (hk : k ≤ sizes.length) :
    (offsets sizes)[k]? = some (bucketStart sizes k) := by
  rw [offsets, getElem?_offsetsFrom 0 hk, Nat.zero_add]

/-- The positions at which windows begin do not descend. -/
lemma offsets_ascending (sizes : List Nat) : (offsets sizes).Pairwise (· ≤ ·) := by
  rw [List.pairwise_iff_getElem]
  intro i j hi hj hij
  rw [length_offsets] at hi hj
  have hi' : (offsets sizes)[i]? = some (bucketStart sizes i) := getElem?_offsets (by omega)
  have hj' : (offsets sizes)[j]? = some (bucketStart sizes j) := getElem?_offsets (by omega)
  rw [(List.getElem?_eq_some_iff.1 hi').2, (List.getElem?_eq_some_iff.1 hj').2]
  exact bucketStart_mono sizes (Nat.le_of_lt hij)

/-- Behind a front part, windows are those of the rest. -/
lemma window_append_left (u v : List α) (lo hi : Nat) :
    window (u ++ v) (u.length + lo) (u.length + hi) = window v lo hi := by
  apply List.ext_getElem?
  intro k
  rw [getElem?_window, getElem?_window, Nat.add_assoc, List.getElem?_append_right (by omega),
    Nat.add_sub_cancel_left]
  by_cases hk : lo + k < hi
  · rw [if_pos (by omega), if_pos hk]
  · rw [if_neg (by omega), if_neg hk]

/-- The middle one of three parts is the window from its start to its end. -/
lemma window_middle (u w x : List α) :
    window (u ++ w ++ x) u.length (u.length + w.length) = w := by
  rw [List.append_assoc]
  simpa [window] using window_append_left u (w ++ x) 0 w.length

/-- A bucket is the window from its start to that of the next one. -/
lemma window_flatten {b : Nat} {bucket : List α} (hb : buckets[b]? = some bucket) :
    window buckets.flatten (bucketStart (buckets.map List.length) b)
      (bucketStart (buckets.map List.length) (b + 1)) = bucket := by
  induction buckets generalizing b with
  | nil => simp at hb
  | cons first buckets ih =>
    cases b with
    | zero =>
      obtain rfl : first = bucket := by simpa using hb
      simp [window, bucketStart]
    | succ b =>
      have h := ih (by simpa using hb)
      simpa [window_append_left] using h

/-- The bounds of a bucket are neighbouring positions at which windows begin and end. -/
lemma exists_bounds {b : Nat} {bucket : List α} (hb : buckets[b]? = some bucket) :
    ∃ first stop, (offsets (buckets.map List.length))[b]? = some first ∧
      (offsets (buckets.map List.length))[b + 1]? = some stop ∧
      window buckets.flatten first stop = bucket := by
  have hlt : b < (buckets.map List.length).length := by
    rw [List.length_map]
    exact (List.getElem?_eq_some_iff.1 hb).1
  exact ⟨_, _, getElem?_offsets (Nat.le_of_lt hlt), getElem?_offsets hlt, window_flatten hb⟩

/-! ### Counting -/

/-- There is a count for each number. -/
@[simp] lemma length_tally (size : Nat) (numbers : List Nat) :
    (tally size numbers).length = size := by
  simp [tally]

/-- The count of number `b`. -/
lemma getElem?_tally {size b : Nat} (hb : b < size) (numbers : List Nat) :
    (tally size numbers)[b]? = some (numbers.count b) := by
  simp [tally, hb]

/-- Every number below `size` is counted. -/
lemma sum_tally {size : Nat} {numbers : List Nat} (h : ∀ n ∈ numbers, n < size) :
    (tally size numbers).sum = numbers.length := by
  have hmem : ∀ n ∈ (numbers : Multiset Nat), n ∈ Finset.range size := by simpa using h
  have hsum := Multiset.sum_count_eq_card hmem
  rw [Finset.sum_eq_multiset_sum, Finset.range_val] at hsum
  unfold tally
  simpa only [Multiset.range, Multiset.map_coe, Multiset.sum_coe, Multiset.coe_count,
    Multiset.coe_card] using hsum

/-- If the elements of each list have its number, then their numbers are counted by the lengths of
the lists.

**Proof sketch.** Induction along the lists, which may be numbered from any `first` on. The first
number occurs in the first list only, and there with every element. -/
lemma map_length_eq_count (number : α → Nat) (first : Nat) (buckets : List (List α))
    (h : ∀ b bucket, buckets[b]? = some bucket → ∀ x ∈ bucket, number x = first + b) :
    buckets.map List.length =
      (List.range' first buckets.length).map fun b => (buckets.flatten.map number).count b := by
  induction buckets generalizing first with
  | nil => rfl
  | cons bucket buckets ih =>
    have hhead : ∀ x ∈ bucket, number x = first := h 0 bucket rfl
    have htail : ∀ b bucket, buckets[b]? = some bucket → ∀ x ∈ bucket,
        number x = first + 1 + b := by
      intro b bucket hb x hx
      rw [h (b + 1) bucket (by simpa using hb) x hx]
      omega
    have hbucket : bucket.map number = List.replicate bucket.length first :=
      List.eq_replicate_iff.2 ⟨List.length_map _, by simpa using hhead⟩
    have hrest : ∀ n ∈ buckets.flatten.map number, first < n := by
      intro n hn
      obtain ⟨x, hx, rfl⟩ := List.mem_map.1 hn
      obtain ⟨l, hl, hxl⟩ := List.mem_flatten.1 hx
      obtain ⟨b, hb⟩ := List.mem_iff_getElem?.1 hl
      have := htail b l hb x hxl
      omega
    rw [List.map_cons, List.length_cons, List.range'_succ, List.map_cons, ih (first + 1) htail,
      List.flatten_cons, List.map_append, hbucket]
    congr 1
    · have hnone : (buckets.flatten.map number).count first = 0 :=
        List.count_eq_zero.2 fun hmem => Nat.lt_irrefl _ (hrest _ hmem)
      rw [List.count_append, List.count_replicate_self, hnone, Nat.add_zero]
    · apply List.map_congr_left
      intro b hb
      have hne : b ≠ first := by
        have := List.mem_range'_1.1 hb
        omega
      rw [List.count_append, List.count_replicate, if_neg (by simpa using hne.symm), Nat.zero_add]

/-- Buckets whose elements all have other ranks keep none of them when those of rank `b` are
picked. -/
lemma filter_flatten_eq_nil {rankOf : α → Nat} {b : Nat}
    (h : ∀ l ∈ buckets, ∀ x ∈ l, rankOf x ≠ b) :
    buckets.flatten.filter (fun x => rankOf x == b) = [] := by
  rw [List.filter_eq_nil_iff]
  intro x hx
  obtain ⟨l, hl, hxl⟩ := List.mem_flatten.1 hx
  simpa using h l hl x hxl

namespace Bucketed

/-- The tally of the ranks is the list of the bucket sizes. -/
theorem sizes (h : Bucketed less splitters v buckets) :
    buckets.map List.length = tally (splitters.length + 1) (v.map (rank less splitters)) := by
  have hranked : ∀ b bucket, buckets[b]? = some bucket → ∀ x ∈ bucket,
      rank less splitters x = 0 + b := by
    intro b bucket hb x hx
    rw [h.ranked b bucket hb x hx, Nat.zero_add]
  rw [map_length_eq_count (rank less splitters) 0 buckets hranked, h.flatten, h.length, tally,
    List.range_eq_range']

/-- A bucket has all elements of its rank, in the order that they have in the window.

**Proof sketch.** The window is what stands before the bucket, the bucket, and what stands behind
it. Elements before have smaller ranks, elements behind have greater ones. -/
theorem filter_rank {b : Nat} {bucket : List α} (h : Bucketed less splitters v buckets)
    (hb : buckets[b]? = some bucket) :
    v.filter (fun x => rank less splitters x == b) = bucket := by
  have hsplit : buckets = buckets.take b ++ bucket :: buckets.drop (b + 1) := by
    obtain ⟨hlt, rfl⟩ := List.getElem?_eq_some_iff.1 hb
    rw [List.getElem_cons_drop, List.take_append_drop]
  have hbefore : ∀ l ∈ buckets.take b, ∀ x ∈ l, rank less splitters x ≠ b := by
    intro l hl x hx
    obtain ⟨c, hc⟩ := List.mem_iff_getElem?.1 hl
    rw [List.getElem?_take] at hc
    split_ifs at hc with hcb
    rw [h.ranked c l hc x hx]
    exact Nat.ne_of_lt hcb
  have hbehind : ∀ l ∈ buckets.drop (b + 1), ∀ x ∈ l, rank less splitters x ≠ b := by
    intro l hl x hx
    obtain ⟨c, hc⟩ := List.mem_iff_getElem?.1 hl
    rw [List.getElem?_drop] at hc
    rw [h.ranked _ l hc x hx]
    omega
  have hsame : bucket.filter (fun x => rank less splitters x == b) = bucket := by
    rw [List.filter_eq_self]
    intro x hx
    simpa using h.ranked b bucket hb x hx
  rw [← h.flatten, hsplit, List.flatten_append, List.flatten_cons, List.filter_append,
    List.filter_append, filter_flatten_eq_nil hbefore, filter_flatten_eq_nil hbehind, hsame,
    List.nil_append, List.append_nil]

/-- Between neighbouring bounds stands a bucket. -/
lemma getElem?_of_offsets {starts : List Nat} {b start stop : Nat}
    (h : Bucketed less splitters v buckets) (hstarts : starts = offsets (buckets.map List.length))
    (hstart : starts[b]? = some start) (hstop : starts[b + 1]? = some stop) :
    start ≤ stop ∧ stop ≤ v.length ∧ buckets[b]? = some (window v start stop) := by
  subst hstarts
  have hb : b < buckets.length := by
    have := (List.getElem?_eq_some_iff.1 hstop).1
    rw [length_offsets, List.length_map] at this
    omega
  have hsum : (buckets.map List.length).sum = v.length := by
    rw [← List.length_flatten, h.flatten]
  rw [getElem?_offsets (by rw [List.length_map]; omega)] at hstart hstop
  obtain rfl := Option.some.inj hstart
  obtain rfl := Option.some.inj hstop
  refine ⟨bucketStart_mono _ (Nat.le_succ b), ?_, ?_⟩
  · rw [← hsum]
    exact bucketStart_le_sum _ _
  · have hbucket := List.getElem?_eq_getElem hb
    rw [← h.flatten, window_flatten hbucket, hbucket]

end Bucketed

namespace Histogram

/-- The counts in use of a table of zeros are zeros. -/
lemma toList_of_table_eq {h : Histogram} (htable : h.table = Vector.replicate maxBuckets 0) :
    h.toList = List.replicate h.size 0 := by
  rw [toList, htable, Vector.toList_replicate, List.take_replicate, Nat.min_eq_left h.size_le]

/-- Resetting leaves nothing but zeros if there are zeros for all buckets that are not in use. -/
lemma exists_reset (h : Histogram) {size : Nat} (hsize : size ≤ maxBuckets)
    (hunused : ∀ b (hb : b < maxBuckets), h.size ≤ b → h.table[b] = 0) :
    ∃ h', h.reset size = .ok h' ∧ h'.size = size ∧
      h'.table = Vector.replicate maxBuckets 0 := by
  refine ⟨_, dif_pos hsize, rfl, ?_⟩
  apply Vector.ext
  intro b hb
  rw [Vector.getElem_ofFn, Vector.getElem_replicate]
  by_cases hused : b < h.size
  · rw [if_pos hused]
  · rw [if_neg hused]
    exact hunused b hb (Nat.le_of_not_lt hused)

/-- A histogram taken into use has a zero for every bucket. -/
lemma exists_reset_empty {size : Nat} (hsize : size ≤ maxBuckets) :
    ∃ h, empty.reset size = .ok h ∧ h.toList = List.replicate size 0 := by
  obtain ⟨h, hreset, rfl, htable⟩ := empty.exists_reset hsize fun b hb _ =>
    show (Vector.replicate maxBuckets 0)[b] = 0 from Vector.getElem_replicate hb
  exact ⟨h, hreset, toList_of_table_eq htable⟩

/-- The second histogram counts, in addition to what the first one counts, the numbers listed. -/
structure Grows (h : Histogram) (numbers : List Nat) (h' : Histogram) : Prop where
  /-- The same buckets are in use. -/
  size_eq : h'.size = h.size
  /-- Every entry of the table, in use or not, grows by how often its number is listed. -/
  getElem?_table : ∀ b : Nat,
    h'.table.toList[b]? = h.table.toList[b]?.map (· + numbers.count b)

namespace Grows

variable {h h' h'' : Histogram} {numbers numbers' : List Nat}

/-- Nothing is counted. -/
lemma refl (h : Histogram) : h.Grows [] h :=
  ⟨rfl, fun b => by simp⟩

/-- Some numbers are counted after others. -/
lemma trans (hg : h.Grows numbers h') (hg' : h'.Grows numbers' h'') :
    h.Grows (numbers ++ numbers') h'' := by
  refine ⟨hg'.size_eq.trans hg.size_eq, fun b => ?_⟩
  rw [hg'.getElem?_table, hg.getElem?_table, Option.map_map, List.count_append]
  congr 1
  funext n
  exact Nat.add_assoc n _ _

/-- The counts in use grow as the table does. -/
lemma getElem?_toList (hg : h.Grows numbers h') (b : Nat) :
    h'.toList[b]? = h.toList[b]?.map (· + numbers.count b) := by
  rw [toList, toList, hg.size_eq, List.getElem?_take, List.getElem?_take]
  split
  · exact hg.getElem?_table b
  · rfl

/-- What grows from zeros is the tally of the numbers. -/
lemma toList_of_zeros (hg : h.Grows numbers h') {size : Nat}
    (hzeros : h.toList = List.replicate size 0) : h'.toList = tally size numbers := by
  apply List.ext_getElem?
  intro b
  rw [hg.getElem?_toList, hzeros, List.getElem?_replicate]
  by_cases hb : b < size
  · rw [if_pos hb, getElem?_tally hb, Option.map_some, Nat.zero_add]
  · rw [if_neg hb, List.getElem?_eq_none (by simpa using hb), Option.map_none]

end Grows

/-- One more element in any bucket of the table. -/
lemma exists_increment (h : Histogram) {bucket : Nat} (hb : bucket < maxBuckets) :
    ∃ h', h.increment bucket = .ok h' ∧ h.Grows [bucket] h' := by
  refine ⟨_, dif_pos hb, rfl, fun b => ?_⟩
  rw [Vector.toList_set, List.getElem?_set, List.count_singleton]
  by_cases hbb : bucket = b
  · subst hbb
    simp [hb]
  · rw [if_neg hbb, if_neg (by simpa using hbb)]
    simp

/-- Counting several elements adds them to the table. -/
lemma exists_record (h : Histogram) {buckets : List Nat} (hb : ∀ b ∈ buckets, b < maxBuckets) :
    ∃ h', h.record buckets = .ok h' ∧ h.Grows buckets h' := by
  induction buckets generalizing h with
  | nil => exact ⟨h, rfl, .refl h⟩
  | cons bucket buckets ih =>
    obtain ⟨h₁, hincrement, hfirst⟩ := h.exists_increment (hb bucket (by simp))
    obtain ⟨h₂, hrecord, hrest⟩ := ih h₁ fun b hmem => hb b (by simp [hmem])
    refine ⟨h₂, ?_, hfirst.trans hrest⟩
    rw [record, List.foldlM_cons, hincrement]
    exact hrecord

end Histogram

/-- Labelling a window succeeds whatever the predicate, if the tables have room for the buckets: the
labels are the buckets that are found for the elements, and the histogram grows by them. No number
is lost in a byte, since the tables hold no more than 256 buckets. -/
theorem exists_labelWindow_grows (less : α → α → Bool) {splitters : List α}
    (hroom : splitters.length < maxBuckets) (counts : Histogram) (v : List α) :
    ∃ labelling, (labelWindow less splitters counts v).value = .ok labelling ∧
      labelling.labels.map UInt8.toNat = v.map (fun x => (bucketOf less splitters x).value) ∧
      counts.Grows (v.map fun x => (bucketOf less splitters x).value) labelling.counts := by
  have hlt : ∀ b ∈ v.map (fun x => (bucketOf less splitters x).value), b < maxBuckets := by
    intro b hb
    obtain ⟨x, _, rfl⟩ := List.mem_map.1 hb
    exact Nat.lt_of_le_of_lt (bucketOf_le less splitters x) hroom
  obtain ⟨counts', hrecord, hgrows⟩ := counts.exists_record hlt
  refine ⟨⟨counts', (v.map fun x => (bucketOf less splitters x).value).map Nat.toUInt8⟩,
    ?_, ?_, hgrows⟩
  · rw [labelWindow, Counted.value_bind, Counted.value_pure, Counted.value_mapM, hrecord]
    rfl
  · rw [List.map_map]
    refine (List.map_congr_left ?_).trans (List.map_id _)
    intro b hb
    have hbyte : b < 256 := hlt b hb
    show b.toUInt8.toNat = b
    rw [Nat.toUInt8, UInt8.toNat_ofNat', Nat.mod_eq_of_lt hbyte]

/-- On top of zeros, the counts are the tally of the buckets that are found. -/
theorem exists_labelWindow_bucketOf (less : α → α → Bool) {splitters : List α}
    {counts : Histogram} (hcounts : counts.toList = List.replicate (splitters.length + 1) 0)
    (v : List α) :
    ∃ labelling, (labelWindow less splitters counts v).value = .ok labelling ∧
      labelling.labels.map UInt8.toNat = v.map (fun x => (bucketOf less splitters x).value) ∧
      labelling.counts.toList =
        tally (splitters.length + 1) (v.map fun x => (bucketOf less splitters x).value) := by
  have hsize : counts.size = splitters.length + 1 := by
    rw [← Histogram.length_toList, hcounts, List.length_replicate]
  have hroom : splitters.length < maxBuckets := by
    have := counts.size_le
    omega
  obtain ⟨labelling, hvalue, hlabels, hgrows⟩ := exists_labelWindow_grows less hroom counts v
  exact ⟨labelling, hvalue, hlabels, hgrows.toList_of_zeros hcounts⟩

/-- If splitters do not descend, the labels are the ranks, and the counts are their tally. -/
theorem exists_labelWindow (hless : StrictWeak less)
    (hs : splitters.Pairwise fun s t => less t s = false) {counts : Histogram}
    (hcounts : counts.toList = List.replicate (splitters.length + 1) 0) (v : List α) :
    ∃ labelling, (labelWindow less splitters counts v).value = .ok labelling ∧
      labelling.labels.map UInt8.toNat = v.map (rank less splitters) ∧
      labelling.counts.toList =
        tally (splitters.length + 1) (v.map (rank less splitters)) := by
  have hranks : (v.map fun x => (bucketOf less splitters x).value) = v.map (rank less splitters) :=
    List.map_congr_left fun x _ => value_bucketOf hless hs x
  rw [← hranks]
  exact exists_labelWindow_bucketOf less hcounts v

end SampleSort
