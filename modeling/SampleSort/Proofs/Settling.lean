import SampleSort.Machine.Turn
import SampleSort.Proofs.Partition
import SampleSort.Proofs.Small

set_option relaxedAutoImplicit false
set_option autoImplicit false

/-!
# Settling the buckets of a window

The last turn on a window sorts its short buckets and leaves the long ones pending. After that the
window is in order except inside the pending windows. Each of those is shorter than the window: the
first bucket lacks the first splitter, and from any other bucket that is the whole window at least
the splitter before it is peeled off.

## Main results

* `SampleSort.exists_settleBuckets_perm` — buckets are settled whatever the predicate.
* `SampleSort.Bucketed.exists_peelBucket` — what is left of a bucket is shorter than the window.
* `SampleSort.Bucketed.exists_settleBucket` — the work on one bucket.
* `SampleSort.Bucketed.exists_settleBuckets` — the work on all of them.
-/

namespace SampleSort

variable {α : Type} {less : α → α → Bool} {splitters v : List α} {buckets : List (List α)}
  {b : Nat} {bucket : List α}

/-- What is known of the outcome of the work on a part of a window of `whole` elements, whose
elements were `part` and began at `start`: the part is in order except inside the pending windows,
which are longer than `threshold` and shorter than the window. -/
structure SettledWell (less : α → α → Bool) (threshold whole start : Nat) (part elements : List α)
    (pending : List (Nat × Nat)) : Prop where
  /-- Nothing is lost. -/
  perm : elements.Perm part
  /-- The pending windows, counted from the start of the part, are where it is not in order. -/
  sortedBut : ∃ ws, pending = ws.map (shift start) ∧
    SortedBut less elements 0 elements.length ws
  /-- Pending windows are long, but not as long as the window. -/
  lengths : ∀ w ∈ pending, threshold < w.2 - w.1 ∧ w.2 - w.1 < whole

/-- The work on a bucket is decided by what is left of it when it has been peeled. -/
lemma settleBucket_eq (threshold : Nat) {start stop : Nat} {equal rest : List α}
    (hslice : slice? v start stop = .ok bucket)
    (hpeel : peelBucket less splitters v.length b bucket = .ok (equal, rest)) :
    settleBucket less threshold splitters v b start stop =
      .ok (if threshold < rest.length then
        ⟨equal ++ rest, some (start + equal.length, stop)⟩
      else ⟨equal ++ (sortSmall less rest).value, none⟩) := by
  simp only [settleBucket, hslice, hpeel, bind, Except.bind]
  rfl

/-- The work on several buckets is that on the first one and that on the others. -/
lemma settleBuckets_cons_eq_ok_iff {threshold start stop : Nat} {bounds : List (Nat × Nat)}
    {settled : List (Settled α)} :
    settleBuckets less threshold splitters v b ((start, stop) :: bounds) = .ok settled ↔
      ∃ first later, settleBucket less threshold splitters v b start stop = .ok first ∧
        settleBuckets less threshold splitters v (b + 1) bounds = .ok later ∧
        settled = first :: later := by
  rw [settleBuckets]
  cases settleBucket less threshold splitters v b start stop with
  | error fault => simp [bind, Except.bind]
  | ok first =>
    cases settleBuckets less threshold splitters v (b + 1) bounds with
    | error fault => simp [bind, Except.bind]
    | ok later => simp [bind, Except.bind, pure, Except.pure, eq_comm]

/-- A bucket can be peeled whatever the predicate, if all splitters before it are there. -/
lemma exists_peelBucket_of_le (less : α → α → Bool) (hb : b ≤ splitters.length) (whole : Nat)
    (bucket : List α) :
    ∃ equal rest, peelBucket less splitters whole b bucket = .ok (equal, rest) ∧
      (equal ++ rest).Perm bucket := by
  by_cases hwhole : 0 < b ∧ bucket.length = whole
  · have hpivot := List.getElem?_eq_getElem (show b - 1 < splitters.length by omega)
    refine ⟨(peelEqual less splitters[b - 1] bucket).value.1,
      (peelEqual less splitters[b - 1] bucket).value.2, ?_, peelEqual_perm _ _ bucket⟩
    rw [peelBucket, if_pos hwhole, hpivot]
  · exact ⟨[], bucket, by rw [peelBucket, if_neg hwhole], .refl _⟩

/-- The work on a bucket succeeds and permutes it whatever the predicate. -/
lemma exists_settleBucket_perm (less : α → α → Bool) (threshold : Nat)
    (hb : b ≤ splitters.length) {start stop : Nat} (hslice : slice? v start stop = .ok bucket) :
    ∃ settled, settleBucket less threshold splitters v b start stop = .ok settled ∧
      settled.elements.Perm bucket := by
  obtain ⟨equal, rest, hpeel, hperm⟩ := exists_peelBucket_of_le less hb v.length bucket
  rw [settleBucket_eq threshold hslice hpeel]
  by_cases hlong : threshold < rest.length
  · rw [if_pos hlong]
    exact ⟨_, rfl, hperm⟩
  · rw [if_neg hlong]
    exact ⟨_, rfl, ((sortSmall_perm less rest).append_left _).trans hperm⟩

/-- So does the work on all buckets from some bucket on, if their sizes make up the rest of the
window. -/
lemma exists_settleBuckets_perm (less : α → α → Bool) (threshold : Nat) {sizes : List Nat}
    {start : Nat} (hb : b + sizes.length = splitters.length + 1)
    (hsum : start + sizes.sum = v.length) :
    ∃ settled, settleBuckets less threshold splitters v b
        ((offsetsFrom start sizes).zip (offsetsFrom start sizes).tail) = .ok settled ∧
      (settled.map Settled.elements).flatten.Perm (v.drop start) := by
  induction sizes generalizing b start with
  | nil =>
    refine ⟨[], rfl, ?_⟩
    rw [List.drop_of_length_le (by simpa using Nat.le_of_eq hsum.symm)]
    exact .refl _
  | cons size sizes ih =>
    rw [List.length_cons] at hb
    rw [List.sum_cons] at hsum
    have hslice := slice?_eq_window (v := v) (Nat.le_add_right start size) (by omega)
    have hfits : start ≤ (v.take (start + size)).length := by
      rw [List.length_take]
      omega
    have hsplitters : b ≤ splitters.length := by omega
    obtain ⟨first, hfirst, hperm⟩ := exists_settleBucket_perm less threshold hsplitters hslice
    have hb' : b + 1 + sizes.length = splitters.length + 1 := by omega
    have hsum' : start + size + sizes.sum = v.length := by omega
    obtain ⟨settled, hsettled, hrest⟩ := ih hb' hsum'
    rw [zip_tail_offsetsFrom]
    refine ⟨first :: settled,
      settleBuckets_cons_eq_ok_iff.2 ⟨first, settled, hfirst, hsettled, rfl⟩, ?_⟩
    have hdrop : v.drop start = window v start (start + size) ++ v.drop (start + size) := by
      rw [window, ← List.drop_append_of_le_length hfits, List.take_append_drop]
    rw [List.map_cons, List.flatten_cons, hdrop]
    exact hperm.append hrest

namespace Bucketed

/-- A bucket has no more elements than the window. -/
lemma length_le (h : Bucketed less splitters v buckets) (hb : buckets[b]? = some bucket) :
    bucket.length ≤ v.length := by
  rw [← h.flatten]
  exact (List.sublist_flatten_of_mem (List.mem_of_getElem? hb)).length_le

/-- A bucket with as many elements as the window is the window. -/
lemma eq_of_length (h : Bucketed less splitters v buckets) (hb : buckets[b]? = some bucket)
    (hlength : bucket.length = v.length) : bucket = v := by
  rw [← h.flatten] at hlength ⊢
  exact (List.sublist_flatten_of_mem (List.mem_of_getElem? hb)).eq_of_length hlength

/-- A bucket stands behind those before it. -/
lemma slice?_bucket {done remaining : List (List α)}
    (h : Bucketed less splitters v (done ++ bucket :: remaining)) :
    slice? v done.flatten.length (done.flatten.length + bucket.length) = .ok bucket := by
  have hsplit : v = done.flatten ++ bucket ++ remaining.flatten := by
    rw [← h.flatten, List.flatten_append, List.flatten_cons, List.append_assoc]
  rw [slice?_eq_window (Nat.le_add_right _ _) (by rw [hsplit]; simp), hsplit, window_middle]

/-- An element of a bucket is not greater than one of a later bucket, because its rank is lower. -/
lemma notGreater_later (hless : StrictWeak less)
    (hs : splitters.Pairwise fun s t => less t s = false) {done remaining : List (List α)}
    (h : Bucketed less splitters v (done ++ bucket :: remaining)) {x y : α} (hx : x ∈ bucket)
    (hy : y ∈ remaining.flatten) : less y x = false := by
  obtain ⟨later, hlater, hy⟩ := List.mem_flatten.1 hy
  obtain ⟨k, hk⟩ := List.mem_iff_getElem?.1 hlater
  have hb : (done ++ bucket :: remaining)[done.length]? = some bucket := by simp
  have hk' : (done ++ bucket :: remaining)[done.length + (k + 1)]? = some later := by
    rw [List.getElem?_append_right (by omega), Nat.add_sub_cancel_left]
    exact hk
  apply hless.asymm
  apply less_of_rank_lt hless hs
  rw [h.ranked _ _ hb x hx, h.ranked _ _ hk' y hy]
  omega

/-- A splitter before a bucket is not greater than the elements of the bucket. -/
lemma notLess_splitter (hless : StrictWeak less)
    (hs : splitters.Pairwise fun s t => less t s = false)
    (h : Bucketed less splitters v buckets) (hb : buckets[b]? = some bucket) {i : Nat} {s x : α}
    (hi : splitters[i]? = some s) (hib : i < b) (hx : x ∈ bucket) : less x s = false := by
  rw [notLess_iff_lt_rank hless hs hi, h.ranked b bucket hb x hx]
  exact hib

/-- The first bucket is not the whole window, because the first splitter is not in it. -/
lemma length_lt_of_first (hless : StrictWeak less)
    (hs : splitters.Pairwise fun s t => less t s = false) (hne : splitters ≠ [])
    (hmem : ∀ s ∈ splitters, s ∈ v) (h : Bucketed less splitters v buckets)
    (hb : buckets[0]? = some bucket) : bucket.length < v.length := by
  apply Nat.lt_of_le_of_ne (h.length_le hb)
  intro hlength
  obtain ⟨s, rest, rfl⟩ := List.exists_cons_of_ne_nil hne
  have hfirst : (s :: rest)[0]? = some s := rfl
  have hs₀ : s ∈ bucket := by
    rw [h.eq_of_length hb hlength]
    exact hmem s (List.mem_of_getElem? hfirst)
  have hrank := h.ranked 0 bucket hb s hs₀
  have hlt := lt_rank_self hless hs hfirst
  omega

/-- What is peeled off a bucket is not greater than any of its elements, and what is left is shorter
than the window.

**Proof sketch.** A bucket that is not the whole window is not peeled, and is shorter. The first
bucket is not peeled either, but it is never the whole window, since it is without the first
splitter. A later one that is the whole window is without anything less than the splitter before it.
So this is a minimum, and at least the splitter itself is peeled off. -/
theorem exists_peelBucket (hless : StrictWeak less)
    (hs : splitters.Pairwise fun s t => less t s = false) (hne : splitters ≠ [])
    (hmem : ∀ s ∈ splitters, s ∈ v) (h : Bucketed less splitters v buckets)
    (hb : buckets[b]? = some bucket) :
    ∃ equal rest, peelBucket less splitters v.length b bucket = .ok (equal, rest) ∧
      (equal ++ rest).Perm bucket ∧ rest.length < v.length ∧
      ∀ x ∈ equal, ∀ y ∈ bucket, less y x = false := by
  by_cases hwhole : 0 < b ∧ bucket.length = v.length
  · obtain ⟨hpos, hlength⟩ := hwhole
    have hbn : b < buckets.length := (List.getElem?_eq_some_iff.1 hb).1
    have hbs : b - 1 < splitters.length := by
      have := h.length
      omega
    have hpivot := List.getElem?_eq_getElem hbs
    generalize splitters[b - 1] = pivot at hpivot
    have hperm := peelEqual_perm less pivot bucket
    have hequal := peelEqual_fst less pivot bucket
    refine ⟨(peelEqual less pivot bucket).value.1, (peelEqual less pivot bucket).value.2, ?_,
      hperm, ?_, ?_⟩
    · rw [peelBucket, if_pos ⟨hpos, hlength⟩, hpivot]
    · -- the splitter itself is peeled off
      have hpeeled : pivot ∈ (peelEqual less pivot bucket).value.1 := by
        rw [hequal, List.mem_filter, h.eq_of_length hb hlength]
        exact ⟨hmem pivot (List.mem_of_getElem? hpivot), by simp [hless.irrefl pivot]⟩
      have hcount := hperm.length_eq
      have hone := List.length_pos_of_mem hpeeled
      rw [List.length_append] at hcount
      omega
    · intro x hx y hy
      rw [hequal, List.mem_filter] at hx
      have hxp : less pivot x = false := by simpa using hx.2
      exact hless.notGreater_trans hxp (h.notLess_splitter hless hs hb hpivot (by omega) hy)
  · refine ⟨[], bucket, by rw [peelBucket, if_neg hwhole], .refl _, ?_, by simp⟩
    by_cases hpos : 0 < b
    · exact Nat.lt_of_le_of_ne (h.length_le hb) fun hlength => hwhole ⟨hpos, hlength⟩
    · obtain rfl : b = 0 := by omega
      exact h.length_lt_of_first hless hs hne hmem hb

/-- The work on one bucket, which stands between `start` and `stop`.

**Proof sketch.** What is peeled off is in order, and no element of the bucket is less than any of
it, so it can stay in front. What is left is the one window that is pending, or is sorted and so in
order as well. -/
theorem exists_settleBucket (hless : StrictWeak less)
    (hs : splitters.Pairwise fun s t => less t s = false) (hne : splitters ≠ [])
    (hmem : ∀ s ∈ splitters, s ∈ v) (h : Bucketed less splitters v buckets)
    (hb : buckets[b]? = some bucket) (threshold : Nat) {start stop : Nat}
    (hslice : slice? v start stop = .ok bucket) :
    ∃ settled, settleBucket less threshold splitters v b start stop = .ok settled ∧
      SettledWell less threshold v.length start bucket settled.elements settled.pending.toList := by
  obtain ⟨equal, rest, hpeel, hperm, hlt, hle⟩ := h.exists_peelBucket hless hs hne hmem hb
  have hstop : stop = start + bucket.length := by
    have := length_of_slice?_eq_ok hslice
    have := (slice?_eq_ok_iff.1 hslice).1.1
    omega
  have hequal : ∀ x ∈ equal, x ∈ bucket := fun x hx => hperm.mem_iff.1 (by simp [hx])
  have hrest : ∀ x ∈ rest, x ∈ bucket := fun x hx => hperm.mem_iff.1 (by simp [hx])
  have hsorted : SortedBut less equal 0 equal.length [] :=
    .ofSorted (List.pairwise_of_forall_mem_list fun x hx y hy => hle x hx y (hequal y hy))
  have hlength := hperm.length_eq
  rw [List.length_append] at hlength
  rw [settleBucket_eq threshold hslice hpeel]
  by_cases hlong : threshold < rest.length
  · -- what is left is pending
    rw [if_pos hlong]
    refine ⟨_, rfl, hperm, ⟨[(equal.length, bucket.length)], ?_, ?_⟩, ?_⟩
    · simp [shift, hstop]
    · have happend := hsorted.append (SortedBut.whole less rest (Nat.zero_le rest.length))
        fun x hx y hy => hle x hx y (hrest y hy)
      simpa [shift, hlength] using happend
    · intro w hw
      obtain rfl : w = (start + equal.length, stop) := by simpa using hw
      simp only
      omega
  · -- what is left is sorted at once
    rw [if_neg hlong]
    have hsmall := sortSmall_perm less rest
    refine ⟨_, rfl, (hsmall.append_left _).trans hperm, ⟨[], rfl, ?_⟩, by simp⟩
    exact hsorted.append (.ofSorted (sortSmall_sorted hless rest)) fun x hx y hy =>
      hle x hx y (hrest y (hsmall.mem_iff.1 hy))

end Bucketed

/-- Two parts, one after the other, of which no element of the second is less than one of the
first. -/
lemma SettledWell.append {threshold whole start : Nat} {part part' elements elements' : List α}
    {pending pending' : List (Nat × Nat)}
    (h : SettledWell less threshold whole start part elements pending)
    (h' : SettledWell less threshold whole (start + part.length) part' elements' pending')
    (hle : ∀ x ∈ part, ∀ y ∈ part', less y x = false) :
    SettledWell less threshold whole start (part ++ part') (elements ++ elements')
      (pending ++ pending') := by
  obtain ⟨ws, rfl, hws⟩ := h.sortedBut
  obtain ⟨ws', rfl, hws'⟩ := h'.sortedBut
  refine ⟨h.perm.append h'.perm, ⟨ws ++ ws'.map (shift elements.length), ?_, ?_⟩, ?_⟩
  · rw [List.map_append, List.map_map, h.perm.length_eq]
    congr 1
    apply List.map_congr_left
    intro w _
    simp [shift, Nat.add_assoc]
  · exact hws.append hws' fun x hx y hy =>
      hle x (h.perm.mem_iff.1 hx) y (h'.perm.mem_iff.1 hy)
  · intro w hw
    rcases List.mem_append.1 hw with hw | hw
    · exact h.lengths w hw
    · exact h'.lengths w hw

/-- The work on the buckets of a window from some bucket on.

**Proof sketch.** Induction along the buckets. The elements of later buckets have higher ranks, so
that a part in order can be put in front of what comes of them. -/
theorem Bucketed.exists_settleBuckets_from (hless : StrictWeak less)
    (hs : splitters.Pairwise fun s t => less t s = false) (hne : splitters ≠ [])
    (hmem : ∀ s ∈ splitters, s ∈ v) (threshold : Nat) (done remaining : List (List α))
    (h : Bucketed less splitters v (done ++ remaining)) {bounds : List (Nat × Nat)}
    (hbounds : bounds = (offsetsFrom done.flatten.length (remaining.map List.length)).zip
      (offsetsFrom done.flatten.length (remaining.map List.length)).tail) :
    ∃ settled, settleBuckets less threshold splitters v done.length bounds = .ok settled ∧
      SettledWell less threshold v.length done.flatten.length remaining.flatten
        (settled.map Settled.elements).flatten (settled.filterMap Settled.pending) := by
  induction remaining generalizing done bounds with
  | nil =>
    subst hbounds
    refine ⟨[], rfl, .refl _, ⟨[], rfl, ?_⟩, by simp⟩
    exact .ofSorted List.Pairwise.nil
  | cons bucket remaining ih =>
    rw [List.map_cons, zip_tail_offsetsFrom] at hbounds
    subst hbounds
    have hb : (done ++ bucket :: remaining)[done.length]? = some bucket := by simp
    have hslice := h.slice?_bucket
    obtain ⟨first, hfirst, hwell⟩ := h.exists_settleBucket hless hs hne hmem hb threshold hslice
    have hlength : (done ++ [bucket]).flatten.length = done.flatten.length + bucket.length := by
      simp
    obtain ⟨settled, hsettled, hwell'⟩ := ih (done ++ [bucket])
      (by rwa [List.append_assoc, List.singleton_append]) (by rw [hlength])
    rw [hlength] at hwell'
    refine ⟨first :: settled, ?_, ?_⟩
    · rw [List.length_append, List.length_singleton] at hsettled
      exact settleBuckets_cons_eq_ok_iff.2 ⟨first, settled, hfirst, hsettled, rfl⟩
    · have happend := hwell.append hwell' fun x hx y hy => h.notGreater_later hless hs hx hy
      cases hpending : first.pending with
      | none => simpa [hpending] using happend
      | some w => simpa [hpending] using happend

/-- The work on all buckets of a window: the window is permuted, and it is in order except inside
the pending windows, each of which is longer than the threshold and shorter than the window. -/
theorem Bucketed.exists_settleBuckets (hless : StrictWeak less)
    (hs : splitters.Pairwise fun s t => less t s = false) (hne : splitters ≠ [])
    (hmem : ∀ s ∈ splitters, s ∈ v) (threshold : Nat) (h : Bucketed less splitters v buckets)
    {starts : List Nat} (hstarts : starts = offsets (buckets.map List.length)) :
    ∃ settled, settleBuckets less threshold splitters v 0 (starts.zip starts.tail) = .ok settled ∧
      (settled.map Settled.elements).flatten.Perm v ∧
      SortedBut less (settled.map Settled.elements).flatten 0 v.length
        (settled.filterMap Settled.pending) ∧
      ∀ w ∈ settled.filterMap Settled.pending,
        threshold < w.2 - w.1 ∧ w.2 - w.1 < v.length := by
  subst hstarts
  obtain ⟨settled, hsettled, hwell⟩ :=
    exists_settleBuckets_from hless hs hne hmem threshold [] buckets (by simpa using h) rfl
  have hperm := hwell.perm
  obtain ⟨ws, hpending, hws⟩ := hwell.sortedBut
  have hshift : ws.map (shift 0) = ws := by
    refine (List.map_congr_left ?_).trans (List.map_id ws)
    intro w _
    simp [shift]
  rw [h.flatten] at hperm
  rw [List.flatten_nil, List.length_nil, hshift] at hpending
  refine ⟨settled, hsettled, hperm, ?_, hwell.lengths⟩
  rw [← hperm.length_eq, hpending]
  exact hws

end SampleSort
