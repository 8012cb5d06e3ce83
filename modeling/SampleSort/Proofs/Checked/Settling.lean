import SampleSort.Proofs.Checked.Buckets
import SampleSort.Proofs.Ledger.Handlers

set_option relaxedAutoImplicit false
set_option autoImplicit false

/-!
# Settling buckets in place

The buckets of a partitioned window are settled one after the other in the sequence itself. Their
bounds are positions of the sequence, which are found by adding the start of the window to those in
the table.

## Main definitions

* `SampleSort.Checked.newEntry` — an entry that nothing is known about.
* `SampleSort.Checked.peel` — what is done with before a bucket is sorted.
* `SampleSort.Checked.settleBucket`, `SampleSort.Checked.settleBuckets` — the work on one bucket and
  on all of them.

## Main results

* `SampleSort.Checked.settleBuckets_eq` — nothing is stopped, and the sequence is changed as if the
  window had been worked on by itself.
-/

namespace SampleSort.Checked

variable {α : Type} {less : α → α → Bool} {e : Entry α} {splitters v : List α}

/-- A window that nothing is known about. -/
def newEntry (start stop : Nat) (role : Role) : Except Panic (Entry α) :=
  ensure (start ≤ stop) .assertion (.fresh start stop role)

/-- The number of elements in an entry's window. -/
def length (e : Entry α) : Except Panic Nat :=
  sub e.stop e.start

/-- The elements of bucket number `b`, which stands between `start` and `stop`, with those in front
that are done with, and where the others begin. -/
def peel (less : α → α → Bool) (e : Entry α) (splitters data : List α) (b start stop : Nat) :
    Except Panic (List α × Nat) :=
  if 0 < b then do
    let n ← sub stop start
    let whole ← length e
    if n = whole then
      let before ← sub b 1
      let pivot ← get splitters before
      let bucket ← slice data start stop
      let (equal, bucket) ← separate (fun x => !less pivot x) bucket
      let rest ← add start equal
      return (splice data start bucket, rest)
    else return (data, start)
  else return (data, start)

/-- The work on bucket number `b` of an entry, and the entries that are left pending. -/
def settleBucket (less : α → α → Bool) (threshold : Nat) (e : Entry α) (splitters : List α)
    (starts : List Nat) (state : List α × List (Entry α)) (b : Nat) :
    Except Panic (List α × List (Entry α)) := do
  let (data, entries) := state
  let first ← get starts b
  let start ← add e.start first
  let next ← add b 1
  let last ← get starts next
  let stop ← add e.start last
  let (data, start) ← peel less e splitters data b start stop
  let n ← sub stop start
  if threshold < n then
    let entry ← newEntry start stop .main
    return (data, entries ++ [entry])
  else
    let rest ← slice data start stop
    let sorted ← sortSmall less rest
    return (splice data start sorted, entries)

/-- The work on all buckets of an entry. -/
def settleBuckets (less : α → α → Bool) (threshold : Nat) (e : Entry α) (splitters : List α)
    (starts : List Nat) (data : List α) : Except Panic (List α × List (Entry α)) :=
  (List.range' 0 (starts.length - 1)).foldlM (settleBucket less threshold e splitters starts)
    (data, [])

/-- A window has a length if it does not end before its start. -/
lemma length_eq (hle : e.start ≤ e.stop) : length e = .ok e.length :=
  sub_eq hle

/-- Peeling a bucket behind a front part.

**Proof sketch.** Both peel just when the bucket is not the first one and as long as the window.
Positions are sums of lengths of parts of the data, so they are words. -/
lemma peel_eq {front bucket others equal rest : List α} {b : Nat} (hle : e.start ≤ e.stop)
    (hlength : (front ++ (bucket ++ others)).length < wordBound)
    (h : peelBucket less splitters e.length b bucket = .ok (equal, rest)) :
    peel less e splitters (front ++ (bucket ++ others)) b front.length
        (front.length + bucket.length) =
      .ok (front ++ ((equal ++ rest) ++ others), front.length + equal.length) := by
  simp only [List.length_append] at hlength
  unfold peelBucket at h
  rw [peel]
  by_cases hpos : 0 < b
  · rw [if_pos hpos, sub_eq (Nat.le_add_right _ _), ok_bind, length_eq hle, ok_bind,
      Nat.add_sub_cancel_left]
    by_cases hwhole : bucket.length = e.length
    · rw [if_pos ⟨hpos, hwhole⟩] at h
      rw [if_pos hwhole]
      split at h
      · next pivot hpivot =>
        have hseparate := peelEqual_eq (v := bucket) less pivot (by omega)
        have hperm := peelEqual_perm less pivot bucket
        have hpeeled : (peelEqual less pivot bucket).value = (equal, rest) := Except.ok.inj h
        rw [hpeeled] at hseparate hperm
        have hcount := hperm.length_eq
        simp only [List.length_append] at hcount
        rw [sub_eq hpos, ok_bind, get_eq hpivot, ok_bind, slice_append, ok_bind, hseparate,
          ok_bind]
        simp only
        rw [add_eq (by omega), ok_bind, splice_append front bucket others (by simpa using hcount)]
        rfl
      · cases h
    · rw [if_neg fun hboth => hwhole hboth.2] at h
      obtain ⟨rfl, rfl⟩ := Prod.mk.inj (Except.ok.inj h)
      rw [if_neg hwhole]
      rfl
  · rw [if_neg fun hboth => hpos hboth.1] at h
    obtain ⟨rfl, rfl⟩ := Prod.mk.inj (Except.ok.inj h)
    rw [if_neg hpos]
    rfl

/-- The entries of the windows that are left pending of an entry. -/
def children (e : Entry α) (windows : List (Nat × Nat)) : List (Entry α) :=
  windows.map fun w => .fresh (e.start + w.1) (e.start + w.2) .main

/-- The work on a bucket behind a front part.

**Proof sketch.** The bucket stands behind the front part, as its bounds are counted from the start
of the entry. When it has been peeled, what is left of it stands behind the longer front part that
ends with what has been peeled off. That is then pushed as an entry, or sorted in its place. -/
lemma settleBucket_eq {threshold a c b : Nat} {starts : List Nat} {front bucket others : List α}
    {settled : Settled α} (entries : List (Entry α)) (hle : e.start ≤ e.stop)
    (hv : v.length = e.length) (hfront : front.length = e.start + a)
    (hslice : slice? v a c = .ok bucket)
    (hlength : (front ++ (bucket ++ others)).length < wordBound) (hb : b + 1 < wordBound)
    (hfirst : starts[b]? = some a) (hlast : starts[b + 1]? = some c)
    (h : SampleSort.settleBucket less threshold splitters v b a c = .ok settled) :
    settleBucket less threshold e splitters starts (front ++ (bucket ++ others), entries) b =
      .ok (front ++ (settled.elements ++ others),
        entries ++ children e settled.pending.toList) := by
  obtain ⟨bucket', hslice', h⟩ := exists_ok_of_bind h
  obtain rfl : bucket = bucket' := Except.ok.inj (hslice.symm.trans hslice')
  obtain ⟨⟨equal, rest⟩, hpeel, h⟩ := exists_ok_of_bind h
  have hstop := length_of_slice?_eq_ok hslice
  have hac := (slice?_eq_ok_iff.1 hslice).1.1
  have hcount := (peelBucket_perm hpeel).length_eq
  rw [hv] at hpeel
  have hpeeled := peel_eq hle hlength hpeel
  simp only [List.length_append] at hlength hcount
  have hbegin : add e.start a = .ok front.length := by
    rw [add_eq (by omega), hfront]
  have hend : add e.start c = .ok (front.length + bucket.length) := by
    rw [add_eq (by omega)]
    congr 1
    omega
  have hrest : front.length + bucket.length - (front.length + equal.length) = rest.length := by
    omega
  rw [settleBucket]
  simp only [get_eq hfirst, get_eq hlast, ok_bind, hbegin, hend, add_eq hb, hpeeled,
    sub_eq (show front.length + equal.length ≤ front.length + bucket.length by omega), hrest]
  obtain rfl := Except.ok.inj h
  by_cases hlong : threshold < rest.length
  · have hstart : front.length + equal.length = e.start + (a + equal.length) := by omega
    have hstop : front.length + bucket.length = e.start + c := by omega
    rw [if_pos hlong, if_pos hlong, newEntry, ensure_eq (by omega), ok_bind, hstart, hstop]
    rfl
  · have hsorted := sortSmall_eq less (v := rest) (by omega)
    have hsame := (sortSmall_perm less rest).length_eq
    have hslice := slice_append (front ++ equal) rest others
    have hsplice := splice_append (front ++ equal) rest others hsame
    rw [List.length_append, show front.length + equal.length + rest.length =
      front.length + bucket.length by omega] at hslice
    rw [List.length_append] at hsplice
    rw [if_neg hlong, if_neg hlong]
    simp only [List.append_assoc] at hslice hsplice ⊢
    rw [hslice, ok_bind, hsorted, ok_bind, hsplice]
    simp [children, pure, Except.pure]

/-- Settling a bucket keeps the number of its elements. -/
lemma length_elements {threshold a c b : Nat} {settled : Settled α}
    (h : SampleSort.settleBucket less threshold splitters v b a c = .ok settled) :
    settled.elements.length = c - a := by
  obtain ⟨bucket, hslice, h⟩ := exists_ok_of_bind h
  obtain ⟨⟨equal, rest⟩, hpeel, h⟩ := exists_ok_of_bind h
  have hcount := (peelBucket_perm hpeel).length_eq
  have hsame := (sortSmall_perm less rest).length_eq
  rw [List.length_append] at hcount
  rw [← length_of_slice?_eq_ok hslice, ← hcount]
  obtain rfl := Except.ok.inj h
  split
  · rw [List.length_append]
  · rw [List.length_append, hsame]

/-- The work on the buckets whose bounds come behind those that are `done`, behind a front part.

**Proof sketch.** Induction along the bounds. Every bucket begins where the one before it ends, so
that what has been settled is the front part for the next one. -/
lemma foldlM_settleBucket {threshold : Nat} (others : List α) (done : List Nat) (a : Nat)
    (stops : List Nat) (front : List α) (entries : List (Entry α)) {settled : List (Settled α)}
    (hle : e.start ≤ e.stop) (hv : v.length = e.length) (hfront : front.length = e.start + a)
    (hlength : (front ++ (v.drop a ++ others)).length < wordBound)
    (hstarts : (done ++ a :: stops).length < wordBound)
    (h : SampleSort.settleBuckets less threshold splitters v done.length
      ((a :: stops).zip stops) = .ok settled) :
    (List.range' done.length stops.length).foldlM
        (settleBucket less threshold e splitters (done ++ a :: stops))
        (front ++ (v.drop a ++ others), entries) =
      .ok (front ++ ((settled.map Settled.elements).flatten ++
          (v.drop ((a :: stops).getLast (List.cons_ne_nil _ _)) ++ others)),
        entries ++ children e (settled.filterMap Settled.pending)) := by
  induction stops generalizing done a front entries settled with
  | nil =>
    obtain rfl : [] = settled := Except.ok.inj h
    simp [children, pure, Except.pure]
  | cons c stops ih =>
    rw [List.zip_cons_cons] at h
    obtain ⟨first, later, hfirst, hlater, rfl⟩ := settleBuckets_cons_eq_ok_iff.1 h
    obtain ⟨bucket, hslice, -⟩ := exists_ok_of_bind hfirst
    obtain ⟨⟨hac, hcv⟩, hbucket⟩ := slice?_eq_ok_iff.1 hslice
    -- the bucket is what comes next in the window
    have hrest : v.drop a = bucket ++ v.drop c := by
      rw [← hbucket, ← List.drop_append_of_le_length (by simpa using ⟨hac, by omega⟩),
        List.take_append_drop]
    have hsame := length_elements hfirst
    have hbucketLength := length_of_slice?_eq_ok hslice
    rw [hrest, List.append_assoc] at hlength ⊢
    have hfirstStart : (done ++ a :: c :: stops)[done.length]? = some a := by simp
    have hnextStart : (done ++ a :: c :: stops)[done.length + 1]? = some c := by simp
    have hnext : done.length + 1 < wordBound := by
      simp only [List.length_append, List.length_cons] at hstarts
      omega
    have hstep := settleBucket_eq entries hle hv hfront hslice hlength hnext hfirstStart hnextStart
      hfirst
    have hlater' : SampleSort.settleBuckets less threshold splitters v (done ++ [a]).length
        ((c :: stops).zip stops) = .ok later := by simpa using hlater
    have hih := ih (done ++ [a]) c (front ++ first.elements)
      (entries ++ children e first.pending.toList)
      (by rw [List.length_append]; omega)
      (by simp only [List.length_append] at hlength ⊢; omega)
      (by simpa using hstarts) hlater'
    simp only [List.length_append, List.length_singleton, List.append_assoc,
      List.singleton_append] at hih
    rw [List.length_cons, List.range'_succ, List.foldlM_cons, hstep, ok_bind, hih,
      List.filterMap_cons]
    cases hpending : first.pending with
    | none => simp [children]
    | some w => simp [children]

/-- Settling all buckets in place. -/
theorem settleBuckets_eq {threshold : Nat} {front others : List α} {sizes : List Nat}
    {settled : List (Settled α)} (hle : e.start ≤ e.stop) (hv : v.length = e.length)
    (hfront : front.length = e.start) (hlength : (front ++ (v ++ others)).length < wordBound)
    (hsizes : sizes.length + 1 < wordBound) (hsum : sizes.sum = v.length)
    (h : SampleSort.settleBuckets less threshold splitters v 0
      ((offsets sizes).zip (offsets sizes).tail) = .ok settled) :
    settleBuckets less threshold e splitters (offsets sizes) (front ++ (v ++ others)) =
      .ok (front ++ ((settled.map Settled.elements).flatten ++ others),
        children e (settled.filterMap Settled.pending)) := by
  have hstarts : offsets sizes = 0 :: (offsets sizes).tail := (cons_tail_offsetsFrom 0 sizes).symm
  have hlast := getLast?_offsets sizes
  have hcount := length_offsets sizes
  rw [settleBuckets]
  generalize offsets sizes = starts at *
  rw [hstarts] at h hlast hcount ⊢
  generalize starts.tail = stops at *
  have hall := foldlM_settleBucket others [] 0 stops front [] hle hv hfront hlength
    (by simpa [hcount] using hsizes) h
  have hend : (0 :: stops).getLast (List.cons_ne_nil _ _) = v.length := by
    rw [List.getLast?_eq_some_getLast (List.cons_ne_nil _ _), hsum] at hlast
    exact Option.some.inj hlast
  rw [hend, List.drop_length] at hall
  simpa using hall

end SampleSort.Checked
