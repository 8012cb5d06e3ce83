import SampleSort.Config

set_option relaxedAutoImplicit false
set_option autoImplicit false

/-!
# Bucket histograms

A histogram counts how many elements fall into each of a number of buckets. It is kept in a table
of fixed size, of which only an initial part is in use.

## Main definitions

* `SampleSort.Histogram` — the table and the number of buckets in use.
* `SampleSort.Histogram.reset`, `increment`, `record` — starting afresh, counting one element, and
  counting several.
* `SampleSort.Histogram.toList`, `total` — the counts in use, and their sum.
-/

namespace SampleSort

/-- Counts of the elements in each bucket. -/
structure Histogram where
  /-- A count for every possible bucket. -/
  table : Vector Nat maxBuckets
  /-- The number of buckets in use, which are the first ones. -/
  size : Nat
  /-- No more buckets are in use than the table has entries. -/
  size_le : size ≤ maxBuckets
  deriving DecidableEq

namespace Histogram

/-- The histogram without buckets. -/
def empty : Histogram :=
  ⟨Vector.replicate maxBuckets 0, 0, Nat.zero_le _⟩

/-- The histogram with `size` buckets in use. The counts of the buckets in use so far go back to
zero; the others are never counted in. -/
def reset (h : Histogram) (size : Nat) : Except Fault Histogram :=
  if hsize : size ≤ maxBuckets then
    .ok ⟨Vector.ofFn fun b => if b.val < h.size then 0 else h.table[b], size, hsize⟩
  else .error .tooManyBuckets

/-- One more element in a bucket. -/
def increment (h : Histogram) (bucket : Nat) : Except Fault Histogram :=
  if hb : bucket < maxBuckets then
    .ok { h with table := h.table.set bucket (h.table[bucket] + 1) }
  else .error .outOfBounds

/-- One more element for every bucket listed. -/
def record (h : Histogram) (buckets : List Nat) : Except Fault Histogram :=
  buckets.foldlM increment h

/-- The counts of the buckets in use. -/
def toList (h : Histogram) : List Nat :=
  h.table.toList.take h.size

/-- Whether no bucket is in use. -/
def isEmpty (h : Histogram) : Bool :=
  h.size == 0

/-- The number of elements counted. -/
def total (h : Histogram) : Nat :=
  h.toList.foldr (· + ·) 0

/-- There is a count for every bucket in use. -/
@[simp] theorem length_toList (h : Histogram) : h.toList.length = h.size := by
  simp [toList, Nat.min_eq_left h.size_le]

/-- Without buckets there are no counts. -/
@[simp] theorem toList_empty : empty.toList = [] := rfl

end Histogram

end SampleSort
