import SampleSort.Bucket.Histogram
import SampleSort.Splitter.Search

set_option relaxedAutoImplicit false
set_option autoImplicit false

/-!
# Labelling a window

Every element of a window is labelled with the number of its bucket, in one byte, and the sizes of
the buckets are counted along the way. The window itself is only read.

## Main definitions

* `SampleSort.Labelling` — the labels of a window and the bucket sizes.
* `SampleSort.labelWindow` — the labelling of a window by given splitters.
-/

namespace SampleSort

variable {α : Type}

/-- The labels of a window, and how many elements each bucket has. -/
structure Labelling where
  /-- The elements counted in every bucket. -/
  counts : Histogram
  /-- The bucket of every element, in the order of the window. -/
  labels : List UInt8

/-- The buckets of all elements of `v`, recorded on top of `counts`. -/
def labelWindow (less : α → α → Bool) (splitters : List α) (counts : Histogram) (v : List α) :
    Counted (Except Fault Labelling) := do
  let buckets ← v.mapM (bucketOf less splitters)
  return (counts.record buckets).map fun counts => ⟨counts, buckets.map Nat.toUInt8⟩

end SampleSort
