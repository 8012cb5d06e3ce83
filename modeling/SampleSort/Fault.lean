set_option relaxedAutoImplicit false
set_option autoImplicit false

/-!
# Faults: calls outside a function's domain

A fault is not an answer of the sort but the end of a computation that was started on values it
has no meaning for: a draw from nothing, an index past the end of a table. A sort that was set
up through its public constructors never meets one.

## Main definitions

* `SampleSort.Fault` — the causes.
-/

namespace SampleSort

/-- Why a computation has no result. -/
inductive Fault where
  /-- A bucket count was asked of a configuration whose base-case unit is zero. -/
  | zeroBaseCase
  /-- A bucket count was asked of a configuration that allows no bucket bits at all. -/
  | noBucketBits
  /-- An index was to be drawn from an empty range. -/
  | emptyDraw
  /-- A position or a slice lies outside the sequence or table it is taken from. -/
  | outOfBounds
  /-- More buckets were asked for than the fixed bucket tables hold. -/
  | tooManyBuckets
  /-- A frame was to be worked on whose stage says that its work is done. -/
  | unreachable
  deriving DecidableEq, Repr

end SampleSort
