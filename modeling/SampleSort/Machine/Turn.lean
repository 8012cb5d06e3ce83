import SampleSort.Error
import SampleSort.Bucket.Labelling
import SampleSort.Frame.Basic
import SampleSort.Partition.Strategy
import SampleSort.Sample
import SampleSort.Small.Insertion
import SampleSort.Splitter.Choice

set_option relaxedAutoImplicit false
set_option autoImplicit false

/-!
# One turn of work on a window

A turn takes a window from one phase to the next. It sees the elements of the window and nothing
else of the sequence, so that it makes no difference where in the sequence the window lies.

## Main definitions

* `SampleSort.Transition` — what becomes of the frame.
* `SampleSort.Turn` — the window and the source of randomness after a turn, and the transition.
* `SampleSort.peelBucket`, `SampleSort.settleBucket`, `SampleSort.settleBuckets` — the work on the
  buckets of a partitioned window.
* `SampleSort.Phase.work` — the turn of every phase.
* `SampleSort.Phase.turn` — the same, where memory may run out.
-/

namespace SampleSort

variable {α σ : Type}

/-- What becomes of a frame after a turn. -/
inductive Transition (α : Type) where
  /-- The frame goes on to another phase. -/
  | advance (phase : Phase α)
  /-- The window is sorted. -/
  | resolve
  /-- A sample has been drawn and has to be sorted first. -/
  | descend (plan : SamplingPlan)
  /-- The windows with these bounds, counted from the frame's own start, are left to be sorted. -/
  | split (windows : List (Nat × Nat))
  /-- There was no memory. -/
  | refuse (what : Bookkeeping)
  deriving DecidableEq

/-- The outcome of a turn. -/
structure Turn (α σ : Type) where
  /-- The elements of the window. -/
  window : List α
  /-- The source after the draws of the turn. -/
  source : σ
  /-- What becomes of the frame. -/
  transition : Transition α
  deriving DecidableEq

/-- Whether memory for bookkeeping can be had. -/
inductive Memory where
  /-- All that is asked for. -/
  | available
  /-- None. -/
  | exhausted
  deriving DecidableEq, Repr

/-- The outcome of the work on one bucket. -/
structure Settled (α : Type) where
  /-- The elements of the bucket. -/
  elements : List α
  /-- The bounds of what is left to be sorted, if it is long. -/
  pending : Option (Nat × Nat)
  deriving DecidableEq

/-- The elements of bucket number `b` that are done with before it is sorted, and the others.

A bucket that is the whole window, which has `whole` elements, is no progress. Unless it is the
first, all its elements are at least the splitter before it, which is one of them; so those equal to
the splitter come first and are done with. -/
def peelBucket (less : α → α → Bool) (splitters : List α) (whole b : Nat) (bucket : List α) :
    Except Fault (List α × List α) :=
  if 0 < b ∧ bucket.length = whole then
    match splitters[b - 1]? with
    | some pivot => .ok (peelEqual less pivot bucket).value
    | none => .error .outOfBounds
  else .ok ([], bucket)

/-- The work on bucket number `b` of the window `v`, which lies between `start` and `stop` in it:
what is not done with is sorted at once, or left pending if it is longer than `threshold`. -/
def settleBucket (less : α → α → Bool) (threshold : Nat) (splitters v : List α)
    (b start stop : Nat) : Except Fault (Settled α) := do
  let bucket ← slice? v start stop
  let (equal, rest) ← peelBucket less splitters v.length b bucket
  return if threshold < rest.length then
    ⟨equal ++ rest, some (start + equal.length, stop)⟩
  else
    ⟨equal ++ (sortSmall less rest).value, none⟩

/-- The work on the buckets of the window `v` from number `b` on, whose bounds are listed. -/
def settleBuckets (less : α → α → Bool) (threshold : Nat) (splitters v : List α) :
    Nat → List (Nat × Nat) → Except Fault (List (Settled α))
  | _, [] => return []
  | b, (start, stop) :: bounds => do
    let settled ← settleBucket less threshold splitters v b start stop
    return settled :: (← settleBuckets less threshold splitters v (b + 1) bounds)

namespace Phase

/-- What memory the turn of a phase reserves, if any. -/
def reservation? : Phase α → Option Bookkeeping
  | awaiting _ => some .splitters
  | classification .. => some .labels
  | partitioning .. => some .starts
  | recursion .. => some .frames
  | _ => none

/-- The turn of a phase on the window `v`.

* A window that is resolved at a glance is put in order.
* One that is not longer than the threshold is sorted by insertion.
* A longer one has a sample moved to its front.
* When the sample has been sorted, splitters are chosen from it.
* Then every element is labelled with its bucket,
* the buckets are brought together,
* and each of them is sorted or left pending. -/
def work [IndexSource σ] (less : α → α → Bool) (config : Config) (strategy : Strategy)
    (source : σ) (v : List α) : Phase α → Except Fault (Turn α σ)
  | simpleCases =>
    match (Shape.detect less v).value with
    | .unsorted => return ⟨v, source, .advance baseCase⟩
    | shape => return ⟨shape.arrange v, source, .resolve⟩
  | baseCase =>
    if v.length ≤ config.threshold then
      return ⟨(insertionSort less v).value, source, .resolve⟩
    else
      return ⟨v, source, .advance sampling⟩
  | sampling => do
    let plan ← config.samplingPlan v.length
    let (v, source) ← drawSample plan.samples v source
    return ⟨v, source, .descend plan⟩
  | awaiting plan => do
    let sample ← slice? v 0 plan.samples
    let splitters := (chooseSplitters less plan.stride (plan.buckets - 1) sample).value
    let counts ← Histogram.empty.reset (splitters.length + 1)
    return ⟨v, source, .advance (classification plan splitters counts)⟩
  | classification plan splitters counts => do
    let labelling ← (labelWindow less splitters counts v).value
    return ⟨v, source,
      .advance (partitioning plan splitters labelling.counts labelling.labels)⟩
  | partitioning plan splitters counts labels => do
    let partitioned ← (strategy.partition less splitters counts.toList labels v).value
    return ⟨partitioned.window, source,
      .advance (recursion plan splitters counts partitioned.starts)⟩
  | recursion _ splitters _ starts => do
    let settled ←
      settleBuckets less config.threshold splitters v 0 (starts.zip starts.tail)
    return ⟨(settled.map Settled.elements).flatten, source,
      .split (settled.filterMap Settled.pending)⟩

/-- The turn of a phase on the window `v`. If memory is exhausted, a phase that needs some leaves
everything as it is. A frame whose fields stand each for itself has a table to drop before it can
ask for memory; that this comes to the same, since the table holds nothing yet, is
`SampleSort.Frame.handle_entry`. -/
def turn [IndexSource σ] (less : α → α → Bool) (config : Config) (strategy : Strategy)
    (memory : Memory) (source : σ) (v : List α) (phase : Phase α) : Except Fault (Turn α σ) :=
  match memory, phase.reservation? with
  | .exhausted, some what => return ⟨v, source, .refuse what⟩
  | _, _ => phase.work less config strategy source v

end Phase

end SampleSort
