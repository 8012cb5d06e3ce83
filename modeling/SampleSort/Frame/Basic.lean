import SampleSort.Bucket.Histogram

set_option relaxedAutoImplicit false
set_option autoImplicit false

/-!
# Frames: pending work

A frame stands for a window that is still to be sorted, together with all that has been found out
about it. It passes through its phases in order, and each phase holds just what the earlier ones
have established.

## Main definitions

* `SampleSort.Stage` — the names of the phases, and of being done.
* `SampleSort.Role` — what a window is sorted for.
* `SampleSort.Phase` — how far the work on a window has come.
* `SampleSort.Frame` — a window, its role and its phase.
-/

namespace SampleSort

variable {α : Type}

/-- What the next step will do. -/
inductive Stage where
  /-- Resolve the window at a glance if it is in order or in reverse order. -/
  | simpleCases
  /-- Sort it directly if it is short. -/
  | baseCase
  /-- Draw a sample, or choose splitters from it once it has been sorted. -/
  | sampling
  /-- Label every element with its bucket. -/
  | classification
  /-- Bring the buckets together. -/
  | partitioning
  /-- Sort the short buckets and leave the long ones pending. -/
  | recursion
  /-- Nothing, for there is no work left. -/
  | done
  deriving DecidableEq, Repr

/-- What a window is sorted for. -/
inductive Role where
  /-- For itself. -/
  | main
  /-- To yield the splitters of the frame below. -/
  | sample
  deriving DecidableEq, Repr

/-- How far the work on a window has come. -/
inductive Phase (α : Type) where
  /-- Nothing is known. -/
  | simpleCases
  /-- The window is neither sorted nor reversed. -/
  | baseCase
  /-- It is too long to be sorted directly. -/
  | sampling
  /-- A sample has been moved to its front and is being sorted. -/
  | awaiting (plan : SamplingPlan)
  /-- The sample is sorted and splitters have been chosen from it. -/
  | classification (plan : SamplingPlan) (splitters : List α) (counts : Histogram)
  /-- The elements have been labelled with their buckets. -/
  | partitioning (plan : SamplingPlan) (splitters : List α) (counts : Histogram)
      (labels : List UInt8)
  /-- The elements stand together by buckets. -/
  | recursion (plan : SamplingPlan) (splitters : List α) (counts : Histogram)
      (starts : List Nat)
  deriving DecidableEq

namespace Phase

/-- The name of a phase. Drawing a sample and waiting for it go by one name. -/
def stage : Phase α → Stage
  | simpleCases => .simpleCases
  | baseCase => .baseCase
  | sampling => .sampling
  | awaiting _ => .sampling
  | classification .. => .classification
  | partitioning .. => .partitioning
  | recursion .. => .recursion

/-- The sampling plan, once there is one. -/
def plan? : Phase α → Option SamplingPlan
  | awaiting plan => some plan
  | classification plan .. => some plan
  | partitioning plan .. => some plan
  | recursion plan .. => some plan
  | _ => none

/-- The splitters; none until they have been chosen. -/
def splitters : Phase α → List α
  | classification _ splitters _ => splitters
  | partitioning _ splitters _ _ => splitters
  | recursion _ splitters _ _ => splitters
  | _ => []

/-- The bucket sizes; there are no buckets until splitters have been chosen. -/
def counts : Phase α → Histogram
  | classification _ _ counts => counts
  | partitioning _ _ counts _ => counts
  | recursion _ _ counts _ => counts
  | _ => .empty

/-- The labels of the elements, from labelling to partitioning. -/
def labels : Phase α → List UInt8
  | partitioning _ _ _ labels => labels
  | _ => []

/-- Where the buckets begin and the last one ends, once the window is partitioned. -/
def starts : Phase α → List Nat
  | recursion _ _ _ starts => starts
  | _ => []

end Phase

/-- A window that is still to be sorted. -/
structure Frame (α : Type) where
  /-- The position of its first element. -/
  start : Nat
  /-- The position after its last element. -/
  stop : Nat
  /-- What it is sorted for. -/
  role : Role
  /-- How far the work on it has come. -/
  phase : Phase α
  deriving DecidableEq

namespace Frame

/-- A window that nothing is known about. -/
def fresh (start stop : Nat) (role : Role) : Frame α :=
  ⟨start, stop, role, .simpleCases⟩

/-- The number of elements in the window. -/
def length (f : Frame α) : Nat :=
  f.stop - f.start

/-- The name of the frame's phase. -/
def stage (f : Frame α) : Stage :=
  f.phase.stage

/-- A frame is never done: when its window is sorted, it is dropped. -/
theorem stage_ne_done (f : Frame α) : f.stage ≠ .done := by
  cases f with
  | mk start stop role phase => cases phase <;> simp [stage, Phase.stage]

end Frame

end SampleSort
