import SampleSort.Config

set_option relaxedAutoImplicit false
set_option autoImplicit false

/-!
# Errors of a sort

A sort can be refused when it is set up, and it can run out of memory for its bookkeeping while it
runs. Both are answers that its user gets to see.

## Main definitions

* `SampleSort.Bookkeeping` — what memory is reserved for.
* `SampleSort.SortError` — the causes, and `SampleSort.SortError.message`, their wording.
-/

namespace SampleSort

/-- What memory is reserved for while a sort runs. -/
inductive Bookkeeping where
  /-- The splitters of a window. -/
  | splitters
  /-- The labels of its elements. -/
  | labels
  /-- The positions at which its buckets begin. -/
  | starts
  /-- The frames of the buckets that are still to be sorted. -/
  | frames
  deriving DecidableEq, Repr

/-- The wording for what memory was reserved for. -/
def Bookkeeping.description : Bookkeeping → String
  | .splitters => "splitters"
  | .labels => "classification oracle"
  | .starts => "bucket starts"
  | .frames => "bucket frames"

/-- Why a sort could not be set up or go on. -/
inductive SortError where
  /-- The positions from `start` to `stop` are no window of a sequence of this length. -/
  | invalidRange (start stop length : Nat)
  /-- The configuration has a flaw. -/
  | invalidConfig (flaw : ConfigFlaw)
  /-- There was no memory for the bookkeeping of the frame from `start` to `stop`. -/
  | allocation (what : Bookkeeping) (start stop : Nat)
  /-- An earlier step failed. -/
  | poisoned
  deriving DecidableEq, Repr

/-- The wording of an error. -/
def SortError.message : SortError → String
  | .invalidRange start stop length =>
    s!"invalid range {start}..{stop} for a sequence of length {length}"
  | .invalidConfig flaw => "invalid configuration: " ++ flaw.message
  | .allocation what start stop =>
    "failed to allocate " ++ what.description ++ s!" for frame {start}..{stop}"
  | .poisoned => "state machine is poisoned by an earlier failure"

end SampleSort
