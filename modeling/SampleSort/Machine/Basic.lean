import SampleSort.Error
import SampleSort.Frame.Basic
import SampleSort.Partition.Strategy

set_option relaxedAutoImplicit false
set_option autoImplicit false

/-!
# The sorting machine

A machine holds a sequence and the frames of all windows of it that are still to be sorted, with
the one to be worked on next on top. It is set up on a whole sequence or on a window, and
its source of randomness, its configuration and its strategy can be exchanged at any time.

## Main definitions

* `SampleSort.Machine` — a sort in progress.
* `SampleSort.Machine.ofArray`, `SampleSort.Machine.ofWindow?` — a sort about to begin.
* `SampleSort.Machine.withSource`, `withConfig?`, `withStrategy` — exchanges.
* `SampleSort.Machine.isDone`, `stage`, `depth` — what can be told from outside.
-/

namespace SampleSort

/-- A sort in progress, of elements of type `α` and with randomness from a source of type `σ`. -/
structure Machine (α σ : Type) where
  /-- The sequence in its present arrangement. -/
  data : Array α
  /-- The frames of pending work, the one to be worked on next first. -/
  stack : List (Frame α)
  /-- Where sample indices are drawn from. -/
  source : σ
  /-- The tuning. -/
  config : Config
  /-- How windows are partitioned. -/
  strategy : Strategy
  /-- The number of steps taken so far, a failed one included. -/
  steps : Nat
  /-- Whether a step has failed, after which the machine cannot go on. -/
  poisoned : Bool
  deriving DecidableEq

namespace Machine

variable {α σ : Type}

/-- A machine about to sort the positions from `start` to `stop`. -/
def initial (source : σ) (data : Array α) (start stop : Nat) : Machine α σ where
  data
  stack := [.fresh start stop .main]
  source
  config := {}
  strategy := .placement
  steps := 0
  poisoned := false

/-- A machine about to sort a whole sequence. -/
def ofArray (source : σ) (data : Array α) : Machine α σ :=
  initial source data 0 data.size

/-- A machine about to sort the positions from `start` to `stop`, which have to be a window of the
sequence. -/
def ofWindow? (source : σ) (data : Array α) (start stop : Nat) :
    Except SortError (Machine α σ) :=
  if start ≤ stop ∧ stop ≤ data.size then .ok (initial source data start stop)
  else .error (.invalidRange start stop data.size)

/-- The machine with randomness from another source. -/
def withSource (m : Machine α σ) (source : σ) : Machine α σ :=
  { m with source }

/-- The machine with another configuration, which must not have a flaw. -/
def withConfig? (m : Machine α σ) (config : Config) : Except SortError (Machine α σ) :=
  match config.flaw? with
  | some flaw => .error (.invalidConfig flaw)
  | none => .ok { m with config }

/-- The machine with another way of partitioning. -/
def withStrategy (m : Machine α σ) (strategy : Strategy) : Machine α σ :=
  { m with strategy }

/-- Whether all work is done. -/
def isDone (m : Machine α σ) : Bool :=
  m.stack.isEmpty

/-- What the next step will do. -/
def stage (m : Machine α σ) : Stage :=
  match m.stack with
  | [] => .done
  | frame :: _ => frame.stage

/-- The number of pending frames. -/
def depth (m : Machine α σ) : Nat :=
  m.stack.length

/-- The machine is done exactly if its stage says so. -/
theorem stage_eq_done_iff (m : Machine α σ) : m.stage = .done ↔ m.isDone := by
  unfold stage isDone
  cases m.stack with
  | nil => simp
  | cons frame below => simpa using frame.stage_ne_done

end Machine

end SampleSort
