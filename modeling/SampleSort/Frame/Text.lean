import SampleSort.Frame.Basic

set_option relaxedAutoImplicit false
set_option autoImplicit false

/-!
# The written form of frames

Stages and roles have names, and a frame is written as a record: the name of its type, then its
fields in braces, each as a name, a colon and a value.

## Main definitions

* `SampleSort.Stage.name`, `SampleSort.Role.name` — the names.
* `SampleSort.Histogram.text`, `SampleSort.Frame.text` — a histogram as the list of its counts, and
  a frame as a record.
-/

namespace SampleSort

variable {α : Type}

/-- The name of a stage in reports. -/
def Stage.name : Stage → String
  | .simpleCases => "simple-cases"
  | .baseCase => "base-case"
  | .sampling => "sampling"
  | .classification => "classification"
  | .partitioning => "partitioning"
  | .recursion => "recursion"
  | .done => "done"

/-- The name of a stage inside records. -/
def Stage.recordName : Stage → String
  | .simpleCases => "SimpleCases"
  | .baseCase => "BaseCase"
  | .sampling => "Sampling"
  | .classification => "Classification"
  | .partitioning => "Partitioning"
  | .recursion => "Recursion"
  | .done => "Done"

/-- The name of a role. -/
def Role.name : Role → String
  | .main => "MainSort"
  | .sample => "SampleSort"

/-- A list of numbers in brackets. -/
def numbersText (l : List Nat) : String :=
  "[" ++ ", ".intercalate (l.map toString) ++ "]"

/-- A record: its name, then its fields in braces. -/
def recordText (name : String) (fields : List (String × String)) : String :=
  name ++ " \x7b " ++ ", ".intercalate (fields.map fun field => field.1 ++ ": " ++ field.2) ++
    " \x7d"

/-- A histogram is written as the list of the counts in use. -/
def Histogram.text (h : Histogram) : String :=
  numbersText h.toList

/-- A plan is written as a record. -/
def SamplingPlan.text (plan : SamplingPlan) : String :=
  recordText "SamplingParams" [
    ("log_buckets", toString plan.logBuckets),
    ("num_buckets", toString plan.buckets),
    ("step", toString plan.stride),
    ("num_samples", toString plan.samples)]

/-- A frame is written as a record, in which the splitters are only counted and the labels are left
out. -/
def Frame.text (f : Frame α) : String :=
  recordText "Frame" [
    ("range", toString f.start ++ ".." ++ toString f.stop),
    ("kind", f.role.name),
    ("state", f.stage.recordName),
    ("params",
      match f.phase.plan? with
      | none => "None"
      | some plan => "Some(" ++ plan.text ++ ")"),
    ("splitters", toString f.phase.splitters.length),
    ("counts", f.phase.counts.text),
    ("bucket_starts", numbersText f.phase.starts)]

end SampleSort
