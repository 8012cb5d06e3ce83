import SampleSort.Fault
import SampleSort.Counted
import SampleSort.Window
import SampleSort.Config
import SampleSort.Random.Source
import SampleSort.Random.ChaCha
import SampleSort.Random.Cycle
import SampleSort.Sample
import SampleSort.Small.Shape
import SampleSort.Small.Insertion
import SampleSort.Splitter.Choice
import SampleSort.Splitter.Search
import SampleSort.Bucket.Histogram
import SampleSort.Bucket.Labelling
import SampleSort.Partition.Separation
import SampleSort.Partition.Sequential
import SampleSort.Partition.Placement
import SampleSort.Partition.Strategy
import SampleSort.Error
import SampleSort.Frame.Basic
import SampleSort.Frame.Text
import SampleSort.Machine.Basic
import SampleSort.Machine.Turn
import SampleSort.Machine.Step
import SampleSort.Machine.Run
import SampleSort.Sort
import SampleSort.Proofs.Order
import SampleSort.Proofs.Rearranged
import SampleSort.Proofs.SortedBut
import SampleSort.Proofs.Shape
import SampleSort.Proofs.Small
import SampleSort.Proofs.Sampling
import SampleSort.Proofs.Splitters
import SampleSort.Proofs.Rank
import SampleSort.Proofs.Buckets
import SampleSort.Proofs.Placement
import SampleSort.Proofs.Partition
import SampleSort.Proofs.Settling
import SampleSort.Proofs.Turn
import SampleSort.Proofs.Stack
import SampleSort.Proofs.Driving
import SampleSort.Proofs.Invariant
import SampleSort.Proofs.Fields
import SampleSort.Proofs.Termination
import SampleSort.Proofs.Correctness
import SampleSort.Proofs.Recursion
import SampleSort.Proofs.Simulation
import SampleSort.Proofs.Transition
import SampleSort.Proofs.Nesting
import SampleSort.Proofs.Finality
import SampleSort.Proofs.Discipline
import SampleSort.Proofs.Depth
import SampleSort.Proofs.Conservation
import SampleSort.Proofs.Ledger.Entry
import SampleSort.Proofs.Ledger.Handlers
import SampleSort.Proofs.Ledger.Step
import SampleSort.Proofs.Refusal
import SampleSort.Proofs.Suspension
import SampleSort.Proofs.Keys.Small
import SampleSort.Proofs.Keys.Buckets
import SampleSort.Proofs.Keys.Turn
import SampleSort.Proofs.Keys.Lockstep
import SampleSort.Proofs.Checked.Word
import SampleSort.Proofs.Checked.Small
import SampleSort.Proofs.Checked.Sampling
import SampleSort.Proofs.Checked.Buckets
import SampleSort.Proofs.Agreement
import SampleSort.Proofs.Placed
import SampleSort.Proofs.Passes
import SampleSort.Proofs.Checked.Settling
import SampleSort.Proofs.Checked.Step
import SampleSort.Proofs.Safety
import SampleSort.Proofs.Translation
import SampleSort.Proofs.Classes
import SampleSort.Proofs.Stability
import SampleSort.Proofs.Progress
import SampleSort.Proofs.StepCount
import SampleSort.Proofs.Spacing
import SampleSort.Proofs.EvenSpacing
import SampleSort.Proofs.Fairness
import SampleSort.Proofs.Paths
import SampleSort.Proofs.Labels
import SampleSort.Proofs.Planning
import SampleSort.Proofs.Pieces
import SampleSort.Proofs.Peeling
import SampleSort.Proofs.AnyLabels
import SampleSort.Proofs.Recounting
import SampleSort.Proofs.Reservation
