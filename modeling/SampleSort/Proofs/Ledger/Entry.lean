import Mathlib.Tactic.Lemma
import SampleSort.Error
import SampleSort.Frame.Basic

set_option relaxedAutoImplicit false
set_option autoImplicit false

/-!
# Frames as they are kept

A frame can be kept as an entry of independent fields, with a table for everything that will be
found out about its window. Nothing in the type of an entry says which of the tables are still
empty at its stage. That they are is what makes an entry tidy, and the tidy entries are those of the
frames whose phases hold just what there is to know.

## Main definitions

* `SampleSort.Entry` — a frame whose fields stand each for itself.
* `SampleSort.Frame.entry` — the entry of a frame.
* `SampleSort.Entry.Tidy` — the fields hold what they should at the entry's stage.
* `SampleSort.Entry.Reserves` — what the next step of an entry reserves memory for.

## Main results

* `SampleSort.Frame.entry_injective` — an entry tells everything about its frame.
* `SampleSort.Entry.tidy_iff` — the tidy entries are those of frames.
-/

namespace SampleSort

variable {α : Type}

/-- A frame whose fields stand each for itself. -/
structure Entry (α : Type) where
  /-- The position of the window's first element. -/
  start : Nat
  /-- The position after its last element. -/
  stop : Nat
  /-- What the window is sorted for. -/
  role : Role
  /-- What the next step will do. -/
  stage : Stage
  /-- The sampling plan, once there is one. -/
  plan? : Option SamplingPlan
  /-- The splitters. -/
  splitters : List α
  /-- The bucket sizes. -/
  counts : Histogram
  /-- The labels of the elements. -/
  labels : List UInt8
  /-- Where the buckets begin, and where the last one ends. -/
  starts : List Nat
  deriving DecidableEq

namespace Entry

/-- A window that nothing is known about. -/
def fresh (start stop : Nat) (role : Role) : Entry α where
  start
  stop
  role
  stage := .simpleCases
  plan? := none
  splitters := []
  counts := .empty
  labels := []
  starts := []

/-- The number of elements in the window. -/
def length (e : Entry α) : Nat :=
  e.stop - e.start

/-- The fields of an entry hold what they should at its stage: those that have not been filled yet
are empty, and so are the labels once they have been used. No entry is done. -/
def Tidy (e : Entry α) : Prop :=
  match e.stage with
  | .simpleCases | .baseCase =>
    e.plan? = none ∧ e.splitters = [] ∧ e.counts = .empty ∧ e.labels = [] ∧ e.starts = []
  | .sampling => e.splitters = [] ∧ e.counts = .empty ∧ e.labels = [] ∧ e.starts = []
  | .classification => e.plan?.isSome ∧ e.labels = [] ∧ e.starts = []
  | .partitioning => e.plan?.isSome ∧ e.starts = []
  | .recursion => e.plan?.isSome ∧ e.labels = []
  | .done => False

/-- An entry that nothing is known about is tidy. -/
lemma tidy_fresh (start stop : Nat) (role : Role) : (fresh start stop role : Entry α).Tidy :=
  ⟨rfl, rfl, rfl, rfl, rfl⟩

/-- What the next step of an entry reserves memory for. -/
inductive Reserves (e : Entry α) : Bookkeeping → Prop where
  /-- Choosing splitters, when the sample that there is a plan for is sorted. -/
  | splitters (stage : e.stage = .sampling) (plan : e.plan? ≠ none) : Reserves e .splitters
  /-- Labelling the elements. -/
  | labels (stage : e.stage = .classification) : Reserves e .labels
  /-- Bringing the buckets together. -/
  | starts (stage : e.stage = .partitioning) : Reserves e .starts
  /-- Leaving long buckets pending. -/
  | frames (stage : e.stage = .recursion) : Reserves e .frames

/-- What the memory is for goes by these names. -/
lemma Reserves.mem_names {e : Entry α} {what : Bookkeeping} (h : e.Reserves what) :
    (e.stage, what.description) ∈
      [(.sampling, "splitters"), (.classification, "classification oracle"),
        (.partitioning, "bucket starts"), (.recursion, "bucket frames")] := by
  cases h with
  | splitters hstage hplan => simp [hstage, Bookkeeping.description]
  | labels hstage => simp [hstage, Bookkeeping.description]
  | starts hstage => simp [hstage, Bookkeeping.description]
  | frames hstage => simp [hstage, Bookkeeping.description]

end Entry

namespace Frame

/-- The entry of a frame. -/
def entry (f : Frame α) : Entry α where
  start := f.start
  stop := f.stop
  role := f.role
  stage := f.stage
  plan? := f.phase.plan?
  splitters := f.phase.splitters
  counts := f.phase.counts
  labels := f.phase.labels
  starts := f.phase.starts

/-- The entry of a frame that nothing is known about. -/
@[simp] lemma entry_fresh (start stop : Nat) (role : Role) :
    (fresh start stop role : Frame α).entry = .fresh start stop role :=
  rfl

/-- An entry tells everything about its frame. -/
theorem entry_injective : Function.Injective (entry : Frame α → Entry α) := by
  rintro ⟨start, stop, role, phase⟩ ⟨start', stop', role', phase'⟩ h
  cases phase <;> cases phase' <;>
    simp_all [entry, stage, Phase.stage, Phase.plan?, Phase.splitters, Phase.counts, Phase.labels,
      Phase.starts]

/-- A frame has a tidy entry. -/
lemma tidy_entry (f : Frame α) : f.entry.Tidy := by
  obtain ⟨start, stop, role, phase⟩ := f
  cases phase with
  | simpleCases => exact ⟨rfl, rfl, rfl, rfl, rfl⟩
  | baseCase => exact ⟨rfl, rfl, rfl, rfl, rfl⟩
  | sampling => exact ⟨rfl, rfl, rfl, rfl⟩
  | awaiting plan => exact ⟨rfl, rfl, rfl, rfl⟩
  | classification plan splitters counts => exact ⟨rfl, rfl, rfl⟩
  | partitioning plan splitters counts labels => exact ⟨rfl, rfl⟩
  | recursion plan splitters counts starts => exact ⟨rfl, rfl⟩

end Frame

namespace Entry

/-- The tidy entries are those of frames. -/
theorem tidy_iff {e : Entry α} : e.Tidy ↔ ∃ f : Frame α, f.entry = e := by
  refine ⟨fun h => ?_, ?_⟩
  · obtain ⟨start, stop, role, stage, plan?, splitters, counts, labels, starts⟩ := e
    cases stage with
    | simpleCases =>
      obtain ⟨rfl, rfl, rfl, rfl, rfl⟩ := h
      exact ⟨⟨start, stop, role, .simpleCases⟩, rfl⟩
    | baseCase =>
      obtain ⟨rfl, rfl, rfl, rfl, rfl⟩ := h
      exact ⟨⟨start, stop, role, .baseCase⟩, rfl⟩
    | sampling =>
      obtain ⟨rfl, rfl, rfl, rfl⟩ := h
      cases plan? with
      | none => exact ⟨⟨start, stop, role, .sampling⟩, rfl⟩
      | some plan => exact ⟨⟨start, stop, role, .awaiting plan⟩, rfl⟩
    | classification =>
      obtain ⟨hplan, rfl, rfl⟩ := h
      obtain ⟨plan, rfl⟩ := Option.isSome_iff_exists.1 hplan
      exact ⟨⟨start, stop, role, .classification plan splitters counts⟩, rfl⟩
    | partitioning =>
      obtain ⟨hplan, rfl⟩ := h
      obtain ⟨plan, rfl⟩ := Option.isSome_iff_exists.1 hplan
      exact ⟨⟨start, stop, role, .partitioning plan splitters counts labels⟩, rfl⟩
    | recursion =>
      obtain ⟨hplan, rfl⟩ := h
      obtain ⟨plan, rfl⟩ := Option.isSome_iff_exists.1 hplan
      exact ⟨⟨start, stop, role, .recursion plan splitters counts starts⟩, rfl⟩
    | done => exact h.elim
  · rintro ⟨f, rfl⟩
    exact f.tidy_entry

end Entry

end SampleSort
