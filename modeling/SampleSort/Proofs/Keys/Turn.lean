import SampleSort.Machine.Turn
import SampleSort.Proofs.Keys.Buckets

set_option relaxedAutoImplicit false
set_option autoImplicit false

/-!
# Turns, element by element

What a turn makes of a window is what it makes of its keys, whatever the phase: the transition is
the same, and the splitters that a phase holds are the keys of the splitters.

## Main definitions

* `SampleSort.Phase.map`, `SampleSort.Transition.map`, `SampleSort.Turn.map`,
  `SampleSort.Settled.map` — the same with keys for elements.

## Main results

* `SampleSort.settleBuckets_map` — settling buckets and taking keys commute.
* `SampleSort.Phase.work_map`, `SampleSort.Phase.turn_map` — so do a turn and taking keys.
-/

namespace SampleSort

variable {α β σ : Type} {less : β → β → Bool} {key : α → β}

/-! ### The same with keys for elements -/

/-- The same outcome of the work on a bucket with keys for elements. -/
def Settled.map (key : α → β) (s : Settled α) : Settled β :=
  { s with elements := s.elements.map key }

/-- The same phase with keys for splitters. -/
def Phase.map (key : α → β) : Phase α → Phase β
  | simpleCases => simpleCases
  | baseCase => baseCase
  | sampling => sampling
  | awaiting plan => awaiting plan
  | classification plan splitters counts => classification plan (splitters.map key) counts
  | partitioning plan splitters counts labels =>
    partitioning plan (splitters.map key) counts labels
  | recursion plan splitters counts starts => recursion plan (splitters.map key) counts starts

/-- The same transition with keys for splitters. -/
def Transition.map (key : α → β) : Transition α → Transition β
  | advance phase => advance (phase.map key)
  | resolve => resolve
  | descend plan => descend plan
  | split windows => split windows
  | refuse what => refuse what

/-- The same turn with keys for elements. -/
def Turn.map (key : α → β) (t : Turn α σ) : Turn β σ where
  window := t.window.map key
  source := t.source
  transition := t.transition.map key

/-! ### Settling buckets -/

/-- The keys of a slice are a slice of the keys. -/
@[simp] lemma slice?_map (v : List α) (start stop : Nat) :
    slice? (v.map key) start stop = List.map key <$> slice? v start stop := by
  unfold slice?
  rw [List.length_map]
  split <;> simp

/-- A bucket is peeled as its keys are. -/
@[simp] lemma peelBucket_map (splitters : List α) (whole b : Nat) (bucket : List α) :
    peelBucket less (splitters.map key) whole b (bucket.map key) =
      Prod.map (List.map key) (List.map key) <$>
        peelBucket (byKey less key) splitters whole b bucket := by
  unfold peelBucket
  rw [List.length_map, List.getElem?_map]
  split
  · cases splitters[b - 1]? with
    | none => rfl
    | some pivot => simp
  · rfl

/-- A bucket is settled as its keys are. -/
@[simp] lemma settleBucket_map (threshold : Nat) (splitters v : List α) (b start stop : Nat) :
    settleBucket less threshold (splitters.map key) (v.map key) b start stop =
      Settled.map key <$> settleBucket (byKey less key) threshold splitters v b start stop := by
  simp only [settleBucket, slice?_map, bind_map_left, List.length_map, peelBucket_map, map_bind]
  congr 1
  funext bucket
  congr 1
  funext parts
  obtain ⟨equal, rest⟩ := parts
  simp only [Prod.map_apply, List.length_map, map_pure]
  split <;> simp [Settled.map]

/-- Settling buckets and taking keys commute. -/
@[simp] lemma settleBuckets_map (threshold : Nat) (splitters v : List α) (b : Nat)
    (bounds : List (Nat × Nat)) :
    settleBuckets less threshold (splitters.map key) (v.map key) b bounds =
      List.map (Settled.map key) <$>
        settleBuckets (byKey less key) threshold splitters v b bounds := by
  induction bounds generalizing b with
  | nil => rfl
  | cons bound bounds ih => simp [settleBuckets, ih]

/-! ### Turns -/

namespace Phase

/-- A phase reserves the same whether it holds splitters or their keys. -/
@[simp] lemma reservation?_map (phase : Phase α) :
    (phase.map key).reservation? = phase.reservation? := by
  cases phase <;> rfl

variable [IndexSource σ]

/-- The work of a phase and taking keys commute. -/
theorem work_map (config : Config) (strategy : Strategy) (source : σ) (v : List α)
    (phase : Phase α) :
    (phase.map key).work less config strategy source (v.map key) =
      Turn.map key <$> phase.work (byKey less key) config strategy source v := by
  cases phase with
  | simpleCases =>
    simp only [Phase.map, work, Shape.detect_map]
    split <;> simp [Turn.map, Transition.map, Phase.map, *]
  | baseCase =>
    simp only [Phase.map, work, List.length_map]
    split <;> simp [Turn.map, Transition.map, Phase.map]
  | sampling =>
    simp [Phase.map, work, drawSample_map, Turn.map, Transition.map]
  | awaiting plan =>
    simp [Phase.map, work, Turn.map, Transition.map]
  | classification plan splitters counts =>
    simp [Phase.map, work, Turn.map, Transition.map]
  | partitioning plan splitters counts labels =>
    simp [Phase.map, work, Strategy.partition_map, Partitioned.map, Turn.map, Transition.map]
  | recursion plan splitters counts starts =>
    simp [Phase.map, work, Settled.map, Turn.map, Transition.map, List.filterMap_map,
      List.map_flatten, Function.comp_def]

/-- So do a turn and taking keys, whether there is memory or not. -/
theorem turn_map (config : Config) (strategy : Strategy) (memory : Memory) (source : σ)
    (v : List α) (phase : Phase α) :
    (phase.map key).turn less config strategy memory source (v.map key) =
      Turn.map key <$> phase.turn (byKey less key) config strategy memory source v := by
  unfold turn
  rw [reservation?_map]
  split
  · rfl
  · exact work_map config strategy source v phase

end Phase

end SampleSort
