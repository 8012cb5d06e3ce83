import Mathlib.Control.Monad.Basic
import SampleSort.Bucket.Labelling
import SampleSort.Partition.Strategy
import SampleSort.Proofs.Keys.Small

set_option relaxedAutoImplicit false
set_option autoImplicit false

/-!
# Buckets, element by element

Labelling a window and bringing its buckets together commute with taking keys. A placement reads
nothing but labels; a separation asks for elements by their keys.

## Main definitions

* `SampleSort.Placement.map`, `SampleSort.Partitioned.map` — the same with keys for elements.

## Main results

* `SampleSort.labelWindow_map` — elements have the labels of their keys.
* `SampleSort.placeByLabels_map` — elements are placed as their keys are.
* `SampleSort.cutBySplitters_map` — so they are separated.
* `SampleSort.Strategy.partition_map` — partitioning and taking keys commute.
-/

namespace SampleSort

variable {α β : Type} {less : β → β → Bool} {key : α → β}

/-! ### Labels -/

/-- An element is in the bucket of its key. -/
@[simp] lemma bucketOf_map (splitters : List α) (x : α) :
    bucketOf less (splitters.map key) (key x) = bucketOf (byKey less key) splitters x := by
  unfold bucketOf
  rw [List.length_map]
  congr 1
  funext i
  rw [List.getElem?_map]
  cases splitters[i]? <;> rfl

/-- Elements have the labels of their keys. -/
@[simp] lemma labelWindow_map (splitters : List α) (counts : Histogram) (v : List α) :
    labelWindow less (splitters.map key) counts (v.map key) =
      labelWindow (byKey less key) splitters counts v := by
  simp [labelWindow, List.mapM_map, Function.comp_def]

/-! ### Separation -/

namespace Queue

/-- The same queue with keys for elements. -/
def map (key : α → β) (q : Queue α) : Queue β :=
  ⟨q.front.map key, q.back.map key⟩

@[simp] lemma map_empty : (empty : Queue α).map key = empty := rfl

/-- Taking keys does not depend on how the queue is held. -/
@[simp] lemma toList_map (q : Queue α) : (q.map key).toList = q.toList.map key := by
  simp [toList, map]

/-- Keys are queued as elements are. -/
@[simp] lemma push_map (q : Queue α) (x : α) : (q.map key).push (key x) = (q.push x).map key :=
  rfl

/-- Keys are turned as elements are. -/
@[simp] lemma turn_map (q : Queue α) : (q.map key).turn = q.turn.map key := by
  obtain ⟨front, back⟩ := q
  cases front with
  | cons x front => rfl
  | nil =>
    simp only [map, turn, List.map_nil, ← List.map_reverse]
    cases back.reverse <;> rfl

end Queue

/-- Separating keys and elements behind those that wait. -/
lemma separateFrom_map (key : α → β) (test : β → Counted Bool) (waiting : Queue α)
    (v : List α) :
    separateFrom test (waiting.map key) (v.map key) =
      Prod.map (List.map key) (Queue.map key) <$>
        separateFrom (fun x => test (key x)) waiting v := by
  induction v generalizing waiting with
  | nil => rfl
  | cons x v ih =>
    simp only [List.map_cons, separateFrom, map_bind]
    congr 1
    funext passes
    cases passes <;> simp [ih]

/-- Separating and taking keys commute. -/
@[simp] lemma separate_map (test : β → Counted Bool) (v : List α) :
    separate test (v.map key) =
      Prod.map (List.map key) (List.map key) <$> separate (fun x => test (key x)) v := by
  have h := separateFrom_map key test .empty v
  rw [Queue.map_empty] at h
  simp [separate, h]

/-- Peeling and taking keys commute. -/
@[simp] lemma peelEqual_map (pivot : α) (v : List α) :
    peelEqual less (key pivot) (v.map key) =
      Prod.map (List.map key) (List.map key) <$> peelEqual (byKey less key) pivot v := by
  simp [peelEqual]

/-- Separating by one splitter after the other and taking keys commute. -/
@[simp] lemma cutBySplitters_map (splitters v : List α) :
    cutBySplitters less (splitters.map key) (v.map key) =
      List.map (List.map key) <$> cutBySplitters (byKey less key) splitters v := by
  induction splitters generalizing v with
  | nil => rfl
  | cons s splitters ih => simp [cutBySplitters, ih]

/-! ### Placement -/

namespace Placement

/-- The same placement with keys for elements. -/
def map (key : α → β) (p : Placement α) : Placement β where
  slots := p.slots.map (Prod.map id key)
  heads := p.heads
  moves := p.moves

/-- The outcome of placing, with keys for elements. -/
def mapOutcome (key : α → β) :
    Except (Placement α) (Placement α) → Except (Placement β) (Placement β)
  | .ok p => .ok (p.map key)
  | .error p => .error (p.map key)

/-- A key is moved as its element is. -/
@[simp] lemma move?_map (p : Placement α) (b : Fin maxBuckets) :
    (p.map key).move? b = (p.move? b).map (map key) := by
  unfold move?
  by_cases hposition : p.heads[b.val] < p.slots.size
  · by_cases htarget : bucketOfLabel p.slots[p.heads[b.val]].1 = b
    · simp [map, hposition, htarget]
    · by_cases hdestination :
          p.heads[(bucketOfLabel p.slots[p.heads[b.val]].1).val] < p.slots.size
      · simp [map, hposition, htarget, hdestination, Array.swap_def, Array.map_set]
      · simp [map, hposition, htarget, hdestination]
  · simp [map, hposition]

/-- A bucket is filled with keys as it is with elements. -/
@[simp] lemma fill_map (b : Fin maxBuckets) (stop : Nat) (p : Placement α) :
    (p.map key).fill b stop = mapOutcome key (p.fill b stop) := by
  fun_induction fill b stop p with
  | case1 p hlt q hmove ih =>
    have hlt' : (p.map key).heads[b] < stop := hlt
    rw [fill, if_pos hlt']
    have hmove' : (p.map key).move? b = some (q.map key) := by rw [move?_map, hmove]; rfl
    split
    · next q' hq' =>
      obtain rfl := Option.some.inj (hmove'.symm.trans hq')
      exact ih
    · next hnone => simp [hmove'] at hnone
  | case2 p hlt hmove =>
    have hlt' : (p.map key).heads[b] < stop := hlt
    rw [fill, if_pos hlt']
    have hmove' : (p.map key).move? b = none := by rw [move?_map, hmove]; rfl
    split
    · next q' hq' => simp [hmove'] at hq'
    · rfl
  | case3 p hend =>
    have hend' : ¬(p.map key).heads[b] < stop := hend
    rw [fill, if_neg hend']
    rfl

/-- So are several buckets. -/
lemma foldlM_fill_map (key : α → β) (windows : List (Fin maxBuckets × Nat)) (p : Placement α) :
    windows.foldlM (fun p w => p.fill w.1 w.2) (p.map key) =
      mapOutcome key (windows.foldlM (fun p w => p.fill w.1 w.2) p) := by
  induction windows generalizing p with
  | nil => rfl
  | cons w windows ih =>
    rw [List.foldlM_cons, List.foldlM_cons, fill_map]
    cases p.fill w.1 w.2 with
    | error q => rfl
    | ok q => exact ih q

end Placement

/-- Elements are placed as their keys are. -/
@[simp] lemma placeByLabels_map (counts : List Nat) (labels : List UInt8) (v : List α) :
    placeByLabels counts labels (v.map key) =
      Placement.mapOutcome key (placeByLabels counts labels v) := by
  have hstart : Placement.start counts labels (v.map key) =
      (Placement.start counts labels v).map key := by
    simp [Placement.start, Placement.map, List.zip_map_right]
  rw [placeByLabels, placeByLabels, hstart, Placement.foldlM_fill_map]

/-! ### Partitioning -/

/-- The same partitioned window with keys for elements. -/
def Partitioned.map (key : α → β) (p : Partitioned α) : Partitioned β :=
  { p with window := p.window.map key }

/-- Partitioning and taking keys commute. -/
lemma Strategy.partition_map (strategy : Strategy) (splitters : List α) (counts : List Nat)
    (labels : List UInt8) (v : List α) :
    strategy.partition less (splitters.map key) counts labels (v.map key) =
      Functor.map (Partitioned.map key) <$>
        strategy.partition (byKey less key) splitters counts labels v := by
  cases strategy with
  | placement =>
    simp only [partition, placeByLabels_map, List.length_map, map_pure]
    congr 1
    split
    · rfl
    · split
      · rfl
      · cases placeByLabels counts labels v with
        | error p => rfl
        | ok p => simp [Placement.mapOutcome, Placement.map, Partitioned.map]
  | sequential =>
    simp [partition, Partitioned.map, Function.comp_def, List.map_flatten]

end SampleSort
