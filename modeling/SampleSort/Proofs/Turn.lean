import SampleSort.Proofs.Sampling
import SampleSort.Proofs.Settling
import SampleSort.Proofs.Splitters

set_option relaxedAutoImplicit false
set_option autoImplicit false

/-!
# What a turn does

Each phase of the work on a window holds what the earlier ones have established about it. A turn
that finds this to be so succeeds, permutes the window, and establishes what the next phase needs,
whatever the draws, the configuration and the strategy.

## Main definitions

* `SampleSort.Splits` — splitters that were chosen for a window.
* `SampleSort.Phase.Holds` — what a phase knows about its window.
* `SampleSort.Phase.order` — the place of a phase among the others.
* `SampleSort.Transition.Sound` — what is known when a transition is made.

## Main results

* `SampleSort.Phase.exists_work` — a turn succeeds and is sound.
* `SampleSort.Phase.exists_turn` — the same, where memory may run out.
-/

namespace SampleSort

variable {α σ : Type} {less : α → α → Bool} {splitters v w : List α} {plan : SamplingPlan}
  {counts : Histogram} {labels : List UInt8} {starts : List Nat}

/-- The splitters were chosen for the window `v` by the plan. -/
structure Splits (less : α → α → Bool) (plan : SamplingPlan) (splitters v : List α) : Prop where
  /-- The plan is one for the window. -/
  fits : plan.Fits v.length
  /-- Splitters strictly ascend. -/
  ascending : splitters.Pairwise fun s t => less s t = true
  /-- There is at least one. -/
  ne_nil : splitters ≠ []
  /-- There are fewer than the buckets aimed at. -/
  length_lt : splitters.length < plan.buckets
  /-- They are elements of the window. -/
  mem : ∀ s ∈ splitters, s ∈ v

namespace Splits

/-- Splitters of a window are splitters of every permutation of it. -/
lemma perm (h : Splits less plan splitters v) (hw : w.Perm v) : Splits less plan splitters w where
  fits := by
    rw [hw.length_eq]
    exact h.fits
  ascending := h.ascending
  ne_nil := h.ne_nil
  length_lt := h.length_lt
  mem := fun s hs => hw.mem_iff.2 (h.mem s hs)

/-- The bucket tables hold the buckets. -/
lemma length_succ_le (h : Splits less plan splitters v) : splitters.length + 1 ≤ maxBuckets :=
  Nat.le_trans h.length_lt h.fits.buckets_le

/-- Splitters do not descend. -/
lemma notGreater (hless : StrictWeak less) (h : Splits less plan splitters v) :
    splitters.Pairwise fun s t => less t s = false :=
  notGreater_of_ascending hless h.ascending

end Splits

/-- A plan that fits yields fewer splitters than buckets. -/
lemma length_chooseSplitters_lt (less : α → α → Bool) {n : Nat} (h : plan.Fits n)
    (sample : List α) :
    (chooseSplitters less plan.stride (plan.buckets - 1) sample).value.length < plan.buckets := by
  have htwo := h.two_le_buckets
  have hlimit : 1 ≤ plan.buckets - 1 := by omega
  have := length_chooseSplitters_le less plan.stride hlimit sample
  omega

/-- The splitters of a sample, sorted or not, are splitters of the window it was drawn from. -/
lemma splits_chooseSplitters (hless : StrictWeak less) {sample : List α} (h : plan.Fits v.length)
    (hsample : slice? v 0 plan.samples = .ok sample) :
    Splits less plan (chooseSplitters less plan.stride (plan.buckets - 1) sample).value v := by
  have hlength := length_of_slice?_eq_ok hsample
  have hne : sample ≠ [] := by
    have := h.samples_pos
    rw [← List.length_pos_iff]
    omega
  have hsubset : ∀ s ∈ sample, s ∈ v := by
    obtain ⟨_, rfl⟩ := slice?_eq_ok_iff.1 hsample
    exact fun s hs => window_subset v 0 plan.samples hs
  refine ⟨h, chooseSplitters_ascending hless _ _ _, chooseSplitters_ne_nil _ _ _ hne,
    length_chooseSplitters_lt less h sample, ?_⟩
  intro s hs
  exact hsubset s ((chooseSplitters_sublist less _ _ sample).subset hs)

namespace Phase

/-- What a phase knows about its window `v`. -/
def Holds (less : α → α → Bool) (v : List α) : Phase α → Prop
  | simpleCases => True
  | baseCase => True
  | sampling => 2 ≤ v.length
  | awaiting plan => plan.Fits v.length
  | classification plan splitters counts =>
    Splits less plan splitters v ∧ counts.toList = List.replicate (splitters.length + 1) 0
  | partitioning plan splitters counts labels =>
    Splits less plan splitters v ∧ labels.map UInt8.toNat = v.map (rank less splitters) ∧
      counts.toList = tally (splitters.length + 1) (v.map (rank less splitters))
  | recursion plan splitters counts starts =>
    Splits less plan splitters v ∧
      counts.toList = tally (splitters.length + 1) (v.map (rank less splitters)) ∧
      starts = offsets counts.toList ∧ ∃ buckets, Bucketed less splitters v buckets

/-- The place of a phase among the others. -/
def order : Phase α → Nat
  | simpleCases => 0
  | baseCase => 1
  | sampling => 2
  | awaiting _ => 3
  | classification .. => 4
  | partitioning .. => 5
  | recursion .. => 6

/-- Until the sample is sorted, nothing but the length of the window matters. -/
lemma Holds.of_length_eq {phase : Phase α} (h : phase.Holds less v) (hw : w.length = v.length)
    (horder : phase.order ≤ 3) : phase.Holds less w := by
  cases phase with
  | simpleCases => trivial
  | baseCase => trivial
  | sampling =>
    show 2 ≤ w.length
    rw [hw]
    exact h
  | awaiting plan =>
    show plan.Fits w.length
    rw [hw]
    exact h
  | classification => simp [order] at horder
  | partitioning => simp [order] at horder
  | recursion => simp [order] at horder

end Phase

/-- What is known when a transition is made from a phase on a window that was `v` and is `w`
now. -/
inductive Transition.Sound (less : α → α → Bool) (threshold : Nat) (memory : Memory)
    (phase : Phase α) (v w : List α) : Transition α → Prop where
  /-- The next phase knows what it needs. It does not wait for a sample. -/
  | advance {phase' : Phase α} (order : phase'.order = phase.order + 1) (ready : phase'.order ≠ 3)
      (holds : phase'.Holds less w) : Sound less threshold memory phase v w (.advance phase')
  /-- The window is sorted. -/
  | resolve (sorted : Sorted less w) : Sound less threshold memory phase v w .resolve
  /-- The plan is one for the window. -/
  | descend {plan : SamplingPlan} (sampling : phase = .sampling) (fits : plan.Fits v.length) :
      Sound less threshold memory phase v w (.descend plan)
  /-- The window is in order except inside windows that are long, but shorter than it. -/
  | split {windows : List (Nat × Nat)} (order : phase.order = 6)
      (sortedBut : SortedBut less w 0 w.length windows)
      (lengths : ∀ u ∈ windows, threshold < u.2 - u.1 ∧ u.2 - u.1 < v.length) :
      Sound less threshold memory phase v w (.split windows)
  /-- There was no memory, and nothing has happened. -/
  | refuse {what : Bookkeeping} (exhausted : memory = .exhausted) (same : w = v) :
      Sound less threshold memory phase v w (.refuse what)

section Turns

variable [IndexSource σ] {config : Config} {strategy : Strategy} {memory : Memory} {source : σ}

/-- A turn succeeds, permutes the window and makes a sound transition. -/
def SoundTurn (less : α → α → Bool) (config : Config) (memory : Memory) (phase : Phase α)
    (v : List α) (outcome : Except Fault (Turn α σ)) : Prop :=
  ∃ t, outcome = .ok t ∧ t.window.Perm v ∧
    t.transition.Sound less config.threshold memory phase v t.window

namespace Phase

/-! ### What every turn does -/

/-- With memory, a turn is the work of its phase. -/
lemma turn_available (phase : Phase α) :
    phase.turn less config strategy .available source v =
      phase.work less config strategy source v := by
  unfold turn
  split
  · contradiction
  · rfl

/-- A window that is not found unsorted is put in order. -/
lemma work_simpleCases_resolve_eq (h : (Shape.detect less v).value ≠ .unsorted) :
    work less config strategy source v .simpleCases =
      .ok ⟨(Shape.detect less v).value.arrange v, source, .resolve⟩ := by
  rw [work]
  split
  · next hunsorted => exact absurd hunsorted h
  · rfl

/-- An unsorted window is looked at again. -/
lemma work_simpleCases_eq (h : (Shape.detect less v).value = .unsorted) :
    work less config strategy source v .simpleCases = .ok ⟨v, source, .advance .baseCase⟩ := by
  rw [work, h]
  rfl

/-- A short window is sorted directly. -/
lemma work_baseCase_resolve_eq (h : v.length ≤ config.threshold) :
    work less config strategy source v .baseCase =
      .ok ⟨(insertionSort less v).value, source, .resolve⟩ := by
  rw [work, if_pos h]
  rfl

/-- A long window is to be sampled. -/
lemma work_baseCase_eq (h : ¬v.length ≤ config.threshold) :
    work less config strategy source v .baseCase = .ok ⟨v, source, .advance .sampling⟩ := by
  rw [work, if_neg h]
  rfl

/-- A sample is drawn. -/
lemma work_sampling_eq {source' : σ} (hplan : config.samplingPlan v.length = .ok plan)
    (hdraw : drawSample plan.samples v source = .ok (w, source')) :
    work less config strategy source v .sampling = .ok ⟨w, source', .descend plan⟩ := by
  rw [work, hplan]
  show (drawSample plan.samples v source >>= _) = _
  rw [hdraw]
  rfl

/-- Splitters are chosen. -/
lemma work_awaiting_eq {sample : List α} (hsample : slice? v 0 plan.samples = .ok sample)
    (hsplitters : splitters =
      (chooseSplitters less plan.stride (plan.buckets - 1) sample).value)
    (hcounts : Histogram.empty.reset (splitters.length + 1) = .ok counts) :
    work less config strategy source v (.awaiting plan) =
      .ok ⟨v, source, .advance (.classification plan splitters counts)⟩ := by
  subst hsplitters
  rw [work, hsample]
  simp only [bind, Except.bind, hcounts]
  rfl

/-- Elements are labelled. -/
lemma work_classification_eq {labelling : Labelling}
    (h : (labelWindow less splitters counts v).value = .ok labelling) :
    work less config strategy source v (.classification plan splitters counts) =
      .ok ⟨v, source,
        .advance (.partitioning plan splitters labelling.counts labelling.labels)⟩ := by
  rw [work, h]
  rfl

/-- The window is partitioned. -/
lemma work_partitioning_eq {partitioned : Partitioned α}
    (h : (strategy.partition less splitters counts.toList labels v).value = .ok partitioned) :
    work less config strategy source v (.partitioning plan splitters counts labels) =
      .ok ⟨partitioned.window, source,
        .advance (.recursion plan splitters counts partitioned.starts)⟩ := by
  rw [work, h]
  rfl

/-- Buckets are settled. -/
lemma work_recursion_eq {settled : List (Settled α)}
    (h : settleBuckets less config.threshold splitters v 0 (starts.zip starts.tail) =
      .ok settled) :
    work less config strategy source v (.recursion plan splitters counts starts) =
      .ok ⟨(settled.map Settled.elements).flatten, source,
        .split (settled.filterMap Settled.pending)⟩ := by
  rw [work, h]
  rfl

/-! ### All turns are sound -/

/-- A window at the first glance. -/
lemma work_simpleCases (hless : StrictWeak less) :
    SoundTurn less config memory (.simpleCases : Phase α) v
      (work less config strategy source v .simpleCases) := by
  by_cases h : (Shape.detect less v).value = .unsorted
  · exact ⟨_, work_simpleCases_eq h, .refl v, .advance rfl (by simp [order]) trivial⟩
  · exact ⟨_, work_simpleCases_resolve_eq h, Shape.arrange_perm _ v,
      .resolve (Shape.sorted_arrange hless h)⟩

/-- A window that is sorted directly, or is too long for that. -/
lemma work_baseCase (hless : StrictWeak less) (hc : config.Valid) :
    SoundTurn less config memory (.baseCase : Phase α) v
      (work less config strategy source v .baseCase) := by
  by_cases h : v.length ≤ config.threshold
  · exact ⟨_, work_baseCase_resolve_eq h, insertionSort_perm less v,
      .resolve (insertionSort_sorted hless v)⟩
  · have hpos := Config.threshold_pos hc
    have htwo : 2 ≤ v.length := by omega
    exact ⟨_, work_baseCase_eq h, .refl v, .advance rfl (by simp [order]) htwo⟩

/-- A window that a sample is drawn from. -/
lemma work_sampling (hc : config.Valid) (h : 2 ≤ v.length) :
    SoundTurn less config memory (.sampling : Phase α) v
      (work less config strategy source v .sampling) := by
  obtain ⟨plan, hplan, hfits⟩ := Config.exists_samplingPlan hc h
  obtain ⟨w, source', hdraw, hperm⟩ := exists_drawSample hfits.samples_le_self source
  exact ⟨_, work_sampling_eq hplan hdraw, hperm, .descend rfl hfits⟩

/-- A window whose sample has come to its front. Splitters are chosen from it whether or not it is
sorted. -/
lemma work_awaiting (hless : StrictWeak less) (h : plan.Fits v.length) :
    SoundTurn less config memory (.awaiting plan) v
      (work less config strategy source v (.awaiting plan)) := by
  have hsample := slice?_eq_window (Nat.zero_le plan.samples) h.samples_le_self
  have hsplits := splits_chooseSplitters hless h hsample
  obtain ⟨counts, hcounts, hzeros⟩ := Histogram.exists_reset_empty hsplits.length_succ_le
  exact ⟨_, work_awaiting_eq hsample rfl hcounts, .refl v,
    .advance rfl (by simp [order]) ⟨hsplits, hzeros⟩⟩

/-- A window that is labelled. -/
lemma work_classification (hless : StrictWeak less)
    (h : (classification plan splitters counts).Holds less v) :
    SoundTurn less config memory (.classification plan splitters counts) v
      (work less config strategy source v (.classification plan splitters counts)) := by
  obtain ⟨hsplits, hzeros⟩ := h
  obtain ⟨labelling, hlabelling, hlabels, hcounts⟩ :=
    exists_labelWindow hless (hsplits.notGreater hless) hzeros v
  exact ⟨_, work_classification_eq hlabelling, .refl v,
    .advance rfl (by simp [order]) ⟨hsplits, hlabels, hcounts⟩⟩

/-- A window that is partitioned. -/
lemma work_partitioning (hless : StrictWeak less)
    (h : (partitioning plan splitters counts labels).Holds less v) :
    SoundTurn less config memory (.partitioning plan splitters counts labels) v
      (work less config strategy source v (.partitioning plan splitters counts labels)) := by
  obtain ⟨hsplits, hlabels, hcounts⟩ := h
  obtain ⟨partitioned, buckets, hpartitioned, hperm, hbucketed, hstarts⟩ :=
    strategy.exists_partition hless (hsplits.notGreater hless) hsplits.length_succ_le hlabels
      hcounts
  refine ⟨_, work_partitioning_eq hpartitioned, hperm, .advance rfl (by simp [order])
    ⟨hsplits.perm hperm, ?_, hstarts, buckets, hbucketed⟩⟩
  rw [hcounts, tally_perm _ (hperm.map _)]

/-- A window whose buckets are settled. -/
lemma work_recursion (hless : StrictWeak less)
    (h : (recursion plan splitters counts starts).Holds less v) :
    SoundTurn less config memory (.recursion plan splitters counts starts) v
      (work less config strategy source v (.recursion plan splitters counts starts)) := by
  obtain ⟨hsplits, hcounts, hstarts, buckets, hbucketed⟩ := h
  rw [hcounts, ← hbucketed.sizes] at hstarts
  obtain ⟨settled, hsettled, hperm, hsorted, hlengths⟩ :=
    hbucketed.exists_settleBuckets hless (hsplits.notGreater hless) hsplits.ne_nil hsplits.mem
      config.threshold hstarts
  rw [← hperm.length_eq] at hsorted
  exact ⟨_, work_recursion_eq hsettled, hperm, .split rfl hsorted hlengths⟩

/-- A turn on a window of which its phase knows what it needs is sound. -/
theorem exists_work (hless : StrictWeak less) (hc : config.Valid) {phase : Phase α}
    (h : phase.Holds less v) :
    SoundTurn less config memory phase v (phase.work less config strategy source v) := by
  cases phase with
  | simpleCases => exact work_simpleCases hless
  | baseCase => exact work_baseCase hless hc
  | sampling => exact work_sampling hc h
  | awaiting plan => exact work_awaiting hless h
  | classification => exact work_classification hless h
  | partitioning => exact work_partitioning hless h
  | recursion => exact work_recursion hless h

/-- So is one where memory may run out. -/
theorem exists_turn (hless : StrictWeak less) (hc : config.Valid) {phase : Phase α}
    (h : phase.Holds less v) (strategy : Strategy) (memory : Memory) (source : σ) :
    SoundTurn less config memory phase v
      (phase.turn less config strategy memory source v) := by
  unfold turn
  split
  · exact ⟨_, rfl, .refl v, .refuse rfl rfl⟩
  · exact exists_work hless hc h

end Phase

end Turns

end SampleSort
