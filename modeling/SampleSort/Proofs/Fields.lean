import SampleSort.Proofs.Invariant
import SampleSort.Random.Cycle

set_option relaxedAutoImplicit false
set_option autoImplicit false

/-!
# What a frame's fields say about its window

In every reachable machine, the stage of a frame tells which of its fields are set, and what they
say is true of the elements that stand in its window at that moment.

## Main definitions

* `SampleSort.Frame.Blank` — no field but the plan is set.
* `SampleSort.Frame.Chosen` — splitters have been chosen.
* `SampleSort.Frame.Separated` — the window stands in buckets.
* `SampleSort.Frame.Fields` — what the fields say in each stage.

## Main results

* `SampleSort.Machine.Reachable.fields` — the fields of every frame are right.
-/

namespace SampleSort

variable {α σ : Type} {less : α → α → Bool} {v : List α} {f : Frame α}

namespace Frame

/-- Splitters, bucket sizes, labels and bucket bounds are all empty. -/
structure Blank (f : Frame α) : Prop where
  /-- No splitters have been chosen. -/
  splitters : f.phase.splitters = []
  /-- No bucket is in use. -/
  counts : f.phase.counts.toList = []
  /-- Nothing has been labelled. -/
  labels : f.phase.labels = []
  /-- Nothing has been partitioned. -/
  starts : f.phase.starts = []

/-- Splitters have been chosen from the frame's window `v`. -/
structure Chosen (less : α → α → Bool) (v : List α) (f : Frame α) : Prop where
  /-- Splitters strictly ascend. -/
  ascending : f.phase.splitters.Pairwise fun s t => less s t = true
  /-- There is at least one. -/
  one_le : 1 ≤ f.phase.splitters.length
  /-- There are fewer than the buckets that the plan aims at, whose numbers fit in a byte. -/
  length_le : ∃ plan, f.phase.plan? = some plan ∧ f.phase.splitters.length ≤ plan.buckets - 1 ∧
    plan.buckets - 1 ≤ 255
  /-- They are elements of the window. -/
  mem : ∀ s ∈ f.phase.splitters, s ∈ v
  /-- There is one bucket more than there are splitters. -/
  length_counts : f.phase.counts.toList.length = f.phase.splitters.length + 1

/-- The frame's window `v` stands in buckets. -/
structure Separated (less : α → α → Bool) (v : List α) (f : Frame α) : Prop where
  /-- Buckets begin at the running sums of their sizes. -/
  starts_eq : f.phase.starts = offsets f.phase.counts.toList
  /-- There is a bound more than there are buckets. -/
  length_starts : f.phase.starts.length = f.phase.splitters.length + 2
  /-- The first bucket begins at the front. -/
  first : f.phase.starts[0]? = some 0
  /-- The last one ends at the end. -/
  last : f.phase.starts.getLast? = some v.length
  /-- Elements stand in the bucket that the search finds for them. -/
  bucket : ∀ i a b, f.phase.starts[i]? = some a → f.phase.starts[i + 1]? = some b →
    ∀ x ∈ window v a b, (bucketOf less f.phase.splitters x).value = i
  /-- No element exceeds one of a later bucket. -/
  inOrder : ∀ i j a b c d, i < j → f.phase.starts[i]? = some a → f.phase.starts[i + 1]? = some b →
    f.phase.starts[j]? = some c → f.phase.starts[j + 1]? = some d →
    ∀ x ∈ window v a b, ∀ y ∈ window v c d, less y x = false

/-- What the fields of a frame with window `v` say in each stage. -/
def Fields (less : α → α → Bool) (v : List α) (f : Frame α) : Prop :=
  match f.stage with
  | .simpleCases => f.phase.plan? = none ∧ f.Blank
  | .baseCase => f.phase.plan? = none ∧ f.Blank
  | .sampling =>
    f.Blank ∧ ∀ plan, f.phase.plan? = some plan →
      1 ≤ plan.samples ∧ plan.samples ≤ v.length / 2
  | .classification =>
    f.Chosen less v ∧ (∀ n ∈ f.phase.counts.toList, n = 0) ∧ f.phase.labels = [] ∧
      f.phase.starts = []
  | .partitioning =>
    f.Chosen less v ∧
      f.phase.labels.map UInt8.toNat =
        v.map (fun x => (bucketOf less f.phase.splitters x).value) ∧
      f.phase.counts.toList =
        tally (f.phase.splitters.length + 1) (f.phase.labels.map UInt8.toNat) ∧
      f.phase.starts = []
  | .recursion => f.Chosen less v ∧ f.phase.labels = [] ∧ f.Separated less v
  | .done => False

/-- Splitters that were chosen for a window, in a frame that holds them. -/
lemma chosen_of_splits {plan : SamplingPlan} (h : Splits less plan f.phase.splitters v)
    (hplan : f.phase.plan? = some plan)
    (hcounts : f.phase.counts.toList.length = f.phase.splitters.length + 1) :
    f.Chosen less v where
  ascending := h.ascending
  one_le := List.length_pos_iff.2 h.ne_nil
  length_le := by
    have hlt := h.length_lt
    have hle := h.fits.buckets_le
    unfold maxBuckets at hle
    exact ⟨plan, hplan, by omega, by omega⟩
  mem := h.mem
  length_counts := hcounts

/-- A window that consists of buckets, in a frame that holds their bounds.

**Proof sketch.** The counts are the sizes of the buckets, so a window between two neighbouring
bounds is one of the buckets; its elements have its number as their rank. -/
lemma separated_of_bucketed (hless : StrictWeak less) {plan : SamplingPlan}
    (h : Splits less plan f.phase.splitters v)
    (hcounts : f.phase.counts.toList =
      tally (f.phase.splitters.length + 1) (v.map (rank less f.phase.splitters)))
    (hstarts : f.phase.starts = offsets f.phase.counts.toList) {buckets : List (List α)}
    (hbucketed : Bucketed less f.phase.splitters v buckets) : f.Separated less v := by
  have hs := h.notGreater hless
  have hsizes : f.phase.counts.toList = buckets.map List.length := by
    rw [hcounts, hbucketed.sizes]
  have hlength : f.phase.counts.toList.length = f.phase.splitters.length + 1 := by
    rw [hcounts, length_tally]
  have hrank : ∀ i a b, f.phase.starts[i]? = some a → f.phase.starts[i + 1]? = some b →
      ∀ x ∈ window v a b, rank less f.phase.splitters x = i := by
    intro i a b ha hb x hx
    rw [hsizes] at hstarts
    exact hbucketed.ranked i _ (hbucketed.getElem?_of_offsets hstarts ha hb).2.2 x hx
  refine ⟨hstarts, ?_, ?_, ?_, ?_, ?_⟩
  · rw [hstarts, length_offsets, hlength]
  · rw [hstarts, getElem?_offsets (Nat.zero_le _), bucketStart_zero]
  · have hsum : f.phase.counts.toList.sum = v.length := by
      rw [hsizes, ← List.length_flatten, hbucketed.flatten]
    rw [hstarts, List.getLast?_eq_getElem?, length_offsets, Nat.add_sub_cancel,
      getElem?_offsets (Nat.le_refl _), bucketStart_length, hsum]
  · intro i a b ha hb x hx
    rw [value_bucketOf hless hs]
    exact hrank i a b ha hb x hx
  · intro i j a b c d hij ha hb hc hd x hx y hy
    refine hless.asymm (less_of_rank_lt hless hs ?_)
    rw [hrank i a b ha hb x hx, hrank j c d hc hd y hy]
    exact hij

/-- What a phase knows about its window is what the fields of the frame say. -/
lemma fields_of_holds (hless : StrictWeak less) (h : f.phase.Holds less v) :
    f.Fields less v := by
  obtain ⟨start, stop, role, phase⟩ := f
  cases phase with
  | simpleCases => exact ⟨rfl, rfl, rfl, rfl, rfl⟩
  | baseCase => exact ⟨rfl, rfl, rfl, rfl, rfl⟩
  | sampling =>
    refine ⟨⟨rfl, rfl, rfl, rfl⟩, ?_⟩
    intro plan hplan
    cases hplan
  | awaiting plan =>
    refine ⟨⟨rfl, rfl, rfl, rfl⟩, ?_⟩
    intro plan' hplan
    obtain rfl := Option.some.inj hplan
    exact ⟨h.samples_pos, h.samples_le⟩
  | classification plan splitters counts =>
    obtain ⟨hsplits, hzeros⟩ := h
    refine ⟨chosen_of_splits hsplits rfl ?_, ?_, rfl, rfl⟩
    · show counts.toList.length = splitters.length + 1
      rw [hzeros, List.length_replicate]
    · intro n hn
      replace hn : n ∈ counts.toList := hn
      rw [hzeros] at hn
      exact List.eq_of_mem_replicate hn
  | partitioning plan splitters counts labels =>
    obtain ⟨hsplits, hlabels, hcounts⟩ := h
    refine ⟨chosen_of_splits hsplits rfl ?_, ?_, ?_, rfl⟩
    · show counts.toList.length = splitters.length + 1
      rw [hcounts, length_tally]
    · show labels.map UInt8.toNat = v.map fun x => (bucketOf less splitters x).value
      rw [hlabels]
      exact List.map_congr_left fun x _ => (value_bucketOf hless (hsplits.notGreater hless) x).symm
    · show counts.toList = tally (splitters.length + 1) (labels.map UInt8.toNat)
      rw [hlabels, hcounts]
  | recursion plan splitters counts starts =>
    obtain ⟨hsplits, hcounts, hstarts, buckets, hbucketed⟩ := h
    refine ⟨chosen_of_splits hsplits rfl ?_, rfl,
      separated_of_bucketed hless hsplits hcounts hstarts hbucketed⟩
    show counts.toList.length = splitters.length + 1
    rw [hcounts, length_tally]

end Frame

/-- In every reachable machine, every frame has a window, and its fields say about the elements of
this window what its stage requires. -/
theorem Machine.Reachable.fields [IndexSource σ] (hless : StrictWeak less) {data : Array α}
    {lo hi : Nat} {m : Machine α σ} (h : Machine.Reachable less data lo hi m) (hf : f ∈ m.stack) :
    ∃ v, readWindow? m.data f.start f.stop = .ok v ∧ f.Fields less v := by
  have hinv := h.inv hless
  exact ⟨_, hinv.readWindow hf, Frame.fields_of_holds hless (hinv.holds f hf)⟩

/-- Four numbers whose window has been partitioned after seven steps. -/
theorem Machine.Reachable.fields_of_four :
    ∃ m : Machine Nat WordCycle,
      Machine.Reachable (fun a b => decide (a < b)) #[2, 4, 1, 3] 0 4 m ∧ m.stage = .recursion ∧
        ∀ f ∈ m.stack, ∃ v, readWindow? m.data f.start f.stop = .ok v ∧
          f.Fields (fun a b => decide (a < b)) v := by
  let less := fun a b : Nat => decide (a < b)
  let m₀ : Machine Nat WordCycle := .ofArray (.ofList [0xc0000000]) #[2, 4, 1, 3]
  let m₁ : Machine Nat WordCycle := { m₀ with config := ⟨1, 1, 1, 0⟩ }
  have hconfig : m₀.withConfig? ⟨1, 1, 1, 0⟩ = .ok m₁ := rfl
  have hstage : (m₁.runFor less 7).map (fun r => r.machine.stage) = .ok .recursion := by
    decide +kernel
  rcases hrun : m₁.runFor less 7 with fault | r
  · rw [hrun] at hstage
    cases hstage
  · rw [hrun] at hstage
    have hreachable : Machine.Reachable less #[2, 4, 1, 3] 0 4 r.machine :=
      ⟨m₀, _, .whole _, (Machine.Reaches.refl.tail (.withConfig hconfig)).tail (.runFor hrun)⟩
    exact ⟨r.machine, hreachable, Except.ok.inj hstage, fun f hf =>
      Machine.Reachable.fields .natural hreachable hf⟩

end SampleSort
