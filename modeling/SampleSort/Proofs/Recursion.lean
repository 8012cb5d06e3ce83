import Mathlib.Tactic.Lemma
import SampleSort.Machine.Step

set_option relaxedAutoImplicit false
set_option autoImplicit false

/-!
# Sample sort as a recursion

The sort as it is usually written: a function that sorts a window, calls itself on the sample, and
then goes through the buckets from the left to the right, calling itself on the long ones. It uses
the same operations as a machine, but nothing is deferred and there is no stack.

Nothing but the order makes the windows shorter from call to call, and the recursion may not end if
that is not a strict weak ordering. So its value is an option.

## Main definitions

* `SampleSort.Visit` — what a call is about to do with its window.
* `SampleSort.Sorting` — what a call yields.
* `SampleSort.Config.recursiveSort` — the sort of a window.
* `SampleSort.Config.recursiveBuckets` — the sort of the buckets of a partitioned window.

## Main results

* `SampleSort.Config.recursiveSort_resolved`, `recursiveSort_short`, `recursiveSort_long` — the
  three ways in which a call can go.
* `SampleSort.Config.recursiveBuckets_short`, `recursiveBuckets_long` — the two kinds of buckets.
-/

namespace SampleSort

variable {α σ : Type}

/-- What a call is about to do with its window. -/
structure Visit where
  /-- What is done. -/
  stage : Stage
  /-- What the window is sorted for. -/
  role : Role
  /-- The position of the window's first element. -/
  start : Nat
  /-- The position after its last element. -/
  stop : Nat
  deriving DecidableEq, Repr

/-- What a call yields. -/
structure Sorting (α σ : Type) where
  /-- The sorted window. -/
  window : List α
  /-- The source of randomness after all draws. -/
  source : σ
  /-- All visits of the call and of those that it made, in their order. -/
  visits : List Visit
  deriving DecidableEq

/-- The visits of a call to the window of `n` elements from `start` on. -/
def visitsOf (role : Role) (start n : Nat) (stages : List Stage) : List Visit :=
  stages.map fun stage => ⟨stage, role, start, start + n⟩

namespace Config

mutual

/-- The window `v`, which begins at position `start`, sorted for `role`. -/
def recursiveSort [IndexSource σ] (config : Config) (less : α → α → Bool) (strategy : Strategy)
    (role : Role) (start : Nat) (v : List α) (source : σ) :
    ExceptT Fault Option (Sorting α σ) :=
  match (Shape.detect less v).value with
  | .unsorted =>
    if v.length ≤ config.threshold then
      return ⟨(insertionSort less v).value, source,
        visitsOf role start v.length [.simpleCases, .baseCase]⟩
    else do
      let plan ← MonadExcept.ofExcept (config.samplingPlan v.length)
      let (v, source) ← MonadExcept.ofExcept (drawSample plan.samples v source)
      let sample ← MonadExcept.ofExcept (slice? v 0 plan.samples)
      let sorted ← config |>.recursiveSort less strategy .sample start sample source
      let v := splice v 0 sorted.window
      let splitters :=
        (chooseSplitters less plan.stride (plan.buckets - 1) sorted.window).value
      let counts ← MonadExcept.ofExcept (Histogram.empty.reset (splitters.length + 1))
      let labelling ← MonadExcept.ofExcept (labelWindow less splitters counts v).value
      let partitioned ← MonadExcept.ofExcept
        (strategy.partition less splitters labelling.counts.toList labelling.labels v).value
      let rest ← config |>.recursiveBuckets less strategy splitters partitioned.window start 0
        (partitioned.starts.zip partitioned.starts.tail) sorted.source
      return ⟨rest.window, rest.source,
        visitsOf role start v.length [.simpleCases, .baseCase, .sampling] ++ sorted.visits ++
          visitsOf role start v.length [.sampling, .classification, .partitioning, .recursion] ++
            rest.visits⟩
  | shape => return ⟨shape.arrange v, source, visitsOf role start v.length [.simpleCases]⟩
partial_fixpoint

/-- The buckets from number `b` on of the partitioned window `v`, which begins at position `start`,
sorted from the left to the right. Their bounds in the window are listed. -/
def recursiveBuckets [IndexSource σ] (config : Config) (less : α → α → Bool) (strategy : Strategy)
    (splitters v : List α) (start b : Nat) (bounds : List (Nat × Nat)) (source : σ) :
    ExceptT Fault Option (Sorting α σ) :=
  match bounds with
  | [] => return ⟨[], source, []⟩
  | (first, last) :: bounds => do
    let bucket ← MonadExcept.ofExcept (slice? v first last)
    let (equal, rest) ← MonadExcept.ofExcept (peelBucket less splitters v.length b bucket)
    let sorted ←
      if config.threshold < rest.length then
        config |>.recursiveSort less strategy .main (start + (first + equal.length)) rest source
      else pure ⟨(sortSmall less rest).value, source, []⟩
    let others ←
      config |>.recursiveBuckets less strategy splitters v start (b + 1) bounds sorted.source
    return ⟨equal ++ sorted.window ++ others.window, others.source,
      sorted.visits ++ others.visits⟩
partial_fixpoint

end

variable [IndexSource σ] {less : α → α → Bool} {config : Config} {strategy : Strategy} {role : Role}
  {start b first last : Nat} {v w sample splitters bucket equal rest : List α}
  {bounds : List (Nat × Nat)} {source source' : σ} {sorted others : Sorting α σ}

/-- A window that is resolved at a glance. -/
lemma recursiveSort_resolved (h : (Shape.detect less v).value ≠ .unsorted) :
    config.recursiveSort less strategy role start v source =
      pure ⟨(Shape.detect less v).value.arrange v, source,
        visitsOf role start v.length [.simpleCases]⟩ := by
  rw [recursiveSort]
  split
  · next hunsorted => exact absurd hunsorted h
  · rfl

/-- A window that is sorted directly. -/
lemma recursiveSort_short (h : (Shape.detect less v).value = .unsorted)
    (hle : v.length ≤ config.threshold) :
    config.recursiveSort less strategy role start v source =
      pure ⟨(insertionSort less v).value, source,
        visitsOf role start v.length [.simpleCases, .baseCase]⟩ := by
  rw [recursiveSort, h]
  exact if_pos hle

/-- A window that is sampled and partitioned. -/
lemma recursiveSort_long (h : (Shape.detect less v).value = .unsorted)
    (hlt : ¬v.length ≤ config.threshold) {plan : SamplingPlan}
    (hplan : config.samplingPlan v.length = .ok plan)
    (hdraw : drawSample plan.samples v source = .ok (w, source'))
    (hsample : slice? w 0 plan.samples = .ok sample)
    (hsorted : config.recursiveSort less strategy .sample start sample source' = pure sorted)
    (hsplitters : splitters =
      (chooseSplitters less plan.stride (plan.buckets - 1) sorted.window).value)
    {counts : Histogram} (hcounts : Histogram.empty.reset (splitters.length + 1) = .ok counts)
    {labelling : Labelling}
    (hlabelling : (labelWindow less splitters counts (splice w 0 sorted.window)).value =
      .ok labelling)
    {partitioned : Partitioned α}
    (hpartitioned : (strategy.partition less splitters labelling.counts.toList labelling.labels
      (splice w 0 sorted.window)).value = .ok partitioned)
    (hothers : config.recursiveBuckets less strategy splitters partitioned.window start 0
      (partitioned.starts.zip partitioned.starts.tail) sorted.source = pure others)
    (hlength : (splice w 0 sorted.window).length = v.length) :
    config.recursiveSort less strategy role start v source =
      pure ⟨others.window, others.source,
        visitsOf role start v.length [.simpleCases, .baseCase, .sampling] ++ sorted.visits ++
          visitsOf role start v.length [.sampling, .classification, .partitioning, .recursion] ++
            others.visits⟩ := by
  subst hsplitters
  rw [recursiveSort, h]
  simp only [if_neg hlt, hplan, hdraw, hsample, hcounts, hlabelling, hpartitioned, hlength,
    MonadExcept.ofExcept, pure_bind, hsorted, hothers]

/-- A bucket of which a long part is left to be sorted. -/
lemma recursiveBuckets_long (hbucket : slice? v first last = .ok bucket)
    (hpeel : peelBucket less splitters v.length b bucket = .ok (equal, rest))
    (hlt : config.threshold < rest.length)
    (hsorted : config.recursiveSort less strategy .main (start + (first + equal.length)) rest
      source = pure sorted)
    (hothers : config.recursiveBuckets less strategy splitters v start (b + 1) bounds
      sorted.source = pure others) :
    config.recursiveBuckets less strategy splitters v start b ((first, last) :: bounds) source =
      pure ⟨equal ++ sorted.window ++ others.window, others.source,
        sorted.visits ++ others.visits⟩ := by
  rw [recursiveBuckets]
  simp only [hbucket, hpeel, if_pos hlt, MonadExcept.ofExcept, pure_bind, hsorted, hothers]

/-- A bucket of which nothing long is left to be sorted. -/
lemma recursiveBuckets_short (hbucket : slice? v first last = .ok bucket)
    (hpeel : peelBucket less splitters v.length b bucket = .ok (equal, rest))
    (hlt : ¬config.threshold < rest.length)
    (hothers : config.recursiveBuckets less strategy splitters v start (b + 1) bounds source =
      pure others) :
    config.recursiveBuckets less strategy splitters v start b ((first, last) :: bounds) source =
      pure ⟨equal ++ (sortSmall less rest).value ++ others.window, others.source,
        others.visits⟩ := by
  rw [recursiveBuckets]
  simp only [hbucket, hpeel, if_neg hlt, MonadExcept.ofExcept, pure_bind, hothers,
    List.nil_append]

end Config

/-! ### Computations that may not end -/

section Ending

variable {β γ : Type}

/-- A computation that ends with a value has ended with one in its first part. -/
lemma exists_pure_of_bind {x : ExceptT Fault Option β} {k : β → ExceptT Fault Option γ} {c : γ}
    (h : x >>= k = pure c) : ∃ b, x = pure b ∧ k b = pure c := by
  rcases x with _ | fault | b
  · cases h
  · cases h
  · exact ⟨b, rfl, h⟩

/-- A computation ends with one value at most. -/
lemma pure_injective {b c : β} (h : (pure b : ExceptT Fault Option β) = pure c) : b = c :=
  Except.ok.inj (Option.some.inj h)

end Ending

end SampleSort
