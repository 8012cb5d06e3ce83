import Mathlib.Algebra.Ring.Nat
import Mathlib.Data.Nat.Log
import Mathlib.Tactic.Lemma
import SampleSort.Config
import SampleSort.Sample

set_option relaxedAutoImplicit false
set_option autoImplicit false

/-!
# Sampling a window

A window that is sampled has at least two elements. With a configuration that is accepted, its plan
then asks for at least one sample and for at most half of the elements, and for a number of buckets
that the bucket tables hold; so the draw of the sample succeeds.

## Main definitions

* `SampleSort.SamplingPlan.Fits` — the bounds that a plan keeps.

## Main results

* `SampleSort.Config.exists_samplingPlan` — an accepted configuration has a plan that fits.
* `SampleSort.exists_drawSample` — a sample that is not larger than the window can be drawn.
-/

namespace SampleSort

variable {α σ : Type}

/-- The bounds that a plan for a window of `n` elements keeps. -/
structure SamplingPlan.Fits (plan : SamplingPlan) (n : Nat) : Prop where
  /-- Splitter candidates are at least one place apart. -/
  stride_pos : 1 ≤ plan.stride
  /-- There are at least two buckets. -/
  two_le_buckets : 2 ≤ plan.buckets
  /-- There are no more buckets than the tables hold. -/
  buckets_le : plan.buckets ≤ maxBuckets
  /-- There is at least one sample. -/
  samples_pos : 1 ≤ plan.samples
  /-- At most half of the window is sampled. -/
  samples_le : plan.samples ≤ n / 2

/-- A sample is no larger than the window. -/
lemma SamplingPlan.Fits.samples_le_self {plan : SamplingPlan} {n : Nat} (h : plan.Fits n) :
    plan.samples ≤ n :=
  Nat.le_trans h.samples_le (Nat.div_le_self n 2)

/-- A window with a plan has at least two elements. -/
lemma SamplingPlan.Fits.two_le {plan : SamplingPlan} {n : Nat} (h : plan.Fits n) : 2 ≤ n := by
  have h₁ := h.samples_pos
  have h₂ := h.samples_le
  omega

/-- Longer windows have larger logarithms. -/
lemma log2_mono {n n' : Nat} (h : n ≤ n') : n.log2 ≤ n'.log2 := by
  rw [Nat.log2_eq_log_two, Nat.log2_eq_log_two]
  exact Nat.log_mono_right h

namespace Config

variable {c : Config}

/-- The threshold of an accepted configuration is positive. -/
lemma threshold_pos (hc : c.Valid) : 1 ≤ c.threshold := by
  obtain ⟨h₁, h₂, _⟩ := c.flaw?_eq_none_iff.1 hc
  exact Nat.mul_pos h₁ h₂

/-- The bucket bits for a window of `n` elements, if the configuration allows any. -/
def bucketBits (c : Config) (n : Nat) : Nat :=
  min (max (n / c.baseCaseSize).log2 1) c.logMaxBuckets

/-- There are no more bucket bits than the configuration allows. -/
lemma bucketBits_le (c : Config) (n : Nat) : c.bucketBits n ≤ c.logMaxBuckets :=
  Nat.min_le_right _ _

/-- If it allows any, there is at least one. -/
lemma one_le_bucketBits (hbits : c.logMaxBuckets ≠ 0) (n : Nat) : 1 ≤ c.bucketBits n :=
  Nat.le_min.2 ⟨Nat.le_max_right _ _, Nat.one_le_iff_ne_zero.2 hbits⟩

/-- There are two buckets at least then. -/
lemma two_le_two_pow_bucketBits (hbits : c.logMaxBuckets ≠ 0) (n : Nat) :
    2 ≤ 2 ^ c.bucketBits n :=
  Nat.pow_le_pow_right Nat.two_pos (one_le_bucketBits hbits n)

/-- An accepted configuration has no more buckets than the tables hold. -/
lemma two_pow_bucketBits_le (hc : c.Valid) (n : Nat) : 2 ^ c.bucketBits n ≤ maxBuckets := by
  obtain ⟨-, -, -, ⟨-, hlimit⟩, -⟩ := c.flaw?_eq_none_iff.1 hc
  have hbits : c.bucketBits n ≤ bucketBitsLimit := Nat.le_trans (c.bucketBits_le n) hlimit
  exact Nat.pow_le_pow_right Nat.two_pos hbits

/-- Where windows have units and buckets have bits, these are the bits. -/
lemma logBuckets_eq (hunit : c.baseCaseSize ≠ 0) (hbits : c.logMaxBuckets ≠ 0) (n : Nat) :
    c.logBuckets n = .ok (c.bucketBits n) := by
  rw [logBuckets, if_neg hunit, if_neg hbits]
  rfl

/-- The plan for a window, which exists exactly if windows have units and buckets have bits. -/
lemma samplingPlan_eq_ok_iff {n : Nat} {plan : SamplingPlan} :
    c.samplingPlan n = .ok plan ↔
      (c.baseCaseSize ≠ 0 ∧ c.logMaxBuckets ≠ 0) ∧
        plan = ⟨c.bucketBits n, 2 ^ c.bucketBits n, c.stride n,
          min (saturatingMul (c.stride n) (2 ^ c.bucketBits n) - 1) (n / 2)⟩ := by
  rw [samplingPlan]
  by_cases hunit : c.baseCaseSize = 0
  · simp [logBuckets, hunit, bind, Except.bind]
  · by_cases hbits : c.logMaxBuckets = 0
    · simp [logBuckets, hunit, hbits, bind, Except.bind]
    · simp [logBuckets_eq hunit hbits, hunit, hbits, bind, Except.bind, pure, Except.pure,
        Nat.one_shiftLeft, eq_comm]

/-- The stride is positive. -/
lemma one_le_stride (c : Config) (n : Nat) : 1 ≤ c.stride n :=
  Nat.le_max_right _ _

/-- A product of positive sizes of which one is at least two is at least two, even if it is cut off
at the largest size. -/
lemma two_le_saturatingMul {a b : Nat} (ha : 1 ≤ a) (hb : 2 ≤ b) : 2 ≤ saturatingMul a b := by
  have hab : 1 * 2 ≤ a * b := Nat.mul_le_mul ha hb
  unfold saturatingMul wordBound UInt64.size
  omega

/-- Where buckets have bits, a window with two elements has a sample. -/
lemma one_le_samples (hbits : c.logMaxBuckets ≠ 0) {n : Nat} (hn : 2 ≤ n) :
    1 ≤ min (saturatingMul (c.stride n) (2 ^ c.bucketBits n) - 1) (n / 2) := by
  have hproduct := two_le_saturatingMul (c.one_le_stride n) (two_le_two_pow_bucketBits hbits n)
  exact Nat.le_min.2 ⟨by omega, by omega⟩

/-- An accepted configuration has a plan for every window with at least two elements, and the plan
keeps its bounds. -/
theorem exists_samplingPlan (hc : c.Valid) {n : Nat} (hn : 2 ≤ n) :
    ∃ plan, c.samplingPlan n = .ok plan ∧ plan.Fits n := by
  obtain ⟨hunit, -, -, ⟨hpos, -⟩, -⟩ := c.flaw?_eq_none_iff.1 hc
  have hbits : c.logMaxBuckets ≠ 0 := Nat.ne_of_gt hpos
  exact ⟨_, samplingPlan_eq_ok_iff.2 ⟨⟨Nat.ne_of_gt hunit, hbits⟩, rfl⟩,
    c.one_le_stride n, two_le_two_pow_bucketBits hbits n, two_pow_bucketBits_le hc n,
    one_le_samples hbits hn, Nat.min_le_right _ _⟩

end Config

/-- A sample that is not larger than the window can be drawn, and drawing it permutes the
window. -/
theorem exists_drawSample [IndexSource σ] {k : Nat} {v : List α} (hk : k ≤ v.length) (source : σ) :
    ∃ w source', drawSample k v source = .ok (w, source') ∧ w.Perm v := by
  cases h : drawIndices v.length k 0 source with
  | error fault =>
    have := (drawIndices_eq_error_iff (Nat.zero_le _)).1 ⟨fault, h⟩
    omega
  | ok drawn =>
    refine ⟨exchanged drawn.1 v, drawn.2, ?_, exchangedFrom_perm 0 drawn.1 v⟩
    rw [drawSample, h]
    rfl

end SampleSort
