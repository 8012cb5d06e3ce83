import SampleSort.Fault

set_option relaxedAutoImplicit false
set_option autoImplicit false

/-!
# Configuration and the sampling plan

A configuration fixes which windows are sorted directly and how many buckets and samples the
others are given. Sizes are 64-bit words: the products below saturate at the largest of them.

## Main definitions

* `SampleSort.Config` — the four numbers of a configuration, with their defaults.
* `SampleSort.Config.flaw?` — the first reason, if any, for which a configuration is refused.
* `SampleSort.Config.threshold` — the longest window that is sorted directly.
* `SampleSort.SamplingPlan` — how a longer window is sampled.
* `SampleSort.Config.samplingPlan` — the plan for a window of a given length.

## Main results

* `SampleSort.Config.flaw?_eq_none_iff` — what an accepted configuration satisfies.
-/

namespace SampleSort

/-- The number of values of a 64-bit size. -/
def wordBound : Nat := UInt64.size

/-- The product of two sizes, or the largest size where the product is beyond it. -/
def saturatingMul (a b : Nat) : Nat :=
  min (a * b) (wordBound - 1)

/-- The bound on the bucket bits of one partitioning that a configuration may ask for. -/
def bucketBitsLimit : Nat := 8

/-- The size of the bucket tables; a bucket's number fits in one byte. -/
def maxBuckets : Nat := 256

/-- The largest oversampling percentage that a configuration may ask for. -/
def oversamplingLimit : Nat := 10000

/-- The tuning of a sort. -/
structure Config where
  /-- The base-case unit, by which a window's length is divided to choose its bucket count. -/
  baseCaseSize : Nat := 16
  /-- How many base-case units are still sorted directly. -/
  baseCaseMultiplier : Nat := 16
  /-- The largest binary logarithm of a bucket count. -/
  logMaxBuckets : Nat := bucketBitsLimit
  /-- The distance of splitters in the sample, in percent of the logarithm of the window's
  length. -/
  oversamplingPercent : Nat := 20
  deriving DecidableEq, Repr

/-- Why a configuration is refused. -/
inductive ConfigFlaw where
  /-- The base-case unit is zero. -/
  | zeroSize
  /-- No base-case units are sorted directly. -/
  | zeroMultiplier
  /-- The threshold is beyond the largest size. -/
  | thresholdOverflow
  /-- Bucket counts have no bits, or more than fit in the bucket tables. -/
  | bucketBitsOutOfRange
  /-- The oversampling percentage is beyond its limit. -/
  | oversamplingTooLarge
  deriving DecidableEq, Repr

/-- The wording of a refusal. -/
def ConfigFlaw.message : ConfigFlaw → String
  | .zeroSize => "base_case_size must be non-zero"
  | .zeroMultiplier => "base_case_multiplier must be non-zero"
  | .thresholdOverflow => "base case threshold overflows"
  | .bucketBitsOutOfRange => "log_max_buckets must be in 1..=8"
  | .oversamplingTooLarge => "oversampling_percent must be at most 10000"

/-- How a window is sampled and split. -/
structure SamplingPlan where
  /-- The binary logarithm of the bucket count. -/
  logBuckets : Nat
  /-- The number of buckets aimed at. -/
  buckets : Nat
  /-- The distance between splitter candidates in the sorted sample. -/
  stride : Nat
  /-- The number of elements in the sample. -/
  samples : Nat
  deriving DecidableEq, Repr

namespace Config

variable (c : Config)

/-- The length of the longest window that is sorted directly. -/
def threshold : Nat :=
  c.baseCaseSize * c.baseCaseMultiplier

/-- The first flaw of a configuration, in the order of its fields, if it has one. -/
def flaw? : Option ConfigFlaw :=
  if c.baseCaseSize = 0 then some .zeroSize
  else if c.baseCaseMultiplier = 0 then some .zeroMultiplier
  else if wordBound ≤ c.threshold then some .thresholdOverflow
  else if c.logMaxBuckets = 0 ∨ bucketBitsLimit < c.logMaxBuckets then some .bucketBitsOutOfRange
  else if oversamplingLimit < c.oversamplingPercent then some .oversamplingTooLarge
  else none

/-- A configuration that a sort accepts. -/
def Valid : Prop :=
  c.flaw? = none

instance : Decidable c.Valid :=
  inferInstanceAs (Decidable (_ = _))

/-- The binary logarithm of the bucket count for a window of `n` elements: that of the number of
base-case units in it, but at least one and at most what the configuration allows. -/
def logBuckets (n : Nat) : Except Fault Nat :=
  if c.baseCaseSize = 0 then .error .zeroBaseCase
  else if c.logMaxBuckets = 0 then .error .noBucketBits
  else .ok (min (max (n / c.baseCaseSize).log2 1) c.logMaxBuckets)

/-- The distance between splitter candidates for a window of `n` elements: the configured
percentage of the logarithm of `n`, and at least one. -/
def stride (n : Nat) : Nat :=
  max (saturatingMul c.oversamplingPercent n.log2 / 100) 1

/-- The plan for a window of `n` elements. The sample is one short of a stride for every bucket,
so that the splitters stand a stride apart, but at most half of the window. -/
def samplingPlan (n : Nat) : Except Fault SamplingPlan := do
  let logBuckets ← c.logBuckets n
  let buckets := 1 <<< logBuckets
  let stride := c.stride n
  return {
    logBuckets, buckets, stride
    samples := min (saturatingMul stride buckets - 1) (n / 2) }

/-- A configuration is accepted if its sizes are positive and their product is a size, and its
bucket bits and its oversampling are within their limits. -/
theorem flaw?_eq_none_iff :
    c.flaw? = none ↔
      0 < c.baseCaseSize ∧ 0 < c.baseCaseMultiplier ∧ c.threshold < wordBound ∧
        (0 < c.logMaxBuckets ∧ c.logMaxBuckets ≤ bucketBitsLimit) ∧
          c.oversamplingPercent ≤ oversamplingLimit := by
  unfold flaw?
  repeat' split
  all_goals simp_all <;> omega

end Config

end SampleSort
