import SampleSort.Proofs.Checked.Sampling

set_option relaxedAutoImplicit false
set_option autoImplicit false

/-!
# The arithmetic of a plan

Every configuration, also one that a sort refuses, has a plan for every window length that is a
word, unless its base-case unit is zero or it allows no bucket bits. Nothing then leaves the words:
the number of base-case units has fewer than 64 bits, and both products are cut off. Longer windows
have plans that are greater in every part. With an accepted configuration nothing is cut off
either, so that the stride and the sample are what the formulas for them say of all numbers.

## Main definitions

* `SampleSort.SamplingPlan.Within` — the bounds on a plan of any configuration.
* `SampleSort.SamplingPlan.Exact` — a plan in which no product is cut off.
* `SampleSort.SamplingPlan.AtMost` — one plan is no greater than another in any part.

## Main results

* `SampleSort.Checked.samplingPlan_eq_ok_iff` — computing a plan on words is not stopped.
* `SampleSort.Config.samplingPlan_arithmetic` — when there is a plan, and what it keeps to.
-/

namespace SampleSort

/-- The bounds that the plan of any configuration for a window of `n` elements keeps. -/
structure SamplingPlan.Within (plan : SamplingPlan) (c : Config) (n : Nat) : Prop where
  /-- There is at least one bucket bit. -/
  one_le_logBuckets : 1 ≤ plan.logBuckets
  /-- There are no more bucket bits than the configuration allows. -/
  logBuckets_le : plan.logBuckets ≤ c.logMaxBuckets
  /-- The number of buckets is the power of two with these bits. -/
  buckets_eq : plan.buckets = 2 ^ plan.logBuckets
  /-- It is a word. -/
  buckets_lt : plan.buckets < wordBound
  /-- Splitter candidates are at least one place apart. -/
  one_le_stride : 1 ≤ plan.stride
  /-- Their distance is a word. -/
  stride_lt : plan.stride < wordBound
  /-- At most half of the window is sampled. -/
  samples_le : plan.samples ≤ n / 2
  /-- A window with two elements has a sample. -/
  one_le_samples : 2 ≤ n → 1 ≤ plan.samples

/-- The plan for a window of `n` elements is computed without a product being cut off. -/
structure SamplingPlan.Exact (plan : SamplingPlan) (c : Config) (n : Nat) : Prop where
  /-- The bucket tables hold the buckets. -/
  buckets_le : plan.buckets ≤ maxBuckets
  /-- The percentage of the logarithm is a word before it is divided. -/
  oversampling_lt : c.oversamplingPercent * Nat.log 2 n < wordBound
  /-- So is the number of strides in all buckets. -/
  spread_lt : plan.stride * plan.buckets < wordBound
  /-- The stride is the percentage of the logarithm. -/
  stride_eq : plan.stride = max 1 (c.oversamplingPercent * Nat.log 2 n / 100)
  /-- The sample is one short of a stride for every bucket, but at most half of the window. -/
  samples_eq : plan.samples = min (plan.stride * plan.buckets - 1) (n / 2)

/-- The plan is no greater than the other one in any of its parts. -/
structure SamplingPlan.AtMost (plan plan' : SamplingPlan) : Prop where
  /-- The bucket bits. -/
  logBuckets_le : plan.logBuckets ≤ plan'.logBuckets
  /-- The number of buckets. -/
  buckets_le : plan.buckets ≤ plan'.buckets
  /-- The distance between splitter candidates. -/
  stride_le : plan.stride ≤ plan'.stride
  /-- The size of the sample. -/
  samples_le : plan.samples ≤ plan'.samples

/-! ### Products that are cut off -/

/-- A product that is a word is not cut off. -/
lemma saturatingMul_eq {a b : Nat} (h : a * b < wordBound) : saturatingMul a b = a * b :=
  Nat.min_eq_left (Nat.le_sub_one_of_lt h)

/-- Greater factors have a greater product, even if it is cut off. -/
lemma saturatingMul_mono {a a' b b' : Nat} (ha : a ≤ a') (hb : b ≤ b') :
    saturatingMul a b ≤ saturatingMul a' b' := by
  have hab : a * b ≤ a' * b' := Nat.mul_le_mul ha hb
  unfold saturatingMul
  omega

namespace Config

variable {c : Config} {n n' : Nat}

/-! ### The bounds -/

/-- A word has fewer than 64 bits after its first. -/
lemma log2_lt_of_lt_wordBound (hn : n < wordBound) : n.log2 < 64 := by
  by_cases hzero : n = 0
  · simp [hzero]
  · exact (Nat.log2_lt hzero).2 hn

/-- The number of buckets is a word, whatever bits the configuration allows. -/
lemma two_pow_bucketBits_lt (c : Config) (hn : n < wordBound) :
    2 ^ c.bucketBits n < wordBound := by
  have hunits : (n / c.baseCaseSize).log2 < 64 :=
    log2_lt_of_lt_wordBound (Nat.lt_of_le_of_lt (Nat.div_le_self _ _) hn)
  have hbits : c.bucketBits n < 64 := by
    unfold bucketBits
    omega
  exact Nat.pow_lt_pow_right (by decide) hbits

/-- Every plan keeps the bounds. -/
theorem samplingPlan_within (hn : n < wordBound) {plan : SamplingPlan}
    (h : c.samplingPlan n = .ok plan) : plan.Within c n := by
  have hstride : plan.stride < wordBound := Nat.lt_of_le_of_lt (stride_le h) (by decide)
  obtain ⟨⟨-, hbits⟩, rfl⟩ := samplingPlan_eq_ok_iff.1 h
  exact ⟨c.one_le_bucketBits hbits n, c.bucketBits_le n, rfl, c.two_pow_bucketBits_lt hn,
    c.one_le_stride n, hstride, Nat.min_le_right _ _, one_le_samples hbits⟩

/-! ### Nothing is cut off -/

/-- The plan of an accepted configuration is computed without a product being cut off. -/
theorem samplingPlan_exact (hc : c.Valid) (hn : n < wordBound) {plan : SamplingPlan}
    (h : c.samplingPlan n = .ok plan) : plan.Exact c n := by
  obtain ⟨-, rfl⟩ := samplingPlan_eq_ok_iff.1 h
  have hpercent : c.oversamplingPercent ≤ oversamplingLimit := (c.flaw?_eq_none_iff.1 hc).2.2.2.2
  have hbuckets := two_pow_bucketBits_le hc n
  have hoversampling : c.oversamplingPercent * n.log2 ≤ oversamplingLimit * 63 :=
    Nat.mul_le_mul hpercent (Nat.le_of_lt_succ (log2_lt_of_lt_wordBound hn))
  have hfits : c.oversamplingPercent * n.log2 < wordBound :=
    Nat.lt_of_le_of_lt hoversampling (by decide)
  have hstride : c.stride n = max (c.oversamplingPercent * n.log2 / 100) 1 := by
    rw [stride, saturatingMul_eq hfits]
  have hspread : c.stride n * 2 ^ c.bucketBits n < wordBound := by
    have hle : c.stride n ≤ oversamplingLimit * 63 := by
      rw [hstride]
      exact Nat.max_le.2 ⟨Nat.le_trans (Nat.div_le_self _ _) hoversampling, by decide⟩
    exact Nat.lt_of_le_of_lt (Nat.mul_le_mul hle hbuckets) (by decide)
  rw [Nat.log2_eq_log_two] at hfits hstride
  exact ⟨hbuckets, hfits, hspread, hstride.trans (Nat.max_comm _ _),
    congrArg (fun most => min (most - 1) (n / 2)) (saturatingMul_eq hspread)⟩

/-! ### Longer windows -/

/-- Longer windows have no fewer bucket bits. -/
lemma bucketBits_mono (c : Config) (h : n ≤ n') : c.bucketBits n ≤ c.bucketBits n' := by
  have hunits : (n / c.baseCaseSize).log2 ≤ (n' / c.baseCaseSize).log2 :=
    log2_mono (Nat.div_le_div_right h)
  unfold bucketBits
  omega

/-- Longer windows have no shorter stride. -/
lemma stride_mono (c : Config) (h : n ≤ n') : c.stride n ≤ c.stride n' := by
  have hproduct := saturatingMul_mono (Nat.le_refl c.oversamplingPercent) (log2_mono h)
  have := Nat.div_le_div_right (c := 100) hproduct
  unfold stride
  omega

/-- Longer windows have plans that are no smaller in any part. -/
theorem samplingPlan_mono (hle : n ≤ n') {plan plan' : SamplingPlan}
    (h : c.samplingPlan n = .ok plan) (h' : c.samplingPlan n' = .ok plan') :
    plan.AtMost plan' := by
  obtain ⟨-, rfl⟩ := samplingPlan_eq_ok_iff.1 h
  obtain ⟨-, rfl⟩ := samplingPlan_eq_ok_iff.1 h'
  have hbuckets : 2 ^ c.bucketBits n ≤ 2 ^ c.bucketBits n' :=
    Nat.pow_le_pow_right Nat.two_pos (c.bucketBits_mono hle)
  have hproduct := saturatingMul_mono (c.stride_mono hle) hbuckets
  refine ⟨c.bucketBits_mono hle, hbuckets, c.stride_mono hle, ?_⟩
  dsimp only
  omega

end Config

/-! ### Plans on words -/

/-- A computation fails exactly if it has no outcome. -/
lemma exists_eq_error_iff {ε β : Type} {x : Except ε β} :
    (∃ e, x = .error e) ↔ ¬∃ b, x = .ok b := by
  cases x <;> simp

section Words

variable {c : Config} {n : Nat}

/-- There is a plan if windows have units and buckets have bits. -/
lemma Config.exists_samplingPlan_eq_ok_iff :
    (∃ plan, c.samplingPlan n = .ok plan) ↔ ¬(c.baseCaseSize = 0 ∨ c.logMaxBuckets = 0) := by
  rw [not_or]
  constructor
  · rintro ⟨plan, h⟩
    exact (samplingPlan_eq_ok_iff.1 h).1
  · intro hsizes
    exact ⟨_, samplingPlan_eq_ok_iff.2 ⟨hsizes, rfl⟩⟩

/-- Without a base-case unit or without bucket bits, computing a plan is stopped: by the division,
or by bounds that have no number between them. -/
lemma Checked.exists_samplingPlan_eq_error (h : c.baseCaseSize = 0 ∨ c.logMaxBuckets = 0) :
    ∃ panic, Checked.samplingPlan c n = .error panic := by
  by_cases hunit : c.baseCaseSize = 0
  · refine ⟨.divisionByZero, ?_⟩
    simp [samplingPlan, logBuckets, div, ensure, hunit, bind, Except.bind]
  · refine ⟨.emptyClamp, ?_⟩
    simp [samplingPlan, logBuckets, clamp, ensure, div_eq hunit, h.resolve_left hunit, bind,
      Except.bind]

/-- Computing a plan on words yields the plan that is computed without checks. -/
theorem Checked.samplingPlan_eq_ok_iff (hn : n < wordBound) {plan : SamplingPlan} :
    Checked.samplingPlan c n = .ok plan ↔ c.samplingPlan n = .ok plan := by
  have hforth : ∀ plan, c.samplingPlan n = .ok plan → Checked.samplingPlan c n = .ok plan :=
    fun plan h => samplingPlan_eq_of_lt h (Config.samplingPlan_within hn h).buckets_lt
  refine ⟨fun h => ?_, hforth plan⟩
  by_cases hnone : c.baseCaseSize = 0 ∨ c.logMaxBuckets = 0
  · obtain ⟨panic, hpanic⟩ := exists_samplingPlan_eq_error (n := n) hnone
    simp [h] at hpanic
  · obtain ⟨plan', hplan'⟩ := Config.exists_samplingPlan_eq_ok_iff.2 hnone
    have hsame : plan' = plan := Except.ok.inj ((hforth plan' hplan').symm.trans h)
    rw [hplan', hsame]

end Words

/-- Computing a plan for a window length on words is stopped exactly if the base-case unit is zero
or no bucket bits are allowed, and there is no plan then. Otherwise nothing leaves the words, the
plan keeps its bounds, and longer windows have plans that are no smaller in any part. With an
accepted configuration it is exact. -/
theorem Config.samplingPlan_arithmetic (c : Config) {n : Nat} (hn : n < wordBound) :
    ((∃ panic, Checked.samplingPlan c n = .error panic) ↔
      c.baseCaseSize = 0 ∨ c.logMaxBuckets = 0) ∧
    ((∃ fault, c.samplingPlan n = .error fault) ↔ c.baseCaseSize = 0 ∨ c.logMaxBuckets = 0) ∧
    ∀ plan, c.samplingPlan n = .ok plan →
      Checked.samplingPlan c n = .ok plan ∧ plan.Within c n ∧ (c.Valid → plan.Exact c n) ∧
        ∀ n' plan', n ≤ n' → c.samplingPlan n' = .ok plan' → plan.AtMost plan' := by
  have hfault : (∃ fault, c.samplingPlan n = .error fault) ↔
      c.baseCaseSize = 0 ∨ c.logMaxBuckets = 0 := by
    rw [exists_eq_error_iff, exists_samplingPlan_eq_ok_iff, Classical.not_not]
  refine ⟨?_, hfault, fun plan h => ?_⟩
  · rw [← hfault, exists_eq_error_iff, exists_eq_error_iff]
    simp only [Checked.samplingPlan_eq_ok_iff hn]
  · exact ⟨(Checked.samplingPlan_eq_ok_iff hn).2 h, samplingPlan_within hn h,
      fun hc => samplingPlan_exact hc hn h, fun n' plan' hle h' => samplingPlan_mono hle h h'⟩

/-- A configuration that is refused, because it sorts no window directly and allows any number of
buckets and samples, still has plans at both sides of the last bucket bit. -/
theorem Config.samplingPlan_arithmetic_of_largest :
    let c : Config := ⟨1, 0, 2 ^ 32 - 1, 2 ^ 64 - 1⟩
    let n := 2 ^ 63 - 1
    let plan : SamplingPlan := ⟨62, 2 ^ 62, (2 ^ 64 - 1) / 100, 2 ^ 62 - 1⟩
    let longest : SamplingPlan := ⟨63, 2 ^ 63, (2 ^ 64 - 1) / 100, 2 ^ 63 - 1⟩
    n < wordBound ∧ ¬c.Valid ∧ c.samplingPlan n = .ok plan ∧
      c.samplingPlan (2 ^ 64 - 1) = .ok longest ∧
      Checked.samplingPlan c n = .ok plan ∧ plan.Within c n ∧ plan.AtMost longest := by
  intro c n plan longest
  have hn : n < wordBound := by decide
  have hplan : c.samplingPlan n = .ok plan := by decide +kernel
  have hlongest : c.samplingPlan (2 ^ 64 - 1) = .ok longest := by decide +kernel
  obtain ⟨hchecked, hwithin, -, hmono⟩ := (samplingPlan_arithmetic c hn).2.2 plan hplan
  exact ⟨hn, by decide +kernel, hplan, hlongest, hchecked, hwithin,
    hmono (2 ^ 64 - 1) longest (by decide) hlongest⟩

end SampleSort
