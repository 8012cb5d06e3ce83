import SampleSort.Proofs.Buckets
import SampleSort.Proofs.Sampling
import SampleSort.Proofs.Spacing

set_option relaxedAutoImplicit false
set_option autoImplicit false

/-!
# Splitters of an ascending sample

Where a sample strictly ascends, nothing is passed over, so that the splitters stand at the ends of
the strides. A plan whose sample is not cut short asks for one element less than a stride for every
bucket. Then the last stride has no splitter at its end, there is one splitter less than buckets,
and the sample is spread over the buckets as evenly as the splitters, which belong to the bucket
above them, allow: all buckets receive a stride of it, apart from the lowest, which receives one
element less.

## Main definitions

* `SampleSort.EvenlySpaced` — the splitters of an ascending sample that a plan has asked for.

## Main results

* `SampleSort.chooseSplitters_of_ascending` — the splitters stand at the ends of the strides.
* `SampleSort.rank_of_ascending` — the rank of an element is the number of strides up to it.
* `SampleSort.tally_strides` — how many elements have a given rank.
* `SampleSort.Config.splitters_evenlySpaced` — the sample of an accepted configuration.
-/

namespace SampleSort

variable {α : Type} {less : α → α → Bool} {stride limit : Nat} {sample splitters : List α}

/-! ### Positions -/

/-- Numbers that follow one another at a fixed distance are known from the first one and their
count. -/
lemma eq_range'_of_isChain {start : Nat} {positions : List Nat}
    (h : (start :: positions).IsChain fun p q => q = p + stride) :
    start :: positions = List.range' start (positions.length + 1) stride := by
  induction positions generalizing start with
  | nil => rfl
  | cons next positions ih =>
    obtain ⟨rfl, hrest⟩ := List.isChain_cons_cons.1 h
    rw [List.length_cons, List.range'_succ, ← ih hrest]

/-- Splitters stand at positions of the sample. -/
lemma Spaced.lt_length {positions : List Nat}
    (h : Spaced less stride limit sample splitters positions) {p : Nat} (hp : p ∈ positions) :
    p < sample.length := by
  have hmem : sample[p]? ∈ splitters.map some := h.elements ▸ List.mem_map_of_mem hp
  obtain ⟨x, -, hx⟩ := List.mem_map.1 hmem
  exact (List.getElem?_eq_some_iff.1 hx.symm).1

/-- There are as many splitters as positions. -/
lemma Spaced.length_eq {positions : List Nat}
    (h : Spaced less stride limit sample splitters positions) :
    splitters.length = positions.length := by
  simpa using (congrArg List.length h.elements).symm

section Ascending

variable (hsample : sample.Pairwise fun x y => less x y = true)
include hsample

/-- In an ascending sample an element is greater than all those that stand before it. -/
lemma less_of_ascending {p q : Nat} {x y : α} (hx : sample[p]? = some x) (hy : sample[q]? = some y)
    (hpq : p < q) : less x y = true := by
  obtain ⟨hp, rfl⟩ := List.getElem?_eq_some_iff.1 hx
  obtain ⟨hq, rfl⟩ := List.getElem?_eq_some_iff.1 hy
  exact List.pairwise_iff_getElem.1 hsample p q hp hq hpq

/-- In an ascending sample an element is not less than those that do not stand behind it, and less
than the others. -/
lemma notLess_iff_le_of_ascending (hless : StrictWeak less) {p q : Nat} {x y : α}
    (hx : sample[p]? = some x) (hy : sample[q]? = some y) : less x y = false ↔ q ≤ p := by
  constructor
  · intro hnot
    by_contra hlt
    rw [less_of_ascending hsample hx hy (Nat.lt_of_not_le hlt)] at hnot
    cases hnot
  · intro hle
    rcases Nat.lt_or_eq_of_le hle with hlt | rfl
    · exact hless.asymm (less_of_ascending hsample hy hx hlt)
    · obtain rfl := Option.some.inj (hx.symm.trans hy)
      exact hless.irrefl _

variable (hstride : 1 ≤ stride)
include hstride

/-- In an ascending sample the next splitter can be taken from a stride further on, unless the
sample ends before. -/
lemma mem_greaterBeyond_of_ascending {p : Nat} (hp : p + stride < sample.length) :
    p + stride ∈ greaterBeyond less stride sample p := by
  have hx := List.getElem?_eq_getElem (show p < sample.length by omega)
  have hy := List.getElem?_eq_getElem hp
  exact ⟨Nat.le_refl _, _, _, hx, hy, less_of_ascending hsample hx hy (by omega)⟩

/-- In an ascending sample the next splitter is taken from a stride further on. -/
lemma eq_add_of_isLeast {p q : Nat} (hq : IsLeast (greaterBeyond less stride sample p) q) :
    q = p + stride := by
  obtain ⟨⟨hle, -, y, -, hy, -⟩, hleast⟩ := hq
  have hlt := (List.getElem?_eq_some_iff.1 hy).1
  have hnext : p + stride ∈ greaterBeyond less stride sample p :=
    mem_greaterBeyond_of_ascending hsample hstride (by omega)
  exact Nat.le_antisymm (hleast hnext) hle

/-- Splitters that are chosen at the first possible positions of an ascending sample, if they may
be as many as its strides, stand at the ends of the strides.

**Proof sketch.** In an ascending sample the next possible position is always one stride further on,
so the positions begin at the end of the first stride and go on by strides. They stop only when no
further stride ends within the sample: as many splitters are allowed as there are strides. -/
lemma Spaced.positions_eq {positions : List Nat}
    (h : Spaced less stride limit sample splitters positions)
    (hlimit : sample.length / stride ≤ limit) :
    positions = List.range' (stride - 1) (sample.length / stride) stride := by
  cases positions with
  | nil => cases h.first
  | cons start rest =>
    obtain rfl := Option.some.inj h.first
    have hrange := eq_range'_of_isChain (h.next.imp fun p q => eq_add_of_isLeast hsample hstride)
    have hlast : ((stride - 1) :: rest).getLast? = some (stride - 1 + stride * rest.length) := by
      rw [hrange, List.range'_concat, List.getLast?_concat]
    -- the last splitter stands within the sample, but the stride behind it does not end there
    have hlt := h.lt_length (List.mem_of_getLast? hlast)
    have hge : sample.length < stride - 1 + stride * (rest.length + 1) + 1 := by
      rcases h.complete with hfull | hnone
      · have hcap := (Nat.div_lt_iff_lt_mul hstride).1 (Nat.lt_succ_of_le hlimit)
        rw [← hfull, h.length_eq, List.length_cons, Nat.succ_mul, Nat.mul_comm] at hcap
        omega
      · by_contra hge
        have hnext := mem_greaterBeyond_of_ascending hsample hstride
          (p := stride - 1 + stride * rest.length) (by rw [Nat.mul_succ] at hge; omega)
        rw [hnone _ hlast] at hnext
        exact hnext
    have hdiv : sample.length / stride = rest.length + 1 := by
      rw [Nat.div_eq_iff (by omega), Nat.mul_comm]
      rw [Nat.mul_succ] at hge ⊢
      omega
    rw [hrange, hdiv]

/-- The splitters of an ascending sample stand at the ends of its strides. -/
theorem chooseSplitters_of_ascending (hlength : stride ≤ sample.length)
    (hlimit : sample.length / stride ≤ limit) :
    (chooseSplitters less stride limit sample).value.map some =
      (List.range' 1 (sample.length / stride)).map fun k => sample[stride * k - 1]? := by
  have hpos : 1 ≤ sample.length / stride := Nat.div_pos hlength hstride
  obtain ⟨positions, hspaced⟩ : ∃ positions, Spaced less stride limit sample
      (chooseSplitters less stride limit sample).value positions :=
    exists_spaced hstride (hpos.trans hlimit) hlength
  have hends : positions =
      (List.range' 1 (sample.length / stride)).map fun k => stride * k - 1 := by
    rw [hspaced.positions_eq hsample hstride hlimit]
    refine List.ext_getElem (by simp) fun i _ _ => ?_
    rw [List.getElem_map, List.getElem_range', List.getElem_range', Nat.one_mul, Nat.mul_add,
      Nat.mul_one]
    omega
  rw [← hspaced.elements, hends, List.map_map]
  rfl

/-! ### Ranks -/

/-- The rank of an element of an ascending sample among splitters at the ends of the strides is the
number of strides that end not behind it. -/
theorem rank_of_ascending (hless : StrictWeak less)
    (hsplitters : splitters.Pairwise fun s t => less s t = true)
    (hspaced : splitters.map some =
      (List.range' 1 (sample.length / stride)).map fun k => sample[stride * k - 1]?)
    {p : Nat} {x : α} (hx : sample[p]? = some x) :
    rank less splitters x = (p + 1) / stride := by
  have hp := (List.getElem?_eq_some_iff.1 hx).1
  have hcount : splitters.length = sample.length / stride := by
    simpa using congrArg List.length hspaced
  have hiff : ∀ i < splitters.length, i < rank less splitters x ↔ i < (p + 1) / stride := by
    intro i hi
    have hs := List.getElem?_eq_getElem hi
    have hposition : sample[stride * (i + 1) - 1]? = some splitters[i] := by
      have hget := congrArg (fun l => l[i]?) hspaced
      simp only [List.getElem?_map, hs, List.getElem?_range' (hcount ▸ hi)] at hget
      simpa [Nat.add_comm] using hget.symm
    have hend : 0 < stride * (i + 1) := Nat.mul_pos hstride (Nat.succ_pos i)
    rw [← notLess_iff_lt_rank hless (notGreater_of_ascending hless hsplitters) hs,
      notLess_iff_le_of_ascending hsample hless hx hposition, Nat.lt_iff_add_one_le,
      Nat.le_div_iff_mul_le hstride, Nat.mul_comm]
    omega
  have hle := rank_le_length less splitters x
  have hdiv : (p + 1) / stride ≤ splitters.length := hcount ▸ Nat.div_le_div_right hp
  rcases Nat.lt_trichotomy (rank less splitters x) ((p + 1) / stride) with hlt | heq | hgt
  · exact absurd ((hiff _ (hlt.trans_le hdiv)).2 hlt) (Nat.lt_irrefl _)
  · exact heq
  · exact absurd ((hiff _ (hgt.trans_le hle)).1 hgt) (Nat.lt_irrefl _)

/-- The bucket numbers of an ascending sample, of which the splitters stand at the ends of the
strides. -/
lemma map_bucketOf_of_ascending (hless : StrictWeak less)
    (hsplitters : splitters.Pairwise fun s t => less s t = true)
    (hspaced : splitters.map some =
      (List.range' 1 (sample.length / stride)).map fun k => sample[stride * k - 1]?) :
    (sample.map fun x => (bucketOf less splitters x).value) =
      (List.range sample.length).map fun p => (p + 1) / stride := by
  refine List.ext_getElem (by simp) fun p hp _ => ?_
  rw [List.getElem_map, List.getElem_map, List.getElem_range,
    value_bucketOf hless (notGreater_of_ascending hless hsplitters)]
  exact rank_of_ascending hsample hstride hless hsplitters hspaced (List.getElem?_eq_getElem _)

end Ascending

/-! ### Shares -/

/-- How many of the first `n` positions have `b` strides that end not behind them. -/
lemma count_strides (hstride : 1 ≤ stride) (n b : Nat) :
    ((List.range n).map fun p => (p + 1) / stride).count b =
      min n (stride * b + stride - 1) - (stride * b - 1) := by
  induction n with
  | zero => simp
  | succ n ih =>
    rw [List.range_succ, List.map_append, List.count_append, ih, List.map_singleton]
    by_cases h : (n + 1) / stride = b
    · subst h
      rw [List.count_singleton_self]
      have h₁ := Nat.mul_div_le (n + 1) stride
      have h₂ := Nat.lt_mul_div_succ (n + 1) hstride
      rw [Nat.mul_succ] at h₂
      omega
    · rw [List.count_singleton, if_neg (by simpa using h)]
      rw [Nat.div_eq_iff (by omega), Nat.mul_comm] at h
      omega

/-- If the last of `buckets` strides is one element short, the lowest bucket receives a stride but
one, and all others a stride.

**Proof sketch.** The number of positions of which the stride is `b` is a stride, but the first
position is missing from the lowest one (`count_strides`). -/
lemma tally_strides (hstride : 1 ≤ stride) {buckets : Nat} (hbuckets : 1 ≤ buckets) :
    tally buckets ((List.range (stride * buckets - 1)).map fun p => (p + 1) / stride) =
      (stride - 1) :: List.replicate (buckets - 1) stride := by
  have hcount : ∀ b < buckets,
      ((List.range (stride * buckets - 1)).map fun p => (p + 1) / stride).count b =
        if b = 0 then stride - 1 else stride := by
    intro b hb
    have hle : stride * (b + 1) ≤ stride * buckets := Nat.mul_le_mul_left stride hb
    have hlow : 0 < b → stride * 1 ≤ stride * b := Nat.mul_le_mul_left stride
    rw [Nat.mul_succ] at hle
    rw [count_strides hstride]
    by_cases hzero : b = 0
    · rw [if_pos hzero]
      rw [hzero, Nat.mul_zero] at hle ⊢
      omega
    · rw [if_neg hzero]
      omega
  obtain ⟨buckets, rfl⟩ := Nat.exists_eq_add_of_le' hbuckets
  rw [tally, List.range_succ_eq_map, List.map_cons, hcount 0 (by omega), if_pos rfl, List.map_map,
    Nat.add_sub_cancel]
  congr 1
  refine List.eq_replicate_iff.2 ⟨by simp, ?_⟩
  intro c hc
  obtain ⟨b, hb, rfl⟩ := List.mem_map.1 hc
  rw [Function.comp_apply, hcount _ (Nat.succ_lt_succ (List.mem_range.1 hb)),
    if_neg (Nat.succ_ne_zero b)]

/-! ### The sample of a plan -/

/-- The splitters of a strictly ascending sample, as a plan for a window of `n` elements asks for
them. -/
structure EvenlySpaced (less : α → α → Bool) (plan : SamplingPlan) (n : Nat)
    (sample splitters : List α) : Prop where
  /-- A sample that is as long as a stride has a splitter at the end of every stride. -/
  ends : plan.stride ≤ plan.samples → splitters.map some =
    (List.range' 1 (plan.samples / plan.stride)).map fun k => sample[plan.stride * k - 1]?
  /-- A shorter one has its middle as a splitter. -/
  middle : plan.samples < plan.stride →
    ∃ x, sample[plan.samples / 2]? = some x ∧ splitters = [x]
  /-- Unless half of the window is too little, there is one splitter less than buckets. -/
  count : plan.stride * plan.buckets - 1 ≤ n / 2 →
    plan.samples / plan.stride = plan.buckets - 1 ∧ splitters.length = plan.buckets - 1
  /-- Then a stride of the sample falls into every bucket, and one element less into the lowest. -/
  shares : plan.stride * plan.buckets - 1 ≤ n / 2 →
    tally plan.buckets (sample.map fun x => (bucketOf less splitters x).value) =
      (plan.stride - 1) :: List.replicate (plan.buckets - 1) plan.stride

namespace Config

variable {config : Config} {n : Nat} {plan : SamplingPlan}

/-- The number of samples that a configuration plans. -/
lemma samples_eq (hplan : config.samplingPlan n = .ok plan) :
    plan.samples = min (saturatingMul plan.stride plan.buckets - 1) (n / 2) := by
  obtain ⟨-, rfl⟩ := samplingPlan_eq_ok_iff.1 hplan
  rfl

/-- No more strides end within the sample than splitters may be chosen. -/
lemma samples_div_stride_le (hplan : config.samplingPlan n = .ok plan) (hfits : plan.Fits n) :
    plan.samples / plan.stride ≤ plan.buckets - 1 := by
  have hbuckets := hfits.two_le_buckets
  have hproduct : 0 < plan.buckets * plan.stride := Nat.mul_pos (by omega) hfits.stride_pos
  have hlt : plan.samples < plan.buckets * plan.stride := by
    rw [samples_eq hplan, saturatingMul, Nat.mul_comm plan.stride]
    omega
  exact Nat.le_sub_one_of_lt ((Nat.div_lt_iff_lt_mul hfits.stride_pos).2 hlt)

/-- Unless half of the window is too little, the sample is one element short of a stride for every
bucket. -/
lemma samples_eq_of_le (hplan : config.samplingPlan n = .ok plan) (hword : n < wordBound)
    (hcut : plan.stride * plan.buckets - 1 ≤ n / 2) :
    plan.samples = plan.stride * plan.buckets - 1 := by
  rw [samples_eq hplan, saturatingMul]
  unfold wordBound UInt64.size at *
  omega

/-- Then it is as long as a stride, and all strides but the last end within it. -/
lemma samples_div_stride_eq (hplan : config.samplingPlan n = .ok plan) (hfits : plan.Fits n)
    (hsamples : plan.samples = plan.stride * plan.buckets - 1) :
    plan.stride ≤ plan.samples ∧ plan.samples / plan.stride = plan.buckets - 1 := by
  have hstride := hfits.stride_pos
  have hproduct : plan.stride * 2 ≤ plan.stride * plan.buckets :=
    Nat.mul_le_mul_left plan.stride hfits.two_le_buckets
  refine ⟨by omega, Nat.le_antisymm (samples_div_stride_le hplan hfits) ?_⟩
  rw [Nat.le_div_iff_mul_le hstride, Nat.sub_mul, Nat.mul_comm plan.buckets]
  omega

/-- An accepted configuration has a plan for every window with at least two elements. However the
sample that it asks for turns out, if it strictly ascends, its splitters are evenly spaced and
spread it evenly over the buckets.

**Proof sketch.** If the sample is as long as a stride, its splitters are the ends of its strides,
and else its middle. If the plan asks for as many elements as all strides but one have, there is a
stride for each splitter, and the bucket of an element is the number of the stride that it is in,
which `tally_strides` counts. -/
theorem splitters_evenlySpaced (config : Config) (hless : StrictWeak less)
    (hconfig : config.Valid) (hn : 2 ≤ n) (hword : n < wordBound) :
    ∃ plan, config.samplingPlan n = .ok plan ∧
      ∀ sample : List α, sample.length = plan.samples →
        sample.Pairwise (fun x y => less x y = true) →
        EvenlySpaced less plan n sample
          (chooseSplitters less plan.stride (plan.buckets - 1) sample).value := by
  obtain ⟨plan, hplan, hfits⟩ := exists_samplingPlan hconfig hn
  refine ⟨plan, hplan, fun sample hlength hsample => ?_⟩
  have hstride := hfits.stride_pos
  have hbuckets := hfits.two_le_buckets
  have hends (hle : plan.stride ≤ sample.length) :=
    chooseSplitters_of_ascending hsample hstride hle (hlength ▸ samples_div_stride_le hplan hfits)
  refine ⟨fun hle => hlength ▸ hends (hlength ▸ hle), fun hlt => ?_, fun hcut => ?_, fun hcut => ?_⟩
  · have hmiddle : sample.length / 2 < sample.length :=
      Nat.div_lt_self (hlength ▸ hfits.samples_pos) (by decide)
    rw [chooseSplitters_of_length_lt (hlength ▸ hlt), ← hlength, List.getElem?_eq_getElem hmiddle]
    exact ⟨_, rfl, rfl⟩
  · have hsamples := samples_eq_of_le hplan hword hcut
    obtain ⟨hle, hdiv⟩ := samples_div_stride_eq hplan hfits hsamples
    have hcount : (chooseSplitters less plan.stride (plan.buckets - 1) sample).value.length =
        sample.length / plan.stride := by
      simpa using congrArg List.length (hends (hlength ▸ hle))
    exact ⟨hdiv, hcount.trans (hlength ▸ hdiv)⟩
  · have hsamples := samples_eq_of_le hplan hword hcut
    obtain ⟨hle, -⟩ := samples_div_stride_eq hplan hfits hsamples
    rw [map_bucketOf_of_ascending hsample hstride hless
      (chooseSplitters_ascending hless plan.stride (plan.buckets - 1) sample)
      (hends (hlength ▸ hle)), hlength, hsamples, tally_strides hstride (by omega)]

/-- Eleven samples of a window with 64 numbers: three splitters, one at the end of every third. -/
theorem splitters_evenlySpaced_of_eleven :
    EvenlySpaced (fun a b : Nat => decide (a < b)) ⟨2, 4, 3, 11⟩ 64
      [1, 2, 3, 4, 5, 6, 7, 8, 9, 10, 11] [3, 6, 9] := by
  obtain ⟨plan, hplan, hspaced⟩ := splitters_evenlySpaced (n := 64)
    { logMaxBuckets := 2, oversamplingPercent := 50 } .natural (by decide) (by decide) (by decide)
  have hplan' : Except.ok ⟨2, 4, 3, 11⟩ = Except.ok plan := hplan
  obtain rfl := Except.ok.inj hplan'
  exact hspaced [1, 2, 3, 4, 5, 6, 7, 8, 9, 10, 11] rfl (by decide)

end Config

end SampleSort
