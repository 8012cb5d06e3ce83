import SampleSort.Proofs.Checked.Word
import SampleSort.Proofs.Transition

set_option relaxedAutoImplicit false
set_option autoImplicit false

/-!
# Sampling in place

The sizes of a sampling plan are computed on words, a sample is drawn by exchanges of elements, and
splitters are looked for by position. An accepted configuration keeps the stride so small that a
position in a sample can be moved on by it.

## Main definitions

* `SampleSort.strideLimit` — a bound on the stride of every plan.
* `SampleSort.Checked.threshold`, `SampleSort.Checked.samplingPlan` — the sizes.
* `SampleSort.Checked.drawSample` — the draw.
* `SampleSort.Checked.chooseSplitters` — the choice of splitters.

## Main results

* `SampleSort.Checked.samplingPlan_eq`, `SampleSort.Checked.drawSample_eq`,
  `SampleSort.Checked.chooseSplitters_eq` — nothing is stopped, and the outcomes are those of the
  definitions that do not check.
-/

namespace SampleSort

/-- No plan has a greater stride: a hundredth of a product that is cut off at the largest word. -/
def strideLimit : Nat :=
  (wordBound - 1) / 100

/-- The plan of any configuration keeps the limit. -/
lemma Config.stride_le {c : Config} {n : Nat} {plan : SamplingPlan}
    (h : c.samplingPlan n = .ok plan) : plan.stride ≤ strideLimit := by
  obtain ⟨-, rfl⟩ := samplingPlan_eq_ok_iff.1 h
  have hproduct : saturatingMul c.oversamplingPercent n.log2 ≤ wordBound - 1 :=
    Nat.min_le_right _ _
  refine Nat.max_le.2 ⟨Nat.div_le_div_right hproduct, ?_⟩
  unfold strideLimit wordBound UInt64.size
  omega

namespace Checked

variable {α σ : Type} {less : α → α → Bool}

/-! ### Sizes -/

/-- The length of the longest window that is sorted directly. -/
def threshold (c : Config) : Except Panic Nat :=
  mul c.baseCaseSize c.baseCaseMultiplier

/-- The binary logarithm of the bucket count for a window of `n` elements. -/
def logBuckets (c : Config) (n : Nat) : Except Panic Nat := do
  let units ← div n c.baseCaseSize
  clamp units.log2 1 c.logMaxBuckets

/-- The plan for a window of `n` elements. -/
def samplingPlan (c : Config) (n : Nat) : Except Panic SamplingPlan := do
  let logBuckets ← logBuckets c n
  let buckets ← shift logBuckets
  let stride := c.stride n
  let most ← sub (saturatingMul stride buckets) 1
  return { logBuckets, buckets, stride, samples := min most (n / 2) }

/-- The threshold of an accepted configuration. -/
lemma threshold_eq {c : Config} (hc : c.Valid) : threshold c = .ok c.threshold :=
  mul_eq (c.flaw?_eq_none_iff.1 hc).2.2.1

/-- The plan of any configuration, if its bucket count is a word. -/
lemma samplingPlan_eq_of_lt {c : Config} {n : Nat} {plan : SamplingPlan}
    (h : c.samplingPlan n = .ok plan) (hbuckets : plan.buckets < wordBound) :
    samplingPlan c n = .ok plan := by
  obtain ⟨⟨hunit, hbits⟩, rfl⟩ := Config.samplingPlan_eq_ok_iff.1 h
  have hchecked : logBuckets c n = .ok (c.bucketBits n) := by
    rw [logBuckets, div_eq hunit, ok_bind, clamp_eq (by omega)]
    rfl
  rw [← Nat.one_shiftLeft] at hbuckets
  have hone : 1 ≤ saturatingMul (c.stride n) (2 ^ c.bucketBits n) :=
    Nat.le_min.2 ⟨Nat.mul_pos (c.one_le_stride n) (Nat.two_pow_pos _), by decide⟩
  simp only [samplingPlan, hchecked, ok_bind, shift_eq hbuckets, Nat.one_shiftLeft, sub_eq hone]
  rfl

/-- The plan of an accepted configuration. -/
theorem samplingPlan_eq {c : Config} (hc : c.Valid) {n : Nat} {plan : SamplingPlan}
    (h : c.samplingPlan n = .ok plan) : samplingPlan c n = .ok plan := by
  refine samplingPlan_eq_of_lt h ?_
  obtain ⟨-, rfl⟩ := Config.samplingPlan_eq_ok_iff.1 h
  exact Nat.lt_of_le_of_lt (Config.two_pow_bucketBits_le hc n) (by decide)

/-! ### The draw -/

/-- One exchange: the element at position `i` changes places with one from there on. -/
def drawAt [IndexSource σ] (state : List α × σ) (i : Nat) : Except Panic (List α × σ) := do
  let (v, source) := state
  let (j, source) ← draw i v.length source
  let v ← swap v i j
  return (v, source)

/-- The window with a random sample of `k` of its elements moved to the front. -/
def drawSample [IndexSource σ] (k : Nat) (v : List α) (source : σ) :
    Except Panic (List α × σ) := do
  ensure (k ≤ v.length) .assertion ()
  (List.range' 0 k).foldlM drawAt (v, source)

/-- An exchange in place, behind a front part, is one of the first element behind it. -/
lemma swap_eq_exchangeHead (front : List α) (x : α) (rest : List α) {offset : Nat}
    (hoffset : offset ≤ rest.length) :
    swap (front ++ x :: rest) front.length (front.length + offset) =
      .ok (front ++ exchangeHead offset (x :: rest)) := by
  cases offset with
  | zero =>
    rw [Nat.add_zero, swap_self (v := front ++ x :: rest) (x := x) (by simp)]
    rfl
  | succ j =>
    have hsplit : rest = rest.take j ++ rest[j] :: rest.drop (j + 1) := by
      rw [List.getElem_cons_drop, List.take_append_drop]
    have hset : rest.set j x = rest.take j ++ x :: rest.drop (j + 1) :=
      List.set_eq_take_append_cons_drop.trans (if_pos hoffset)
    have hswap := swap_append front x (rest.take j) rest[j] (rest.drop (j + 1))
    rw [← hsplit, ← hset, List.length_take, Nat.min_eq_left (Nat.le_of_lt hoffset)] at hswap
    rw [hswap, exchangeHead, List.getElem?_eq_getElem hoffset]

/-- One exchange behind a front part. -/
lemma drawAt_eq [IndexSource σ] (front : List α) (x : α) (rest : List α) {source source' : σ}
    {j : Nat}
    (h : IndexSource.draw front.length (front ++ x :: rest).length source = (j, source')) :
    drawAt (front ++ x :: rest, source) front.length =
      .ok (front ++ exchangeHead (j - front.length) (x :: rest), source') := by
  have hrange : front.length < (front ++ x :: rest).length := by simp
  obtain ⟨hle, hlt⟩ := IndexSource.draw_mem hrange source
  rw [h] at hle hlt
  obtain ⟨offset, rfl⟩ := Nat.exists_eq_add_of_le hle
  have hoffset : offset ≤ rest.length := by
    simp only [List.length_append, List.length_cons] at hlt
    omega
  rw [drawAt]
  simp only
  rw [draw_eq hrange, h, ok_bind, Nat.add_sub_cancel_left]
  simp only
  rw [swap_eq_exchangeHead front x rest hoffset]
  rfl

/-- The exchanges behind a front part.

**Proof sketch.** Induction on the number of draws. A draw brings one element to the front of the
rest, which then belongs to the front part of the next draw. -/
lemma foldlM_drawAt [IndexSource σ] (k : Nat) (front rest : List α) {js : List Nat}
    {source source' : σ}
    (h : drawIndices (front ++ rest).length k front.length source = .ok (js, source')) :
    (List.range' front.length k).foldlM drawAt (front ++ rest, source) =
      .ok (front ++ exchangedFrom front.length js rest, source') := by
  induction k generalizing front rest js source with
  | zero =>
    obtain ⟨rfl, rfl⟩ := Prod.mk.inj (Except.ok.inj h)
    rfl
  | succ k ih =>
    cases rest with
    | nil => simp [drawIndices] at h
    | cons x rest =>
      rw [drawIndices, if_pos (by simp)] at h
      generalize hdraw : IndexSource.draw front.length (front ++ x :: rest).length source = drawn
        at h
      obtain ⟨j, source₁⟩ := drawn
      obtain ⟨⟨later, source₂⟩, hlater, h⟩ := exists_ok_of_bind h
      obtain ⟨rfl, rfl⟩ := Prod.mk.inj (Except.ok.inj h)
      rw [List.range'_succ, List.foldlM_cons, drawAt_eq front x rest hdraw, ok_bind, exchangedFrom]
      have hlength := (exchangeHead_perm (j - front.length) (x :: rest)).length_eq
      cases hhead : exchangeHead (j - front.length) (x :: rest) with
      | nil => simp [hhead] at hlength
      | cons y rest' =>
        rw [hhead] at hlength
        have hsame : (front ++ x :: rest).length = ((front ++ [y]) ++ rest').length := by
          simp only [List.length_append, List.length_cons, List.length_nil] at hlength ⊢
          omega
        have hfront : front.length + 1 = (front ++ [y]).length := by simp
        rw [hsame, hfront] at hlater
        simpa using ih (front ++ [y]) rest' hlater

/-- Drawing a sample in place. -/
theorem drawSample_eq [IndexSource σ] {k : Nat} {v w : List α} {source source' : σ}
    (h : SampleSort.drawSample k v source = .ok (w, source')) :
    drawSample k v source = .ok (w, source') := by
  obtain ⟨⟨js, source₁⟩, hdraw, h⟩ := exists_ok_of_bind h
  obtain ⟨rfl, rfl⟩ := Prod.mk.inj (Except.ok.inj h)
  have hk : k ≤ v.length := by
    apply Nat.le_of_not_lt
    intro hlt
    have herror : ∃ fault, drawIndices v.length k 0 source = .error fault :=
      (drawIndices_eq_error_iff (Nat.zero_le _)).2 (by omega)
    obtain ⟨fault, herror⟩ := herror
    rw [hdraw] at herror
    cases herror
  rw [drawSample, ensure_eq hk, ok_bind]
  exact foldlM_drawAt k [] v hdraw

/-! ### Splitters -/

/-- The splitters found so far, and those from position `i` of the sample on. -/
def spacedAt (less : α → α → Bool) (stride limit : Nat) (sample : List α) (i : Nat)
    (found : List α) : Except Panic (List α) :=
  if i < sample.length ∧ found.length < limit then
    match get sample i with
    | .error panic => .error panic
    | .ok x =>
      if found.getLast?.all fun last => less last x then
        match _h : add i stride with
        | .error panic => .error panic
        | .ok next => spacedAt less stride limit sample next (found ++ [x])
      else
        match _h : add i 1 with
        | .error panic => .error panic
        | .ok next => spacedAt less stride limit sample next found
  else return found
termination_by sample.length - i + (limit - found.length)
decreasing_by
  · have := eq_of_add _h
    simp only [List.length_append, List.length_singleton]
    omega
  · have := eq_of_add _h
    omega

/-- The splitters of a sample, written where `out` stands, the elements of which are dropped. None
is written if there is no memory for them; whether there is comes with what stands there. -/
def chooseSplitters (less : α → α → Bool) (memory : Memory) (stride limit : Nat)
    (sample out : List α) : Except Panic (Bool × List α) := do
  ensure (1 ≤ stride) .assertion ()
  let out := clear out
  if memory = .exhausted then return (false, out)
  else
    let first ← sub stride 1
    let out ← spacedAt less stride limit sample first out
    if out.isEmpty && !sample.isEmpty then
      let x ← get sample (sample.length / 2)
      return (true, out ++ [x])
    else return (true, out)

/-- Skipping elements is looking for splitters behind them. -/
lemma value_spacedFrom_skip (stride skip limit : Nat) (last : Option α) (rest : List α) :
    (spacedFrom less stride skip limit last rest).value =
      (spacedFrom less stride 0 limit last (rest.drop skip)).value := by
  induction skip generalizing rest with
  | zero => rfl
  | succ skip ih =>
    cases rest with
    | nil => simp [spacedFrom]
    | cons x rest =>
      rw [spacedFrom, ih]
      rfl

/-- An element that is greater than the splitter before it is the next splitter. -/
lemma value_spacedFrom_accept {stride limit : Nat} {last : Option α} {x : α} {rest : List α}
    (hstride : 1 ≤ stride) (hx : (last.all fun last => less last x) = true) :
    (spacedFrom less stride 0 (limit + 1) last (x :: rest)).value =
      x :: (spacedFrom less stride 0 limit (some x) ((x :: rest).drop stride)).value := by
  obtain ⟨skip, rfl⟩ := Nat.exists_eq_succ_of_ne_zero (Nat.one_le_iff_ne_zero.1 hstride)
  rw [Nat.succ_eq_add_one, List.drop_succ_cons, ← value_spacedFrom_skip]
  cases last with
  | none => rfl
  | some last =>
    replace hx : less last x = true := hx
    simp [spacedFrom, hx]

/-- Others are passed over. -/
lemma value_spacedFrom_reject {stride limit : Nat} {last : Option α} {x : α} {rest : List α}
    (hx : ¬(last.all fun last => less last x) = true) :
    (spacedFrom less stride 0 (limit + 1) last (x :: rest)).value =
      (spacedFrom less stride 0 (limit + 1) last rest).value := by
  cases last with
  | none => simp at hx
  | some last =>
    replace hx : ¬less last x = true := hx
    simp [spacedFrom, hx]

/-- Splitters from a position on.

**Proof sketch.** Induction along the positions that are looked at. A splitter that is found makes
the position move by the stride, where the list of what is left skips one element less than that;
any other element makes both move by one. -/
lemma spacedAt_eq (less : α → α → Bool) {stride : Nat} (limit : Nat) {sample : List α}
    (hstride : 1 ≤ stride)
    (hlength : sample.length + stride < wordBound) (i : Nat) (found : List α) :
    spacedAt less stride limit sample i found =
      .ok (found ++ (spacedFrom less stride 0 (limit - found.length) found.getLast?
        (sample.drop i)).value) := by
  fun_induction spacedAt less stride limit sample i found with
  | case1 i found hmore panic hget =>
    rw [get_eq (List.getElem?_eq_getElem hmore.1)] at hget
    cases hget
  | case2 i found hmore x hget hx panic hadd =>
    rw [add_eq (by omega)] at hadd
    cases hadd
  | case3 i found hmore x hget hx next hadd ih =>
    obtain rfl := eq_of_add hadd
    rw [get_eq (List.getElem?_eq_getElem hmore.1)] at hget
    obtain rfl := Except.ok.inj hget
    have hlimit : limit - found.length = limit - (found.length + 1) + 1 := by omega
    rw [ih, hlimit, ← List.getElem_cons_drop hmore.1, value_spacedFrom_accept hstride hx]
    simp [Nat.add_comm]
  | case4 i found hmore x hget hx panic hadd =>
    rw [add_eq (by omega)] at hadd
    cases hadd
  | case5 i found hmore x hget hx next hadd ih =>
    obtain rfl := eq_of_add hadd
    rw [get_eq (List.getElem?_eq_getElem hmore.1)] at hget
    obtain rfl := Except.ok.inj hget
    have hlimit : limit - found.length = limit - (found.length + 1) + 1 := by omega
    rw [ih, hlimit, ← List.getElem_cons_drop hmore.1, value_spacedFrom_reject hx]
  | case6 i found hdone =>
    have hnone : (spacedFrom less stride 0 (limit - found.length) found.getLast?
        (sample.drop i)).value = [] := by
      by_cases hi : i < sample.length
      · rw [Nat.sub_eq_zero_of_le (by omega), ← List.getElem_cons_drop hi]
        rfl
      · rw [List.drop_of_length_le (by omega)]
        simp [spacedFrom]
    rw [hnone, List.append_nil]
    rfl

/-- Without memory, what stood in the place of the splitters is dropped nevertheless. -/
lemma chooseSplitters_exhausted {stride limit : Nat} {sample : List α} (hstride : 1 ≤ stride)
    (out : List α) :
    chooseSplitters less .exhausted stride limit sample out = .ok (false, []) := by
  rw [chooseSplitters, ensure_eq hstride, ok_bind, if_pos rfl]
  rfl

/-- What is left to do when all positions have been looked at. -/
lemma chooseSplitters_eq_of_spacedAt {stride limit : Nat} {sample : List α} (hstride : 1 ≤ stride)
    (h : spacedAt less stride limit sample (stride - 1) [] =
      .ok (spacedFrom less stride (stride - 1) limit none sample).value) (out : List α) :
    chooseSplitters less .available stride limit sample out =
      .ok (true, (SampleSort.chooseSplitters less stride limit sample).value) := by
  rw [chooseSplitters, ensure_eq hstride, ok_bind, if_neg (by decide), sub_eq hstride, ok_bind,
    clear, h, ok_bind, SampleSort.chooseSplitters, Counted.value_bind]
  cases hfound : (spacedFrom less stride (stride - 1) limit none sample).value with
  | cons s found => rfl
  | nil =>
    cases sample with
    | nil => rfl
    | cons x rest =>
      have hmiddle : (x :: rest).length / 2 < (x :: rest).length :=
        Nat.div_lt_self (Nat.succ_pos _) (by decide)
      have hget := List.getElem?_eq_getElem hmiddle
      simp only [List.isEmpty_nil, List.isEmpty_cons, Bool.not_false, Bool.and_self, if_true,
        get_eq hget, ok_bind, hget]
      rfl

/-- Choosing splitters by position. -/
theorem chooseSplitters_eq {stride limit : Nat} {sample : List α} (hstride : 1 ≤ stride)
    (hlength : sample.length + stride < wordBound) (out : List α) :
    chooseSplitters less .available stride limit sample out =
      .ok (true, (SampleSort.chooseSplitters less stride limit sample).value) := by
  have hspaced := spacedAt_eq less limit hstride hlength (stride - 1) []
  rw [List.nil_append, List.length_nil, Nat.sub_zero, List.getLast?_nil, ← value_spacedFrom_skip]
    at hspaced
  exact chooseSplitters_eq_of_spacedAt hstride hspaced out

end Checked

end SampleSort
