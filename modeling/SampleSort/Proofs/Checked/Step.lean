import SampleSort.Proofs.Checked.Sampling
import SampleSort.Proofs.Checked.Settling
import SampleSort.Proofs.Ledger.Step

set_option relaxedAutoImplicit false
set_option autoImplicit false

/-!
# A step in place

A step of a ledger, written as a program that works on the sequence itself and is stopped at once if
it leaves the range of words, reads outside a sequence or a table, or comes to a place that it
should not reach. For every stage there is a handler. It writes its tables where they stand, and
drops what they hold before it asks for memory.

## Main definitions

* `SampleSort.Checked.handle` — the handler of an entry.
* `SampleSort.Checked.step` — one step.

## Main results

* `SampleSort.Checked.handle_eq` — the handler of an entry whose frame knows what it needs is not
  stopped, and does what the handler does that does not check.
* `SampleSort.Checked.step_eq` — a step whose handler does so is the step of the ledger.
-/

namespace SampleSort.Checked

variable {α σ : Type}

section Handlers

variable (less : α → α → Bool) (config : Config) (strategy : Strategy) (memory : Memory)
  (source : σ) (data : List α) (e : Entry α)

/-- A window that is resolved at a glance is put in order. -/
def onSimpleCases : Except Panic (Handled α σ) := do
  let v ← slice data e.start e.stop
  match (Shape.detect less v).value with
  | .unsorted => return ⟨data, source, { e with stage := .baseCase }, .ok .advance⟩
  | shape => return ⟨splice data e.start (shape.arrange v), source, e, .ok .resolve⟩

/-- A short window is sorted by insertion. -/
def onBaseCase : Except Panic (Handled α σ) := do
  let n ← length e
  let threshold ← threshold config
  if n ≤ threshold then
    let v ← slice data e.start e.stop
    let v ← insertionSort less v
    return ⟨splice data e.start v, source, e, .ok .resolve⟩
  else return ⟨data, source, { e with stage := .sampling }, .ok .advance⟩

/-- A sample is drawn and handed to an entry of its own. -/
def onSampling [IndexSource σ] : Except Panic (Handled α σ) := do
  let n ← length e
  let plan ← samplingPlan config n
  let v ← slice data e.start e.stop
  let (v, source) ← drawSample plan.samples v source
  let stop ← add e.start plan.samples
  let sample ← newEntry e.start stop .sample
  return ⟨splice data e.start v, source, { e with plan? := some plan }, .ok (.descend sample)⟩

/-- The histogram with `size` buckets in use. -/
def reset (h : Histogram) (size : Nat) : Except Panic Histogram :=
  match h.reset size with
  | .ok h => .ok h
  | .error _ => .error .assertion

/-- Splitters are chosen from the sorted sample. -/
def onSample (plan : SamplingPlan) : Except Panic (Handled α σ) := do
  let stop ← add e.start plan.samples
  let sample ← slice data e.start stop
  let limit ← sub plan.buckets 1
  let (granted, splitters) ← chooseSplitters less memory plan.stride limit sample e.splitters
  let e := { e with splitters }
  if granted then
    let size ← add e.splitters.length 1
    let counts ← reset e.counts size
    return ⟨data, source, { e with counts, stage := .classification }, .ok .advance⟩
  else return .giveUp data source e .splitters

/-- Elements are labelled. -/
def onClassification : Except Panic (Handled α σ) := do
  let _ ← length e
  let e := { e with labels := clear e.labels }
  if memory = .exhausted then return .giveUp data source e .labels
  else
    let v ← slice data e.start e.stop
    let labelling ← relabelWindow less e.splitters ⟨e.counts, e.labels⟩ v
    let e := { e with counts := labelling.counts, labels := labelling.labels }
    return ⟨data, source, { e with stage := .partitioning }, .ok .advance⟩

/-- The window is partitioned. -/
def onPartitioning : Except Panic (Handled α σ) := do
  let _ ← add e.counts.size 1
  if memory = .exhausted then return .giveUp data source e .starts
  else
    let v ← slice data e.start e.stop
    let partitioned ← partition less strategy e.splitters e.counts.toList e.labels v e.starts
    ensure (partitioned.starts.head? = some 0) .assertion ()
    let n ← length e
    ensure (partitioned.starts.getLast? = some n) .assertion ()
    return ⟨splice data e.start partitioned.window, source,
      { e with starts := partitioned.starts, labels := [], stage := .recursion }, .ok .advance⟩

/-- Buckets are settled. -/
def onRecursion : Except Panic (Handled α σ) := do
  let threshold ← threshold config
  if memory = .exhausted then return .giveUp data source e .frames
  else
    let (data, entries) ← settleBuckets less threshold e e.splitters e.starts data
    return ⟨data, source, e, .ok (.split entries)⟩

/-- The handler of an entry. -/
def handle [IndexSource σ] : Except Panic (Handled α σ) :=
  match e.stage with
  | .simpleCases => onSimpleCases less source data e
  | .baseCase => onBaseCase less config source data e
  | .sampling =>
    match e.plan? with
    | none => onSampling config source data e
    | some plan => onSample less memory source data e plan
  | .classification => onClassification less memory source data e
  | .partitioning => onPartitioning less strategy memory source data e
  | .recursion => onRecursion less config memory source data e
  | .done => .error .unreachable

end Handlers

/-- One step: the answer, and the ledger after it. -/
def step [IndexSource σ] (less : α → α → Bool) (memory : Memory) (l : Ledger α σ) :
    Except Panic (Except SortError (Option Event) × Ledger α σ) :=
  if l.poisoned then return (.error .poisoned, l)
  else
    match l.stack with
    | [] => return (.ok none, l)
    | e :: below => do
      let depth ← add below.length 1
      let handled ← handle less l.config l.strategy memory l.source l.data e
      return l.settle below ⟨e.stage, e.role, e.start, e.stop, depth⟩ handled

/-! ### When nothing is stopped -/

/-- The window `v` of an entry, in a sequence whose positions are words. -/
structure Readable (data : List α) (e : Entry α) (v : List α) : Prop where
  /-- The window is in the sequence. -/
  slice : slice? data e.start e.stop = .ok v
  /-- Positions are words, and the largest stride can be added to them. -/
  length_lt : data.length < 2 ^ 63

namespace Readable

variable {data v : List α} {e : Entry α}

/-- What goes on once the window has been read. -/
lemma of_bind {β : Type} {next : List α → Except Fault β} {out : β} (h : Readable data e v)
    (hnext : slice? data e.start e.stop >>= next = .ok out) : next v = .ok out := by
  rw [h.slice] at hnext
  exact hnext

lemma start_le (h : Readable data e v) : e.start ≤ e.stop :=
  (slice?_eq_ok_iff.1 h.slice).1.1

lemma stop_le (h : Readable data e v) : e.stop ≤ data.length :=
  (slice?_eq_ok_iff.1 h.slice).1.2

lemma length_eq (h : Readable data e v) : v.length = e.length :=
  length_of_slice?_eq_ok h.slice

/-- The number of elements in the sequence is a word. -/
lemma data_lt (h : Readable data e v) : data.length < wordBound :=
  Nat.lt_trans h.length_lt (by decide)

/-- Positions in the window are positions of the sequence. -/
lemma add_le (h : Readable data e v) {n : Nat} (hn : n ≤ v.length) :
    e.start + n ≤ data.length := by
  have hlength := h.length_eq
  have hstart := h.start_le
  have hstop := h.stop_le
  unfold Entry.length at hlength
  omega

/-- So they are words. -/
lemma add_lt (h : Readable data e v) {n : Nat} (hn : n ≤ v.length) : e.start + n < wordBound :=
  Nat.lt_of_le_of_lt (h.add_le hn) h.data_lt

/-- The number of elements in the window is a word as well. -/
lemma window_lt (h : Readable data e v) : v.length < wordBound :=
  Nat.lt_of_le_of_lt (Nat.le_add_left _ _) (h.add_lt (Nat.le_refl _))

/-- The sequence is a front part, the window, and the rest. -/
lemma eq_append (h : Readable data e v) :
    data = data.take e.start ++ (v ++ data.drop e.stop) := by
  have hsame := splice_slice h.slice
  have hlength := h.length_eq
  have hle := h.start_le
  unfold Entry.length at hlength
  rw [splice, show e.start + v.length = e.stop by omega, List.append_assoc] at hsame
  exact hsame.symm

/-- The front part ends where the window starts. -/
lemma length_take (h : Readable data e v) : (data.take e.start).length = e.start := by
  have h₁ := h.stop_le
  have h₂ := h.start_le
  rw [List.length_take]
  omega

end Readable

/-- A histogram has no more buckets in use than the table has entries. -/
lemma le_of_reset {h h' : Histogram} {size : Nat} (hreset : h.reset size = .ok h') :
    size ≤ maxBuckets := by
  unfold Histogram.reset at hreset
  split at hreset
  · assumption
  · cases hreset

section Handlers

variable {less : α → α → Bool} {config : Config} {strategy : Strategy} {memory : Memory}
  {source : σ} {data v : List α} {e : Entry α} {plan : SamplingPlan} {handled : Handled α σ}

/-- A window at the first glance. -/
lemma onSimpleCases_eq (hread : Readable data e v)
    (h : e.onSimpleCases less source data = .ok handled) :
    onSimpleCases less source data e = .ok handled := by
  rw [onSimpleCases, slice_eq hread.slice, ok_bind]
  by_cases hshape : (Shape.detect less v).value = .unsorted
  · rw [Entry.onSimpleCases_eq hread.slice hshape] at h
    obtain rfl := Except.ok.inj h
    rw [hshape]
    rfl
  · rw [Entry.onSimpleCases_resolve_eq hread.slice hshape] at h
    obtain rfl := Except.ok.inj h
    split
    · next hunsorted => exact absurd hunsorted hshape
    · rfl

/-- A window that is sorted directly, or is too long for that. -/
lemma onBaseCase_eq (hread : Readable data e v) (hc : config.Valid)
    (h : e.onBaseCase less config source data = .ok handled) :
    onBaseCase less config source data e = .ok handled := by
  rw [onBaseCase, length_eq hread.start_le, ok_bind, threshold_eq hc, ok_bind]
  by_cases hshort : e.length ≤ config.threshold
  · rw [Entry.onBaseCase_resolve_eq hread.slice hshort] at h
    obtain rfl := Except.ok.inj h
    rw [if_pos hshort, slice_eq hread.slice, ok_bind, insertionSort_eq less hread.window_lt,
      ok_bind]
    rfl
  · rw [Entry.onBaseCase_eq hshort] at h
    obtain rfl := Except.ok.inj h
    rw [if_neg hshort]
    rfl

/-- A window that a sample is drawn from. -/
lemma onSampling_eq [IndexSource σ] (hread : Readable data e v) (hc : config.Valid)
    (h : e.onSampling config source data = .ok handled) :
    onSampling config source data e = .ok handled := by
  obtain ⟨plan, hplan, h⟩ := exists_ok_of_bind h
  replace h := hread.of_bind h
  obtain ⟨⟨w, source'⟩, hdraw, h⟩ := exists_ok_of_bind h
  obtain rfl := Except.ok.inj h
  have hsamples := Config.samples_le hplan
  rw [← hread.length_eq] at hsamples
  have hstop : add e.start plan.samples = .ok (e.start + plan.samples) :=
    add_eq (hread.add_lt (by omega))
  rw [onSampling, length_eq hread.start_le, ok_bind, samplingPlan_eq hc hplan, ok_bind,
    slice_eq hread.slice, ok_bind, drawSample_eq hdraw, ok_bind]
  simp only [hstop, ok_bind, newEntry, ensure_eq (Nat.le_add_right e.start plan.samples)]
  rfl

/-- A window whose sample has been sorted. -/
lemma onSample_eq (hread : Readable data e v) (hfits : plan.Fits v.length)
    (hstride : plan.stride ≤ strideLimit)
    (h : e.onSample less memory source data plan = .ok handled) :
    onSample less memory source data e plan = .ok handled := by
  obtain ⟨sample, hsample, h⟩ := exists_ok_of_bind h
  have hbuckets : 1 ≤ plan.buckets := Nat.le_of_succ_le hfits.two_le_buckets
  rw [onSample, add_eq (hread.add_lt hfits.samples_le_self), ok_bind, slice_eq hsample, ok_bind,
    sub_eq hbuckets, ok_bind]
  cases memory with
  | exhausted =>
    obtain rfl := Except.ok.inj h
    rw [chooseSplitters_exhausted hfits.stride_pos, ok_bind]
    rfl
  | available =>
    obtain ⟨counts, hcounts, h⟩ := exists_ok_of_bind h
    obtain rfl := Except.ok.inj h
    -- the last position that is looked at may be moved on beyond the sample once
    have hroom : sample.length + plan.stride < wordBound := by
      have hlength := hread.length_lt
      have hwindow := hread.add_le hfits.samples_le_self
      have hsamples := length_of_slice?_eq_ok hsample
      unfold strideLimit wordBound UInt64.size at *
      omega
    rw [chooseSplitters_eq hfits.stride_pos hroom, ok_bind]
    rw [List.nil_append] at hcounts
    generalize (SampleSort.chooseSplitters less plan.stride (plan.buckets - 1) sample).value =
      splitters at hcounts
    have hsize : splitters.length + 1 < wordBound :=
      Nat.lt_of_le_of_lt (le_of_reset hcounts) (by decide)
    have hreset : reset e.counts (splitters.length + 1) = .ok counts := by rw [reset, hcounts]
    simp only [if_true, add_eq hsize, ok_bind, hreset]
    rfl

/-- A window that is labelled. -/
lemma onClassification_eq (hread : Readable data e v)
    (hzeros : e.counts.toList = List.replicate (e.splitters.length + 1) 0)
    (h : e.onClassification less memory source data = .ok handled) :
    onClassification less memory source data e = .ok handled := by
  rw [onClassification, length_eq hread.start_le, ok_bind]
  cases memory with
  | exhausted =>
    obtain rfl := Except.ok.inj h
    rfl
  | available =>
    replace h := hread.of_bind h
    obtain ⟨labelling, hlabelling, h⟩ := exists_ok_of_bind h
    obtain rfl := Except.ok.inj h
    have hsize : e.counts.size = e.splitters.length + 1 := by
      rw [← Histogram.length_toList, hzeros, List.length_replicate]
    have hroom := hasRoom_of_zeros hzeros hread.window_lt
    rw [if_neg (by decide), slice_eq hread.slice, ok_bind, relabelWindow_eq,
      labelWindow_eq hsize hroom hlabelling, ok_bind]
    rfl

/-- A window that is partitioned. -/
lemma onPartitioning_eq (hless : StrictWeak less) (hread : Readable data e v)
    (hsplits : Splits less plan e.splitters v)
    (hlabels : e.labels.map UInt8.toNat = v.map (rank less e.splitters))
    (hcounts : e.counts.toList =
      tally (e.splitters.length + 1) (v.map (rank less e.splitters)))
    (h : e.onPartitioning less strategy memory source data = .ok handled) :
    onPartitioning less strategy memory source data e = .ok handled := by
  have hlength : e.counts.toList.length = e.splitters.length + 1 := by rw [hcounts, length_tally]
  have hsum := sum_of_tally hcounts
  have hbuckets := hsplits.length_succ_le
  have hsize : e.counts.size + 1 < wordBound :=
    Nat.lt_of_le_of_lt (Nat.succ_le_succ e.counts.size_le) (by decide)
  rw [onPartitioning, add_eq hsize, ok_bind]
  cases memory with
  | exhausted =>
    obtain rfl := Except.ok.inj h
    rfl
  | available =>
    replace h := hread.of_bind h
    obtain ⟨partitioned, hpartitioned, h⟩ := exists_ok_of_bind h
    obtain rfl := Except.ok.inj h
    have hstarts : partitioned.starts = offsets e.counts.toList := by
      obtain ⟨result, _, hresult, -, -, hstarts⟩ := strategy.exists_partition hless
        (hsplits.notGreater hless) hbuckets hlabels hcounts
      obtain rfl := Except.ok.inj (hpartitioned.symm.trans hresult)
      exact hstarts
    have hfirst : partitioned.starts.head? = some 0 := by
      rw [hstarts, offsets, ← cons_tail_offsetsFrom]
      rfl
    have hlast : partitioned.starts.getLast? = some e.length := by
      rw [hstarts, getLast?_offsets, hsum, hread.length_eq]
    have hchecked := partition_eq hlength (by omega) (by simpa using congrArg List.length hlabels)
      hsum hread.window_lt hpartitioned e.starts
    rw [if_neg (by decide), slice_eq hread.slice, ok_bind, hchecked, ok_bind, ensure_eq hfirst,
      ok_bind, length_eq hread.start_le, ok_bind, ensure_eq hlast, ok_bind]
    rfl

/-- A window whose buckets are settled. -/
lemma onRecursion_eq (hread : Readable data e v) (hc : config.Valid) {sizes : List Nat}
    (hstarts : e.starts = offsets sizes) (hsizes : sizes.length = e.splitters.length + 1)
    (hbuckets : sizes.length + 1 < wordBound) (hsum : sizes.sum = v.length)
    (h : e.onRecursion less config memory source data = .ok handled) :
    onRecursion less config memory source data e = .ok handled := by
  rw [onRecursion, threshold_eq hc, ok_bind]
  cases memory with
  | exhausted =>
    obtain rfl := Except.ok.inj h
    rfl
  | available =>
    replace h := hread.of_bind h
    obtain ⟨settled, hsettled, h⟩ := exists_ok_of_bind h
    obtain rfl := Except.ok.inj h
    rw [hstarts] at hsettled
    have hperm : (settled.map Settled.elements).flatten.Perm v := by
      obtain ⟨settled', hsettled', hperm⟩ := exists_settleBuckets_perm (b := 0) less
        config.threshold (by rw [Nat.zero_add, hsizes])
        (show 0 + sizes.sum = v.length by rw [Nat.zero_add, hsum])
      obtain rfl := Except.ok.inj (hsettled.symm.trans hsettled')
      exact hperm
    have hdata := hread.eq_append
    have hall : (data.take e.start ++ (v ++ data.drop e.stop)).length < wordBound := by
      rw [← hdata]
      exact hread.data_lt
    have hchecked := settleBuckets_eq hread.start_le hread.length_eq hread.length_take hall hbuckets
      hsum hsettled
    have hsplice := splice_append (data.take e.start) v (data.drop e.stop) hperm.length_eq
    rw [← hdata] at hchecked hsplice
    rw [hread.length_take] at hsplice
    rw [if_neg (by decide), hstarts, hchecked, ok_bind, hsplice]
    rfl

/-- The handler of an entry whose frame knows what it needs is not stopped. -/
theorem handle_eq [IndexSource σ] {f : Frame α} (hless : StrictWeak less)
    (hread : Readable data f.entry v) (hc : config.Valid) (hholds : f.phase.Holds less v)
    (hstride : ∀ plan, f.phase.plan? = some plan → plan.stride ≤ strideLimit)
    (h : f.entry.handle less config strategy memory source data = .ok handled) :
    handle less config strategy memory source data f.entry = .ok handled := by
  obtain ⟨start, stop, role, phase⟩ := f
  cases phase with
  | simpleCases => exact onSimpleCases_eq hread h
  | baseCase => exact onBaseCase_eq hread hc h
  | sampling => exact onSampling_eq hread hc h
  | awaiting plan => exact onSample_eq hread hholds (hstride plan rfl) h
  | classification plan splitters counts => exact onClassification_eq hread hholds.2 h
  | partitioning plan splitters counts labels =>
    obtain ⟨hsplits, hlabels, hcounts⟩ := hholds
    exact onPartitioning_eq hless hread hsplits hlabels hcounts h
  | recursion plan splitters counts starts =>
    obtain ⟨hsplits, hcounts, hstarts, -⟩ := hholds
    have hsizes : counts.toList.length = splitters.length + 1 := by rw [hcounts, length_tally]
    have hbuckets : counts.toList.length + 1 < wordBound := by
      rw [Histogram.length_toList]
      exact Nat.lt_of_le_of_lt (Nat.succ_le_succ counts.size_le) (by decide)
    exact onRecursion_eq hread hc hstarts hsizes hbuckets (sum_of_tally hcounts) h

end Handlers

/-- A step whose handler does what the handler does that does not check is the step of the
ledger. -/
theorem step_eq [IndexSource σ] {less : α → α → Bool} {memory : Memory} {l : Ledger α σ}
    {e : Entry α} {below : List (Entry α)} {handled : Handled α σ} (hpoisoned : l.poisoned = false)
    (hstack : l.stack = e :: below) (hdepth : below.length + 1 < wordBound)
    (hhandle : handle less l.config l.strategy memory l.source l.data e = .ok handled) :
    step less memory l =
      .ok (l.settle below ⟨e.stage, e.role, e.start, e.stop, below.length + 1⟩ handled) := by
  simp only [step, hpoisoned, hstack, Bool.false_eq_true, if_false, add_eq hdepth, ok_bind, hhandle]
  rfl

end SampleSort.Checked
