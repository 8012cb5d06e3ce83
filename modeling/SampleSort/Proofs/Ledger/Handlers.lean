import SampleSort.Proofs.Ledger.Entry
import SampleSort.Proofs.Transition

set_option relaxedAutoImplicit false
set_option autoImplicit false

/-!
# Handlers of entries

For every stage there is a handler, which works on the sequence and on an entry that has been taken
off the stack. A handler that needs memory drops what stands in its tables, asks for the memory, and
only then goes on. If there is none, it gives up, and what it has done to the entry by then stays
done.

## Main definitions

* `SampleSort.Verdict` — what a handler wants done with its entry.
* `SampleSort.Handled` — what a handler leaves.
* `SampleSort.Entry.handle` — the handler of an entry.
* `SampleSort.Handled.ofTurn` — what is left after the turn of a frame.

## Main results

* `SampleSort.Entry.Tidy.handle_exhausted` — without memory, a handler leaves a tidy entry as it
  was.
* `SampleSort.Entry.Tidy.handle` — the handler of a tidy entry leaves tidy entries.
* `SampleSort.Frame.handle_entry` — the handler of a frame's entry does what the turn of the frame
  does.
-/

namespace SampleSort

variable {α σ : Type}

/-- What a handler wants done with its entry. -/
inductive Verdict (α : Type) where
  /-- It goes back on the stack. -/
  | advance
  /-- Its window is sorted. -/
  | resolve
  /-- It goes back on the stack, and another one on top of it. -/
  | descend (child : Entry α)
  /-- Others take its place, the one to be worked on next first. -/
  | split (children : List (Entry α))
  deriving DecidableEq

/-- The entries that come on the stack besides the one that has been handled. -/
def Verdict.children : Verdict α → List (Entry α)
  | .advance => []
  | .resolve => []
  | .descend child => [child]
  | .split children => children

/-- What a handler leaves. -/
structure Handled (α σ : Type) where
  /-- The sequence. -/
  data : List α
  /-- The source of randomness. -/
  source : σ
  /-- The entry, with all that has been done to it. -/
  entry : Entry α
  /-- What should become of it, unless the handler has failed. -/
  verdict : Except SortError (Verdict α)
  deriving DecidableEq

/-- A handler gives up because memory cannot be had. -/
def Handled.giveUp (data : List α) (source : σ) (e : Entry α) (what : Bookkeeping) :
    Handled α σ :=
  ⟨data, source, e, .error (.allocation what e.start e.stop)⟩

/-- What a handler leaves is tidy. -/
structure Handled.Tidy (handled : Handled α σ) : Prop where
  /-- The entry that it has worked on is. -/
  entry : handled.entry.Tidy
  /-- So are those that come on the stack besides it. -/
  children : ∀ verdict, handled.verdict = .ok verdict → ∀ e ∈ verdict.children, e.Tidy

namespace Handled.Tidy

variable {data : List α} {source : σ} {e : Entry α}

/-- Nothing but the entry has to be tidy if there are no others. -/
lemma alone {verdict : Except SortError (Verdict α)} (h : e.Tidy)
    (hnone : ∀ v, verdict = .ok v → v.children = []) :
    (⟨data, source, e, verdict⟩ : Handled α σ).Tidy := by
  refine ⟨h, fun v hv e' he' => ?_⟩
  rw [hnone v hv] at he'
  cases he'

/-- The entry goes back on the stack. -/
lemma advance (h : e.Tidy) : (⟨data, source, e, .ok .advance⟩ : Handled α σ).Tidy :=
  alone h fun v hv => by
    obtain rfl := Except.ok.inj hv
    rfl

/-- The entry is done with. -/
lemma resolve (h : e.Tidy) : (⟨data, source, e, .ok .resolve⟩ : Handled α σ).Tidy :=
  alone h fun v hv => by
    obtain rfl := Except.ok.inj hv
    rfl

/-- The handler has given up. -/
lemma giveUp (h : e.Tidy) (what : Bookkeeping) : (Handled.giveUp data source e what).Tidy :=
  alone h fun v hv => by cases hv

end Handled.Tidy

namespace Entry

section Handlers

variable (less : α → α → Bool) (config : Config) (strategy : Strategy) (memory : Memory)
  (source : σ) (data : List α) (e : Entry α)

/-- A window that is resolved at a glance is put in order. -/
def onSimpleCases : Except Fault (Handled α σ) := do
  let v ← slice? data e.start e.stop
  match (Shape.detect less v).value with
  | .unsorted => return ⟨data, source, { e with stage := .baseCase }, .ok .advance⟩
  | shape => return ⟨splice data e.start (shape.arrange v), source, e, .ok .resolve⟩

/-- A short window is sorted by insertion. -/
def onBaseCase : Except Fault (Handled α σ) := do
  if e.length ≤ config.threshold then
    let v ← slice? data e.start e.stop
    return ⟨splice data e.start (insertionSort less v).value, source, e, .ok .resolve⟩
  else return ⟨data, source, { e with stage := .sampling }, .ok .advance⟩

/-- A sample is drawn and handed to an entry of its own. -/
def onSampling [IndexSource σ] : Except Fault (Handled α σ) := do
  let plan ← config.samplingPlan e.length
  let v ← slice? data e.start e.stop
  let (v, source) ← drawSample plan.samples v source
  return ⟨splice data e.start v, source, { e with plan? := some plan },
    .ok (.descend (.fresh e.start (e.start + plan.samples) .sample))⟩

/-- Splitters are chosen from the sorted sample. Those that stand there are dropped first. -/
def onSample (plan : SamplingPlan) : Except Fault (Handled α σ) := do
  let sample ← slice? data e.start (e.start + plan.samples)
  let e := { e with splitters := [] }
  if memory = .exhausted then return .giveUp data source e .splitters
  else
    let chosen := (chooseSplitters less plan.stride (plan.buckets - 1) sample).value
    let e := { e with splitters := e.splitters ++ chosen }
    let counts ← e.counts.reset (e.splitters.length + 1)
    return ⟨data, source, { e with counts, stage := .classification }, .ok .advance⟩

/-- Elements are labelled. Labels that stand there are dropped first. -/
def onClassification : Except Fault (Handled α σ) := do
  let e := { e with labels := [] }
  if memory = .exhausted then return .giveUp data source e .labels
  else
    let v ← slice? data e.start e.stop
    let labelling ← (labelWindow less e.splitters e.counts v).value
    return ⟨data, source,
      { e with
        counts := labelling.counts
        labels := e.labels ++ labelling.labels
        stage := .partitioning },
      .ok .advance⟩

/-- The window is partitioned. The table of where buckets begin is dropped only when it is written,
after memory has been asked for, and the labels when they have been used. -/
def onPartitioning : Except Fault (Handled α σ) := do
  if memory = .exhausted then return .giveUp data source e .starts
  else
    let v ← slice? data e.start e.stop
    let partitioned ← (strategy.partition less e.splitters e.counts.toList e.labels v).value
    return ⟨splice data e.start partitioned.window, source,
      { e with starts := partitioned.starts, labels := [], stage := .recursion }, .ok .advance⟩

/-- Buckets are settled. -/
def onRecursion : Except Fault (Handled α σ) := do
  if memory = .exhausted then return .giveUp data source e .frames
  else
    let v ← slice? data e.start e.stop
    let settled ←
      settleBuckets less config.threshold e.splitters v 0 (e.starts.zip e.starts.tail)
    return ⟨splice data e.start (settled.map Settled.elements).flatten, source, e,
      .ok (.split ((settled.filterMap Settled.pending).map fun w =>
        .fresh (e.start + w.1) (e.start + w.2) .main))⟩

/-- The handler of an entry. -/
def handle [IndexSource σ] : Except Fault (Handled α σ) :=
  match e.stage with
  | .simpleCases => onSimpleCases less source data e
  | .baseCase => onBaseCase less config source data e
  | .sampling =>
    match e.plan? with
    | none => onSampling config source data e
    | some plan => onSample less memory source data e plan
  | .classification => onClassification less memory source data e
  | .partitioning => onPartitioning less strategy memory source data e
  | .recursion => onRecursion less config memory source data e
  | .done => .error .unreachable

end Handlers

/-! ### What handlers do with memory -/

variable {less : α → α → Bool} {config : Config} {strategy : Strategy} {memory : Memory}
  {source source' : σ} {data v w sample : List α} {e : Entry α} {plan : SamplingPlan}
  {what : Bookkeeping}

/-- An unsorted window is looked at again. -/
lemma onSimpleCases_eq (hread : slice? data e.start e.stop = .ok v)
    (h : (Shape.detect less v).value = .unsorted) :
    onSimpleCases less source data e =
      .ok ⟨data, source, { e with stage := .baseCase }, .ok .advance⟩ := by
  rw [onSimpleCases, hread]
  simp only [bind, Except.bind, h]
  rfl

/-- Others are put in order. -/
lemma onSimpleCases_resolve_eq (hread : slice? data e.start e.stop = .ok v)
    (h : (Shape.detect less v).value ≠ .unsorted) :
    onSimpleCases less source data e =
      .ok ⟨splice data e.start ((Shape.detect less v).value.arrange v), source, e,
        .ok .resolve⟩ := by
  rw [onSimpleCases, hread]
  simp only [bind, Except.bind]
  rfl

/-- A long window is to be sampled. -/
lemma onBaseCase_eq (h : ¬e.length ≤ config.threshold) :
    onBaseCase less config source data e =
      .ok ⟨data, source, { e with stage := .sampling }, .ok .advance⟩ := by
  rw [onBaseCase, if_neg h]
  rfl

/-- A short one is sorted directly. -/
lemma onBaseCase_resolve_eq (hread : slice? data e.start e.stop = .ok v)
    (h : e.length ≤ config.threshold) :
    onBaseCase less config source data e =
      .ok ⟨splice data e.start (insertionSort less v).value, source, e, .ok .resolve⟩ := by
  rw [onBaseCase, if_pos h, hread]
  rfl

/-- A sample is drawn. -/
lemma onSampling_eq [IndexSource σ] (hread : slice? data e.start e.stop = .ok v)
    (hplan : config.samplingPlan e.length = .ok plan)
    (hdraw : drawSample plan.samples v source = .ok (w, source')) :
    onSampling config source data e =
      .ok ⟨splice data e.start w, source', { e with plan? := some plan },
        .ok (.descend (.fresh e.start (e.start + plan.samples) .sample))⟩ := by
  rw [onSampling, hplan, hread]
  simp only [bind, Except.bind, hdraw]
  rfl

/-- Splitters are chosen, and nothing is left of those that stood there. -/
lemma onSample_eq {splitters : List α} {counts : Histogram}
    (hsample : slice? data e.start (e.start + plan.samples) = .ok sample)
    (hsplitters :
      (chooseSplitters less plan.stride (plan.buckets - 1) sample).value = splitters)
    (hcounts : e.counts.reset (splitters.length + 1) = .ok counts) :
    onSample less .available source data e plan =
      .ok ⟨data, source, { e with splitters, counts, stage := .classification },
        .ok .advance⟩ := by
  subst hsplitters
  rw [onSample, hsample]
  simp only [bind, Except.bind, List.nil_append, hcounts]
  rfl

/-- Elements are labelled, and nothing is left of the labels that stood there. -/
lemma onClassification_eq {labelling : Labelling}
    (hread : slice? data e.start e.stop = .ok v)
    (h : (labelWindow less e.splitters e.counts v).value = .ok labelling) :
    onClassification less .available source data e =
      .ok ⟨data, source,
        { e with
          counts := labelling.counts
          labels := labelling.labels
          stage := .partitioning },
        .ok .advance⟩ := by
  rw [onClassification, if_neg (by decide)]
  simp only [bind, Except.bind, hread, h, List.nil_append]
  rfl

/-- The window is partitioned. -/
lemma onPartitioning_eq {partitioned : Partitioned α}
    (hread : slice? data e.start e.stop = .ok v)
    (h : (strategy.partition less e.splitters e.counts.toList e.labels v).value =
      .ok partitioned) :
    onPartitioning less strategy .available source data e =
      .ok ⟨splice data e.start partitioned.window, source,
        { e with starts := partitioned.starts, labels := [], stage := .recursion },
        .ok .advance⟩ := by
  rw [onPartitioning, if_neg (by decide)]
  simp only [bind, Except.bind, hread, h]
  rfl

/-- Buckets are settled. -/
lemma onRecursion_eq {settled : List (Settled α)}
    (hread : slice? data e.start e.stop = .ok v)
    (h : settleBuckets less config.threshold e.splitters v 0 (e.starts.zip e.starts.tail) =
      .ok settled) :
    onRecursion less config .available source data e =
      .ok ⟨splice data e.start (settled.map Settled.elements).flatten, source, e,
        .ok (.split ((settled.filterMap Settled.pending).map fun w =>
          .fresh (e.start + w.1) (e.start + w.2) .main))⟩ := by
  rw [onRecursion, if_neg (by decide)]
  simp only [bind, Except.bind, hread, h]
  rfl

/-! ### What handlers do without memory -/

/-- A handler that reserves no memory does not notice whether there is any. -/
lemma handle_of_not_reserves [IndexSource σ] (memory : Memory) (h : ∀ what, ¬e.Reserves what) :
    e.handle less config strategy memory source data =
      e.handle less config strategy .available source data := by
  obtain ⟨start, stop, role, stage, plan?, splitters, counts, labels, starts⟩ := e
  cases stage with
  | simpleCases => rfl
  | baseCase => rfl
  | sampling =>
    cases plan? with
    | none => rfl
    | some plan => exact absurd (.splitters rfl (Option.some_ne_none plan)) (h .splitters)
  | classification => exact absurd (.labels rfl) (h .labels)
  | partitioning => exact absurd (.starts rfl) (h .starts)
  | recursion => exact absurd (.frames rfl) (h .frames)
  | done => rfl

/-- Without memory, the handler of a tidy entry gives up and leaves the entry as it was: what it
drops before it asks for memory was empty. -/
theorem Tidy.handle_exhausted [IndexSource σ] (h : e.Tidy) (hreserves : e.Reserves what)
    (hsample : ∀ plan, e.stage = .sampling → e.plan? = some plan →
      ∃ sample, slice? data e.start (e.start + plan.samples) = .ok sample) :
    e.handle less config strategy .exhausted source data = .ok (.giveUp data source e what) := by
  obtain ⟨start, stop, role, stage, plan?, splitters, counts, labels, starts⟩ := e
  cases hreserves with
  | splitters hstage hplan =>
    obtain rfl : stage = .sampling := hstage
    obtain ⟨plan, rfl⟩ := Option.ne_none_iff_exists'.1 hplan
    obtain ⟨rfl, -, -, -⟩ : splitters = [] ∧ counts = .empty ∧ labels = [] ∧ starts = [] := h
    obtain ⟨sample, hsample⟩ := hsample plan rfl rfl
    show onSample _ _ _ _ _ _ = _
    rw [onSample, hsample]
    rfl
  | labels hstage =>
    obtain rfl : stage = .classification := hstage
    obtain ⟨-, rfl, -⟩ : plan?.isSome ∧ labels = [] ∧ starts = [] := h
    rfl
  | starts hstage =>
    obtain rfl : stage = .partitioning := hstage
    rfl
  | frames hstage =>
    obtain rfl : stage = .recursion := hstage
    rfl

/-! ### What handlers leave -/

/-- The handler of a tidy entry leaves tidy entries, whether there is memory or not.

**Proof sketch.** Cases of the stage. A handler fills the table that its stage is about, and the
next stage has more tables that may be filled. If it gives up it has only dropped one. -/
theorem Tidy.handle [IndexSource σ] {handled : Handled α σ} (h : e.Tidy)
    (hhandled : e.handle less config strategy memory source data = .ok handled) :
    handled.Tidy := by
  obtain ⟨start, stop, role, stage, plan?, splitters, counts, labels, starts⟩ := e
  cases stage with
  | simpleCases =>
    obtain ⟨v, -, hhandled⟩ := exists_ok_of_bind hhandled
    split at hhandled
    · obtain rfl := Except.ok.inj hhandled
      exact .advance h
    · obtain rfl := Except.ok.inj hhandled
      exact .resolve h
  | baseCase =>
    replace hhandled : onBaseCase _ _ _ _ _ = _ := hhandled
    rw [onBaseCase] at hhandled
    split at hhandled
    · obtain ⟨v, -, hhandled⟩ := exists_ok_of_bind hhandled
      obtain rfl := Except.ok.inj hhandled
      exact .resolve h
    · obtain rfl := Except.ok.inj hhandled
      exact .advance h.2
  | sampling =>
    cases plan? with
    | none =>
      obtain ⟨plan, -, hhandled⟩ := exists_ok_of_bind hhandled
      obtain ⟨v, -, hhandled⟩ := exists_ok_of_bind hhandled
      obtain ⟨⟨w, source'⟩, -, hhandled⟩ := exists_ok_of_bind hhandled
      obtain rfl := Except.ok.inj hhandled
      refine ⟨h, fun v hv e' he' => ?_⟩
      obtain rfl := Except.ok.inj hv
      obtain rfl := List.mem_singleton.1 he'
      exact tidy_fresh _ _ _
    | some plan =>
      obtain ⟨-, hcounts, hlabels, hstarts⟩ := h
      obtain ⟨sample, -, hhandled⟩ := exists_ok_of_bind hhandled
      split at hhandled
      · obtain rfl := Except.ok.inj hhandled
        refine .giveUp ?_ _
        exact ⟨rfl, hcounts, hlabels, hstarts⟩
      · obtain ⟨counts', -, hhandled⟩ := exists_ok_of_bind hhandled
        obtain rfl := Except.ok.inj hhandled
        exact .advance ⟨rfl, hlabels, hstarts⟩
  | classification =>
    obtain ⟨hplan, -, hstarts⟩ := h
    replace hhandled : onClassification _ _ _ _ _ = _ := hhandled
    rw [onClassification] at hhandled
    split at hhandled
    · obtain rfl := Except.ok.inj hhandled
      refine .giveUp ?_ _
      exact ⟨hplan, rfl, hstarts⟩
    · obtain ⟨v, -, hhandled⟩ := exists_ok_of_bind hhandled
      obtain ⟨labelling, -, hhandled⟩ := exists_ok_of_bind hhandled
      obtain rfl := Except.ok.inj hhandled
      exact .advance ⟨hplan, hstarts⟩
  | partitioning =>
    replace hhandled : onPartitioning _ _ _ _ _ _ = _ := hhandled
    rw [onPartitioning] at hhandled
    split at hhandled
    · obtain rfl := Except.ok.inj hhandled
      exact .giveUp h _
    · obtain ⟨v, -, hhandled⟩ := exists_ok_of_bind hhandled
      obtain ⟨partitioned, -, hhandled⟩ := exists_ok_of_bind hhandled
      obtain rfl := Except.ok.inj hhandled
      exact .advance ⟨h.1, rfl⟩
  | recursion =>
    replace hhandled : onRecursion _ _ _ _ _ _ = _ := hhandled
    rw [onRecursion] at hhandled
    split at hhandled
    · obtain rfl := Except.ok.inj hhandled
      exact .giveUp h _
    · obtain ⟨v, -, hhandled⟩ := exists_ok_of_bind hhandled
      obtain ⟨settled, -, hhandled⟩ := exists_ok_of_bind hhandled
      obtain rfl := Except.ok.inj hhandled
      refine ⟨h, fun v hv e' he' => ?_⟩
      obtain rfl := Except.ok.inj hv
      obtain ⟨w, -, rfl⟩ := List.mem_map.1 he'
      exact tidy_fresh _ _ _
  | done => exact h.elim

end Entry

/-! ### Handlers and turns -/

namespace Frame

/-- An entry reserves what the frame's phase says. -/
lemma reserves_entry_iff {f : Frame α} {what : Bookkeeping} :
    f.entry.Reserves what ↔ f.phase.reservation? = some what := by
  obtain ⟨start, stop, role, phase⟩ := f
  constructor
  · intro h
    cases phase <;> cases h <;>
      simp_all [entry, stage, Phase.stage, Phase.plan?, Phase.reservation?]
  · intro h
    cases phase with
    | simpleCases => cases h
    | baseCase => cases h
    | sampling => cases h
    | awaiting plan =>
      obtain rfl := Option.some.inj h
      exact .splitters rfl (Option.some_ne_none plan)
    | classification =>
      obtain rfl := Option.some.inj h
      exact .labels rfl
    | partitioning =>
      obtain rfl := Option.some.inj h
      exact .starts rfl
    | recursion =>
      obtain rfl := Option.some.inj h
      exact .frames rfl

/-- An entry that is being sampled and has a plan is that of a frame that waits for its sample. -/
lemma phase_eq_awaiting {f : Frame α} {plan : SamplingPlan} (hstage : f.entry.stage = .sampling)
    (hplan : f.entry.plan? = some plan) : f.phase = .awaiting plan := by
  obtain ⟨start, stop, role, phase⟩ := f
  cases phase with
  | awaiting plan' => rw [Option.some.inj hplan]
  | sampling => cases hplan
  | _ => cases hstage

/-- The frame as a turn leaves it, whatever becomes of it then. -/
def left (f : Frame α) : Transition α → Frame α
  | .advance phase => { f with phase }
  | .descend plan => { f with phase := .awaiting plan }
  | _ => f

/-- What a turn of a frame wants done with its entry. -/
def verdict (f : Frame α) : Transition α → Except SortError (Verdict α)
  | .advance _ => .ok .advance
  | .resolve => .ok .resolve
  | .descend plan => .ok (.descend (.fresh f.start (f.start + plan.samples) .sample))
  | .split windows =>
    .ok (.split (windows.map fun w => .fresh (f.start + w.1) (f.start + w.2) .main))
  | .refuse what => .error (.allocation what f.start f.stop)

end Frame

/-- What is left after the turn of a frame. -/
def Handled.ofTurn (data : List α) (f : Frame α) (t : Turn α σ) : Handled α σ :=
  ⟨splice data f.start t.window, t.source, (f.left t.transition).entry, f.verdict t.transition⟩

section Turns

variable {less : α → α → Bool} {config : Config} {strategy : Strategy} {memory : Memory}
  {source : σ} {data v : List α} {f : Frame α} {t : Turn α σ}

/-- A turn that is refused leaves everything. -/
lemma Handled.ofTurn_refuse (hread : slice? data f.start f.stop = .ok v) (source : σ)
    (what : Bookkeeping) :
    Handled.ofTurn data f ⟨v, source, .refuse what⟩ = .giveUp data source f.entry what := by
  rw [ofTurn, splice_slice hread]
  rfl

/-- A turn that only looks at the window leaves the sequence. -/
lemma Handled.ofTurn_advance (hread : slice? data f.start f.stop = .ok v) (source : σ)
    (phase : Phase α) :
    Handled.ofTurn data f ⟨v, source, .advance phase⟩ =
      ⟨data, source, Frame.entry { f with phase }, .ok .advance⟩ := by
  rw [ofTurn, splice_slice hread]
  rfl

/-- A slice at the front of a window is one of the sequence. -/
lemma slice?_front {start stop : Nat} (hread : slice? data start stop = .ok v) {n : Nat}
    (hn : n ≤ v.length) : slice? data start (start + n) = slice? v 0 n := by
  have hlength := length_of_slice?_eq_ok hread
  obtain ⟨⟨hle, hstop⟩, rfl⟩ := slice?_eq_ok_iff.1 hread
  rw [hlength] at hn
  rw [slice?, if_pos (by omega), slice?, if_pos (by omega)]
  simp only [List.drop_zero, List.take_drop, List.take_take]
  rw [Nat.min_eq_left (by omega)]

variable [IndexSource σ]

/-- With memory, the handler of a frame's entry does what the work of the frame's phase does.

**Proof sketch.** One case for each phase: the work of the phase is taken apart, and the values of
its parts are what the lemma on the handler of that stage asks for. -/
theorem Frame.handle_entry_available (hread : slice? data f.start f.stop = .ok v)
    (hsample : ∀ plan, f.phase = .awaiting plan → plan.samples ≤ v.length)
    (h : f.phase.work less config strategy source v = .ok t) :
    f.entry.handle less config strategy .available source data = .ok (.ofTurn data f t) := by
  have hlength : f.entry.length = v.length := (length_of_slice?_eq_ok hread).symm
  obtain ⟨start, stop, role, phase⟩ := f
  cases phase with
  | simpleCases =>
    by_cases hshape : (Shape.detect less v).value = .unsorted
    · rw [Phase.work_simpleCases_eq hshape] at h
      obtain rfl := Except.ok.inj h
      rw [Handled.ofTurn_advance hread]
      exact Entry.onSimpleCases_eq hread hshape
    · rw [Phase.work_simpleCases_resolve_eq hshape] at h
      obtain rfl := Except.ok.inj h
      exact Entry.onSimpleCases_resolve_eq hread hshape
  | baseCase =>
    by_cases hshort : v.length ≤ config.threshold
    · rw [Phase.work_baseCase_resolve_eq hshort] at h
      obtain rfl := Except.ok.inj h
      exact Entry.onBaseCase_resolve_eq hread (by rwa [hlength])
    · rw [Phase.work_baseCase_eq hshort] at h
      obtain rfl := Except.ok.inj h
      rw [Handled.ofTurn_advance hread]
      exact Entry.onBaseCase_eq (by rwa [hlength])
  | sampling =>
    obtain ⟨plan, hplan, h⟩ := exists_ok_of_bind h
    obtain ⟨⟨w, source'⟩, hdraw, h⟩ := exists_ok_of_bind h
    obtain rfl := Except.ok.inj h
    exact Entry.onSampling_eq hread (by rwa [hlength]) hdraw
  | awaiting plan =>
    obtain ⟨sample, hslice, h⟩ := exists_ok_of_bind h
    obtain ⟨counts, hcounts, h⟩ := exists_ok_of_bind h
    obtain rfl := Except.ok.inj h
    rw [Handled.ofTurn_advance hread]
    rw [← slice?_front hread (hsample plan rfl)] at hslice
    exact Entry.onSample_eq hslice rfl hcounts
  | classification plan splitters counts =>
    obtain ⟨labelling, hlabelling, h⟩ := exists_ok_of_bind h
    obtain rfl := Except.ok.inj h
    rw [Handled.ofTurn_advance hread]
    exact Entry.onClassification_eq hread hlabelling
  | partitioning plan splitters counts labels =>
    obtain ⟨partitioned, hpartitioned, h⟩ := exists_ok_of_bind h
    obtain rfl := Except.ok.inj h
    exact Entry.onPartitioning_eq hread hpartitioned
  | recursion plan splitters counts starts =>
    obtain ⟨settled, hsettled, h⟩ := exists_ok_of_bind h
    obtain rfl := Except.ok.inj h
    exact Entry.onRecursion_eq hread hsettled

/-- The handler of a frame's entry does what the turn of the frame does. Without memory, it leaves
what it found because the entry is tidy. -/
theorem Frame.handle_entry (hread : slice? data f.start f.stop = .ok v)
    (hsample : ∀ plan, f.phase = .awaiting plan → plan.samples ≤ v.length)
    (h : f.phase.turn less config strategy memory source v = .ok t) :
    f.entry.handle less config strategy memory source data = .ok (.ofTurn data f t) := by
  cases memory with
  | available =>
    rw [Phase.turn_available] at h
    exact handle_entry_available hread hsample h
  | exhausted =>
    cases hreservation : f.phase.reservation? with
    | none =>
      have hnone : ∀ what, ¬f.entry.Reserves what := fun what hreserves => by
        rw [reserves_entry_iff, hreservation] at hreserves
        cases hreserves
      rw [Phase.turn_of_reservation?_eq_none hreservation] at h
      rw [Entry.handle_of_not_reserves .exhausted hnone]
      exact handle_entry_available hread hsample h
    | some what =>
      rw [Phase.turn_exhausted hreservation] at h
      obtain rfl := Except.ok.inj h
      rw [Handled.ofTurn_refuse hread]
      refine f.tidy_entry.handle_exhausted (reserves_entry_iff.2 hreservation) ?_
      intro plan hstage hplan
      have hsamples := hsample plan (phase_eq_awaiting hstage hplan)
      exact ⟨_, (slice?_front hread hsamples).trans (slice?_eq_window (Nat.zero_le _) hsamples)⟩

end Turns

end SampleSort
