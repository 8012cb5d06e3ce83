import SampleSort.Proofs.Recursion
import SampleSort.Proofs.Termination

set_option relaxedAutoImplicit false
set_option autoImplicit false

/-!
# The machine does what the recursion does

A call of the recursive sort corresponds to a fresh frame on top of the stack: the machine works
until that frame and all that has come of it are gone, whatever lies below, and what it leaves in
the window is what the call returns. The frames of the buckets are put up all at once, after the
short buckets have been sorted, where the recursion goes through the buckets from the left to the
right; but they concern different parts of the window, so that the order makes no difference.

## Main definitions

* `SampleSort.Machine.Runs` — successful steps with memory.
* `SampleSort.Machine.put` — a machine with a window, the stack and the source overwritten.
* `SampleSort.Performs` — frames on top of the stack amount to a sorting of a window.

## Main results

* `SampleSort.Performs.turn`, `trans`, `within`, `append` — how performances are put together.
* `SampleSort.Bucketed.exists_performs` — pending buckets amount to the recursion on the buckets.
* `SampleSort.simulated` — a fresh frame amounts to a recursive call.
* `SampleSort.Machine.run_refines_recursiveSort` — a run yields what the recursion yields.
-/

namespace SampleSort

variable {α σ : Type} {less : α → α → Bool} {config : Config} {strategy : Strategy}

/-- What a step has done, without the number of frames. -/
def Event.visit (e : Event) : Visit :=
  ⟨e.stage, e.role, e.start, e.stop⟩

/-! ### Overwriting -/

/-- Overwriting inside a window that has been overwritten is overwriting by what becomes of it. -/
lemma splice_splice {v w u : List α} {start k : Nat} (hw : start + w.length ≤ v.length)
    (hu : k + u.length ≤ w.length) :
    splice (splice v start w) (start + k) u = splice v start (splice w k u) := by
  have hlength : (splice w k u).length = w.length := length_splice hu
  apply List.ext_getElem?
  intro p
  rw [getElem?_splice (by rw [length_splice hw]; omega), getElem?_splice hw,
    getElem?_splice (by rw [hlength]; exact hw), hlength]
  by_cases hstart : p < start
  · have hk : p < start + k := by omega
    simp only [hstart, hk, if_true]
  · by_cases hstop : p < start + w.length
    · have hk : p - start < k ↔ p < start + k := by omega
      have hkl : p - start < k + u.length ↔ p < start + k + u.length := by omega
      simp only [hstart, hstop, if_true, if_false, getElem?_splice hu, hk, hkl, Nat.sub_add_eq]
    · have hk : ¬p < start + k := by omega
      have hkl : ¬p < start + k + u.length := by omega
      simp only [hstart, hstop, hk, hkl, if_false]

/-- Overwriting the middle of three parts. -/
lemma splice_middle (u x : List α) {w w' : List α} (h : w'.length = w.length) :
    splice (u ++ w ++ x) u.length w' = u ++ w' ++ x := by
  simp [splice, h]

namespace Machine

/-- The machine with the elements from `start` on overwritten by `w`, with another stack and
another source, after more steps. -/
def put (m : Machine α σ) (start : Nat) (w : List α) (stack : List (Frame α)) (source : σ)
    (taken : Nat) : Machine α σ :=
  { m with data := writeWindow m.data start w, stack, source, steps := m.steps + taken }

variable {m m' m'' : Machine α σ} {start : Nat} {v w u : List α} {stack stack' : List (Frame α)}
  {source source' : σ} {events events' : List Event}

/-- A window of what is overwritten is overwritten again. -/
lemma put_put (hw : start + w.length ≤ m.data.size) {k : Nat} (hu : k + u.length ≤ w.length)
    (n n' : Nat) :
    (m.put start w stack source n).put (start + k) u stack' source' n' =
      m.put start (splice w k u) stack' source' (n + n') := by
  have hdata : writeWindow (writeWindow m.data start w) (start + k) u =
      writeWindow m.data start (splice w k u) := by
    apply Array.toList_inj.1
    rw [toList_writeWindow (by rw [size_writeWindow]; omega), toList_writeWindow hw,
      toList_writeWindow (by rw [length_splice hu]; exact hw)]
    exact splice_splice hw hu
  simp only [put, hdata, Nat.add_assoc]

/-- What is written is read. -/
lemma readWindow?_put (hw : start + w.length ≤ m.data.size) (n : Nat) :
    readWindow? (m.put start w stack source n).data start (start + w.length) = .ok w := by
  have hlength : start + w.length ≤ m.data.toList.length := hw
  rw [put, readWindow?_eq, toList_writeWindow hw,
    slice?_eq_window (Nat.le_add_right _ _) (by rw [length_splice hlength]; exact hlength),
    window_splice hlength]

/-- A machine is not changed by overwriting a window by what stands there. -/
lemma put_self (h : readWindow? m.data start (start + v.length) = .ok v) :
    m.put start v m.stack m.source 0 = m := by
  have hdata : writeWindow m.data start v = m.data := by
    rw [readWindow?_eq] at h
    apply Array.toList_inj.1
    rw [toList_writeWindow (slice?_eq_ok_iff.1 h).1.2, splice_slice h]
  rw [put, hdata]
  rfl

variable [IndexSource σ]

/-- Any number of successful steps with memory leads from one machine to another. -/
inductive Runs (less : α → α → Bool) : Machine α σ → List Event → Machine α σ → Prop where
  /-- No step. -/
  | refl (m : Machine α σ) : Runs less m [] m
  /-- One more step. -/
  | head {m m' m'' : Machine α σ} {event : Event} {events : List Event}
      (h : m.step less .available = .ok (.ok (some event), m')) (h' : Runs less m' events m'') :
      Runs less m (event :: events) m''

namespace Runs

/-- One run after the other. -/
lemma trans (h : Runs less m events m') (h' : Runs less m' events' m'') :
    Runs less m (events ++ events') m'' := by
  induction h with
  | refl => exact h'
  | head hstep _ ih => exact .head hstep (ih h')

/-- Successful steps are steps. -/
lemma steps (h : Runs less m events m') : Steps less m events m' := by
  induction h with
  | refl m => exact .refl m
  | head hstep _ ih => exact .head hstep ih

/-- Steps that use up a budget or lead to the end are those of a run with the budget. -/
lemma runFrom_eq_of_length_le (h : Runs less m events m') (hpoisoned : m'.poisoned = false)
    (seen : List Event) (taken : Nat) {budget : Nat} (hbudget : events.length ≤ budget)
    (hdone : events.length < budget → m'.isDone = true) :
    runFrom less (fun event _ => event) (fun _ => false) seen taken budget m =
      .ok ⟨seen.reverse ++ events, taken + events.length, none, m'⟩ := by
  induction h generalizing seen taken budget with
  | refl m =>
    rw [List.append_nil]
    cases budget with
    | zero => rfl
    | succ budget =>
      rw [runFrom, if_neg (by decide),
        step_of_done less .available hpoisoned (hdone (Nat.succ_pos budget))]
      rfl
  | @head m m' m'' event events hstep _ ih =>
    cases budget with
    | zero => simp at hbudget
    | succ budget =>
      rw [runFrom, if_neg (by decide), hstep]
      show runFrom less (fun event _ => event) (fun _ => false) (event :: seen) (taken + 1) budget
        m' = _
      rw [ih hpoisoned (event :: seen) (taken + 1) (by simpa using hbudget)
          fun hlt => hdone (by simpa using hlt),
        List.reverse_cons, List.append_assoc, List.singleton_append, List.length_cons,
        Nat.add_right_comm taken 1, Nat.add_assoc]

/-- Steps that lead to the end are those of a run with enough budget. -/
lemma runFrom_eq (h : Runs less m events m') (hdone : m'.isDone = true)
    (hpoisoned : m'.poisoned = false) (seen : List Event) (taken : Nat) {budget : Nat}
    (hbudget : events.length ≤ budget) :
    runFrom less (fun event _ => event) (fun _ => false) seen taken budget m =
      .ok ⟨seen.reverse ++ events, taken + events.length, none, m'⟩ :=
  h.runFrom_eq_of_length_le hpoisoned seen taken hbudget fun _ => hdone

end Runs

end Machine

/-! ### Performances -/

variable [IndexSource σ] {start : Nat} {role : Role} {v w : List α} {source : σ}
  {frames frames' : List (Frame α)} {out out' : Sorting α σ}

/-- Frames on top of the stack amount to a sorting: from a window `v` at `start`, the machine comes
to what the sorting yields, with the same visits, and the frames are gone. What lies below them and
outside of the window is left alone. -/
structure Performs (less : α → α → Bool) (config : Config) (strategy : Strategy) (start : Nat)
    (v : List α) (source : σ) (frames : List (Frame α)) (out : Sorting α σ) : Prop where
  /-- The window keeps its length. -/
  length : out.window.length = v.length
  /-- The machine runs to the end of the frames. -/
  runs : ∀ (m : Machine α σ) (below : List (Frame α)) (n : Nat), m.config = config →
    m.strategy = strategy → m.poisoned = false → start + v.length ≤ m.data.size →
      ∃ events, Machine.Runs less (m.put start v (frames ++ below) source n) events
          (m.put start out.window below out.source (n + events.length)) ∧
        events.map Event.visit = out.visits

/-- Where a frame stands on top of the stack and its window `v` has been written, a step with memory
is the frame's turn. -/
lemma Machine.step_put {m : Machine α σ} {phase : Phase α} {t : Turn α σ} (role : Role)
    (below : List (Frame α)) (n : Nat) (hconfig : m.config = config)
    (hstrategy : m.strategy = strategy) (hpoisoned : m.poisoned = false)
    (hsize : start + v.length ≤ m.data.size)
    (hwork : phase.work less config strategy source v = .ok t)
    (hlength : t.window.length = v.length)
    (hmemory : ∀ f : Frame α, f.error? t.transition = none) :
    (m.put start v (⟨start, start + v.length, role, phase⟩ :: below) source n).step less
        .available =
      .ok (.ok (some ⟨phase.stage, role, start, start + v.length, below.length + 1⟩),
        m.put start t.window
          (Frame.successors ⟨start, start + v.length, role, phase⟩ t.transition ++ below)
          t.source (n + 1)) := by
  let f : Frame α := ⟨start, start + v.length, role, phase⟩
  have hread : readWindow? (m.put start v (f :: below) source n).data f.start f.stop = .ok v :=
    readWindow?_put hsize n
  have hturn : f.phase.turn less (m.put start v (f :: below) source n).config
      (m.put start v (f :: below) source n).strategy .available source v = .ok t := by
    rw [Phase.turn_available,
      show (m.put start v (f :: below) source n).config = config from hconfig,
      show (m.put start v (f :: below) source n).strategy = strategy from hstrategy]
    exact hwork
  have hwhole : splice v 0 t.window = t.window := by
    simp [splice, hlength]
  have hput : (m.put start v (f :: below) source n).put (start + 0) t.window
      (f.successors t.transition ++ below) t.source 1 =
        m.put start t.window (f.successors t.transition ++ below) t.source (n + 1) := by
    rw [put_put hsize (by omega), hwhole]
  rw [step_of_turn (m := m.put start v (f :: below) source n) hpoisoned rfl hread hturn,
    answer, hmemory f, ← hput, after, hmemory f]
  simp only [put, Option.isSome_none, hpoisoned, Nat.add_zero]
  rfl

namespace Performs

/-- No frames leave everything as it is. -/
lemma nil (start : Nat) (v : List α) (source : σ) :
    Performs less config strategy start v source [] ⟨v, source, []⟩ :=
  ⟨rfl, fun _ _ _ _ _ _ _ => ⟨[], .refl _, rfl⟩⟩

/-- The frames on top go first, and then the others. -/
lemma trans (h : Performs less config strategy start v source frames out)
    (h' : Performs less config strategy start out.window out.source frames' out') :
    Performs less config strategy start v source (frames ++ frames')
      ⟨out'.window, out'.source, out.visits ++ out'.visits⟩ := by
  refine ⟨h'.length.trans h.length, ?_⟩
  intro m below n hconfig hstrategy hpoisoned hsize
  obtain ⟨events, hruns, hvisits⟩ := h.runs m (frames' ++ below) n hconfig hstrategy hpoisoned hsize
  obtain ⟨events', hruns', hvisits'⟩ := h'.runs m below (n + events.length) hconfig hstrategy
    hpoisoned (by rw [h.length]; exact hsize)
  refine ⟨events ++ events', ?_, by rw [List.map_append, hvisits, hvisits']⟩
  rw [List.append_assoc, List.length_append, ← Nat.add_assoc]
  exact hruns.trans hruns'

/-- What is done to a part of a window leaves the rest of it as it is. -/
lemma within (start : Nat) (u x : List α)
    (h : Performs less config strategy (start + u.length) v source frames out) :
    Performs less config strategy start (u ++ v ++ x) source frames
      ⟨u ++ out.window ++ x, out.source, out.visits⟩ := by
  have hlength := h.length
  refine ⟨by simp [hlength], ?_⟩
  intro m below n hconfig hstrategy hpoisoned hsize
  have hinner : u.length + v.length ≤ (u ++ v ++ x).length := by
    rw [List.length_append, List.length_append]
    omega
  have hput : ∀ (w : List α) (stack : List (Frame α)) (s : σ) (k : Nat), w.length = v.length →
      (m.put start (u ++ v ++ x) (frames ++ below) source n).put (start + u.length) w stack s k =
        m.put start (u ++ w ++ x) stack s (n + k) := by
    intro w stack s k hw
    rw [Machine.put_put hsize (by rw [hw]; exact hinner), splice_middle u x hw]
  obtain ⟨events, hruns, hvisits⟩ := h.runs
    (m.put start (u ++ v ++ x) (frames ++ below) source n) below 0 hconfig hstrategy hpoisoned
    (by
      show start + u.length + v.length ≤ (writeWindow m.data start (u ++ v ++ x)).size
      rw [size_writeWindow]
      omega)
  rw [hput v _ _ _ rfl, hput out.window _ _ _ hlength, Nat.zero_add] at hruns
  exact ⟨events, hruns, hvisits⟩

/-- A part of a window that is done with, then one that the first frames amount to, and then one
that the other frames do. -/
lemma append {equal later : List α} (h : Performs less config strategy (start + equal.length) v
      source frames out)
    (h' : Performs less config strategy (start + (equal.length + v.length)) later out.source
      frames' out') :
    Performs less config strategy start (equal ++ v ++ later) source (frames ++ frames')
      ⟨equal ++ out.window ++ out'.window, out'.source, out.visits ++ out'.visits⟩ := by
  have hdone : (equal ++ out.window).length = equal.length + v.length := by
    rw [List.length_append, h.length]
  rw [← hdone] at h'
  have hfirst := h.within start equal later
  have hsecond := h'.within start (equal ++ out.window) []
  rw [List.append_nil, List.append_nil] at hsecond
  exact hfirst.trans hsecond

/-- A turn of the first frame, followed by what its successors amount to. -/
lemma turn (phase : Phase α) {stop : Nat} {t : Turn α σ} (hstop : stop = start + v.length)
    (hturn : phase.work less config strategy source v = .ok t)
    (hlength : t.window.length = v.length)
    (hmemory : ∀ f : Frame α, f.error? t.transition = none)
    (h : Performs less config strategy start t.window t.source
      (Frame.successors ⟨start, stop, role, phase⟩ t.transition) out) :
    Performs less config strategy start v source [⟨start, stop, role, phase⟩]
      ⟨out.window, out.source, ⟨phase.stage, role, start, stop⟩ :: out.visits⟩ := by
  subst hstop
  refine ⟨h.length.trans hlength, ?_⟩
  intro m below n hconfig hstrategy hpoisoned hsize
  obtain ⟨events, hruns, hvisits⟩ := h.runs m below (n + 1) hconfig hstrategy hpoisoned
    (by rw [hlength]; exact hsize)
  have hfirst := Machine.step_put role below n hconfig hstrategy hpoisoned hsize hturn hlength
    hmemory
  refine ⟨_ :: events, .head hfirst ?_, by rw [List.map_cons, hvisits]; rfl⟩
  rw [List.length_cons, Nat.add_comm events.length, ← Nat.add_assoc]
  exact hruns

end Performs

/-! ### Calls -/

/-- A fresh frame for the window `v` amounts to a recursive call, wherever the window begins and
whatever it is sorted for. -/
def Simulated (σ : Type) [IndexSource σ] (less : α → α → Bool) (config : Config)
    (strategy : Strategy) (v : List α) : Prop :=
  ∀ (role : Role) (start : Nat) (source : σ), ∃ out,
    config.recursiveSort less strategy role start v source = pure out ∧
      Performs less config strategy start v source [.fresh start (start + v.length) role] out

/-- What the recursion does with the buckets from some bucket on, the machine does when it has
settled them: the short ones have been sorted, and the others are pending.

**Proof sketch.** Induction along the buckets. What is pending of the first bucket concerns the part
of the window behind what has been peeled off, and what is pending of the others concerns the part
behind the bucket. -/
lemma Bucketed.exists_performs {splitters : List α} (hless : StrictWeak less)
    (hs : splitters.Pairwise fun s t => less t s = false) (hne : splitters ≠ [])
    (hmem : ∀ s ∈ splitters, s ∈ v)
    (ih : ∀ u : List α, u.length < v.length → Simulated σ less config strategy u)
    (start : Nat) (done remaining : List (List α))
    (h : Bucketed less splitters v (done ++ remaining)) {bounds : List (Nat × Nat)}
    (hbounds : bounds = (offsetsFrom done.flatten.length (remaining.map List.length)).zip
      (offsetsFrom done.flatten.length (remaining.map List.length)).tail)
    {settled : List (Settled α)}
    (hsettled : settleBuckets less config.threshold splitters v done.length bounds = .ok settled)
    (source : σ) :
    ∃ out, config.recursiveBuckets less strategy splitters v start done.length bounds source =
        pure out ∧
      Performs less config strategy (start + done.flatten.length)
        (settled.map Settled.elements).flatten source
        ((settled.filterMap Settled.pending).map fun w =>
          .fresh (start + w.1) (start + w.2) .main) out := by
  induction remaining generalizing done bounds settled source with
  | nil =>
    subst hbounds
    obtain rfl : [] = settled := Except.ok.inj hsettled
    refine ⟨⟨[], source, []⟩, ?_, .nil _ _ _⟩
    rw [List.map_nil, offsetsFrom, List.tail_cons, List.zip_nil_right, Config.recursiveBuckets]
  | cons bucket remaining ih' =>
    rw [List.map_cons, zip_tail_offsetsFrom] at hbounds
    subst hbounds
    have hb : (done ++ bucket :: remaining)[done.length]? = some bucket := by simp
    have hslice := h.slice?_bucket
    obtain ⟨equal, rest, hpeel, hperm, hlt, _⟩ := h.exists_peelBucket hless hs hne hmem hb
    have hlength := hperm.length_eq
    rw [List.length_append] at hlength
    obtain ⟨first, later, hfirst, hlater, rfl⟩ := settleBuckets_cons_eq_ok_iff.1 hsettled
    rw [settleBucket_eq config.threshold hslice hpeel, Except.ok.injEq] at hfirst
    have hnext : (done ++ [bucket]).flatten.length = done.flatten.length + bucket.length := by
      simp
    have hdone : (done ++ [bucket]).length = done.length + 1 := List.length_append
    have hthen := ih' (done ++ [bucket]) (by rwa [List.append_assoc, List.singleton_append])
      (by rw [hnext]) (by rwa [hdone])
    rw [hdone, hnext, ← Nat.add_assoc] at hthen
    by_cases hlong : config.threshold < rest.length
    · -- what is left of the bucket is pending, and goes before the later buckets
      obtain ⟨sorted, hsorted, hperforms⟩ :=
        ih rest hlt .main (start + (done.flatten.length + equal.length)) source
      obtain ⟨others, hothers, hperforms'⟩ := hthen sorted.source
      refine ⟨_, Config.recursiveBuckets_long hslice hpeel hlong hsorted hothers, ?_⟩
      rw [← Nat.add_assoc] at hperforms
      rw [← hlength] at hperforms'
      have hboth := hperforms.append hperforms'
      rw [if_pos hlong] at hfirst
      subst hfirst
      simpa [← hlength, Nat.add_assoc] using hboth
    · -- nothing is pending of the bucket
      obtain ⟨others, hothers, hperforms⟩ := hthen source
      refine ⟨_, Config.recursiveBuckets_short hslice hpeel hlong hothers, ?_⟩
      rw [← hlength, ← (sortSmall_perm less rest).length_eq] at hperforms
      have hboth := (Performs.nil _ (sortSmall less rest).value source).append hperforms
      rw [if_neg hlong] at hfirst
      subst hfirst
      simpa using hboth

/-- A frame whose sample has been sorted amounts to the rest of a call: splitters are chosen, the
window is labelled and partitioned, and the buckets are sorted.

**Proof sketch.** From the invariants of the phases: the splitters of a sorted sample divide the
window, so the counts can be reset for them, the labels are the ranks, and either strategy succeeds
and yields buckets. Hence the frame takes four turns, each of which has a value. The fourth leaves
the frames of the pending buckets, which amount to the calls on them by `Bucketed.exists_performs`.
The turns are put together from the last to the first. -/
lemma exists_performs_awaiting (hless : StrictWeak less) (strategy : Strategy)
    {plan : SamplingPlan} (hfits : plan.Fits v.length)
    (ih : ∀ u : List α, u.length < v.length → Simulated σ less config strategy u)
    {sample : List α} (hsample : slice? v 0 plan.samples = .ok sample) (role : Role) {stop : Nat}
    (hstop : stop = start + v.length) (source : σ) :
    ∃ splitters counts labelling partitioned others,
      splitters = (chooseSplitters less plan.stride (plan.buckets - 1) sample).value ∧
      Histogram.empty.reset (splitters.length + 1) = .ok counts ∧
      (labelWindow less splitters counts v).value = .ok labelling ∧
      (strategy.partition less splitters labelling.counts.toList labelling.labels v).value =
        .ok partitioned ∧
      config.recursiveBuckets less strategy splitters partitioned.window start 0
        (partitioned.starts.zip partitioned.starts.tail) source = pure others ∧
      Performs less config strategy start v source [⟨start, stop, role, .awaiting plan⟩]
        ⟨others.window, others.source,
          visitsOf role start v.length [.sampling, .classification, .partitioning, .recursion] ++
            others.visits⟩ := by
  have hsplits := splits_chooseSplitters hless hfits hsample
  generalize hchosen : (chooseSplitters less plan.stride (plan.buckets - 1) sample).value =
    splitters at hsplits
  have hs := hsplits.notGreater hless
  obtain ⟨counts, hcounts, hzeros⟩ := Histogram.exists_reset_empty hsplits.length_succ_le
  obtain ⟨labelling, hlabelling, hlabels, htally⟩ := exists_labelWindow hless hs hzeros v
  obtain ⟨partitioned, buckets, hpartitioned, hperm, hbucketed, hstarts⟩ :=
    strategy.exists_partition hless hs hsplits.length_succ_le hlabels htally
  have hsizes : labelling.counts.toList = buckets.map List.length := by
    rw [hbucketed.sizes, htally, tally_perm _ (hperm.map _)]
  rw [hsizes] at hstarts
  have hlength := hperm.length_eq
  have hsplits' := hsplits.perm hperm
  obtain ⟨settled, hsettled, hsettledperm, _⟩ := hbucketed.exists_settleBuckets hless hs
    hsplits'.ne_nil hsplits'.mem config.threshold hstarts
  obtain ⟨others, hothers, hperforms⟩ := Bucketed.exists_performs hless hs hsplits'.ne_nil
    hsplits'.mem (by rwa [hlength]) start [] buckets hbucketed (by rw [hstarts]; rfl) hsettled
    source
  refine ⟨splitters, counts, labelling, partitioned, others, rfl, hcounts, hlabelling,
    hpartitioned, hothers, ?_⟩
  have hend : stop = start + partitioned.window.length := by rw [hstop, hlength]
  have hlast : Performs less config strategy start partitioned.window source
      [⟨start, stop, role, .recursion plan splitters labelling.counts partitioned.starts⟩]
      ⟨others.window, others.source, ⟨.recursion, role, start, stop⟩ :: others.visits⟩ :=
    .turn _ hend (Phase.work_recursion_eq hsettled) hsettledperm.length_eq (fun _ => rfl) hperforms
  have hall := Performs.turn (.awaiting plan) hstop
    (Phase.work_awaiting_eq hsample hchosen.symm hcounts) rfl (fun _ => rfl)
    (.turn _ hstop (Phase.work_classification_eq hlabelling) rfl (fun _ => rfl)
      (.turn _ hstop (Phase.work_partitioning_eq hpartitioned) hlength (fun _ => rfl) hlast))
  subst hstop
  exact hall

/-- The frame of a sample amounts to a recursive call on the front part of the window, which is
where the sample is read afterwards. -/
lemma exists_performs_sample {k : Nat} (hk : k ≤ w.length)
    (hsim : Simulated σ less config strategy (window w 0 k)) (start : Nat) (source : σ) :
    ∃ sorted, config.recursiveSort less strategy .sample start (window w 0 k) source =
        pure sorted ∧
      (splice w 0 sorted.window).length = w.length ∧
      slice? (splice w 0 sorted.window) 0 k = .ok sorted.window ∧
      Performs less config strategy start w source [.fresh start (start + k) .sample]
        ⟨splice w 0 sorted.window, sorted.source, sorted.visits⟩ := by
  have hwindow : (window w 0 k).length = k := by
    rw [length_window hk, Nat.sub_zero]
  obtain ⟨sorted, hsorted, hperforms⟩ := hsim .sample start source
  have hlength : sorted.window.length = k := by
    rw [hperforms.length, hwindow]
  have hsame : (splice w 0 sorted.window).length = w.length := length_splice (by omega)
  refine ⟨sorted, hsorted, hsame, ?_, ?_⟩
  · have hread := window_splice (v := w) (w := sorted.window)
      (show 0 + sorted.window.length ≤ w.length by omega)
    rw [Nat.zero_add, hlength] at hread
    rw [slice?_eq_window (Nat.zero_le k) (by omega), hread]
  · have hparts : [] ++ window w 0 k ++ w.drop k = w := by
      simp [window]
    have hsplice : [] ++ sorted.window ++ w.drop k = splice w 0 sorted.window := by
      simp [splice, hlength]
    have hwithin := Performs.within start [] (w.drop k) hperforms
    rwa [hparts, hsplice, hwindow] at hwithin

/-- A fresh frame for a window that is sampled amounts to a recursive call, if frames for shorter
windows do.

**Proof sketch.** The frame takes three turns, of which the third draws a sample of at most half of
the elements and puts a frame for it on the stack. That frame amounts to the call on the sample
since the sample is shorter, and then the frame below it amounts to the rest of the call. On either
side the sorted sample stands at the front of the window. -/
lemma exists_performs_sampled (hless : StrictWeak less) (hc : config.Valid) (strategy : Strategy)
    (ih : ∀ u : List α, u.length < v.length → Simulated σ less config strategy u)
    (hshape : (Shape.detect less v).value = .unsorted) (hlong : ¬v.length ≤ config.threshold)
    (role : Role) (start : Nat) (source : σ) :
    ∃ out, config.recursiveSort less strategy role start v source = pure out ∧
      Performs less config strategy start v source [.fresh start (start + v.length) role] out := by
  have hpos := Config.threshold_pos hc
  obtain ⟨plan, hplan, hfits⟩ := Config.exists_samplingPlan (n := v.length) hc (by omega)
  obtain ⟨w, source', hdraw, hperm⟩ := exists_drawSample hfits.samples_le_self source
  have hlength := hperm.length_eq
  have hsamples : plan.samples ≤ w.length := by
    rw [hlength]
    exact hfits.samples_le_self
  have hshorter : (window w 0 plan.samples).length < v.length := by
    have := hfits.samples_le
    rw [length_window hsamples]
    omega
  -- the call on the sample
  obtain ⟨sorted, hsorted, hsame, hsample, hfirst⟩ :=
    exists_performs_sample hsamples (ih _ hshorter) start source'
  rw [hlength] at hsame
  -- the rest of the call
  obtain ⟨splitters, counts, labelling, partitioned, others, hsplitters, hcounts, hlabelling,
    hpartitioned, hothers, hthen⟩ :=
    exists_performs_awaiting hless strategy (by rwa [hsame]) (by rwa [hsame]) hsample role
      (show start + v.length = start + (splice w 0 sorted.window).length by rw [hsame])
      sorted.source
  refine ⟨_, Config.recursiveSort_long hshape hlong hplan hdraw
    (slice?_eq_window (Nat.zero_le _) hsamples) hsorted hsplitters hcounts hlabelling
    hpartitioned hothers hsame, ?_⟩
  have hall : Performs less config strategy start v source
      [.fresh start (start + v.length) role] _ :=
    .turn .simpleCases rfl (Phase.work_simpleCases_eq hshape) rfl (fun _ => rfl)
      (.turn .baseCase rfl (Phase.work_baseCase_eq hlong) rfl (fun _ => rfl)
        (.turn .sampling rfl (Phase.work_sampling_eq hplan hdraw) hlength (fun _ => rfl)
          (hfirst.trans hthen)))
  rw [hsame] at hall
  simpa [visitsOf, Phase.stage] using hall

/-- A fresh frame amounts to a recursive call.

**Proof sketch.** Strong induction on the length of the window. The turns of the frame are the
operations of the call; between them the frame of the sample amounts to the call on the sample, and
the frames of the pending buckets amount to the calls on the buckets. All of these windows are
shorter. -/
theorem simulated (hless : StrictWeak less) (hc : config.Valid) (strategy : Strategy)
    (v : List α) : Simulated σ less config strategy v := by
  induction hn : v.length using Nat.strong_induction_on generalizing v with
  | _ n ih =>
    have ih' : ∀ u : List α, u.length < v.length → Simulated σ less config strategy u := by
      intro u hu
      exact ih u.length (by omega) u rfl
    intro role start source
    by_cases hshape : (Shape.detect less v).value = .unsorted
    · by_cases hshort : v.length ≤ config.threshold
      · refine ⟨_, Config.recursiveSort_short hshape hshort, ?_⟩
        exact .turn .simpleCases rfl (Phase.work_simpleCases_eq hshape) rfl (fun _ => rfl)
          (.turn .baseCase rfl (Phase.work_baseCase_resolve_eq hshort)
            (insertionSort_perm less v).length_eq (fun _ => rfl) (.nil start _ source))
      · exact exists_performs_sampled hless hc strategy ih' hshape hshort role start source
    · refine ⟨_, Config.recursiveSort_resolved hshape, ?_⟩
      exact .turn .simpleCases rfl (Phase.work_simpleCases_resolve_eq hshape)
        (Shape.arrange_perm _ v).length_eq (fun _ => rfl) (.nil start _ source)

/-- **The machine refines the recursion.** However a machine is set up, and with whatever
configuration and strategy, the recursion on its window comes to an end, and a run of the machine
with memory does as well. It leaves the same elements in the same places and the source in the same
state, and its steps are the visits of the recursion, in their order.

**Proof sketch.** The only frame of the machine amounts to the call on its window, which is
`simulated`: so some number of steps with memory leads from the machine to one whose stack is empty.
They are no more than the allowance of a run, because each of them makes the stack lighter. So the
run makes just these steps. -/
theorem Machine.run_refines_recursiveSort (hless : StrictWeak less) {data : Array α} {lo hi : Nat}
    {m m' : Machine α σ} (h : Machine.Started data lo hi m)
    (hconfig : m.withConfig? config = .ok m') (strategy : Strategy) :
    ∃ v out r, readWindow? data lo hi = .ok v ∧
      (config.recursiveSort less strategy .main lo v m.source).run = some (.ok out) ∧
      (m'.withStrategy strategy).run less = .ok r ∧ r.error? = none ∧ r.machine.isDone = true ∧
      r.machine.data = writeWindow data lo out.window ∧ r.machine.source = out.source ∧
      r.trace.map Event.visit = out.visits := by
  have hstarted : m.Inv less data.toList lo hi := h.inv
  have hinv := (hstarted.of_follows hless (.withConfig hconfig)).of_follows hless
    (.withStrategy m' strategy)
  obtain ⟨hle, hhi, source, rfl⟩ := h.exists_eq_initial
  obtain ⟨hvalid, rfl⟩ := Machine.withConfig?_eq_ok_iff.1 hconfig
  have hlength : (window data.toList lo hi).length = hi - lo := length_window hhi
  have hread : readWindow? data lo hi = .ok (window data.toList lo hi) := by
    rw [readWindow?_eq, slice?_eq_window hle hhi]
  generalize window data.toList lo hi = v at hlength hread
  have hstop : hi = lo + v.length := by omega
  subst hstop
  obtain ⟨out, hout, hperforms⟩ := simulated hless hvalid strategy v .main lo source
  generalize hm :
    ({ initial source data lo (lo + v.length) with config } : Machine α σ).withStrategy strategy =
      m at hinv
  obtain ⟨events, hruns, hvisits⟩ := hperforms.runs m [] 0 (by rw [← hm]; rfl) (by rw [← hm]; rfl)
    (by rw [← hm]; rfl) (by rw [← hm]; exact hhi)
  have hself : m.put lo v ([.fresh lo (lo + v.length) .main] ++ []) source 0 = m := by
    subst hm
    exact Machine.put_self hread
  rw [hself] at hruns
  have hweight := hinv.length_steps_add_weight_le hless hruns.steps
  have hbudget : events.length ≤ m.allowance := by
    have := Machine.stackWeight_le_allowance m
    omega
  have hrun := hruns.runFrom_eq rfl (by rw [← hm]; rfl) [] 0 hbudget
  refine ⟨v, out, _, hread, congrArg ExceptT.run hout, hrun, rfl, rfl, ?_, rfl, hvisits⟩
  rw [← hm]
  rfl

/-- Four numbers between two others, sorted by a machine and by the recursion. -/
theorem Machine.run_refines_recursiveSort_four :
    ∃ (m : Machine Nat WordCycle) (v : List Nat) (out : Sorting Nat WordCycle)
      (r : Run Nat WordCycle Event),
      readWindow? #[9, 2, 4, 1, 3, 0] 1 5 = .ok v ∧
      (Config.recursiveSort ⟨1, 1, 1, 0⟩ (fun a b => decide (a < b)) .sequential .main 1 v
        (.ofList [0xc0000000])).run = some (.ok out) ∧
      m.run (fun a b => decide (a < b)) = .ok r ∧ r.error? = none ∧ r.machine.isDone = true ∧
      r.machine.data = writeWindow #[9, 2, 4, 1, 3, 0] 1 out.window ∧
      r.machine.source = out.source ∧ r.trace.map Event.visit = out.visits := by
  let m : Machine Nat WordCycle := .initial (.ofList [0xc0000000]) #[9, 2, 4, 1, 3, 0] 1 5
  have hwindow : ofWindow? (.ofList [0xc0000000]) #[9, 2, 4, 1, 3, 0] 1 5 = .ok m := rfl
  have hconfig : m.withConfig? ⟨1, 1, 1, 0⟩ = .ok { m with config := ⟨1, 1, 1, 0⟩ } := rfl
  exact ⟨({ m with config := ⟨1, 1, 1, 0⟩ } : Machine Nat WordCycle).withStrategy .sequential,
    Machine.run_refines_recursiveSort .natural (.window hwindow) hconfig .sequential⟩

end SampleSort
