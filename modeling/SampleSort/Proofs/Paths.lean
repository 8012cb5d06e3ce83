import SampleSort.Proofs.Correctness
import SampleSort.Proofs.Simulation
import SampleSort.Proofs.Stability
import SampleSort.Proofs.Translation

set_option relaxedAutoImplicit false
set_option autoImplicit false

/-!
# The path that a run takes

A run takes one of three paths, and the window decides which. If no two elements descend, or no two
ascend, a glance is enough. If the window is not longer than the threshold, it is sorted by
insertion, which is stable, in a second step; a reversed window is turned round instead, ties
included. Any other window takes eight steps at least, seven for itself and one for its sample,
which the third of them draws. A window that has been sorted is always resolved at a glance.

## Main definitions

* `SampleSort.Monotonic` — the windows that are resolved at a glance.
* `SampleSort.Machine.Path` — how long a run takes, and what it leaves behind.

## Main results

* `SampleSort.Config.exists_visits_sampled` — the visits of a call that draws a sample.
* `SampleSort.Machine.exists_runFor_three` — the steps that draw a sample.
* `SampleSort.Machine.exists_run_of_setUp` — a run makes the visits of the recursion.
* `SampleSort.Machine.run_path` — the path of a run, and that of a second one.
-/

namespace SampleSort

variable {α σ τ : Type} {less : α → α → Bool} {config : Config} {strategy : Strategy} {role : Role}
  {start lo hi : Nat} {v w : List α} {source : σ} {out : Sorting α σ}

/-- No two elements descend, or no two ascend. -/
def Monotonic (less : α → α → Bool) (v : List α) : Prop :=
  Sorted less v ∨ v.Pairwise fun x y => less x y = false

/-- A window is resolved at a glance exactly if it is monotonic. -/
lemma value_detect_eq_unsorted_iff (hless : StrictWeak less) :
    (Shape.detect less v).value = .unsorted ↔ ¬Monotonic less v := by
  rw [Shape.value_detect_iff hless, Monotonic, not_or]
  rfl

/-- A sorted window is left alone. -/
lemma arrange_of_sorted (hless : StrictWeak less) (hsorted : Sorted less v) :
    (Shape.detect less v).value.arrange v = v := by
  refine Shape.arrange_of_ne_reversed (fun hreversed => ?_) v
  exact ((Shape.value_detect_iff hless v _).1 hreversed).1 hsorted

/-- A window that is not sorted and does not ascend is turned round. -/
lemma arrange_of_reversed (hless : StrictWeak less) (hunsorted : ¬Sorted less v)
    (hreversed : v.Pairwise fun x y => less x y = false) :
    (Shape.detect less v).value.arrange v = v.reverse := by
  rw [(Shape.value_detect_iff hless v .reversed).2 ⟨hunsorted, hreversed⟩]
  rfl

/-- A small window that is monotonic is put in order without being sorted. -/
lemma value_sortSmall_of_monotonic (hshape : (Shape.detect less v).value ≠ .unsorted) :
    (sortSmall less v).value = (Shape.detect less v).value.arrange v := by
  rw [sortSmall, Counted.value_bind]
  split
  · next hunsorted => exact absurd hunsorted hshape
  · rfl

/-- Any other small window is sorted by insertion. -/
lemma value_sortSmall_of_unsorted (hshape : (Shape.detect less v).value = .unsorted) :
    (sortSmall less v).value = (insertionSort less v).value := by
  rw [sortSmall, Counted.value_bind, hshape]

/-! ### The visits of a call -/

namespace Config

variable [IndexSource σ]

/-- A call does not change the length of its window. -/
lemma length_recursiveSort (hless : StrictWeak less) (hc : config.Valid)
    (h : config.recursiveSort less strategy role start v source = pure out) :
    out.window.length = v.length := by
  obtain ⟨out', hout, hperforms⟩ := simulated (σ := σ) hless hc strategy v role start source
  obtain rfl := pure_injective (h.symm.trans hout)
  exact hperforms.length

/-- A window that is neither monotonic nor short has a sample drawn, which is sorted by a call
between the visits of the window.

**Proof sketch.** The plan and the draw always have values. Since the call has one as well, all its
parts do. Their visits, in order, are those of the call. -/
lemma exists_visits_sampled (hless : StrictWeak less) (hc : config.Valid)
    (hshape : (Shape.detect less v).value = .unsorted) (hlong : config.threshold < v.length)
    (h : config.recursiveSort less strategy role start v source = pure out) :
    ∃ plan sample, ∃ source' : σ, ∃ sorted later, config.samplingPlan v.length = .ok plan ∧
      1 ≤ plan.samples ∧ sample.length = plan.samples ∧
      config.recursiveSort less strategy .sample start sample source' = pure sorted ∧
      out.visits = visitsOf role start v.length [.simpleCases, .baseCase, .sampling] ++
        sorted.visits ++
          visitsOf role start v.length [.sampling, .classification, .partitioning, .recursion] ++
            later := by
  have hpos := threshold_pos hc
  obtain ⟨plan, hplan, hfits⟩ := exists_samplingPlan (n := v.length) hc (by omega)
  obtain ⟨w, source', hdraw, hperm⟩ := exists_drawSample hfits.samples_le_self source
  have hsamples : plan.samples ≤ w.length := by
    rw [hperm.length_eq]
    exact hfits.samples_le_self
  have hsample := slice?_eq_window (Nat.zero_le _) hsamples
  have hlength : (window w 0 plan.samples).length = plan.samples := length_window hsamples
  rw [recursiveSort, hshape] at h
  simp only [if_neg (Nat.not_le_of_lt hlong), hplan, hdraw, hsample, MonadExcept.ofExcept,
    pure_bind] at h
  -- the call has ended, so all of its parts from the sample on have
  obtain ⟨sorted, hsorted, h⟩ := exists_pure_of_bind h
  obtain ⟨counts, -, h⟩ := exists_pure_of_bind h
  obtain ⟨labelling, -, h⟩ := exists_pure_of_bind h
  obtain ⟨partitioned, -, h⟩ := exists_pure_of_bind h
  obtain ⟨rest, -, h⟩ := exists_pure_of_bind h
  obtain rfl := pure_injective h
  have hsame : (splice w 0 sorted.window).length = v.length := by
    rw [length_splice (by rw [length_recursiveSort hless hc hsorted]; omega), hperm.length_eq]
  refine ⟨plan, _, source', sorted, rest.visits, hplan, hfits.samples_pos, hlength, hsorted, ?_⟩
  rw [hsame]

/-- A call begins with a glance at its window. -/
lemma exists_visits_eq_cons (hless : StrictWeak less) (hc : config.Valid)
    (h : config.recursiveSort less strategy role start v source = pure out) :
    ∃ later, out.visits = ⟨.simpleCases, role, start, start + v.length⟩ :: later := by
  by_cases hshape : (Shape.detect less v).value = .unsorted
  · by_cases hshort : v.length ≤ config.threshold
    · rw [recursiveSort_short hshape hshort] at h
      obtain rfl := pure_injective h
      exact ⟨_, rfl⟩
    · obtain ⟨plan, sample, source', sorted, later, -, -, -, -, hvisits⟩ :=
        exists_visits_sampled hless hc hshape (Nat.lt_of_not_le hshort) h
      exact ⟨_, hvisits⟩
  · rw [recursiveSort_resolved hshape] at h
    obtain rfl := pure_injective h
    exact ⟨_, rfl⟩

end Config

namespace Machine

/-! ### Paths -/

variable {data : Array α} {r : Run α σ Event}

/-- The machine has drawn a sample with its third step, and nothing else has happened: the elements
of its window stand in the order in which the draw has left them, the source is as it is after the
draw, and a frame for the sample stands on top of the one that waits for it. -/
structure Sampled [IndexSource σ] (plan : SamplingPlan) (source : σ) (data : Array α) (lo : Nat)
    (v : List α) (m : Machine α σ) : Prop where
  /-- Three steps have been taken. -/
  steps_eq : m.steps = 3
  /-- The last of them was a draw of as many elements as planned. -/
  draws : ∃ w, drawSample plan.samples v source = .ok (w, m.source) ∧
    m.data = writeWindow data lo w
  /-- The sample is to be sorted next. -/
  stack_eq : m.stack = [.fresh lo (lo + plan.samples) .sample,
    ⟨lo, lo + v.length, .main, .awaiting plan⟩]

/-- How long the run `r` of the machine `m` takes that has been set up to sort the window `v` at
position `lo` of `data`, and what it leaves behind. -/
structure Path [IndexSource σ] (less : α → α → Bool) (config : Config) (source : σ) (data : Array α)
    (lo : Nat) (v : List α) (m : Machine α σ) (r : Run α σ Event) : Prop where
  /-- As many steps are counted as are recorded. -/
  taken_eq : r.taken = r.trace.length
  /-- The machine has counted them as well. -/
  steps_eq : r.machine.steps = r.taken
  /-- One step is taken exactly if the window is monotonic. -/
  taken_eq_one : r.taken = 1 ↔ Monotonic less v
  /-- It is a glance. -/
  visits_of_monotonic : Monotonic less v →
    r.trace.map Event.visit = visitsOf .main lo v.length [.simpleCases]
  /-- Then a sorted window is left alone. -/
  data_of_sorted : Sorted less v → r.machine.data = data
  /-- And any other is turned round. -/
  data_of_reversed : ¬Sorted less v → (v.Pairwise fun x y => less x y = false) →
    r.machine.data = writeWindow data lo v.reverse
  /-- Two steps are taken exactly if the window is not monotonic and not longer than the
  threshold. -/
  taken_eq_two : r.taken = 2 ↔ ¬Monotonic less v ∧ v.length ≤ config.threshold
  /-- They are a glance and the insertions. -/
  visits_of_short : ¬Monotonic less v → v.length ≤ config.threshold →
    r.trace.map Event.visit = visitsOf .main lo v.length [.simpleCases, .baseCase]
  /-- Then it is sorted stably. -/
  data_of_short : ¬Monotonic less v → v.length ≤ config.threshold →
    ∃ w, StablySorted less v w ∧ r.machine.data = writeWindow data lo w
  /-- Any other window takes at least eight steps. -/
  eight_le_taken : 8 ≤ r.taken ↔ ¬Monotonic less v ∧ config.threshold < v.length
  /-- Then a sample is drawn and sorted first. The third step draws it. -/
  visits_of_long : ¬Monotonic less v → config.threshold < v.length →
    ∃ plan later r₃, config.samplingPlan v.length = .ok plan ∧ 1 ≤ plan.samples ∧
      r.trace.map Event.visit =
        visitsOf .main lo v.length [.simpleCases, .baseCase, .sampling] ++
          ⟨.simpleCases, .sample, lo, lo + plan.samples⟩ :: later ∧
      m.runFor less 3 = .ok r₃ ∧ r₃.taken = 3 ∧ Sampled plan source data lo v r₃.machine
  /-- With no more than two steps, no random word is taken. -/
  source_eq : r.taken ≤ 2 → r.machine.source = source
  /-- Up to the threshold the window is sorted as small windows are. -/
  data_of_le : v.length ≤ config.threshold →
    r.machine.data = writeWindow data lo (sortSmall less v).value

variable [IndexSource σ] {m : Machine α σ}

omit [IndexSource σ] in
/-- As many steps are taken as visits are made. -/
lemma taken_eq_length_visits {visits : List Visit} (htaken : r.taken = r.trace.length)
    (h : r.trace.map Event.visit = visits) : r.taken = visits.length := by
  rw [htaken, ← h, List.length_map]

/-- The first three steps on a window that is neither monotonic nor short: a glance, a look at its
length, and the draw of a sample. -/
lemma exists_runFor_three (hpoisoned : m.poisoned = false)
    (hstack : m.stack = [.fresh lo (lo + v.length) .main]) (hsteps : m.steps = 0)
    (hread : readWindow? m.data lo (lo + v.length) = .ok v)
    (hshape : (Shape.detect less v).value = .unsorted) (hlong : m.config.threshold < v.length)
    {plan : SamplingPlan} (hplan : m.config.samplingPlan v.length = .ok plan)
    (hsamples : plan.samples ≤ v.length) :
    ∃ r₃, m.runFor less 3 = .ok r₃ ∧ r₃.taken = 3 ∧
      Sampled plan m.source m.data lo v r₃.machine := by
  obtain ⟨w, source', hdraw, -⟩ := exists_drawSample hsamples m.source
  have hwork₃ : Phase.work less m.config m.strategy m.source v .sampling =
      .ok ⟨w, source', .descend plan⟩ := by
    rw [Phase.work, hplan]
    simp only [bind, Except.bind, hdraw]
    rfl
  let f : Frame α := .fresh lo (lo + v.length) .main
  let m₁ := m.after f [] ⟨v, m.source, .advance .baseCase⟩
  let m₂ := m₁.after { f with phase := .baseCase } [] ⟨v, m.source, .advance .sampling⟩
  let m₃ := m₂.after { f with phase := .sampling } [] ⟨w, source', .descend plan⟩
  have hdata₁ : m₁.data = m.data := writeWindow_self hread
  have hdata₂ : m₂.data = m.data := (congrArg (writeWindow · lo v) hdata₁).trans hdata₁
  have hdata₃ : m₃.data = writeWindow m.data lo w := congrArg (writeWindow · lo w) hdata₂
  have hstack₁ : m₁.stack = [{ f with phase := .baseCase }] := rfl
  have hstack₂ : m₂.stack = [{ f with phase := .sampling }] := rfl
  have hread₁ : readWindow? m₁.data lo (lo + v.length) = .ok v := by rw [hdata₁, hread]
  have hread₂ : readWindow? m₂.data lo (lo + v.length) = .ok v := by rw [hdata₂, hread]
  have hstep₁ : m.step less .available =
      .ok (.ok (some ⟨.simpleCases, .main, lo, lo + v.length, 1⟩), m₁) :=
    step_of_turn hpoisoned hstack hread
      ((Phase.turn_available ..).trans (Phase.work_simpleCases_eq hshape))
  have hstep₂ : m₁.step less .available =
      .ok (.ok (some ⟨.baseCase, .main, lo, lo + v.length, 1⟩), m₂) :=
    step_of_turn rfl hstack₁ hread₁
      ((Phase.turn_available ..).trans (Phase.work_baseCase_eq (Nat.not_le_of_lt hlong)))
  have hstep₃ : m₂.step less .available =
      .ok (.ok (some ⟨.sampling, .main, lo, lo + v.length, 1⟩), m₃) :=
    step_of_turn rfl hstack₂ hread₂ ((Phase.turn_available ..).trans hwork₃)
  have hruns : Runs less m _ m₃ := .head hstep₁ (.head hstep₂ (.head hstep₃ (.refl m₃)))
  have hrun := hruns.runFrom_eq_of_length_le rfl [] 0 (Nat.le_refl 3)
    fun hlt => absurd hlt (Nat.lt_irrefl 3)
  refine ⟨_, hrun, rfl, ?_, ⟨w, hdraw, hdata₃⟩, rfl⟩
  show m.steps + 1 + 1 + 1 = 3
  rw [hsteps]

/-- The path of a monotonic window. -/
lemma path_of_monotonic (hless : StrictWeak less) (hmonotonic : Monotonic less v)
    (hread : readWindow? data lo hi = .ok v)
    (hvisits : r.trace.map Event.visit = visitsOf .main lo v.length [.simpleCases])
    (hcounted : r.taken = r.trace.length) (hsteps : r.machine.steps = r.taken)
    (hsource : r.machine.source = source)
    (hdata : r.machine.data = writeWindow data lo ((Shape.detect less v).value.arrange v)) :
    Path less config source data lo v m r := by
  have htaken : r.taken = 1 := taken_eq_length_visits hcounted hvisits
  have hshape : (Shape.detect less v).value ≠ .unsorted := fun hunsorted =>
    (value_detect_eq_unsorted_iff hless).1 hunsorted hmonotonic
  exact {
    taken_eq := hcounted
    steps_eq := hsteps
    taken_eq_one := by simp [htaken, hmonotonic]
    visits_of_monotonic := fun _ => hvisits
    data_of_sorted := fun hsorted => by
      rw [hdata, arrange_of_sorted hless hsorted, writeWindow_self hread]
    data_of_reversed := fun hunsorted hreversed => by
      rw [hdata, arrange_of_reversed hless hunsorted hreversed]
    taken_eq_two := by simp [htaken, hmonotonic]
    visits_of_short := fun hnot => absurd hmonotonic hnot
    data_of_short := fun hnot => absurd hmonotonic hnot
    eight_le_taken := by simp [htaken, hmonotonic]
    visits_of_long := fun hnot => absurd hmonotonic hnot
    source_eq := fun _ => hsource
    data_of_le := fun _ => by rw [hdata, value_sortSmall_of_monotonic hshape] }

/-- The path of a short window that is not monotonic. -/
lemma path_of_short (hless : StrictWeak less) (hnot : ¬Monotonic less v)
    (hshort : v.length ≤ config.threshold)
    (hvisits : r.trace.map Event.visit = visitsOf .main lo v.length [.simpleCases, .baseCase])
    (hcounted : r.taken = r.trace.length) (hsteps : r.machine.steps = r.taken)
    (hsource : r.machine.source = source)
    (hdata : r.machine.data = writeWindow data lo (insertionSort less v).value) :
    Path less config source data lo v m r := by
  have htaken : r.taken = 2 := taken_eq_length_visits hcounted hvisits
  have hshape := (value_detect_eq_unsorted_iff hless).2 hnot
  exact {
    taken_eq := hcounted
    steps_eq := hsteps
    taken_eq_one := by simp [htaken, hnot]
    visits_of_monotonic := fun hmonotonic => absurd hmonotonic hnot
    data_of_sorted := fun hsorted => absurd (.inl hsorted) hnot
    data_of_reversed := fun _ hreversed => absurd (.inr hreversed) hnot
    taken_eq_two := by simp [htaken, hnot, hshort]
    visits_of_short := fun _ _ => hvisits
    data_of_short := fun _ _ => ⟨_, insertionSort_stablySorted hless v, hdata⟩
    eight_le_taken := by simp [htaken, hshort]
    visits_of_long := fun _ hlong => absurd hshort (Nat.not_le_of_lt hlong)
    source_eq := fun _ => hsource
    data_of_le := fun _ => by rw [hdata, value_sortSmall_of_unsorted hshape] }

/-- The path of any other window: the visits of the window are seven, and there is one of its sample
at least. -/
lemma path_of_sampled (hnot : ¬Monotonic less v) (hlong : config.threshold < v.length)
    {plan : SamplingPlan} {sampling rest : List Visit}
    (hplan : config.samplingPlan v.length = .ok plan) (hpos : 1 ≤ plan.samples)
    (hsampling : ∃ later, sampling = ⟨.simpleCases, .sample, lo, lo + plan.samples⟩ :: later)
    (hvisits : r.trace.map Event.visit =
      visitsOf .main lo v.length [.simpleCases, .baseCase, .sampling] ++ sampling ++
        visitsOf .main lo v.length [.sampling, .classification, .partitioning, .recursion] ++
          rest)
    (hdrawn : ∃ r₃, m.runFor less 3 = .ok r₃ ∧ r₃.taken = 3 ∧
      Sampled plan source data lo v r₃.machine)
    (hcounted : r.taken = r.trace.length) (hsteps : r.machine.steps = r.taken) :
    Path less config source data lo v m r := by
  obtain ⟨later, rfl⟩ := hsampling
  obtain ⟨r₃, hdrawn⟩ := hdrawn
  have htaken : 8 ≤ r.taken := by
    rw [taken_eq_length_visits hcounted hvisits]
    simp only [visitsOf, List.length_append, List.length_cons, List.length_map]
    omega
  rw [List.append_assoc, List.append_assoc, List.cons_append] at hvisits
  have hne : ∀ k < 8, r.taken ≠ k := fun k hk => by omega
  exact {
    taken_eq := hcounted
    steps_eq := hsteps
    taken_eq_one := by simp [hne, hnot]
    visits_of_monotonic := fun hmonotonic => absurd hmonotonic hnot
    data_of_sorted := fun hsorted => absurd (.inl hsorted) hnot
    data_of_reversed := fun _ hreversed => absurd (.inr hreversed) hnot
    taken_eq_two := by simp [hne, hlong]
    visits_of_short := fun _ hshort => absurd hlong (Nat.not_lt_of_le hshort)
    data_of_short := fun _ hshort => absurd hlong (Nat.not_lt_of_le hshort)
    eight_le_taken := by simp [htaken, hnot, hlong]
    visits_of_long := fun _ _ => ⟨plan, _, r₃, hplan, hpos, hvisits, hdrawn⟩
    source_eq := fun hle => by omega
    data_of_le := fun hshort => absurd hlong (Nat.not_lt_of_le hshort) }

/-! ### Runs -/

/-- A machine that is set up runs to the end and makes the visits of the recursion. -/
lemma exists_run_of_setUp (hless : StrictWeak less) (hc : config.Valid) (source : σ)
    (strategy : Strategy) (hle : lo ≤ hi) (hhi : hi ≤ data.size) :
    ∃ v out m r, readWindow? data lo hi = .ok v ∧ hi = lo + v.length ∧
      m = { initial source data lo hi with config, strategy } ∧
      config.recursiveSort less strategy .main lo v source = pure out ∧
      setUp source config strategy data lo hi = .ok m ∧ m.run less = .ok r ∧ r.error? = none ∧
      r.machine.isDone = true ∧ r.machine.data = writeWindow data lo out.window ∧
      r.machine.source = out.source ∧ r.taken = r.trace.length ∧ r.machine.steps = r.taken ∧
      r.trace.map Event.visit = out.visits := by
  have hlength : (window data.toList lo hi).length = hi - lo := length_window hhi
  have hread : readWindow? data lo hi = .ok (window data.toList lo hi) := by
    rw [readWindow?_eq, slice?_eq_window hle hhi]
  generalize window data.toList lo hi = v at hlength hread
  obtain rfl : hi = lo + v.length := by omega
  obtain ⟨out, hout, hperforms⟩ := simulated hless hc strategy v .main lo source
  have hsetUp := setUp_eq_ok hc source strategy hle hhi
  obtain ⟨m₀, hstarted, hsame⟩ := exists_started_of_setUp hsetUp
  generalize hm : ({ initial source data lo (lo + v.length) with config, strategy } : Machine α σ) =
    m at hsetUp hsame
  have hinv : m.Inv less data.toList lo (lo + v.length) := hstarted.inv.of_sameWork hsame
  obtain ⟨events, hruns, hvisits⟩ := hperforms.runs m [] 0 (by rw [← hm]) (by rw [← hm])
    (by rw [← hm]; rfl) (by rw [← hm]; exact hhi)
  have hself : m.put lo v ([.fresh lo (lo + v.length) .main] ++ []) source 0 = m := by
    subst hm
    exact put_self hread
  rw [hself] at hruns
  have hweight := hinv.length_steps_add_weight_le hless hruns.steps
  have hbudget : events.length ≤ m.allowance := by
    have := stackWeight_le_allowance m
    omega
  have hrun := hruns.runFrom_eq rfl (by rw [← hm]; rfl) [] 0 hbudget
  rw [Nat.zero_add] at hrun
  refine ⟨v, out, m, _, hread, rfl, rfl, hout, hsetUp, hrun, rfl, rfl, ?_, rfl, rfl, ?_, hvisits⟩
  · rw [← hm]
    rfl
  · rw [← hm]
    show 0 + events.length = events.length
    rw [Nat.zero_add]

/-- What a call yields decides the path of a run that makes its visits. -/
lemma path_of_recursiveSort (hless : StrictWeak less) (hc : config.Valid)
    (hread : readWindow? data lo hi = .ok v) (hhi : hi = lo + v.length)
    (hm : m = { initial source data lo hi with config, strategy })
    (hout : config.recursiveSort less strategy .main lo v source = pure out)
    (hdata : r.machine.data = writeWindow data lo out.window)
    (hsource : r.machine.source = out.source) (hcounted : r.taken = r.trace.length)
    (hsteps : r.machine.steps = r.taken) (hvisits : r.trace.map Event.visit = out.visits) :
    Path less config source data lo v m r := by
  by_cases hmonotonic : Monotonic less v
  · have hshape : (Shape.detect less v).value ≠ .unsorted := fun hunsorted =>
      (value_detect_eq_unsorted_iff hless).1 hunsorted hmonotonic
    rw [Config.recursiveSort_resolved hshape] at hout
    obtain rfl := pure_injective hout
    exact path_of_monotonic hless hmonotonic hread hvisits hcounted hsteps hsource hdata
  · have hshape := (value_detect_eq_unsorted_iff hless).2 hmonotonic
    by_cases hshort : v.length ≤ config.threshold
    · rw [Config.recursiveSort_short hshape hshort] at hout
      obtain rfl := pure_injective hout
      exact path_of_short hless hmonotonic hshort hvisits hcounted hsteps hsource hdata
    · have hlong := Nat.lt_of_not_le hshort
      obtain ⟨plan, sample, source', sorted, rest, hplan, hpos, hlength, hsorted, hall⟩ :=
        Config.exists_visits_sampled hless hc hshape hlong hout
      have hsampling := Config.exists_visits_eq_cons hless hc hsorted
      rw [hlength] at hsampling
      have hdrawn : ∃ r₃, m.runFor less 3 = .ok r₃ ∧ r₃.taken = 3 ∧
          Sampled plan source data lo v r₃.machine := by
        subst hm hhi
        exact exists_runFor_three rfl rfl rfl hread hshape hlong hplan
          (Config.samples_le hplan |>.trans (Nat.div_le_self _ _))
      exact path_of_sampled hmonotonic hlong hplan hpos hsampling (hvisits.trans hall) hdrawn
        hcounted hsteps

/-- **A run takes the path that its window decides.** However a machine is set up, its run takes one
step if the window is monotonic, two if it is short, and else at least eight, of which the first
three draw a sample. And whatever a machine has sorted, a second one takes a single step to find it
sorted, and changes nothing.

**Proof sketch.** A run makes the visits of the recursion, which are one, two, or at least eight, as
`path_of_recursiveSort` tells from the window. What a machine has sorted is monotonic, so that the
second run takes the first of the three paths. -/
theorem run_path [IndexSource τ] (hless : StrictWeak less) (hc : config.Valid) (source : σ)
    (strategy : Strategy) (data : Array α) (hle : lo ≤ hi) (hhi : hi ≤ data.size) :
    (∃ v m r, readWindow? data lo hi = .ok v ∧ setUp source config strategy data lo hi = .ok m ∧
      m.run less = .ok r ∧ r.error? = none ∧ r.machine.isDone = true ∧
      Path less config source data lo v m r) ∧
    ∀ finished : Machine α τ, Reachable less data lo hi finished → finished.isDone = true →
      ∃ m r, setUp source config strategy finished.data lo hi = .ok m ∧ m.run less = .ok r ∧
        r.error? = none ∧ r.machine.isDone = true ∧ r.taken = 1 ∧
        r.machine.data = finished.data ∧ r.machine.source = source := by
  constructor
  · obtain ⟨v, out, m, r, hread, hstop, hm, hout, hsetUp, hrun, herror, hdone, hdata, hsource,
      hcounted, hsteps, hvisits⟩ :=
      exists_run_of_setUp hless hc source strategy hle hhi
    exact ⟨v, m, r, hread, hsetUp, hrun, herror, hdone,
      path_of_recursiveSort hless hc hread hstop hm hout hdata hsource hcounted hsteps hvisits⟩
  · intro finished hreachable hfinished
    have hinv := hreachable.inv hless
    have hhi' := hinv.le_length
    obtain ⟨v, out, m, r, hread, hstop, hm, hout, hsetUp, hrun, herror, hdone, hdata, hsource,
      hcounted, hsteps, hvisits⟩ :=
      exists_run_of_setUp hless hc source strategy hle hhi'
    have hpath :=
      path_of_recursiveSort hless hc hread hstop hm hout hdata hsource hcounted hsteps hvisits
    have hsorted : Sorted less v := by
      rw [readWindow?_eq, slice?_eq_window hle hhi'] at hread
      obtain rfl := Except.ok.inj hread
      exact hinv.sorted_of_done hfinished
    have hone := hpath.taken_eq_one.2 (.inl hsorted)
    exact ⟨m, r, hsetUp, hrun, herror, hdone, hone, hpath.data_of_sorted hsorted,
      hpath.source_eq (by omega)⟩

/-- Four numbers between two others take at least eight steps, and the third draws the last of them
to the front. A second machine, with another tuning and another strategy, takes one step more. -/
theorem run_path_of_four :
    ∃ (m m' : Machine Nat WordCycle) (r₃ r r' : Run Nat WordCycle Event),
      setUp (.ofList [0xc0000000]) ⟨1, 1, 1, 0⟩ .sequential #[9, 2, 4, 1, 3, 0] 1 5 = .ok m ∧
      m.runFor (fun a b => decide (a < b)) 3 = .ok r₃ ∧
      r₃.machine.data = #[9, 3, 4, 1, 2, 0] ∧
      m.run (fun a b => decide (a < b)) = .ok r ∧ 8 ≤ r.taken ∧
      setUp (.ofList [0]) {} .placement r.machine.data 1 5 = .ok m' ∧
      m'.run (fun a b => decide (a < b)) = .ok r' ∧ r'.taken = 1 ∧
      r'.machine.data = r.machine.data := by
  let m₀ : Machine Nat WordCycle := .initial (.ofList [0xc0000000]) #[9, 2, 4, 1, 3, 0] 1 5
  let m₁ : Machine Nat WordCycle := { m₀ with config := ⟨1, 1, 1, 0⟩ }
  have hwindow : ofWindow? (.ofList [0xc0000000]) #[9, 2, 4, 1, 3, 0] 1 5 = .ok m₀ := rfl
  have hconfig : m₀.withConfig? ⟨1, 1, 1, 0⟩ = .ok m₁ := rfl
  have hle : 1 ≤ 5 := by decide
  obtain ⟨⟨v, m, r, hread, hsetUp, hrun, -, hdone, hpath⟩, -⟩ :=
    run_path (τ := WordCycle) .natural (show Config.Valid ⟨1, 1, 1, 0⟩ by decide)
      (WordCycle.ofList [0xc0000000]) .sequential #[9, 2, 4, 1, 3, 0] hle (by decide)
  obtain rfl : m₁.withStrategy .sequential = m := Except.ok.inj hsetUp
  obtain rfl : [2, 4, 1, 3] = v := Except.ok.inj hread
  have hreachable : Reachable (fun a b => decide (a < b)) #[9, 2, 4, 1, 3, 0] 1 5 r.machine :=
    ⟨m₀, _, .window hwindow, ((Reaches.refl.tail (.withConfig hconfig)).tail
      (.withStrategy m₁ .sequential)).tail (.run hrun)⟩
  have hnot : ¬Monotonic (fun a b : Nat => decide (a < b)) [2, 4, 1, 3] := by
    unfold Monotonic Sorted
    decide
  obtain ⟨plan, -, r₃, hplan, -, -, hthree, -, hsampled⟩ := hpath.visits_of_long hnot (by decide)
  obtain rfl : (⟨1, 2, 1, 1⟩ : SamplingPlan) = plan := Except.ok.inj hplan
  obtain ⟨w, hdraw, hdata⟩ := hsampled.draws
  obtain rfl : [3, 4, 1, 2] = w := congrArg Prod.fst (Except.ok.inj hdraw)
  obtain ⟨-, hagain⟩ := run_path (τ := WordCycle) .natural (show Config.Valid {} by decide)
    (WordCycle.ofList [0]) .placement #[9, 2, 4, 1, 3, 0] hle (by decide)
  obtain ⟨m', r', hsetUp', hrun', -, -, hone, hsame, -⟩ := hagain r.machine hreachable hdone
  exact ⟨_, m', r₃, r, r', hsetUp, hthree, hdata, hrun, hpath.eight_le_taken.2 ⟨hnot, by decide⟩,
    hsetUp', hrun', hone, hsame⟩

end Machine

end SampleSort
