import Mathlib.Tactic.Lemma
import SampleSort.Machine.Run

set_option relaxedAutoImplicit false
set_option autoImplicit false

/-!
# Driving a machine

A machine is driven from outside by calls that step or run it and by calls that exchange its source,
its configuration or its strategy, in any order. Memory can run out at any step. Runs are sequences
of steps, so that what steps and exchanges preserve holds however a machine is driven.

## Main definitions

* `SampleSort.Machine.Started` — a machine as it is set up.
* `SampleSort.Machine.Follows` — one call.
* `SampleSort.Machine.Reaches` — any sequence of calls, with the events of their steps.
* `SampleSort.Machine.Reachable` — what calls can lead to.
* `SampleSort.Machine.Steps` — a sequence of steps.
* `SampleSort.Machine.stepThrough` — the same as a computation, with the answers.
* `SampleSort.Machine.setUp` — a machine as it is set up, with all that can be exchanged.
* `SampleSort.Machine.SameWork` — machines that differ only in what can be exchanged.

## Main results

* `SampleSort.Machine.step_of_turn` — a step is a turn of the first frame.
* `SampleSort.Machine.steps_of_runFrom` — a run is a sequence of steps.
* `SampleSort.Machine.Follows.cases_step` — a call is a sequence of steps or an exchange.
* `SampleSort.Machine.Reaches.keeps` — what steps and exchanges keep, calls keep.
-/

namespace SampleSort

namespace Machine

variable {α σ β : Type} {less : α → α → Bool}

/-! ### Calls -/

/-- The events of a step: one if it succeeded, and none if it failed or there was nothing to do. -/
def eventsOf : Except SortError (Option Event) → List Event
  | .ok (some event) => [event]
  | _ => []

/-- The machine is set up to sort the positions from `lo` to `hi` of the sequence `data`. -/
inductive Started (data : Array α) : (lo hi : Nat) → Machine α σ → Prop where
  /-- The whole sequence is to be sorted. -/
  | whole (source : σ) : Started data 0 data.size (ofArray source data)
  /-- A window of it is to be sorted. -/
  | window {source : σ} {lo hi : Nat} {m : Machine α σ}
      (h : ofWindow? source data lo hi = .ok m) : Started data lo hi m

/-- However a machine is set up, it is one that is about to sort a window. -/
lemma Started.exists_eq_initial {data : Array α} {lo hi : Nat} {m : Machine α σ}
    (h : Started data lo hi m) :
    lo ≤ hi ∧ hi ≤ data.size ∧ ∃ source, m = initial source data lo hi := by
  cases h with
  | whole source => exact ⟨Nat.zero_le _, Nat.le_refl _, source, rfl⟩
  | @window source _ _ _ hwindow =>
    unfold ofWindow? at hwindow
    split at hwindow
    · next hbounds =>
      cases hwindow
      exact ⟨hbounds.1, hbounds.2, source, rfl⟩
    · cases hwindow

section

variable [IndexSource σ]

/-- A call leads from one machine to another, with these events. -/
inductive Follows (less : α → α → Bool) : Machine α σ → List Event → Machine α σ → Prop where
  /-- A step, which may find memory exhausted. -/
  | step {m m' : Machine α σ} {memory : Memory} {result : Except SortError (Option Event)}
      (h : m.step less memory = .ok (result, m')) : Follows less m (eventsOf result) m'
  /-- A run to the end. -/
  | run {m : Machine α σ} {r : Run α σ Event} (h : m.run less = .ok r) :
      Follows less m r.trace r.machine
  /-- A run for a number of steps. -/
  | runFor {m : Machine α σ} {budget : Nat} {r : Run α σ Event}
      (h : m.runFor less budget = .ok r) : Follows less m r.trace r.machine
  /-- Another source of randomness. -/
  | withSource (m : Machine α σ) (source : σ) : Follows less m [] (m.withSource source)
  /-- Another configuration, if it is accepted. -/
  | withConfig {m m' : Machine α σ} {config : Config} (h : m.withConfig? config = .ok m') :
      Follows less m [] m'
  /-- Another strategy. -/
  | withStrategy (m : Machine α σ) (strategy : Strategy) :
      Follows less m [] (m.withStrategy strategy)

/-- Any number of calls leads from one machine to another, with these events. -/
inductive Reaches (less : α → α → Bool) (m : Machine α σ) : List Event → Machine α σ → Prop where
  /-- No call. -/
  | refl : Reaches less m [] m
  /-- One more call. -/
  | tail {events events' : List Event} {m' m'' : Machine α σ} (h : Reaches less m events m')
      (h' : Follows less m' events' m'') : Reaches less m (events ++ events') m''

/-- The machine comes of one that was set up to sort the positions from `lo` to `hi` of `data`. -/
def Reachable (less : α → α → Bool) (data : Array α) (lo hi : Nat) (m : Machine α σ) : Prop :=
  ∃ m₀ events, Started data lo hi m₀ ∧ Reaches less m₀ events m

/-- Any number of steps leads from one machine to another, with these events. -/
inductive Steps (less : α → α → Bool) : Machine α σ → List Event → Machine α σ → Prop where
  /-- No step. -/
  | refl (m : Machine α σ) : Steps less m [] m
  /-- One more step. -/
  | head {m m' m'' : Machine α σ} {memory : Memory} {result : Except SortError (Option Event)}
      {events : List Event} (h : m.step less memory = .ok (result, m'))
      (h' : Steps less m' events m'') : Steps less m (eventsOf result ++ events) m''

/-- Steps one after the other, with memory for each as listed: their answers, and the machine after
the last of them. -/
def stepThrough (less : α → α → Bool) : List Memory → Machine α σ →
    Except Fault (List (Except SortError (Option Event)) × Machine α σ)
  | [], m => return ([], m)
  | memory :: memories, m => do
    let (answer, m) ← m.step less memory
    let (answers, m) ← stepThrough less memories m
    return (answer :: answers, m)

end

/-- A machine that is set up to sort the positions from `lo` to `hi` of `data`, with this source,
configuration and strategy. -/
def setUp (source : σ) (config : Config) (strategy : Strategy) (data : Array α) (lo hi : Nat) :
    Except SortError (Machine α σ) := do
  let m ← ofWindow? source data lo hi
  let m ← m.withConfig? config
  return m.withStrategy strategy

/-! ### A step is a turn -/

/-- The machine after a turn of its first frame. -/
def after (m : Machine α σ) (f : Frame α) (others : List (Frame α)) (t : Turn α σ) :
    Machine α σ :=
  { m with
    data := writeWindow m.data f.start t.window
    stack := f.successors t.transition ++ others
    source := t.source
    steps := m.steps + 1
    poisoned := (f.error? t.transition).isSome }

/-- The answer of a step that takes a turn of the frame `f` with `others` below. -/
def answer (f : Frame α) (others : List (Frame α)) (t : Turn α σ) :
    Except SortError (Option Event) :=
  match f.error? t.transition with
  | some error => .error error
  | none => .ok (some ⟨f.stage, f.role, f.start, f.stop, others.length + 1⟩)

variable [IndexSource σ] {m m' : Machine α σ} {memory : Memory}
  {result : Except SortError (Option Event)} {events : List Event}

/-- A step is a turn of the first frame. -/
lemma step_of_turn {f : Frame α} {others : List (Frame α)} {v : List α} {t : Turn α σ}
    (hpoisoned : m.poisoned = false) (hstack : m.stack = f :: others)
    (hread : readWindow? m.data f.start f.stop = .ok v)
    (hturn : f.phase.turn less m.config m.strategy memory m.source v = .ok t) :
    m.step less memory = .ok (answer f others t, m.after f others t) := by
  simp only [step, hpoisoned, hstack, hread, hturn, Bool.false_eq_true, if_false, bind,
    Except.bind, answer, after]
  cases f.error? t.transition <;> rfl

/-- A machine that is done has nothing to do. -/
lemma step_of_done (less : α → α → Bool) (memory : Memory) (hpoisoned : m.poisoned = false)
    (hdone : m.isDone = true) : m.step less memory = .ok (.ok none, m) := by
  have hstack : m.stack = [] := List.isEmpty_iff.1 hdone
  simp [step, hpoisoned, hstack, pure, Except.pure]

/-- A machine takes no step because it is poisoned or done, or else it has a frame to work on. -/
lemma halted_or_pending (less : α → α → Bool) (memory : Memory) (m : Machine α σ) :
    (∃ result, m.step less memory = .ok (result, m) ∧ eventsOf result = []) ∨
      m.poisoned = false ∧ ∃ f others, m.stack = f :: others := by
  by_cases hpoisoned : m.poisoned = true
  · left
    refine ⟨.error .poisoned, ?_, rfl⟩
    simp [step, hpoisoned, pure, Except.pure]
  · replace hpoisoned : m.poisoned = false := by simpa using hpoisoned
    by_cases hdone : m.isDone = true
    · exact Or.inl ⟨.ok none, step_of_done less memory hpoisoned hdone, rfl⟩
    · right
      refine ⟨hpoisoned, List.exists_cons_of_ne_nil ?_⟩
      intro hnil
      exact hdone (List.isEmpty_iff.2 hnil)

/-! ### Calls and steps -/

/-- A run is a sequence of steps. -/
lemma steps_of_runFrom {condition : Machine α σ → Bool} {seen : List Event}
    {taken budget : Nat} {r : Run α σ Event}
    (h : runFrom less (fun event _ => event) condition seen taken budget m = .ok r) :
    ∃ events, r.trace = seen.reverse ++ events ∧ Steps less m events r.machine := by
  induction budget generalizing seen taken m with
  | zero =>
    obtain rfl : _ = r := Except.ok.inj h
    exact ⟨[], by simp, .refl m⟩
  | succ budget ih =>
    rw [runFrom] at h
    by_cases hcondition : condition m = true
    · rw [if_pos hcondition] at h
      obtain rfl : _ = r := Except.ok.inj h
      exact ⟨[], by simp, .refl m⟩
    · rw [if_neg hcondition] at h
      rcases hstep : m.step less .available with fault | ⟨error | event?, m'⟩
      · rw [hstep] at h
        cases h
      · rw [hstep] at h
        obtain rfl : _ = r := Except.ok.inj h
        exact ⟨[], by simp, .head hstep (.refl m')⟩
      · cases event? with
        | none =>
          rw [hstep] at h
          obtain rfl : _ = r := Except.ok.inj h
          exact ⟨[], by simp, .head hstep (.refl m')⟩
        | some event =>
          rw [hstep] at h
          obtain ⟨events, htrace, hsteps⟩ := ih h
          exact ⟨event :: events, by simpa using htrace, .head hstep hsteps⟩

/-- Steps are calls. -/
lemma Reaches.steps {m₀ : Machine α σ} {before : List Event} (h : Reaches less m₀ before m)
    (hsteps : Steps less m events m') : Reaches less m₀ (before ++ events) m' := by
  induction hsteps generalizing before with
  | refl => simpa using h
  | head hstep _ ih => simpa using ih (h.tail (.step hstep))

omit [IndexSource σ] in
/-- A run of which something can be observed has come to an end. -/
lemma exists_run_of_map {γ : Type} {outcome : Except Fault (Run α σ β)} {observe : Run α σ β → γ}
    {c : γ} (h : outcome.map observe = .ok c) : ∃ r, outcome = .ok r ∧ observe r = c := by
  cases outcome with
  | error fault => cases h
  | ok r => exact ⟨r, rfl, Except.ok.inj h⟩

/-- A machine that is set up and given a configuration is reachable after any number of steps of
which something can be observed. -/
lemma Started.exists_reachable {γ : Type} {data : Array α} {lo hi budget : Nat} {config : Config}
    {m₀ m₁ : Machine α σ} {c : γ} (hstarted : Started data lo hi m₀)
    (hconfig : m₀.withConfig? config = .ok m₁) (observe : Machine α σ → γ)
    (hrun : (m₁.runFor less budget).map (fun r => observe r.machine) = .ok c) :
    ∃ m, Reachable less data lo hi m ∧ observe m = c := by
  obtain ⟨r, hrun, hobserved⟩ := exists_run_of_map hrun
  exact ⟨r.machine,
    ⟨m₀, _, hstarted, (Reaches.refl.tail (.withConfig hconfig)).tail (.runFor hrun)⟩, hobserved⟩

/-- A call is a sequence of steps or an exchange. -/
lemma Follows.cases_step (h : Follows less m events m') :
    Steps less m events m' ∨
      events = [] ∧ ((∃ source, m' = m.withSource source) ∨
        (∃ config, m.withConfig? config = .ok m') ∨ ∃ strategy, m' = m.withStrategy strategy) := by
  cases h with
  | step hstep =>
    left
    rw [← List.append_nil (eventsOf _)]
    exact .head hstep (.refl m')
  | run hrun =>
    left
    obtain ⟨events, htrace, hsteps⟩ := steps_of_runFrom hrun
    rw [htrace]
    exact hsteps
  | runFor hrun =>
    left
    obtain ⟨events, htrace, hsteps⟩ := steps_of_runFrom hrun
    rw [htrace]
    exact hsteps
  | withSource source => exact Or.inr ⟨rfl, Or.inl ⟨source, rfl⟩⟩
  | withConfig hconfig => exact Or.inr ⟨rfl, Or.inr (Or.inl ⟨_, hconfig⟩)⟩
  | withStrategy strategy => exact Or.inr ⟨rfl, Or.inr (Or.inr ⟨strategy, rfl⟩)⟩

omit [IndexSource σ] in
/-- A configuration that is taken over is valid, and nothing else changes. -/
lemma withConfig?_eq_ok_iff {config : Config} :
    m.withConfig? config = .ok m' ↔ config.Valid ∧ m' = { m with config } := by
  unfold withConfig? Config.Valid
  cases config.flaw? with
  | none => simp [eq_comm]
  | some flaw => simp

/-! ### What calls keep -/

/-- The second machine is the first one with some of its source, its configuration and its strategy
exchanged. -/
structure SameWork (m m' : Machine α σ) : Prop where
  /-- The data stays as it is. -/
  data : m'.data = m.data
  /-- So does the stack. -/
  stack : m'.stack = m.stack
  /-- An exchange is no step. -/
  steps : m'.steps = m.steps
  /-- An exchange neither poisons a machine nor heals it. -/
  poisoned : m'.poisoned = m.poisoned
  /-- A configuration is exchanged for one that is accepted. -/
  valid : m.config.Valid → m'.config.Valid

/-- A call is a sequence of steps, or it leaves the work as it is. -/
lemma Follows.cases_work (h : Follows less m events m') :
    Steps less m events m' ∨ events = [] ∧ SameWork m m' := by
  rcases h.cases_step with
    hsteps | ⟨hevents, ⟨source, rfl⟩ | ⟨config, hconfig⟩ | ⟨strategy, rfl⟩⟩
  · exact Or.inl hsteps
  · exact Or.inr ⟨hevents, rfl, rfl, rfl, rfl, id⟩
  · obtain ⟨hvalid, rfl⟩ := withConfig?_eq_ok_iff.1 hconfig
    exact Or.inr ⟨hevents, rfl, rfl, rfl, rfl, fun _ => hvalid⟩
  · exact Or.inr ⟨hevents, rfl, rfl, rfl, rfl, id⟩

/-- What every step keeps, any number of steps keeps. -/
lemma Steps.keeps {P : Machine α σ → Prop}
    (step : ∀ {m m' memory result}, P m → m.step less memory = .ok (result, m') → P m')
    (h : Steps less m events m') (hm : P m) : P m' := by
  induction h with
  | refl => exact hm
  | head hstep _ ih => exact ih (step hm hstep)

/-- What every step and every exchange keeps, any calls keep. -/
theorem Reaches.keeps {P : Machine α σ → Prop}
    (step : ∀ {m m' memory result}, P m → m.step less memory = .ok (result, m') → P m')
    (exchange : ∀ {m m'}, P m → SameWork m m' → P m')
    (h : Reaches less m events m') (hm : P m) : P m' := by
  induction h with
  | refl => exact hm
  | tail _ hfollows ih =>
    rcases hfollows.cases_work with hsteps | ⟨_, hsame⟩
    · exact hsteps.keeps step ih
    · exact exchange ih hsame

end Machine

end SampleSort
