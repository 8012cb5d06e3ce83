import SampleSort.Proofs.Conservation
import SampleSort.Proofs.Refusal
import SampleSort.Proofs.Simulation

set_option relaxedAutoImplicit false
set_option autoImplicit false

/-!
# A run in pieces

A machine can be driven by single steps, by runs for a number of steps and by runs to the end. How
the driving is cut into calls makes no difference: with memory for every step, all calls go along
the one sequence of steps that the machine makes, and each takes up where the one before it has
stopped. A run for a number of steps stops early only at the end, and a run to the end is one for
any number of steps that is large enough.

Nothing of this depends on the order. But if that is not a strict weak ordering, a machine may have
no end to run to, so that the value of an unbounded run is an option.

## Main definitions

* `SampleSort.Machine.runToEnd` — a run to the end whose steps are not bounded.
* `SampleSort.Call`, `SampleSort.Machine.perform` — calls that drive a machine.
* `SampleSort.Machine.Healthy` — no step of the machine has failed, and with memory none will.
* `SampleSort.Machine.InPieces` — how calls divide the steps of a machine.

## Main results

* `SampleSort.Machine.Healthy.runFor_eq_ok_iff` — what a run for a number of steps yields.
* `SampleSort.Machine.Healthy.runToEnd_eq_some_iff` — what an unbounded run yields.
* `SampleSort.Machine.Reachable.inPieces` — a reachable machine can be driven in pieces.
-/

namespace SampleSort

/-- A call that drives a machine on. -/
inductive Call where
  /-- A single step. -/
  | step
  /-- A run for a number of steps. -/
  | runFor (budget : Nat)
  /-- A run to the end. -/
  | run
  deriving DecidableEq, Repr

namespace Machine

variable {α σ : Type}

section Definitions

variable [IndexSource σ] (less : α → α → Bool)

/-- Steps until all work is done or a step fails, however many these are. The record begins with
what has been `seen` before, which is held last event first, and the count with the steps that have
been `taken` before. -/
def runOn (seen : List Event) (taken : Nat) (m : Machine α σ) :
    Option (Except Fault (Run α σ Event)) :=
  match m.step less .available with
  | .ok (.ok (some event), m) => m |>.runOn (event :: seen) (taken + 1)
  | .ok (.ok none, m) => some (.ok ⟨seen.reverse, taken, none, m⟩)
  | .ok (.error error, m) => some (.ok ⟨seen.reverse, taken, some error, m⟩)
  | .error fault => some (.error fault)
partial_fixpoint

/-- Steps until all work is done or a step fails, however many these are. -/
def runToEnd (m : Machine α σ) : Option (Except Fault (Run α σ Event)) :=
  m.runOn less [] 0

/-- The events of a call, and the machine after it. -/
def performOne (m : Machine α σ) : Call → ExceptT Fault Option (List Event × Machine α σ)
  | .step => do
    let (answer, m) ← MonadExcept.ofExcept (m.step less .available)
    return (eventsOf answer, m)
  | .runFor budget => do
    let r ← MonadExcept.ofExcept (m.runFor less budget)
    return (r.trace, r.machine)
  | .run => do
    let r ← ExceptT.mk (m.runToEnd less)
    return (r.trace, r.machine)

/-- The events of calls that are made one after the other, and the machine after the last of
them. -/
def perform : List Call → Machine α σ → ExceptT Fault Option (List Event × Machine α σ)
  | [], m => return ([], m)
  | call :: calls, m => do
    let (events, m) ← m.performOne less call
    let (events', m) ← perform calls m
    return (events ++ events', m)

end Definitions

variable {less : α → α → Bool} {lo hi : Nat} {m m₁ m' : Machine α σ}
  {events events' : List Event} {budget : Nat}

/-- No step of the machine has failed, and its books are kept, so that with memory none will. -/
structure Healthy (lo hi : Nat) (m : Machine α σ) : Prop where
  /-- What is recorded about a window covers it. -/
  accounted : m.Accounted lo hi
  /-- No step has failed. -/
  poisoned : m.poisoned = false

variable [IndexSource σ]

/-- However the driving of the machine is cut into calls, the machine goes along one sequence of
steps. -/
structure InPieces (less : α → α → Bool) (m : Machine α σ) : Prop where
  /-- A run for a number of steps records the steps that the machine makes. It counts as many as it
  records, and so does the machine. If there are fewer than asked for, all work is done. -/
  runFor : ∀ budget, ∃ r, m.runFor less budget = .ok r ∧ r.error? = none ∧
    Runs less m r.trace r.machine ∧ r.taken = r.trace.length ∧ r.taken ≤ budget ∧
    r.machine.steps = m.steps + r.taken ∧ (r.taken < budget → r.machine.isDone = true)
  /-- Two such runs, one after the other, are one for as many steps as both. -/
  runFor_add : ∀ a b, ∃ r₁ r₂ r, m.runFor less a = .ok r₁ ∧ r₁.machine.runFor less b = .ok r₂ ∧
    m.runFor less (a + b) = .ok r ∧ r.machine = r₂.machine ∧ r.taken = r₁.taken + r₂.taken ∧
    r.trace = r₁.trace ++ r₂.trace
  /-- If the steps of the machine come to an end, an unbounded run and every run for at least as
  many steps come to it. -/
  ends : ∀ events m', Runs less m events m' → m'.isDone = true →
    m.runToEnd less = some (.ok ⟨events, events.length, none, m'⟩) ∧
      ∀ budget, events.length ≤ budget →
        m.runFor less budget = .ok ⟨events, events.length, none, m'⟩
  /-- An unbounded run ends in no other way. -/
  only_ends : ∀ outcome, m.runToEnd less = some outcome →
    ∃ events m', Runs less m events m' ∧ m'.isDone = true ∧
      outcome = .ok ⟨events, events.length, none, m'⟩
  /-- With a strict weak ordering there is an end, and the bounded run comes to it. -/
  run : StrictWeak less → ∃ r, m.run less = .ok r ∧ m.runToEnd less = some (.ok r) ∧
    r.error? = none ∧ r.machine.isDone = true
  /-- Calls can be made in any order. They come back, unless they run to an end that there is
  not. -/
  performs : ∀ calls, (Call.run ∈ calls → ∃ outcome, m.runToEnd less = some outcome) →
    ∃ events m', perform less calls m = pure (events, m')
  /-- What calls amount to is told by the number of their events. -/
  performs_runFor : ∀ calls events m', perform less calls m = pure (events, m') →
    m.runFor less events.length = .ok ⟨events, events.length, none, m'⟩
  /-- All calls that come to the end have the same events and come to the same machine. -/
  performs_alike : ∀ calls calls' events events' m₁ m₂,
    perform less calls m = pure (events, m₁) → perform less calls' m = pure (events', m₂) →
      m₁.isDone = true → m₂.isDone = true → events = events' ∧ m₁ = m₂

/-- A step of a healthy machine with memory does nothing if all work is done; otherwise it succeeds
and the machine stays healthy. -/
lemma Healthy.step_cases (less : α → α → Bool) (h : m.Healthy lo hi) :
    (m.isDone = true ∧ m.step less .available = .ok (.ok none, m)) ∨
      ∃ event m', m.step less .available = .ok (.ok (some event), m') ∧ m'.Healthy lo hi ∧
        m'.steps = m.steps + 1 := by
  rcases hstack : m.stack with _ | ⟨f, others⟩
  · have hdone : m.isDone = true := List.isEmpty_iff.2 hstack
    exact Or.inl ⟨hdone, step_of_done less .available h.poisoned hdone⟩
  · right
    obtain ⟨t, hturn, -⟩ := h.accounted.exists_turn less hstack h.poisoned .available
    cases herror : f.error? t.transition with
    | none =>
      rw [answer, herror] at hturn
      refine ⟨_, _, hturn, ⟨h.accounted.of_step hturn, ?_⟩, rfl⟩
      show (f.error? t.transition).isSome = false
      rw [herror]
      rfl
    | some error =>
      rw [answer, herror] at hturn
      obtain ⟨hexhausted, -⟩ := error_of_step hstack h.poisoned hturn
      cases hexhausted

/-! ### The sequence of steps -/

namespace Runs

/-- Successful steps keep a machine healthy and are counted. -/
lemma healthy (hruns : Runs less m events m') (h : m.Healthy lo hi) :
    m'.Healthy lo hi ∧ m'.steps = m.steps + events.length := by
  induction hruns with
  | refl m => exact ⟨h, rfl⟩
  | @head m m₁ m' event events hstep _ ih =>
    rcases h.step_cases less with ⟨-, hnone⟩ | ⟨event', m₂, hsome, hhealthy, hsteps⟩
    · rw [hnone] at hstep
      cases hstep
    · obtain ⟨-, rfl⟩ := Prod.mk.inj (Except.ok.inj (hsome.symm.trans hstep))
      obtain ⟨hhealthy', hcounted⟩ := ih hhealthy
      refine ⟨hhealthy', ?_⟩
      rw [hcounted, hsteps, List.length_cons]
      omega

/-- No steps are left to a machine that is done. -/
lemma eq_of_isDone (hruns : Runs less m events m') (hdone : m.isDone = true)
    (hpoisoned : m.poisoned = false) : events = [] ∧ m' = m := by
  cases hruns with
  | refl => exact ⟨rfl, rfl⟩
  | head hstep _ =>
    rw [step_of_done less .available hpoisoned hdone] at hstep
    cases hstep

/-- Steps from a machine are the first ones of all that it makes until it is done. -/
lemma exists_rest (h : Runs less m events m₁) (hall : Runs less m events' m')
    (hdone : m'.isDone = true) (hpoisoned : m'.poisoned = false) :
    ∃ rest, events' = events ++ rest ∧ Runs less m₁ rest m' := by
  induction h generalizing events' with
  | refl m => exact ⟨events', rfl, hall⟩
  | @head m m₁ m₂ event events hstep _ ih =>
    cases hall with
    | refl =>
      rw [step_of_done less .available hpoisoned hdone] at hstep
      cases hstep
    | head hstep' hrest' =>
      obtain ⟨hevent, rfl⟩ := Prod.mk.inj (Except.ok.inj (hstep.symm.trans hstep'))
      obtain rfl := Option.some.inj (Except.ok.inj hevent)
      obtain ⟨rest, rfl, hrest⟩ := ih hrest'
      exact ⟨rest, rfl, hrest⟩

/-- Only one machine that is done can be come to, and in only one way. -/
lemma eq_of_isDone_of_isDone (h : Runs less m events m₁) (h' : Runs less m events' m')
    (hdone : m₁.isDone = true) (hpoisoned : m₁.poisoned = false) (hdone' : m'.isDone = true)
    (hpoisoned' : m'.poisoned = false) : events' = events ∧ m' = m₁ := by
  obtain ⟨rest, rfl, hrest⟩ := h.exists_rest h' hdone' hpoisoned'
  obtain ⟨rfl, rfl⟩ := hrest.eq_of_isDone hdone hpoisoned
  exact ⟨List.append_nil _, rfl⟩

end Runs

namespace Healthy

/-- A healthy machine makes as many steps as it is asked to, or all that there are. -/
lemma exists_runs (less : α → α → Bool) (h : m.Healthy lo hi) (budget : Nat) :
    ∃ events m', Runs less m events m' ∧ events.length ≤ budget ∧
      (events.length < budget → m'.isDone = true) := by
  induction budget generalizing m with
  | zero => exact ⟨[], m, .refl m, Nat.le_refl 0, fun hlt => absurd hlt (Nat.lt_irrefl 0)⟩
  | succ budget ih =>
    rcases h.step_cases less with ⟨hdone, -⟩ | ⟨event, m₁, hstep, hhealthy, -⟩
    · exact ⟨[], m, .refl m, Nat.zero_le _, fun _ => hdone⟩
    · obtain ⟨events, m', hruns, hle, hend⟩ := ih hhealthy
      refine ⟨event :: events, m', .head hstep hruns, ?_, fun hlt => hend ?_⟩
      · exact Nat.succ_le_succ hle
      · exact Nat.lt_of_succ_lt_succ hlt

/-- A run for a number of steps of a healthy machine succeeds, and records as many of the steps that
the machine makes, or all that there are. -/
theorem runFor_eq_ok_iff (h : m.Healthy lo hi) {r : Run α σ Event} :
    m.runFor less budget = .ok r ↔
      r.error? = none ∧ Runs less m r.trace r.machine ∧ r.taken = r.trace.length ∧
        r.taken ≤ budget ∧ (r.taken < budget → r.machine.isDone = true) := by
  have hforth : ∀ {events m'}, Runs less m events m' → events.length ≤ budget →
      (events.length < budget → m'.isDone = true) →
        m.runFor less budget = .ok ⟨events, events.length, none, m'⟩ := by
    intro events m' hruns hle hend
    have hrun := hruns.runFrom_eq_of_length_le (hruns.healthy h).1.poisoned [] 0 hle hend
    rw [Nat.zero_add] at hrun
    exact hrun
  constructor
  · intro hrun
    obtain ⟨events, m', hruns, hle, hend⟩ := h.exists_runs less budget
    rw [hforth hruns hle hend] at hrun
    obtain rfl := Except.ok.inj hrun
    exact ⟨rfl, hruns, rfl, hle, hend⟩
  · obtain ⟨trace, taken, error?, machine⟩ := r
    rintro ⟨rfl, hruns, htaken, hle, hend⟩
    obtain rfl : taken = trace.length := htaken
    exact hforth hruns hle hend

/-- Two runs for a number of steps, one after the other, are one. -/
lemma runFor_add (h : m.Healthy lo hi) {a b : Nat} {r₁ r₂ : Run α σ Event}
    (h₁ : m.runFor less a = .ok r₁) (h₂ : r₁.machine.runFor less b = .ok r₂) :
    m.runFor less (a + b) =
      .ok ⟨r₁.trace ++ r₂.trace, r₁.taken + r₂.taken, none, r₂.machine⟩ := by
  obtain ⟨-, hruns₁, htaken₁, hle₁, hend₁⟩ := h.runFor_eq_ok_iff.1 h₁
  have hhealthy := (hruns₁.healthy h).1
  obtain ⟨-, hruns₂, htaken₂, hle₂, hend₂⟩ := hhealthy.runFor_eq_ok_iff.1 h₂
  refine h.runFor_eq_ok_iff.2
    ⟨rfl, hruns₁.trans hruns₂, ?_, Nat.add_le_add hle₁ hle₂, fun hlt => ?_⟩
  · rw [List.length_append, htaken₁, htaken₂]
  · replace hlt : r₁.taken + r₂.taken < a + b := hlt
    by_cases hshort : r₂.taken < b
    · exact hend₂ hshort
    · -- The second run has used up its budget, so the first one has not, and found the end.
      have hdone := hend₁ (by omega)
      obtain ⟨-, hsame⟩ := hruns₂.eq_of_isDone hdone hhealthy.poisoned
      rwa [hsame]

/-! ### Runs to the end -/

end Healthy

/-- Steps that lead to the end are those of an unbounded run. -/
lemma Runs.runOn_eq (hruns : Runs less m events m') (hdone : m'.isDone = true)
    (hpoisoned : m'.poisoned = false) (seen : List Event) (taken : Nat) :
    m.runOn less seen taken =
      some (.ok ⟨seen.reverse ++ events, taken + events.length, none, m'⟩) := by
  induction hruns generalizing seen taken with
  | refl m =>
    rw [runOn, step_of_done less .available hpoisoned hdone, List.append_nil]
    rfl
  | @head m m₁ m' event events hstep _ ih =>
    rw [runOn, hstep]
    show m₁.runOn less (event :: seen) (taken + 1) = _
    rw [ih hdone hpoisoned (event :: seen) (taken + 1), List.reverse_cons, List.append_assoc,
      List.singleton_append, List.length_cons, Nat.add_right_comm taken 1, Nat.add_assoc]

namespace Healthy

/-- An unbounded run of a healthy machine, if it ends, has come to the end of its steps.

**Proof sketch.** The loop is unfolded as often as it is run through, so that the claim may be
assumed of what is left of the run after a step. -/
lemma of_runOn {seen : List Event} {taken : Nat} {outcome : Except Fault (Run α σ Event)}
    (hrun : m.runOn less seen taken = some outcome) (h : m.Healthy lo hi) :
    ∃ events m', Runs less m events m' ∧ m'.isDone = true ∧
      outcome = .ok ⟨seen.reverse ++ events, taken + events.length, none, m'⟩ := by
  refine runOn.partial_correctness less
    (fun seen taken m outcome => m.Healthy lo hi → ∃ events m', Runs less m events m' ∧
      m'.isDone = true ∧
      outcome = .ok ⟨seen.reverse ++ events, taken + events.length, none, m'⟩)
    (fun loop ih seen taken m outcome hloop h => ?_) seen taken m outcome hrun h
  rcases h.step_cases less with ⟨hdone, hnone⟩ | ⟨event, m₁, hstep, hhealthy, -⟩
  · rw [hnone] at hloop
    obtain rfl := Option.some.inj hloop
    exact ⟨[], m, .refl m, hdone, by rw [List.append_nil]; rfl⟩
  · rw [hstep] at hloop
    obtain ⟨events, m', hruns, hdone, rfl⟩ :=
      ih (event :: seen) (taken + 1) m₁ outcome hloop hhealthy
    refine ⟨event :: events, m', .head hstep hruns, hdone, ?_⟩
    rw [List.reverse_cons, List.append_assoc, List.singleton_append, List.length_cons,
      Nat.add_right_comm taken 1, Nat.add_assoc]

/-- An unbounded run of a healthy machine ends exactly if its steps do, and records them. -/
theorem runToEnd_eq_some_iff (h : m.Healthy lo hi) {outcome : Except Fault (Run α σ Event)} :
    m.runToEnd less = some outcome ↔
      ∃ events m', Runs less m events m' ∧ m'.isDone = true ∧
        outcome = .ok ⟨events, events.length, none, m'⟩ := by
  constructor
  · intro hrun
    obtain ⟨events, m', hruns, hdone, houtcome⟩ := h.of_runOn hrun
    rw [Nat.zero_add] at houtcome
    exact ⟨events, m', hruns, hdone, houtcome⟩
  · rintro ⟨events, m', hruns, hdone, rfl⟩
    have hend := hruns.runOn_eq hdone (hruns.healthy h).1.poisoned [] 0
    rw [Nat.zero_add] at hend
    exact hend

/-- What ends from the start ends from everywhere on the way. -/
lemma exists_runToEnd_of_runs (h : m.Healthy lo hi) (hruns : Runs less m events m₁)
    (hend : ∃ outcome, m.runToEnd less = some outcome) :
    ∃ outcome, m₁.runToEnd less = some outcome := by
  obtain ⟨outcome, hend⟩ := hend
  obtain ⟨events', m', hall, hdone, -⟩ := h.runToEnd_eq_some_iff.1 hend
  obtain ⟨rest, -, hrest⟩ := hruns.exists_rest hall hdone (hall.healthy h).1.poisoned
  exact ⟨_, (hruns.healthy h).1.runToEnd_eq_some_iff.2 ⟨rest, m', hrest, hdone, rfl⟩⟩

/-! ### Calls -/

/-- A call that ends goes along the steps of the machine. -/
lemma exists_performOne (h : m.Healthy lo hi) (call : Call)
    (hend : call = .run → ∃ outcome, m.runToEnd less = some outcome) :
    ∃ events m', m.performOne less call = pure (events, m') ∧ Runs less m events m' := by
  cases call with
  | step =>
    rcases h.step_cases less with ⟨-, hnone⟩ | ⟨event, m₁, hstep, -, -⟩
    · exact ⟨[], m, by rw [performOne, hnone]; rfl, .refl m⟩
    · exact ⟨[event], m₁, by rw [performOne, hstep]; rfl, .head hstep (.refl m₁)⟩
  | runFor budget =>
    obtain ⟨r, hrun⟩ := h.accounted.exists_runFor less budget
    exact ⟨r.trace, r.machine, by rw [performOne, hrun]; rfl, (h.runFor_eq_ok_iff.1 hrun).2.1⟩
  | run =>
    obtain ⟨outcome, hrun⟩ := hend rfl
    obtain ⟨events, m', hruns, -, rfl⟩ := h.runToEnd_eq_some_iff.1 hrun
    exact ⟨events, m', by rw [performOne, hrun]; rfl, hruns⟩

/-- So do all calls. -/
lemma exists_perform (h : m.Healthy lo hi) (calls : List Call)
    (hend : Call.run ∈ calls → ∃ outcome, m.runToEnd less = some outcome) :
    ∃ events m', perform less calls m = pure (events, m') := by
  induction calls generalizing m with
  | nil => exact ⟨[], m, rfl⟩
  | cons call calls ih =>
    obtain ⟨events, m₁, hcall, hruns⟩ :=
      h.exists_performOne call fun hrun => hend (by simp [hrun])
    obtain ⟨events', m', hcalls⟩ := ih (hruns.healthy h).1 fun hrun =>
      h.exists_runToEnd_of_runs hruns (hend (List.mem_cons_of_mem _ hrun))
    exact ⟨events ++ events', m', by simp only [perform, hcall, hcalls, pure_bind]⟩

/-- The events of a call are those of the steps that lead to the machine after it. -/
lemma runs_of_performOne (h : m.Healthy lo hi) {call : Call}
    (hcall : m.performOne less call = pure (events, m')) : Runs less m events m' := by
  have hend : call = .run → ∃ outcome, m.runToEnd less = some outcome := by
    rintro rfl
    obtain ⟨r, hrun, -⟩ := exists_pure_of_bind hcall
    exact ⟨.ok r, hrun⟩
  obtain ⟨events', m₁, hcall', hruns⟩ := h.exists_performOne call hend
  obtain ⟨rfl, rfl⟩ := Prod.mk.inj (pure_injective (hcall'.symm.trans hcall))
  exact hruns

/-- So are the events of all calls. -/
theorem runs_of_perform (h : m.Healthy lo hi) {calls : List Call}
    (hcalls : perform less calls m = pure (events, m')) : Runs less m events m' := by
  induction calls generalizing m events with
  | nil =>
    obtain ⟨rfl, rfl⟩ := Prod.mk.inj (pure_injective hcalls)
    exact .refl _
  | cons call calls ih =>
    obtain ⟨⟨events₁, m₁⟩, hcall, hcalls⟩ := exists_pure_of_bind hcalls
    obtain ⟨⟨events₂, m₂⟩, hrest, hcalls⟩ := exists_pure_of_bind hcalls
    obtain ⟨rfl, rfl⟩ := Prod.mk.inj (pure_injective hcalls)
    have hruns := h.runs_of_performOne hcall
    exact hruns.trans (ih (hruns.healthy h).1 hrest)

end Healthy

/-! ### Any pieces -/

/-- **A run may be cut into any pieces.** A reachable machine of which no step has failed makes the
same steps, and comes to the same end, however it is driven. The predicate need not be an
ordering.

**Proof sketch.** A run for a number of steps is a sequence of successful steps that is as long as
the number, or ends when the work is done (`runFor_eq_ok_iff`). There is only one sequence of
successful steps of each length, and it cannot be continued when the work is done. So the pieces of
two ways to drive the machine make up the same sequence. A run to the end ends when there is an
ordering because its steps are bounded. -/
theorem Reachable.inPieces {data : Array α} (h : Reachable less data lo hi m)
    (hpoisoned : m.poisoned = false) : m.InPieces less := by
  have hm : m.Healthy lo hi := ⟨h.accounted.1, hpoisoned⟩
  refine ⟨fun budget => ?_, fun a b => ?_, fun events m' hruns hdone => ⟨?_, fun budget hle => ?_⟩,
    fun outcome => hm.runToEnd_eq_some_iff.1, fun hless => ?_, hm.exists_perform,
    fun calls events m' hcalls => ?_, fun calls calls' events events' m₁ m₂ h₁ h₂ hd₁ hd₂ => ?_⟩
  · obtain ⟨r, hr⟩ := hm.accounted.exists_runFor less budget
    obtain ⟨herror, hruns, htaken, hle, hend⟩ := hm.runFor_eq_ok_iff.1 hr
    refine ⟨r, hr, herror, hruns, htaken, hle, ?_, hend⟩
    rw [htaken]
    exact (hruns.healthy hm).2
  · obtain ⟨r₁, h₁⟩ := hm.accounted.exists_runFor less a
    have hm₁ := ((hm.runFor_eq_ok_iff.1 h₁).2.1.healthy hm).1
    obtain ⟨r₂, h₂⟩ := hm₁.accounted.exists_runFor less b
    exact ⟨r₁, r₂, _, h₁, h₂, hm.runFor_add h₁ h₂, rfl, rfl, rfl⟩
  · exact hm.runToEnd_eq_some_iff.2 ⟨events, m', hruns, hdone, rfl⟩
  · exact hm.runFor_eq_ok_iff.2 ⟨rfl, hruns, rfl, hle, fun _ => hdone⟩
  · obtain ⟨r, hr, herror, hdone⟩ := (h.inv hless).exists_run hless hpoisoned
    obtain ⟨-, hruns, htaken, -⟩ := hm.runFor_eq_ok_iff.1 hr
    refine ⟨r, hr, hm.runToEnd_eq_some_iff.2 ⟨r.trace, r.machine, hruns, hdone, ?_⟩, herror, hdone⟩
    rw [← herror, ← htaken]
  · exact hm.runFor_eq_ok_iff.2
      ⟨rfl, hm.runs_of_perform hcalls, rfl, Nat.le_refl _, fun hlt => absurd hlt (Nat.lt_irrefl _)⟩
  · have hruns₁ := hm.runs_of_perform h₁
    have hruns₂ := hm.runs_of_perform h₂
    exact hruns₂.eq_of_isDone_of_isDone hruns₁ hd₂ (hruns₂.healthy hm).1.poisoned hd₁
      (hruns₁.healthy hm).1.poisoned

/-- Four numbers of which a sample has been drawn, so that a frame waits for another. Three calls
are one run, and a run to the end ends. -/
theorem Reachable.inPieces_of_four :
    ∃ m : Machine Nat WordCycle, Reachable (fun a b => decide (a < b)) #[2, 4, 1, 3] 0 4 m ∧
      m.poisoned = false ∧ m.stack.map Frame.stage = [.simpleCases, .sampling] ∧
      m.InPieces (fun a b => decide (a < b)) ∧
      (∃ events m', perform (fun a b => decide (a < b)) [.step, .runFor 2, .step] m =
          pure (events, m') ∧
        m.runFor (fun a b => decide (a < b)) events.length =
          .ok ⟨events, events.length, none, m'⟩) ∧
      ∃ r, m.run (fun a b => decide (a < b)) = .ok r ∧
        m.runToEnd (fun a b => decide (a < b)) = some (.ok r) ∧ r.machine.isDone = true := by
  let less := fun a b : Nat => decide (a < b)
  let m₀ : Machine Nat WordCycle := .ofArray (.ofList [0xc0000000]) #[2, 4, 1, 3]
  let m₁ : Machine Nat WordCycle := { m₀ with config := ⟨1, 1, 1, 0⟩ }
  have hconfig : m₀.withConfig? ⟨1, 1, 1, 0⟩ = .ok m₁ := rfl
  have hobserved : (m₁.runFor less 3).map (fun r =>
      (r.machine.poisoned, r.machine.stack.map Frame.stage)) =
        .ok (false, [.simpleCases, .sampling]) := by decide +kernel
  obtain ⟨m, hreachable, hobserved⟩ := Started.exists_reachable (.whole _) hconfig
    (fun m => (m.poisoned, m.stack.map Frame.stage)) hobserved
  obtain ⟨hpoisoned, hstages⟩ := Prod.mk.inj hobserved
  have hpieces := Reachable.inPieces hreachable hpoisoned
  obtain ⟨events, m', hcalls⟩ := hpieces.performs [.step, .runFor 2, .step] (by simp)
  obtain ⟨r, hrun, hunbounded, -, hdone⟩ := hpieces.run .natural
  exact ⟨m, hreachable, hpoisoned, hstages, hpieces,
    ⟨events, m', hcalls, hpieces.performs_runFor _ _ _ hcalls⟩, r, hrun, hunbounded, hdone⟩

end Machine

end SampleSort
