import SampleSort.Machine.Step

set_option relaxedAutoImplicit false
set_option autoImplicit false

/-!
# Running a machine

A machine is run by stepping it: to the end, for a number of steps, or until it has come to a given
point. All of these are one loop, which counts the steps and keeps a record of what is observed
after every one of them.

## Main definitions

* `SampleSort.Run` — the record of a number of steps.
* `SampleSort.Machine.runUntil` — steps until a condition holds.
* `SampleSort.Machine.runFor`, `SampleSort.Machine.traceFor` — a number of steps, recorded as
  events, and as events with the sequence after each.
* `SampleSort.Machine.allowance`, `SampleSort.Machine.run` — as many steps as there can be.

## Main results

* `SampleSort.Machine.runFrom_eq` — the record of a run does not depend on what was seen before.
* `SampleSort.Machine.taken_add_length` — as many steps are counted as are observed.

## Design

How long a machine runs depends on its draws, its configuration and its strategy, but
`allowance` does not. It gives a frame of `n` elements `2 ^ (n + 3)` steps, which covers those on
its sample of at most `n / 2` elements and on its buckets, each shorter than the window. The
condition is that the order is a strict weak ordering; under others, windows need not get shorter,
and a run that has used up its allowance stops.
-/

namespace SampleSort

variable {α σ β : Type}

/-- The record of a number of steps. -/
structure Run (α σ β : Type) where
  /-- What was observed of every successful step, in their order. -/
  trace : List β
  /-- The number of successful steps. -/
  taken : Nat
  /-- The error of the last step, if it failed. -/
  error? : Option SortError
  /-- The machine after the last step. -/
  machine : Machine α σ
  deriving DecidableEq

namespace Machine

section Loop

variable [IndexSource σ] (less : α → α → Bool) (observe : Event → Machine α σ → β)
  (condition : Machine α σ → Bool)

/-- Steps until the condition holds, all work is done, a step fails, or `budget` steps have been
taken, whichever comes first. The record begins with what has been `seen` before, which is held
last observation first, and the count with the steps that have been `taken` before. -/
def runFrom (seen : List β) (taken : Nat) :
    (budget : Nat) → Machine α σ → Except Fault (Run α σ β)
  | 0, m => return ⟨seen.reverse, taken, none, m⟩
  | budget + 1, m =>
    if condition m then return ⟨seen.reverse, taken, none, m⟩
    else
      match m.step less .available with
      | .error fault => .error fault
      | .ok (.error error, m) => return ⟨seen.reverse, taken, some error, m⟩
      | .ok (.ok none, m) => return ⟨seen.reverse, taken, none, m⟩
      | .ok (.ok (some event), m) => runFrom (observe event m :: seen) (taken + 1) budget m

/-- Steps until the condition holds, all work is done, a step fails, or `budget` steps have been
taken, whichever comes first. -/
def runUntil (budget : Nat) (m : Machine α σ) : Except Fault (Run α σ β) :=
  runFrom less observe condition [] 0 budget m

/-- What has been seen before a run is put in front of its record, what has been counted is added to
its count, and nothing else changes. -/
theorem runFrom_eq (seen : List β) (taken budget : Nat) (m : Machine α σ) :
    runFrom less observe condition seen taken budget m =
      (runUntil less observe condition budget m).map fun run =>
        { run with trace := seen.reverse ++ run.trace, taken := taken + run.taken } := by
  unfold runUntil
  suffices h : ∀ (budget : Nat) (m : Machine α σ) (seen before : List β) (later : Nat),
      runFrom less observe condition (seen ++ before) (taken + later) budget m =
        (runFrom less observe condition seen later budget m).map fun run =>
          { run with trace := before.reverse ++ run.trace, taken := taken + run.taken } by
    simpa using h budget m [] seen 0
  intro budget
  induction budget with
  | zero => intro m seen before later; simp [runFrom, pure, Except.pure, Except.map]
  | succ budget ih =>
    intro m seen before later
    unfold runFrom
    split
    · simp [pure, Except.pure, Except.map]
    · split
      · rfl
      · simp [pure, Except.pure, Except.map]
      · simp [pure, Except.pure, Except.map]
      · next event m' _ => exact ih m' (observe event m' :: seen) before (later + 1)

/-- As many steps are counted as are observed. -/
theorem taken_add_length {seen : List β} {taken budget : Nat} {m : Machine α σ} {r : Run α σ β}
    (h : runFrom less observe condition seen taken budget m = .ok r) :
    r.taken + seen.length = taken + r.trace.length := by
  induction budget generalizing seen taken m with
  | zero =>
    obtain rfl := Except.ok.inj h
    simp
  | succ budget ih =>
    unfold runFrom at h
    split at h
    · obtain rfl := Except.ok.inj h
      simp
    · split at h
      · cases h
      · obtain rfl := Except.ok.inj h
        simp
      · obtain rfl := Except.ok.inj h
        simp
      · have := ih h
        rw [List.length_cons] at this
        omega

/-- So a run counts its observations. -/
theorem taken_eq_length {budget : Nat} {m : Machine α σ} {r : Run α σ β}
    (h : runUntil less observe condition budget m = .ok r) : r.taken = r.trace.length := by
  have := taken_add_length less observe condition h
  simpa using this

end Loop

variable [IndexSource σ] (less : α → α → Bool)

/-- At most `budget` steps; fewer only if all work is done or a step fails. -/
def runFor (budget : Nat) (m : Machine α σ) : Except Fault (Run α σ Event) :=
  m.runUntil less (fun event _ => event) (fun _ => false) budget

/-- The same, with the sequence after every step. -/
def traceFor (budget : Nat) (m : Machine α σ) : Except Fault (Run α σ (Event × Array α)) :=
  m.runUntil less (fun event m => (event, m.data)) (fun _ => false) budget

omit [IndexSource σ] in
/-- A number of steps that the machine cannot exceed. -/
def allowance (m : Machine α σ) : Nat :=
  m.stack.foldr (fun frame n => 1 <<< (frame.length + 3) + n) 0

/-- Steps until all work is done or a step fails. -/
def run (m : Machine α σ) : Except Fault (Run α σ Event) :=
  m.runFor less m.allowance

end Machine

end SampleSort
