import SampleSort.Machine.Basic
import SampleSort.Machine.Turn

set_option relaxedAutoImplicit false
set_option autoImplicit false

/-!
# Stepping a machine

A step takes the frame on top, gives its window one turn of work, and puts in its place the frames
that come of it. What would be a recursive call of a sort is a frame put on top, and the return
from it is the frame below coming to the top again.

## Main definitions

* `SampleSort.Event` — what a step worked on.
* `SampleSort.Frame.successors` — the frames that come of a frame.
* `SampleSort.Machine.step` — one step.
-/

namespace SampleSort

variable {α σ : Type}

/-- What a step worked on. -/
structure Event where
  /-- What the step did. -/
  stage : Stage
  /-- What the window is sorted for. -/
  role : Role
  /-- The position of the window's first element. -/
  start : Nat
  /-- The position after its last element. -/
  stop : Nat
  /-- The number of frames before the step. -/
  depth : Nat
  deriving DecidableEq, Repr

/-- The frames that take the place of a frame after a turn, the next one to be worked on first. -/
def Frame.successors (f : Frame α) : Transition α → List (Frame α)
  | .advance phase => [{ f with phase }]
  | .resolve => []
  | .descend plan =>
    [.fresh f.start (f.start + plan.samples) .sample, { f with phase := .awaiting plan }]
  | .split windows => windows.map fun w => .fresh (f.start + w.1) (f.start + w.2) .main
  | .refuse _ => [f]

/-- The error of a turn on a frame, if it had one. -/
def Frame.error? (f : Frame α) : Transition α → Option SortError
  | .refuse what => some (.allocation what f.start f.stop)
  | _ => none

namespace Machine

/-- One step: the machine after it, and what it worked on, or nothing if all work was done before.
A step that fails for want of memory poisons the machine, and a poisoned machine takes no more
steps. -/
def step [IndexSource σ] (less : α → α → Bool) (memory : Memory) (m : Machine α σ) :
    Except Fault (Except SortError (Option Event) × Machine α σ) :=
  if m.poisoned then return (.error .poisoned, m)
  else
    match m.stack with
    | [] => return (.ok none, m)
    | frame :: below => do
      let window ← readWindow? m.data frame.start frame.stop
      let turn ← frame.phase.turn less m.config m.strategy memory m.source window
      let m' := { m with
        data := writeWindow m.data frame.start turn.window
        stack := frame.successors turn.transition ++ below
        source := turn.source
        steps := m.steps + 1 }
      match frame.error? turn.transition with
      | some error => return (.error error, { m' with poisoned := true })
      | none =>
        let event := ⟨frame.stage, frame.role, frame.start, frame.stop, below.length + 1⟩
        return (.ok (some event), m')

end Machine

end SampleSort
