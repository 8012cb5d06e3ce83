import SampleSort.Proofs.Conservation
import SampleSort.Proofs.Keys.Turn
import SampleSort.Random.Cycle
import SampleSort.Sort

set_option relaxedAutoImplicit false
set_option autoImplicit false

/-!
# Only keys matter

A machine that sorts elements by their keys and a machine that sorts the keys go in lockstep: after
any number of steps they have given the same answers, and the second one is the first one with keys
for elements. So elements that are compared alike are moved alike, ties included, whichever way they
are given to be sorted.

## Main definitions

* `SampleSort.Frame.map`, `SampleSort.Machine.map`, `SampleSort.Run.map` — the same with keys for
  elements.

## Main results

* `SampleSort.Machine.step_map` — a step and taking keys commute.
* `SampleSort.Machine.runFrom_map` — so do a run and taking keys.
* `SampleSort.keys_decide` — the machines go in lockstep, and all ways to sort agree.
-/

namespace SampleSort

variable {α β γ σ : Type} {less : β → β → Bool} {key : α → β}

/-! ### Sequences -/

/-- A window of keys is read as the window of elements is. -/
@[simp] lemma readWindow?_map (v : Array α) (start stop : Nat) :
    readWindow? (v.map key) start stop = List.map key <$> readWindow? v start stop := by
  rw [readWindow?_eq, readWindow?_eq, Array.toList_map, slice?_map]

/-- A window of keys is written as the window of elements is. -/
@[simp] lemma writeWindow_map (v : Array α) (start : Nat) (w : List α) :
    writeWindow (v.map key) start (w.map key) = (writeWindow v start w).map key := by
  induction w generalizing v start with
  | nil => rfl
  | cons x w ih =>
    rw [List.map_cons, writeWindow, writeWindow, ← Array.map_setIfInBounds, ih]

/-! ### Frames -/

/-- The same frame with keys for splitters. -/
def Frame.map (key : α → β) (f : Frame α) : Frame β where
  start := f.start
  stop := f.stop
  role := f.role
  phase := f.phase.map key

namespace Frame

@[simp] lemma start_map (f : Frame α) : (f.map key).start = f.start := rfl

@[simp] lemma stop_map (f : Frame α) : (f.map key).stop = f.stop := rfl

@[simp] lemma role_map (f : Frame α) : (f.map key).role = f.role := rfl

/-- A frame has the stage that it has with keys. -/
@[simp] lemma stage_map (f : Frame α) : (f.map key).stage = f.stage := by
  obtain ⟨start, stop, role, phase⟩ := f
  cases phase <;> rfl

/-- A turn has the error that it has with keys. -/
@[simp] lemma error?_map (f : Frame α) (transition : Transition α) :
    (f.map key).error? (transition.map key) = f.error? transition := by
  cases transition <;> rfl

/-- The same frames come of a frame with keys. -/
@[simp] lemma successors_map (f : Frame α) (transition : Transition α) :
    (f.map key).successors (transition.map key) = (f.successors transition).map (map key) := by
  cases transition with
  | advance phase => rfl
  | resolve => rfl
  | descend plan => rfl
  | split windows => simp [successors, Transition.map, fresh, map, Phase.map]
  | refuse what => rfl

end Frame

/-! ### Machines -/

/-- The same machine with keys for elements. -/
def Machine.map (key : α → β) (m : Machine α σ) : Machine β σ where
  data := m.data.map key
  stack := m.stack.map (Frame.map key)
  source := m.source
  config := m.config
  strategy := m.strategy
  steps := m.steps
  poisoned := m.poisoned

/-- The same record with keys for elements. -/
def Run.map (key : α → β) (r : Run α σ γ) : Run β σ γ :=
  { r with machine := r.machine.map key }

namespace Machine

/-- A machine for a window of keys is set up as one for a window of elements. -/
@[simp] lemma ofWindow?_map (source : σ) (data : Array α) (lo hi : Nat) :
    ofWindow? source (data.map key) lo hi = map key <$> ofWindow? source data lo hi := by
  unfold ofWindow?
  rw [Array.size_map]
  split <;> rfl

/-- The same configurations are accepted with keys. -/
@[simp] lemma withConfig?_map (m : Machine α σ) (config : Config) :
    (m.map key).withConfig? config = map key <$> m.withConfig? config := by
  unfold withConfig?
  cases config.flaw? <;> rfl

/-- Exchanging the strategy and taking keys commute. -/
@[simp] lemma withStrategy_map (m : Machine α σ) (strategy : Strategy) :
    (m.map key).withStrategy strategy = (m.withStrategy strategy).map key :=
  rfl

/-- Setting up a machine and taking keys commute. -/
lemma setUp_map (key : α → β) (source : σ) (config : Config) (strategy : Strategy)
    (data : Array α) (lo hi : Nat) :
    setUp source config strategy (data.map key) lo hi =
      map key <$> setUp source config strategy data lo hi := by
  simp [setUp]

/-- A machine is allowed as many steps as with keys. -/
@[simp] lemma allowance_map (m : Machine α σ) : (m.map key).allowance = m.allowance := by
  simp [allowance, map, List.foldr_map, Frame.length, Frame.map]

variable [IndexSource σ]

/-- A step and taking keys commute. -/
theorem step_map (memory : Memory) (m : Machine α σ) :
    (m.map key).step less memory = Prod.map id (map key) <$> m.step (byKey less key) memory := by
  by_cases hpoisoned : m.poisoned = true
  · simp [step, map, hpoisoned]
  · cases hstack : m.stack with
    | nil => simp [step, map, hpoisoned, hstack]
    | cons f others =>
      have hturn : ∀ v, (f.map key).phase.turn less m.config m.strategy memory m.source
          (List.map key v) = Turn.map key <$>
            f.phase.turn (byKey less key) m.config m.strategy memory m.source v :=
        fun v => Phase.turn_map m.config m.strategy memory m.source v f.phase
      simp only [step, map, hpoisoned, hstack, List.map_cons, Frame.start_map, Frame.stop_map,
        readWindow?_map, hturn, bind_map_left, map_bind, Bool.false_eq_true, if_false]
      congr 1
      funext v
      congr 1
      funext t
      simp only [Turn.map, Frame.error?_map, Frame.successors_map]
      cases f.error? t.transition <;> simp [map]

/-- Steps, one after the other, and taking keys commute. -/
theorem stepThrough_map (memories : List Memory) (m : Machine α σ) :
    (m.map key).stepThrough less memories =
      Prod.map id (map key) <$> m.stepThrough (byKey less key) memories := by
  induction memories generalizing m with
  | nil => rfl
  | cons memory memories ih => simp [stepThrough, step_map, ih]

/-- A run and taking keys commute, if its condition and what is observed of it do not depend on
more than keys. -/
theorem runFrom_map {observe : Event → Machine β σ → γ} {observe' : Event → Machine α σ → γ}
    {condition : Machine β σ → Bool} {condition' : Machine α σ → Bool}
    (hobserve : ∀ event m, observe event (map key m) = observe' event m)
    (hcondition : ∀ m, condition (map key m) = condition' m) (seen : List γ) (taken budget : Nat)
    (m : Machine α σ) :
    runFrom less observe condition seen taken budget (m.map key) =
      Run.map key <$> runFrom (byKey less key) observe' condition' seen taken budget m := by
  induction budget generalizing seen taken m with
  | zero => rfl
  | succ budget ih =>
    rw [runFrom, runFrom, hcondition, step_map]
    by_cases hdone : condition' m = true
    · rw [if_pos hdone, if_pos hdone]
      rfl
    · rw [if_neg hdone, if_neg hdone]
      rcases m.step (byKey less key) .available with fault | ⟨error | event?, m'⟩
      · rfl
      · rfl
      · cases event? with
        | none => rfl
        | some event =>
          simp only [Except.map_ok, Prod.map_apply, id_eq, hobserve]
          exact ih (observe' event m' :: seen) (taken + 1) m'

/-- So do a run to the end and taking keys. -/
lemma run_map (m : Machine α σ) :
    (m.map key).run less = Run.map key <$> m.run (byKey less key) := by
  rw [run, run, allowance_map]
  exact runFrom_map (fun _ _ => rfl) (fun _ => rfl) [] 0 m.allowance m

end Machine

/-! ### All ways to sort -/

/-- Sorting by keys arranges the elements as sorting arranges the keys. -/
lemma exists_sortByLess_map (less : β → β → Bool) (key : α → β) (v : Array α) :
    ∃ w, sortByLess (byKey less key) v = .ok w ∧ sortByLess less (v.map key) = .ok (w.map key) := by
  have hstart : Machine.ofArray defaultSource (v.map key) =
      (Machine.ofArray defaultSource v).map key := by
    simp [Machine.ofArray, Machine.initial, Machine.map, Frame.fresh, Frame.map, Phase.map]
  have hstarted : Machine.Started v 0 v.size (Machine.ofArray defaultSource v) := .whole _
  obtain ⟨r, hrun⟩ := hstarted.accounted.exists_runFor (byKey less key)
    (Machine.ofArray defaultSource v).allowance
  replace hrun : (Machine.ofArray defaultSource v).run (byKey less key) = .ok r := hrun
  refine ⟨r.machine.data, ?_, ?_⟩
  · rw [sortByLess, hrun]
    rfl
  · rw [sortByLess, hstart, Machine.run_map, hrun]
    rfl

/-- The sort depends on elements only by their keys, if these decide how elements are compared.
Machines that are set up alike for elements and for their keys go in lockstep: their steps give
the same answers, and the second machine is the first one with keys for elements. Sorting by a
predicate, by a comparison and by a key therefore all arrange elements as their keys are
arranged.

**Proof sketch.** Every function of the step commutes with the replacement of elements by their
keys, since it only compares and moves elements. So do the step, a sequence of steps, and a run; and
setting up a machine does. -/
theorem keys_decide (lessA : α → α → Bool) (lessB : β → β → Bool) (key : α → β)
    (hkey : ∀ a b, lessA a b = lessB (key a) (key b)) :
    (∀ {σ : Type} [IndexSource σ] (source : σ) (config : Config) (strategy : Strategy)
      (data : Array α) (lo hi : Nat),
      Machine.setUp source config strategy (data.map key) lo hi =
        Machine.map key <$> Machine.setUp source config strategy data lo hi ∧
      ∀ m, Machine.setUp source config strategy data lo hi = .ok m → ∀ memories,
        ∃ answers m', m.stepThrough lessA memories = .ok (answers, m') ∧
          (m.map key).stepThrough lessB memories = .ok (answers, m'.map key)) ∧
    (∀ v : Array α, ∃ w, sortByLess lessA v = .ok w ∧
      sortByLess lessB (v.map key) = .ok (w.map key)) ∧
    ∀ [Ord β] [LessOrd β] (v : Array α), ∃ w, sortByKey key v = .ok w ∧
      sort (v.map key) = .ok (w.map key) ∧
      sortBy (fun a b => compare (key a) (key b)) v = .ok w := by
  obtain rfl : lessA = byKey lessB key := by
    funext a b
    exact hkey a b
  refine ⟨?_, exists_sortByLess_map lessB key, ?_⟩
  · intro σ _ source config strategy data lo hi
    refine ⟨Machine.setUp_map key source config strategy data lo hi, ?_⟩
    intro m hm memories
    obtain ⟨answers, m', hsteps⟩ :=
      (Machine.accounted_of_setUp hm).exists_stepThrough (byKey lessB key) memories
    refine ⟨answers, m', hsteps, ?_⟩
    rw [Machine.stepThrough_map, hsteps]
    rfl
  · intro _ _ v
    obtain ⟨w, hw, hmapped⟩ := exists_sortByLess_map (fun a b : β => LessOrd.isLess a b) key v
    exact ⟨w, hw, hmapped, (sortByKey_eq key v).symm.trans hw⟩

/-- Six numbers, of which the last five are compared by their tens, with ties among them. -/
theorem keys_decide_of_six :
    ∃ m : Machine Nat WordCycle,
      Machine.setUp (WordCycle.ofList [0xc0000000]) ⟨1, 1, 2, 0⟩ .sequential
        #[25, 47, 11, 32, 21, 15] 1 6 = .ok m ∧
      (∃ answers m',
        m.stepThrough (fun a b => decide (a / 10 < b / 10))
          [.available, .available, .available, .available, .exhausted] = .ok (answers, m') ∧
        (m.map (· / 10)).stepThrough (fun a b => decide (a < b))
          [.available, .available, .available, .available, .exhausted] =
            .ok (answers, m'.map (· / 10))) ∧
      ∃ w, sortByKey (· / 10) #[25, 47, 11, 32, 21, 15] = .ok w ∧
        sort #[2, 4, 1, 3, 2, 1] = .ok (w.map (· / 10)) := by
  obtain ⟨hmachines, -, hsorts⟩ := keys_decide (fun a b : Nat => decide (a / 10 < b / 10))
    (fun a b => decide (a < b)) (fun n => n / 10) (fun _ _ => rfl)
  have hsetUp := (hmachines (WordCycle.ofList [0xc0000000]) ⟨1, 1, 2, 0⟩ .sequential
    #[25, 47, 11, 32, 21, 15] 1 6).2 _ rfl
  obtain ⟨w, hbyKey, hsort, -⟩ := hsorts #[25, 47, 11, 32, 21, 15]
  have hkeys : #[25, 47, 11, 32, 21, 15].map (fun n => n / 10) = #[2, 4, 1, 3, 2, 1] := by simp
  rw [hkeys] at hsort
  exact ⟨_, rfl, hsetUp _, w, hbyKey, hsort⟩

end SampleSort
