import SampleSort.Proofs.Ledger.Step
import SampleSort.Random.Cycle

set_option relaxedAutoImplicit false
set_option autoImplicit false

/-!
# Running out of memory

Some steps reserve memory for their bookkeeping, and by then they have taken the frame off the stack
and dropped what stood in the table to be filled. If there is no memory, the step fails, and the
frame is put back. Still every field of every frame is as it was, because no table that is dropped
had been filled yet. The machine is poisoned: from then on it answers every step with an error, and
nothing changes any more, whatever is called. All this holds for any predicate that elements are
compared by.

## Main definitions

* `SampleSort.Ledger.FailsCleanly` — what there is to know of a step that fails.
* `SampleSort.Machine.Poisoned` — how a machine behaves that has failed.
* `SampleSort.Machine.Mirrored` — how a machine and its ledger go together.

## Main results

* `SampleSort.Machine.Accounted.step_exhausted` — a step without memory.
* `SampleSort.Machine.Bounded.poisoned` — a machine that has failed.
* `SampleSort.Machine.reaches_of_poisoned` — calls change nothing any more.
* `SampleSort.Machine.Reachable.failsCleanly` — every reachable machine fails cleanly.
-/

namespace SampleSort

variable {α σ : Type} {less : α → α → Bool} {lo hi : Nat} {f : Frame α}
  {others : List (Frame α)} {memory : Memory} {what : Bookkeeping}

/-- What there is to know of failing steps of a ledger with the entry `e` on top. -/
structure Ledger.FailsCleanly [IndexSource σ] (less : α → α → Bool) (l : Ledger α σ)
    (e : Entry α) : Prop where
  /-- Without memory, a step fails if it reserves some. The error names the window and what the
  memory was for. All fields of all entries are as they were, and nothing else has changed but the
  number of steps. -/
  fails : ∀ what, e.Reserves what →
    l.step less .exhausted = .ok (.error (.allocation what e.start e.stop), l.failed)
  /-- What the memory was for is told by the stage. -/
  named : ∀ what, e.Reserves what → (e.stage, what.description) ∈
    [(.sampling, "splitters"), (.classification, "classification oracle"),
      (.partitioning, "bucket starts"), (.recursion, "bucket frames")]
  /-- Any other step does not need memory. -/
  unaffected : (∀ what, ¬e.Reserves what) → l.step less .exhausted = l.step less .available
  /-- There is no other way to fail. -/
  only : ∀ memory error l', l.step less memory = .ok (.error error, l') →
    memory = .exhausted ∧ (∃ what, e.Reserves what ∧ error = .allocation what e.start e.stop) ∧
      l' = l.failed

namespace Machine

variable {m m' : Machine α σ} {result : Except SortError (Option Event)} {events : List Event}

/-- The machine after a step that has failed. -/
def failed (m : Machine α σ) : Machine α σ :=
  { m with steps := m.steps + 1, poisoned := true }

section Statements

variable [IndexSource σ]

/-- The machine is poisoned. It is not done, but every step and every run of at least one step is
answered with an error and changes nothing. -/
structure Poisoned (less : α → α → Bool) (m : Machine α σ) : Prop where
  /-- It says so. -/
  poisoned : m.poisoned = true
  /-- There is work left. -/
  not_done : m.isDone = false
  /-- No step is taken. -/
  step : ∀ memory, m.step less memory = .ok (.error .poisoned, m)
  /-- A run ends with its first step. -/
  run : m.run less = .ok ⟨[], 0, some .poisoned, m⟩
  /-- So does one for a number of steps. -/
  runFor_succ : ∀ budget, m.runFor less (budget + 1) = .ok ⟨[], 0, some .poisoned, m⟩
  /-- A run for no steps does not notice. -/
  runFor_zero : m.runFor less 0 = .ok ⟨[], 0, none, m⟩

/-- The ledger of the machine steps as the machine does, and what can be reached by steps of
ledgers are the ledgers of machines. Entries are tidy. -/
structure Mirrored (less : α → α → Bool) (data : Array α) (lo hi : Nat) (m : Machine α σ) :
    Prop where
  /-- The ledger of the machine can be reached. -/
  reachable : m.ledger.Reachable less data lo hi
  /-- Its step is that of the machine. -/
  step : ∀ memory, ∃ result m', m.step less memory = .ok (result, m') ∧
    m.ledger.step less memory = .ok (result, m'.ledger)
  /-- What has not been filled yet is empty. -/
  tidy : ∀ e ∈ m.ledger.stack, e.Tidy
  /-- No other ledgers can be reached. -/
  only : ∀ l : Ledger α σ, l.Reachable less data lo hi →
    ∃ m' : Machine α σ, Reachable less data lo hi m' ∧ m'.ledger = l

end Statements

variable [IndexSource σ]

/-! ### Steps of a poisoned machine -/

/-- A poisoned machine takes no step. -/
lemma step_of_poisoned (less : α → α → Bool) (memory : Memory) (h : m.poisoned = true) :
    m.step less memory = .ok (.error .poisoned, m) := by
  rw [step, if_pos h]
  rfl

/-- A run of a poisoned machine ends with its first step. -/
lemma runFor_of_poisoned (less : α → α → Bool) (budget : Nat) (h : m.poisoned = true) :
    m.runFor less (budget + 1) = .ok ⟨[], 0, some .poisoned, m⟩ := by
  rw [runFor, runUntil, runFrom, step_of_poisoned less .available h]
  rfl

/-- Any number of steps leaves a poisoned machine as it is. -/
lemma Steps.eq_of_poisoned (h : Steps less m events m') (hpoisoned : m.poisoned = true) :
    m' = m ∧ events = [] := by
  induction h with
  | refl => exact ⟨rfl, rfl⟩
  | @head m m₁ m' memory result events hstep _ ih =>
    rw [step_of_poisoned less memory hpoisoned] at hstep
    obtain ⟨rfl, rfl⟩ := Prod.mk.inj (Except.ok.inj hstep)
    exact ih hpoisoned

/-- Calls leave the work of a poisoned machine as it is, and the machine poisoned. -/
theorem reaches_of_poisoned (h : Reaches less m events m') (hpoisoned : m.poisoned = true) :
    events = [] ∧ m'.poisoned = true ∧ m'.data = m.data ∧ m'.stack = m.stack ∧
      m'.steps = m.steps := by
  induction h with
  | refl => exact ⟨rfl, hpoisoned, rfl, rfl, rfl⟩
  | tail _ hfollows ih =>
    obtain ⟨rfl, hpoisoned', hdata, hstack, hsteps⟩ := ih
    rcases hfollows.cases_work with htaken | ⟨rfl, hwork⟩
    · obtain ⟨rfl, rfl⟩ := htaken.eq_of_poisoned hpoisoned'
      exact ⟨rfl, hpoisoned', hdata, hstack, hsteps⟩
    · refine ⟨rfl, ?_, ?_, ?_, ?_⟩
      · rw [hwork.poisoned, hpoisoned']
      · rw [hwork.data, hdata]
      · rw [hwork.stack, hstack]
      · rw [hwork.steps, hsteps]

omit [IndexSource σ] in
/-- A machine with a frame is allowed at least one step. -/
lemma allowance_pos (h : m.stack = f :: others) : 0 < m.allowance := by
  rw [allowance, h, List.foldr_cons, Nat.one_shiftLeft]
  have := Nat.two_pow_pos (f.length + 3)
  omega

namespace Bounded

/-- A machine that has failed once is poisoned. -/
theorem poisoned (h : m.Bounded lo hi) (hpoisoned : m.poisoned = true) : m.Poisoned less := by
  obtain ⟨f, others, hstack⟩ := List.exists_cons_of_ne_nil (h.pending hpoisoned)
  refine ⟨hpoisoned, ?_, fun memory => step_of_poisoned less memory hpoisoned, ?_,
    fun budget => runFor_of_poisoned less budget hpoisoned, rfl⟩
  · rw [isDone, hstack]
    rfl
  · obtain ⟨budget, hbudget⟩ := Nat.exists_eq_succ_of_ne_zero (allowance_pos hstack).ne'
    rw [run, hbudget, runFor_of_poisoned less budget hpoisoned]

omit [IndexSource σ] in
/-- After a step that has failed, windows are where they were. -/
lemma failed (h : m.Bounded lo hi) (hstack : m.stack = f :: others) : m.failed.Bounded lo hi :=
  ⟨h.le_size, h.bounds, fun _ => by simp [Machine.failed, hstack]⟩

/-- Wherever calls lead from a step that has failed, the machine stays poisoned. -/
lemma poisoned_of_reaches (h : m.Bounded lo hi) (hstack : m.stack = f :: others)
    (hreaches : Reaches less m.failed events m') : m'.Poisoned less := by
  obtain ⟨-, hpoisoned, -⟩ := reaches_of_poisoned hreaches rfl
  exact (hreaches.keeps (fun h => h.of_step) (fun h => h.of_sameWork) (h.failed hstack)).poisoned
    hpoisoned

end Bounded

/-- A step fails only if it reserves memory and there is none. -/
theorem error_of_step (hstack : m.stack = f :: others) (hpoisoned : m.poisoned = false)
    {error : SortError} (hstep : m.step less memory = .ok (.error error, m')) :
    memory = .exhausted ∧
      ∃ what, f.entry.Reserves what ∧ error = .allocation what f.start f.stop := by
  obtain ⟨v, t, -, hturn, hanswer, -⟩ := exists_turn_of_step hpoisoned hstack hstep
  obtain ⟨w, source, transition⟩ := t
  cases Phase.regular_of_turn hturn with
  | @refuse what hexhausted hwhat =>
    exact ⟨hexhausted, what, Frame.reserves_entry_iff.2 hwhat, Except.error.inj hanswer⟩
  | advance _ _ _ => cases hanswer
  | resolve => cases hanswer
  | descend _ _ => cases hanswer
  | split _ _ => cases hanswer

/-- The ledger of a machine fails cleanly.

**Proof sketch.** The entry on top is tidy, so `Ledger.step_exhausted` applies; the sample that
splitters are chosen from is in the window. As the ledger steps as the machine does, it fails only
where a turn is refused memory, which makes it a step of the first kind. -/
theorem Accounted.ledger_failsCleanly (less : α → α → Bool) (h : m.Accounted lo hi)
    (hstack : m.stack = f :: others) (htidy : f.entry.Tidy) (hpoisoned : m.poisoned = false) :
    m.ledger.FailsCleanly less f.entry := by
  have hf : f ∈ m.stack := by simp [hstack]
  have hstack' : m.ledger.stack = f.entry :: others.map Frame.entry := by
    rw [ledger, hstack, List.map_cons]
  have hfails : ∀ what, f.entry.Reserves what → m.ledger.step less .exhausted =
      .ok (.error (.allocation what f.start f.stop), m.ledger.failed) := by
    intro what hreserves
    refine Ledger.step_exhausted hpoisoned hstack' htidy hreserves ?_
    intro plan hstage hplan
    obtain ⟨hread, hlength⟩ := h.readWindow hf
    have haccounts := h.accounts f hf
    rw [Frame.phase_eq_awaiting hstage hplan, ← hlength] at haccounts
    rw [readWindow?_eq] at hread
    have hsamples := SamplingPlan.Fits.samples_le_self haccounts
    exact ⟨_, (slice?_front hread hsamples).trans (slice?_eq_window (Nat.zero_le _) hsamples)⟩
  refine ⟨hfails, fun _ => Entry.Reserves.mem_names, Ledger.step_of_not_reserves hstack', ?_⟩
  intro memory error l' hstep
  obtain ⟨result, m', hstep'⟩ := h.exists_step less memory
  have hledger := h.step_ledger hstep'
  rw [hstep] at hledger
  obtain ⟨rfl, rfl⟩ := Prod.mk.inj (Except.ok.inj hledger)
  obtain ⟨rfl, what, hreserves, rfl⟩ := error_of_step hstack hpoisoned hstep'
  rw [hfails what hreserves] at hstep
  obtain ⟨-, hfailed⟩ := Prod.mk.inj (Except.ok.inj hstep)
  exact ⟨rfl, ⟨what, hreserves, rfl⟩, hfailed.symm⟩

/-- Since its ledger fails cleanly, the machine itself does. -/
theorem Accounted.step_exhausted (less : α → α → Bool) (h : m.Accounted lo hi)
    (hstack : m.stack = f :: others) (htidy : f.entry.Tidy) (hpoisoned : m.poisoned = false)
    (hreserves : f.entry.Reserves what) :
    m.step less .exhausted = .ok (.error (.allocation what f.start f.stop), m.failed) := by
  obtain ⟨result, m', hstep⟩ := h.exists_step less .exhausted
  have hledger := h.step_ledger hstep
  rw [(h.ledger_failsCleanly less hstack htidy hpoisoned).fails what hreserves] at hledger
  obtain ⟨rfl, hfailed⟩ := Prod.mk.inj (Except.ok.inj hledger)
  obtain rfl : m.failed = m' := ledger_injective hfailed
  exact hstep

/-- A reachable machine and its ledger go together. -/
theorem Reachable.mirrored {data : Array α} (h : Reachable less data lo hi m) :
    m.Mirrored less data lo hi := by
  refine ⟨h.ledger, fun memory => ?_, h.ledger.tidy, fun l hl => Ledger.reachable_iff.1 hl⟩
  obtain ⟨haccounted, -⟩ := h.accounted
  obtain ⟨result, m', hstep⟩ := haccounted.exists_step less memory
  exact ⟨result, m', hstep, haccounted.step_ledger hstep⟩

/-- **Failure is atomic and final.** A reachable machine is never both poisoned and done. As long as
it is neither, a step fails only for want of memory for its bookkeeping. The step has taken the
frame off the stack and dropped a table by then, and yet nothing has changed, field by field, but
the number of steps; and nothing ever changes again. -/
theorem Reachable.failsCleanly {data : Array α} (h : Reachable less data lo hi m) :
    m.Mirrored less data lo hi ∧ (m.poisoned = true → m.Poisoned less) ∧
      ∀ f others, m.poisoned = false → m.stack = f :: others →
        m.ledger.FailsCleanly less f.entry ∧
        (∀ what, f.entry.Reserves what → m.step less .exhausted =
          .ok (.error (.allocation what f.start f.stop), m.failed)) ∧
        ∀ events m', Reaches less m.failed events m' →
          events = [] ∧ m'.Poisoned less ∧ m'.data = m.data ∧ m'.stack = m.stack ∧
            m'.steps = m.steps + 1 := by
  have hbounded := h.bounded
  obtain ⟨haccounted, -⟩ := h.accounted
  refine ⟨h.mirrored, hbounded.poisoned, ?_⟩
  intro f others hpoisoned hstack
  have htidy : f.entry.Tidy := h.ledger.tidy _ (List.mem_map_of_mem (by simp [hstack]))
  refine ⟨haccounted.ledger_failsCleanly less hstack htidy hpoisoned,
    fun what hreserves => haccounted.step_exhausted less hstack htidy hpoisoned hreserves, ?_⟩
  intro events m' hreaches
  obtain ⟨hevents, -, hdata, hkept, hsteps⟩ := reaches_of_poisoned hreaches rfl
  exact ⟨hevents, hbounded.poisoned_of_reaches hstack hreaches, hdata, hkept, hsteps⟩

/-- Four numbers of which a sample has been sorted after four steps, so that the next one needs
memory for splitters. -/
theorem Reachable.failsCleanly_of_four :
    ∃ (m : Machine Nat WordCycle) (f : Frame Nat),
      Reachable (fun a b => decide (a < b)) #[2, 4, 1, 3] 0 4 m ∧ m.stack = [f] ∧
        f.entry.Reserves .splitters ∧
        m.ledger.FailsCleanly (fun a b => decide (a < b)) f.entry ∧
        m.step (fun a b => decide (a < b)) .exhausted =
          .ok (.error (.allocation .splitters 0 4), m.failed) := by
  let less := fun a b : Nat => decide (a < b)
  let m₀ : Machine Nat WordCycle := .ofArray (.ofList [0xc0000000]) #[2, 4, 1, 3]
  let m₁ : Machine Nat WordCycle := { m₀ with config := ⟨1, 1, 1, 0⟩ }
  let plan : SamplingPlan := ⟨1, 2, 1, 1⟩
  have hconfig : m₀.withConfig? ⟨1, 1, 1, 0⟩ = .ok m₁ := rfl
  have hstack : (m₁.runFor less 4).map (fun r => (r.machine.poisoned, r.machine.stack)) =
      .ok (false, [⟨0, 4, .main, .awaiting plan⟩]) := by decide +kernel
  obtain ⟨m, hreachable, hobserved⟩ := Started.exists_reachable (.whole _) hconfig
    (fun m => (m.poisoned, m.stack)) hstack
  obtain ⟨hpoisoned, hstack⟩ := Prod.mk.inj hobserved
  obtain ⟨-, -, hcleanly⟩ := Reachable.failsCleanly hreachable
  obtain ⟨hledger, hfails, -⟩ := hcleanly _ _ hpoisoned hstack
  have hreserves : (Frame.entry (⟨0, 4, .main, .awaiting plan⟩ : Frame Nat)).Reserves .splitters :=
    .splitters rfl (Option.some_ne_none plan)
  exact ⟨m, _, hreachable, hstack, hreserves, hledger, hfails _ hreserves⟩

end Machine

end SampleSort
