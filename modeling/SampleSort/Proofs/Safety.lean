import SampleSort.Proofs.Checked.Step
import SampleSort.Proofs.Depth

set_option relaxedAutoImplicit false
set_option autoImplicit false

/-!
# No step is stopped

A step of a reachable machine never leaves the range of words, never reads outside a sequence or a
table, and never comes to a place that it should not reach: on the ledger of the machine the step in
place goes through, and it is the step of the machine. Besides what frames know about their windows,
this rests on two facts that were established in earlier steps, perhaps under other configurations:
there are no more frames than positions, and plans have small strides.

## Main definitions

* `SampleSort.Machine.Sized` — what a machine keeps so that all sizes are words.

## Main results

* `SampleSort.Machine.Sized.depth_le` — there are no more frames than positions.
* `SampleSort.Machine.Sized.of_step` — a step keeps sizes small.
* `SampleSort.Machine.Sized.checked_of_step` — the step in place is the step of the ledger.
* `SampleSort.Machine.Reachable.checked` — no step of a reachable machine is stopped.
-/

namespace SampleSort

variable {α σ : Type} {less : α → α → Bool} {data : List α} {lo hi : Nat} {f g : Frame α}

/-- The frames that come of a frame have the strides that it had, or one of a new plan. -/
lemma Transition.Regular.stride_le_of_mem {config : Config} {memory : Memory} {n : Nat}
    {transition : Transition α} (h : transition.Regular config memory f.phase n)
    (hf : ∀ plan, f.phase.plan? = some plan → plan.stride ≤ strideLimit)
    (hg : g ∈ f.successors transition) {plan : SamplingPlan} (hplan : g.phase.plan? = some plan) :
    plan.stride ≤ strideLimit := by
  cases h with
  | advance _ hkept _ =>
    obtain rfl := List.mem_singleton.1 hg
    exact hf plan (hkept.symm.trans hplan)
  | resolve => cases hg
  | descend _ hplanned =>
    rcases List.mem_cons.1 hg with rfl | hg
    · cases hplan
    · obtain rfl := List.mem_singleton.1 hg
      obtain rfl := Option.some.inj hplan
      exact Config.stride_le hplanned
  | split _ _ =>
    obtain ⟨w, _, rfl⟩ := List.mem_map.1 hg
    cases hplan
  | refuse _ _ =>
    obtain rfl := List.mem_singleton.1 hg
    exact hf plan hplan

namespace Machine

variable {m m' : Machine α σ} {memory : Memory} {result : Except SortError (Option Event)}

/-- What a machine keeps so that all sizes are words. -/
structure Sized (less : α → α → Bool) (data : List α) (lo hi : Nat) (m : Machine α σ) : Prop where
  /-- The invariant of all machines. -/
  inv : m.Inv less data lo hi
  /-- Windows that are sorted for themselves have two elements or more, except at the beginning. -/
  onlyLong : OnlyLong lo hi 1 m.stack
  /-- Strides are small. -/
  stride_le : ∀ f ∈ m.stack, ∀ plan, f.phase.plan? = some plan → plan.stride ≤ strideLimit

/-- A machine that is set up has one frame, and no plan. -/
lemma Started.sized {data : Array α} (h : Started data lo hi m) :
    m.Sized less data.toList lo hi := by
  refine ⟨h.inv, ?_, ?_⟩
  · obtain ⟨-, -, source, rfl⟩ := h.exists_eq_initial
    exact Or.inl ⟨.simpleCases, rfl, Nat.zero_le 1⟩
  · obtain ⟨-, -, source, rfl⟩ := h.exists_eq_initial
    intro f hf plan hplan
    obtain rfl := List.mem_singleton.1 hf
    cases hplan

namespace Sized

/-- There are no more frames than positions, or one, because long windows have two elements or
more. -/
theorem depth_le (h : m.Sized less data lo hi) : m.stack.length ≤ max 1 (hi - lo) := by
  have hdepth := h.inv.depth_le h.onlyLong
  unfold depth at hdepth
  omega

/-- An exchange keeps sizes small. -/
lemma of_sameWork (h : m.Sized less data lo hi) (hsame : SameWork m m') :
    m'.Sized less data lo hi := by
  refine ⟨h.inv.of_sameWork hsame, ?_, ?_⟩
  · rw [hsame.stack]
    exact h.onlyLong
  · rw [hsame.stack]
    exact h.stride_le

variable [IndexSource σ]

/-- So does a step. -/
theorem of_step (hless : StrictWeak less) (h : m.Sized less data lo hi)
    (hstep : m.step less memory = .ok (result, m')) : m'.Sized less data lo hi := by
  refine ⟨h.inv.of_step hless hstep, ?_, ?_⟩
  · exact (onlyLong_of_step h.onlyLong (Config.threshold_pos h.inv.valid) hstep).1
  · rcases turn_of_step hstep with ⟨rfl, _⟩ | ⟨f, others, v, t, _, hstack, _, hturn, _, rfl⟩
    · exact h.stride_le
    · intro g hg plan hplan
      rcases List.mem_append.1 hg with hg | hg
      · exact (Phase.regular_of_turn hturn).stride_le_of_mem (h.stride_le f (by simp [hstack])) hg
          hplan
      · exact h.stride_le g (by simp [hstack, hg]) plan hplan

/-- A step in place is not stopped, and it is the step of the ledger.

**Proof sketch.** A poisoned ledger and one without entries answer at once. Else the first entry is
handled, which in place comes to the same by `Checked.handle_eq`: its window is there, it knows what
its phase requires, and positions and the depth are words because the data are short. -/
theorem checked_of_step (hless : StrictWeak less) (h : m.Sized less data lo hi)
    (hsize : data.length < 2 ^ 63) {outcome : Except SortError (Option Event) × Ledger α σ}
    (hstep : m.ledger.step less memory = .ok outcome) :
    Checked.step less memory m.ledger = .ok outcome := by
  by_cases hpoisoned : m.ledger.poisoned = true
  · rw [Ledger.step_of_poisoned less memory hpoisoned] at hstep
    obtain rfl := Except.ok.inj hstep
    rw [Checked.step, if_pos hpoisoned]
    rfl
  · replace hpoisoned : m.ledger.poisoned = false := by simpa using hpoisoned
    rcases hstack : m.stack with _ | ⟨f, others⟩
    · have hdone : m.ledger.stack = [] := by rw [ledger, hstack, List.map_nil]
      simp only [Ledger.step, hpoisoned, hdone, Bool.false_eq_true, if_false] at hstep
      simp only [Checked.step, hpoisoned, hdone, Bool.false_eq_true, if_false]
      obtain rfl := Except.ok.inj hstep
      rfl
    · have hf : f ∈ m.stack := by simp [hstack]
      have hstack' : m.ledger.stack = f.entry :: others.map Frame.entry := by
        rw [ledger, hstack, List.map_cons]
      have hread : Checked.Readable m.ledger.data f.entry
          (window m.data.toList f.start f.stop) := by
        refine ⟨?_, ?_⟩
        · exact (readWindow?_eq ..).symm.trans (h.inv.readWindow hf)
        · show m.data.toList.length < _
          rw [h.inv.rearranged.length_eq]
          exact hsize
      -- the depth that the event reports
      have hdepth : (others.map Frame.entry).length + 1 < wordBound := by
        have hle := h.depth_le
        have hhi := h.inv.within.2
        rw [hstack, List.length_cons] at hle
        rw [List.length_map]
        unfold wordBound UInt64.size
        omega
      simp only [Ledger.step, hpoisoned, hstack', Bool.false_eq_true, if_false] at hstep
      obtain ⟨handled, hhandle, hsettled⟩ := exists_ok_of_bind hstep
      obtain rfl := Except.ok.inj hsettled
      exact Checked.step_eq hpoisoned hstack' hdepth
        (Checked.handle_eq hless hread h.inv.valid (h.inv.holds f hf) (h.stride_le f hf) hhandle)

end Sized

variable [IndexSource σ]

/-- Sizes are small in every reachable machine. -/
theorem Reachable.sized (hless : StrictWeak less) {data : Array α}
    (h : Reachable less data lo hi m) : m.Sized less data.toList lo hi := by
  obtain ⟨m₀, events, hstarted, hreaches⟩ := h
  exact hreaches.keeps (fun h => h.of_step hless) (fun h => h.of_sameWork) hstarted.sized

/-- No step of a reachable machine is stopped: with fewer than 2⁶³ elements the step in place stays
in the range of words, reads inside of sequences and tables, and comes to no place that it should
not reach. It has the result of the machine's step, and leaves the ledger of the machine after
it. -/
theorem Reachable.checked (hless : StrictWeak less) {data : Array α} (hsize : data.size < 2 ^ 63)
    (h : Reachable less data lo hi m) (memory : Memory) :
    ∃ result m', Checked.step less memory m.ledger = .ok (result, m'.ledger) ∧
      m.step less memory = .ok (result, m') := by
  obtain ⟨haccounted, -⟩ := h.accounted
  obtain ⟨result, m', hstep⟩ := haccounted.exists_step less memory
  have hledger := haccounted.step_ledger hstep
  exact ⟨result, m',
    (h.sized hless).checked_of_step hless (by rwa [Array.length_toList]) hledger, hstep⟩

/-- Four numbers after seven steps, when buckets are to be settled, under a configuration that came
later. -/
theorem Reachable.checked_of_four :
    ∃ m : Machine Nat WordCycle,
      Reachable (fun a b => decide (a < b)) #[2, 4, 1, 3] 0 4 m ∧
        m.stack.map Frame.stage = [.recursion] ∧ m.config = ⟨4, 2, 3, 1⟩ ∧
        ∃ result m', Checked.step (fun a b => decide (a < b)) .available m.ledger =
            .ok (result, m'.ledger) ∧
          m.step (fun a b => decide (a < b)) .available = .ok (result, m') := by
  let less := fun a b : Nat => decide (a < b)
  let m₀ : Machine Nat WordCycle := .ofArray (.ofList [0xc0000000]) #[2, 4, 1, 3]
  let m₁ : Machine Nat WordCycle := { m₀ with config := ⟨1, 1, 1, 0⟩ }
  have hconfig : m₀.withConfig? ⟨1, 1, 1, 0⟩ = .ok m₁ := rfl
  have hstages : (m₁.runFor less 7).map (fun r => r.machine.stack.map Frame.stage) =
      .ok [.recursion] := by decide +kernel
  obtain ⟨m, ⟨m₀, events, hstarted, hreaches⟩, hstack⟩ :=
    Started.exists_reachable (.whole _) hconfig (fun m => m.stack.map Frame.stage) hstages
  have hconfig' : m.withConfig? ⟨4, 2, 3, 1⟩ = .ok { m with config := ⟨4, 2, 3, 1⟩ } := rfl
  have hreachable : Reachable less #[2, 4, 1, 3] 0 4 { m with config := ⟨4, 2, 3, 1⟩ } :=
    ⟨m₀, _, hstarted, hreaches.tail (.withConfig hconfig')⟩
  exact ⟨_, hreachable, hstack, rfl, Reachable.checked .natural (by decide) hreachable _⟩

end Machine

end SampleSort
