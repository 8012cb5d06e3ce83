import Mathlib.Algebra.BigOperators.Ring.List
import Mathlib.Algebra.Ring.Nat
import SampleSort.Proofs.Invariant
import SampleSort.Random.Cycle

set_option relaxedAutoImplicit false
set_option autoImplicit false

/-!
# A machine comes to an end

Every frame is given a weight that depends on the length of its window and on its phase, and not on
the configuration, the strategy or the source. A successful step makes the weight of the stack
smaller, so that a machine takes only so many steps, whatever is exchanged between them.

A frame of `n` elements weighs about `2 ^ (n + 3)` when it has not been begun. It puts up the
weight of its sample, which has at most `n / 2` elements, when it draws one. That leaves enough for
its buckets, which are shorter than the window and together not longer.

## Main definitions

* `SampleSort.Frame.weight`, `SampleSort.stackWeight` — the weight of a frame and of a stack.
* `SampleSort.Machine.Exchanged` — exchanges between two steps.

## Main results

* `SampleSort.sum_two_pow_le` — windows shorter than `n` weigh less than one of length `n`.
* `SampleSort.Transition.Sound.weight_lt` — a sound transition makes a frame lighter.
* `SampleSort.Machine.Inv.length_add_weight_le` — a machine takes at most as many steps as it
  weighs.
* `SampleSort.Machine.Inv.exists_run` — a run ends with all work done.
* `SampleSort.Machine.Reachable.terminates` — whatever is exchanged, a machine is done before long.
-/

namespace SampleSort

variable {α σ : Type} {less : α → α → Bool}

/-- The weight of a window of `n` elements in a given phase. Once the sample has been drawn, what it
weighs is not counted any more. -/
def Phase.weight (n : Nat) (phase : Phase α) : Nat :=
  2 ^ (n + 3) - (if 3 ≤ phase.order then 2 ^ (n / 2 + 3) else 0) - phase.order

/-- The weight of a frame. -/
def Frame.weight (f : Frame α) : Nat :=
  f.phase.weight f.length

/-- The weight of all frames on a stack. -/
def stackWeight (stack : List (Frame α)) : Nat :=
  (stack.map Frame.weight).sum

/-! ### Weights of windows -/

/-- A window that has been sampled weighs more than the steps that are left to its phase. -/
lemma two_pow_half_le {n : Nat} (hn : 2 ≤ n) : 2 ^ (n / 2 + 3) + 16 ≤ 2 ^ (n + 3) := by
  have hhalf : 2 ^ (n / 2 + 3) ≤ 2 ^ (n + 2) := Nat.pow_le_pow_right (by decide) (by omega)
  have hsmall : 2 ^ 4 ≤ 2 ^ (n + 2) := Nat.pow_le_pow_right (by decide) (by omega)
  have hdouble : 2 ^ (n + 3) = 2 ^ (n + 2) * 2 := Nat.pow_succ 2 (n + 2)
  omega

/-- Two windows weigh no more than one that is almost as long as both. -/
lemma two_pow_add_le {a b : Nat} (ha : 2 ≤ a) (hb : 2 ≤ b) : 2 ^ a + 2 ^ b ≤ 2 ^ (a + b - 1) := by
  have h₁ : 2 ^ (a + 1) ≤ 2 ^ (a + b - 1) := Nat.pow_le_pow_right (by decide) (by omega)
  have h₂ : 2 ^ (b + 1) ≤ 2 ^ (a + b - 1) := Nat.pow_le_pow_right (by decide) (by omega)
  rw [Nat.pow_succ] at h₁ h₂
  omega

/-- Windows with at least two elements weigh no more than one of all of their elements, and less
than that if there are several. -/
lemma sum_two_pow_le_sum {l : Nat} {ls : List Nat} (h : ∀ x ∈ l :: ls, 2 ≤ x) :
    ((l :: ls).map fun x => 2 ^ x).sum ≤ 2 ^ (l :: ls).sum ∧
      (ls ≠ [] → ((l :: ls).map fun x => 2 ^ x).sum ≤ 2 ^ ((l :: ls).sum - 1)) := by
  induction ls generalizing l with
  | nil => simp
  | cons l' ls ih =>
    have hl : 2 ≤ l := h l (by simp)
    have hl' : 2 ≤ (l' :: ls).sum := by
      have := h l' (by simp)
      rw [List.sum_cons]
      omega
    obtain ⟨hle, _⟩ := ih (l := l') fun x hx => h x (List.mem_cons_of_mem _ hx)
    have hadd := two_pow_add_le hl hl'
    have hmono : 2 ^ (l + (l' :: ls).sum - 1) ≤ 2 ^ (l + (l' :: ls).sum) :=
      Nat.pow_le_pow_right (by decide) (by omega)
    rw [List.map_cons, List.sum_cons, List.sum_cons]
    exact ⟨by omega, fun _ => by omega⟩

/-- Windows with at least two elements that are shorter than `n`, and together not longer, weigh no
more than one that is shorter by one. -/
theorem sum_two_pow_le {n : Nat} {ls : List Nat} (h : ∀ x ∈ ls, 2 ≤ x ∧ x < n)
    (hsum : ls.sum ≤ n) : (ls.map fun x => 2 ^ x).sum ≤ 2 ^ (n - 1) := by
  cases ls with
  | nil => simp
  | cons l ls =>
    cases ls with
    | nil =>
      have := (h l (by simp)).2
      simpa using Nat.pow_le_pow_right (by decide) (show l ≤ n - 1 by omega)
    | cons l' ls =>
      refine Nat.le_trans ((sum_two_pow_le_sum fun x hx => (h x hx).1).2 (by simp)) ?_
      exact Nat.pow_le_pow_right (by decide) (by omega)

/-- Windows that stand one after the other have no more elements than there are positions. -/
lemma Ascending.sum_lengths_le {lo hi : Nat} {ws : List (Nat × Nat)} (h : Ascending lo hi ws) :
    (ws.map fun w => w.2 - w.1).sum ≤ hi - lo := by
  induction ws generalizing lo with
  | nil => simp
  | cons w ws ih =>
    obtain ⟨h₁, h₂, h₃⟩ := h
    have := ih h₃
    have := h₃.le
    rw [List.map_cons, List.sum_cons]
    omega

/-! ### Weights of frames -/

/-- The weight of a stack is that of its first frame and of those below. -/
@[simp] lemma stackWeight_cons (f : Frame α) (stack : List (Frame α)) :
    stackWeight (f :: stack) = f.weight + stackWeight stack := by
  simp [stackWeight]

/-- Weights add up. -/
@[simp] lemma stackWeight_append (stack stack' : List (Frame α)) :
    stackWeight (stack ++ stack') = stackWeight stack + stackWeight stack' := by
  simp [stackWeight]

/-- The weight of a window before its sample has been drawn. -/
lemma Phase.weight_of_lt (phase : Phase α) (h : phase.order < 3) (n : Nat) :
    phase.weight n = 2 ^ (n + 3) - phase.order := by
  rw [weight, if_neg (by omega), Nat.sub_zero]

/-- The weight of a window after its sample has been drawn. -/
lemma Phase.weight_of_le (phase : Phase α) (h : 3 ≤ phase.order) (n : Nat) :
    phase.weight n = 2 ^ (n + 3) - 2 ^ (n / 2 + 3) - phase.order := by
  rw [weight, if_pos h]

/-- A window that has not been begun. -/
lemma weight_fresh (start stop : Nat) (role : Role) :
    (Frame.fresh start stop role : Frame α).weight = 2 ^ (stop - start + 3) := by
  simp [Frame.weight, Frame.fresh, Phase.weight, Phase.order, Frame.length]

/-- Phases are numbered up to six. -/
lemma Phase.order_le_six (phase : Phase α) : phase.order ≤ 6 := by
  cases phase <;> simp [order]

/-- A window that is sampled has at least two elements. -/
lemma Phase.Holds.two_le {v : List α} {phase : Phase α} (h : phase.Holds less v)
    (horder : 2 ≤ phase.order) : 2 ≤ v.length := by
  cases phase with
  | simpleCases => simp [order] at horder
  | baseCase => simp [order] at horder
  | sampling => exact h
  | awaiting plan => exact SamplingPlan.Fits.two_le h
  | classification => exact h.1.fits.two_le
  | partitioning => exact h.1.fits.two_le
  | recursion => exact h.1.fits.two_le

/-- A frame whose phase knows what it needs weighs something. -/
lemma Phase.weight_pos {v : List α} {phase : Phase α} (h : phase.Holds less v) :
    0 < phase.weight v.length := by
  have horder := phase.order_le_six
  by_cases hsampled : 3 ≤ phase.order
  · rw [weight_of_le _ hsampled]
    have := two_pow_half_le (h.two_le (by omega))
    omega
  · rw [weight_of_lt _ (by omega)]
    have : 2 ^ 3 ≤ 2 ^ (v.length + 3) := Nat.pow_le_pow_right (by decide) (by omega)
    omega

/-- The windows that are left pending of a window that has been partitioned are lighter than it.

**Proof sketch.** A window that is left has two elements at least, so its power of two is at most
that of all elements but one, and the powers of several such windows add up to no more than the
power of the sum of their lengths less one. Eight times this is half of `2 ^ (n + 3)`, which the
weight of the last phase exceeds. -/
lemma sum_weight_lt {n threshold : Nat} {phase : Phase α} {windows : List (Nat × Nat)}
    (hthreshold : 1 ≤ threshold) (hn : 2 ≤ n) (horder : phase.order = 6)
    (hws : Ascending 0 n windows)
    (hlengths : ∀ u ∈ windows, threshold < u.2 - u.1 ∧ u.2 - u.1 < n) :
    (windows.map fun u => 2 ^ (u.2 - u.1 + 3)).sum < phase.weight n := by
  have hhalf := two_pow_half_le hn
  rw [Phase.weight_of_le _ (by omega), horder]
  by_cases hempty : windows = []
  · rw [hempty, List.map_nil, List.sum_nil]
    omega
  · -- a window with more than one element is left, so there are at least three
    obtain ⟨u, us, rfl⟩ := List.exists_cons_of_ne_nil hempty
    have hu := hlengths u (by simp)
    have hsum := hws.sum_lengths_le
    rw [Nat.sub_zero] at hsum
    have hshort : ∀ x ∈ (u :: us).map fun u => u.2 - u.1, 2 ≤ x ∧ x < n := by
      intro x hx
      obtain ⟨w, hw, rfl⟩ := List.mem_map.1 hx
      have := hlengths w hw
      omega
    have hpow := sum_two_pow_le hshort hsum
    have height : ((u :: us).map fun u => 2 ^ (u.2 - u.1 + 3)).sum =
        (((u :: us).map fun u => u.2 - u.1).map fun x => 2 ^ x).sum * 8 := by
      have hmul := List.sum_map_mul_right (u :: us) (fun u => 2 ^ (u.2 - u.1)) 8
      rw [List.map_map]
      refine Eq.trans (congrArg List.sum (List.map_congr_left ?_)) hmul
      intro w _
      exact Nat.pow_add 2 (w.2 - w.1) 3
    have h₁ : 2 ^ (n - 1) * 8 = 2 ^ (n + 2) := by
      rw [show n + 2 = n - 1 + 3 by omega, Nat.pow_add]
    have h₂ : 2 ^ (n / 2 + 3) ≤ 2 ^ (n + 1) := Nat.pow_le_pow_right (by decide) (by omega)
    have h₃ : 2 ^ 4 ≤ 2 ^ (n + 1) := Nat.pow_le_pow_right (by decide) (by omega)
    have h₄ : 2 ^ (n + 2) = 2 ^ (n + 1) * 2 := Nat.pow_succ 2 (n + 1)
    have h₅ : 2 ^ (n + 3) = 2 ^ (n + 2) * 2 := Nat.pow_succ 2 (n + 2)
    omega

/-- A sound transition makes a frame lighter, unless it was refused memory.

**Proof sketch.** Cases of the transition. A frame that is resolved is replaced by none, and its
weight was positive. A frame that advances pays one unit for the later phase. To descend is to pay
for the frame of the sample: a sample has at most half of the elements, and the weight of the first
phases is higher by just the power of two of half of the window. For a split see `sum_weight_lt`. -/
theorem Transition.Sound.weight_lt {threshold : Nat} {memory : Memory} {f : Frame α}
    {transition : Transition α} {v w : List α}
    (h : transition.Sound less threshold memory f.phase v w) (hthreshold : 1 ≤ threshold)
    (hf : f.phase.Holds less v) (hlength : v.length = f.length) (hperm : w.Perm v)
    (hmemory : f.error? transition = none) :
    stackWeight (f.successors transition) < f.weight := by
  have hpos := Phase.weight_pos hf
  rw [Frame.weight, ← hlength]
  cases h with
  | refuse _ _ => simp [Frame.error?] at hmemory
  | resolve _ => simpa [Frame.successors, stackWeight] using hpos
  | @advance phase' horder hready _ =>
    rw [Frame.successors, stackWeight_cons, Frame.weight,
      show ({ f with phase := phase' } : Frame α).length = v.length from hlength.symm]
    show phase'.weight v.length + stackWeight [] < f.phase.weight v.length
    by_cases hsampled : 3 ≤ f.phase.order
    · rw [Phase.weight_of_le _ hsampled] at hpos ⊢
      rw [Phase.weight_of_le _ (by omega), horder, stackWeight, List.map_nil, List.sum_nil]
      omega
    · rw [Phase.weight_of_lt _ (by omega)] at hpos ⊢
      rw [Phase.weight_of_lt _ (by omega), horder, stackWeight, List.map_nil, List.sum_nil]
      omega
  | @descend plan hsampling hfits =>
    have hhalf := two_pow_half_le hfits.two_le
    have hsample : 2 ^ (plan.samples + 3) ≤ 2 ^ (v.length / 2 + 3) :=
      Nat.pow_le_pow_right (by decide) (Nat.add_le_add_right hfits.samples_le 3)
    rw [Frame.successors, stackWeight_cons, stackWeight_cons, weight_fresh, Frame.weight,
      show ({ f with phase := .awaiting plan } : Frame α).length = v.length from hlength.symm,
      Nat.add_sub_cancel_left, hsampling]
    show 2 ^ (plan.samples + 3) +
      ((Phase.awaiting plan : Phase α).weight v.length + stackWeight []) < _
    rw [Phase.weight_of_le (.awaiting plan) (Nat.le_refl 3),
      Phase.weight_of_lt .sampling (Nat.lt_succ_self 2), stackWeight, List.map_nil,
      List.sum_nil]
    show 2 ^ (plan.samples + 3) + (2 ^ (v.length + 3) - 2 ^ (v.length / 2 + 3) - 3 + 0) <
      2 ^ (v.length + 3) - 2
    omega
  | @split windows horder hsorted hlengths =>
    have hn : 2 ≤ v.length := hf.two_le (by omega)
    have hws := hsorted.ascending
    rw [hperm.length_eq] at hws
    have hweights : (windows.map fun u => 2 ^ (u.2 - u.1 + 3)) =
        windows.map (Frame.weight ∘ fun u =>
          (Frame.fresh (f.start + u.1) (f.start + u.2) .main : Frame α)) := by
      refine List.map_congr_left ?_
      intro u _
      rw [Function.comp_apply, weight_fresh, Nat.add_sub_add_left]
    rw [Frame.successors, stackWeight, List.map_map, ← hweights]
    exact sum_weight_lt hthreshold hn horder hws hlengths

/-! ### Machines -/

namespace Machine

variable {data : List α} {lo hi : Nat} {m m' m'' : Machine α σ} {memory : Memory}
  {events : List Event}

/-- Between two steps, source, configuration and strategy may be exchanged any number of times. -/
inductive Exchanged (m : Machine α σ) : Machine α σ → Prop where
  /-- Nothing is exchanged. -/
  | refl : Exchanged m m
  /-- The source is exchanged. -/
  | withSource {m' : Machine α σ} (h : Exchanged m m') (source : σ) :
      Exchanged m (m'.withSource source)
  /-- The configuration is exchanged for one that is accepted. -/
  | withConfig {m' m'' : Machine α σ} {config : Config} (h : Exchanged m m')
      (h' : m'.withConfig? config = .ok m'') : Exchanged m m''
  /-- The strategy is exchanged. -/
  | withStrategy {m' : Machine α σ} (h : Exchanged m m') (strategy : Strategy) :
      Exchanged m (m'.withStrategy strategy)

/-- Exchanges leave the stack as it is, and a machine that is not poisoned does not become so. -/
lemma Exchanged.same (h : Exchanged m m') : m'.stack = m.stack ∧ m'.poisoned = m.poisoned := by
  induction h with
  | refl => exact ⟨rfl, rfl⟩
  | withSource _ _ ih => exact ih
  | withConfig _ h' ih =>
    obtain ⟨_, rfl⟩ := withConfig?_eq_ok_iff.1 h'
    exact ih
  | withStrategy _ _ ih => exact ih

variable [IndexSource σ]

/-- Exchanges are calls. -/
lemma Exchanged.reaches (h : Exchanged m m') : Reaches less m [] m' := by
  induction h with
  | refl => exact .refl
  | withSource _ source ih => exact ih.tail (.withSource _ source)
  | withConfig _ h' ih => exact ih.tail (.withConfig h')
  | withStrategy _ strategy ih => exact ih.tail (.withStrategy _ strategy)

namespace Inv

/-- A successful step makes the stack lighter. -/
theorem weight_lt (hless : StrictWeak less) (h : m.Inv less data lo hi) {event : Event}
    (hstep : m.step less memory = .ok (.ok (some event), m')) :
    stackWeight m'.stack < stackWeight m.stack := by
  rcases h.step_cases hless hstep with
    ⟨_, hnone⟩ | ⟨f, others, t, _, hstack, hanswer, rfl, hperm, hsound⟩
  · cases hnone
  · have hf : f ∈ m.stack := by simp [hstack]
    have hmemory : f.error? t.transition = none := by
      unfold answer at hanswer
      split at hanswer
      · cases hanswer
      · assumption
    have hlt := hsound.weight_lt (Config.threshold_pos h.valid) (h.holds f hf)
      (h.length_of_mem hf) hperm hmemory
    rw [after, hstack, stackWeight_append, stackWeight_cons]
    omega

/-- A step makes at most as many events as the stack gets lighter. -/
lemma length_eventsOf_add_weight_le (hless : StrictWeak less) (h : m.Inv less data lo hi)
    {result : Except SortError (Option Event)} (hstep : m.step less memory = .ok (result, m')) :
    (eventsOf result).length + stackWeight m'.stack ≤ stackWeight m.stack := by
  rcases h.step_cases hless hstep with
    ⟨rfl, hnone⟩ | ⟨f, others, t, _, hstack, hanswer, hafter, _, hsound⟩
  · rw [hnone, List.length_nil, Nat.zero_add]
  · rcases hsound.error_cases with hmemory | ⟨hmemory, _, hstays⟩
    · have hevent : result = .ok (some ⟨f.stage, f.role, f.start, f.stop, others.length + 1⟩) := by
        rw [hanswer, answer, hmemory]
      rw [hevent] at hstep ⊢
      have := h.weight_lt hless hstep
      simp only [eventsOf, List.length_singleton]
      omega
    · -- the frame was refused memory, and the stack is what it was
      obtain ⟨error, hmemory⟩ := Option.isSome_iff_exists.1 hmemory
      rw [hanswer, hafter, answer, hmemory, after, hstays, hstack]
      simp [eventsOf]

/-- So do any number of steps. -/
lemma length_steps_add_weight_le (hless : StrictWeak less) (h : m.Inv less data lo hi)
    (hsteps : Steps less m events m') :
    events.length + stackWeight m'.stack ≤ stackWeight m.stack := by
  induction hsteps with
  | refl => simp
  | head hstep _ ih =>
    have hfirst := h.length_eventsOf_add_weight_le hless hstep
    have hrest := ih (h.of_step hless hstep)
    rw [List.length_append]
    omega

/-- However a machine is driven, it makes at most as many successful steps as its stack gets
lighter. -/
theorem length_add_weight_le (hless : StrictWeak less) (h : m.Inv less data lo hi)
    (hreaches : Reaches less m events m') :
    events.length + stackWeight m'.stack ≤ stackWeight m.stack := by
  induction hreaches with
  | refl => simp
  | @tail events events' m' m'' hreaches hfollows ih =>
    have hinv := h.of_reaches hless hreaches
    have hcall : events'.length + stackWeight m''.stack ≤ stackWeight m'.stack := by
      rcases hfollows.cases_step with
        hsteps | ⟨rfl, ⟨source, rfl⟩ | ⟨config, hconfig⟩ | ⟨strategy, rfl⟩⟩
      · exact hinv.length_steps_add_weight_le hless hsteps
      · simp [withSource]
      · obtain ⟨_, rfl⟩ := withConfig?_eq_ok_iff.1 hconfig
        simp
      · simp [withStrategy]
    rw [List.length_append]
    omega

/-- While there is work and memory, a machine that is not poisoned makes a successful step, and it
is not poisoned after it. -/
theorem exists_successful_step (hless : StrictWeak less) (h : m.Inv less data lo hi)
    (hpoisoned : m.poisoned = false) (hwork : m.isDone = false) :
    ∃ event m', m.step less .available = .ok (.ok (some event), m') ∧ m'.poisoned = false := by
  have hne : m.stack ≠ [] := by
    intro hnil
    simp [isDone, hnil] at hwork
  obtain ⟨f, others, hstack⟩ := List.exists_cons_of_ne_nil hne
  obtain ⟨t, hstep, _, hsound⟩ := h.exists_turn hless hstack hpoisoned .available
  have hmemory : f.error? t.transition = none := by
    rcases hsound.error_cases with hmemory | ⟨_, hexhausted, _⟩
    · exact hmemory
    · cases hexhausted
  refine ⟨⟨f.stage, f.role, f.start, f.stop, others.length + 1⟩, m.after f others t, ?_, ?_⟩
  · rw [hstep, answer, hmemory]
  · rw [after, hmemory]
    rfl

end Inv

omit [IndexSource σ] in
/-- A frame of a machine weighs something. -/
lemma Inv.weight_pos (h : m.Inv less data lo hi) {f : Frame α} (hf : f ∈ m.stack) :
    0 < f.weight := by
  have hpos := Phase.weight_pos (h.holds f hf)
  rwa [h.length_of_mem hf] at hpos

/-- With a budget of at least the weight of its stack, and with memory, a machine that is not
poisoned runs to the end.

**Proof sketch.** Induction on the budget. A step makes the stack lighter, so that the rest of the
budget is enough for what is left; and with no budget there is no frame left, because each weighs
something. -/
theorem Inv.exists_runFrom {β : Type} (hless : StrictWeak less) (h : m.Inv less data lo hi)
    (hpoisoned : m.poisoned = false) (observe : Event → Machine α σ → β) (seen : List β)
    (taken : Nat) {budget : Nat} (hbudget : stackWeight m.stack ≤ budget) :
    ∃ r, runFrom less observe (fun _ => false) seen taken budget m = .ok r ∧ r.error? = none ∧
      r.machine.isDone = true := by
  induction budget generalizing m seen taken with
  | zero =>
    refine ⟨⟨seen.reverse, taken, none, m⟩, rfl, rfl, ?_⟩
    by_contra hwork
    obtain ⟨f, others, hstack⟩ := List.exists_cons_of_ne_nil (show m.stack ≠ [] by
      intro hnil
      simp [isDone, hnil] at hwork)
    have hpos := h.weight_pos (f := f) (by simp [hstack])
    rw [hstack, stackWeight_cons] at hbudget
    omega
  | succ budget ih =>
    rw [runFrom, if_neg (by decide)]
    by_cases hdone : m.isDone = true
    · rw [step_of_done less .available hpoisoned hdone]
      exact ⟨_, rfl, rfl, hdone⟩
    · obtain ⟨event, m', hstep, hpoisoned'⟩ :=
        h.exists_successful_step hless hpoisoned (by simpa using hdone)
      rw [hstep]
      have hlt := h.weight_lt hless hstep
      exact ih (h.of_step hless hstep) hpoisoned' _ _ (by omega)

omit [IndexSource σ] in
/-- A machine weighs no more than the steps it is allowed. -/
lemma stackWeight_le_allowance (m : Machine α σ) : stackWeight m.stack ≤ m.allowance := by
  unfold stackWeight allowance
  induction m.stack with
  | nil => exact Nat.le_refl 0
  | cons f stack ih =>
    have hf : f.weight ≤ 2 ^ (f.length + 3) :=
      Nat.le_trans (Nat.sub_le _ _) (Nat.sub_le _ _)
    rw [List.map_cons, List.sum_cons, List.foldr_cons, Nat.one_shiftLeft]
    omega

/-- A machine that is not poisoned runs to the end. -/
theorem Inv.exists_run (hless : StrictWeak less) (h : m.Inv less data lo hi)
    (hpoisoned : m.poisoned = false) :
    ∃ r, m.run less = .ok r ∧ r.error? = none ∧ r.machine.isDone = true :=
  h.exists_runFrom hless hpoisoned _ [] 0 (stackWeight_le_allowance m)

/-- A machine cannot go on for ever: the weight of its stack, which does not depend on the source,
the configuration or the strategy, bounds the steps it can make. -/
structure Terminates (less : α → α → Bool) (m : Machine α σ) : Prop where
  /-- Wherever calls have led, a successful step makes the stack lighter. -/
  weight_lt : ∀ events m', Reaches less m events m' → ∀ memory event m'',
    m'.step less memory = .ok (.ok (some event), m'') →
      stackWeight m''.stack < stackWeight m'.stack
  /-- Exchanges make it neither lighter nor heavier. -/
  weight_eq : ∀ events m', Reaches less m events m' → ∀ m'', Exchanged m' m'' →
    stackWeight m''.stack = stackWeight m'.stack
  /-- Any calls together make at most as many successful steps as the stack gets lighter. -/
  length_le : ∀ events m', Reaches less m events m' →
    events.length + stackWeight m'.stack ≤ stackWeight m.stack
  /-- If steps are taken for ever, all with memory and with any exchanges between them, then after
  at most as many of them as the stack weighs, all work is done. -/
  done : ∀ ms : Nat → Machine α σ, ms 0 = m →
    (∀ k, ∃ m' result, Exchanged (ms k) m' ∧ m'.step less .available = .ok (result, ms (k + 1))) →
      ∃ k ≤ stackWeight m.stack, (ms k).isDone = true

/-- As long as a sequence of steps, with exchanges between them, has not come to an end, every step
has made the stack lighter.

**Proof sketch.** Induction on the number of steps. An exchange does not touch the stack, and a step
of a machine with work left, with memory, is successful. -/
lemma Inv.add_weight_le (hless : StrictWeak less) (h : m.Inv less data lo hi)
    (hpoisoned : m.poisoned = false) {ms : Nat → Machine α σ} (hfirst : ms 0 = m)
    (hsteps : ∀ k, ∃ m' result, Exchanged (ms k) m' ∧
      m'.step less .available = .ok (result, ms (k + 1)))
    (n : Nat) (hwork : ∀ k, k < n → (ms k).isDone = false) :
    (ms n).Inv less data lo hi ∧ (ms n).poisoned = false ∧
      n + stackWeight (ms n).stack ≤ stackWeight m.stack := by
  induction n with
  | zero =>
    rw [hfirst]
    exact ⟨h, hpoisoned, by omega⟩
  | succ n ih =>
    obtain ⟨hinv, hunpoisoned, hle⟩ := ih fun k hk => hwork k (by omega)
    obtain ⟨m', result, hexchanged, hstep⟩ := hsteps n
    obtain ⟨hstack, hsame⟩ := hexchanged.same
    have hinv' := hinv.of_reaches hless hexchanged.reaches
    have hwork' : m'.isDone = false := by
      rw [isDone, hstack]
      exact hwork n (Nat.lt_succ_self n)
    obtain ⟨event, m'', hstep', hpoisoned'⟩ :=
      hinv'.exists_successful_step hless (hsame.trans hunpoisoned) hwork'
    rw [hstep] at hstep'
    obtain ⟨rfl, rfl⟩ := Prod.mk.inj (Except.ok.inj hstep')
    have hlt := hinv'.weight_lt hless hstep
    rw [hstack] at hlt
    exact ⟨hinv'.of_step hless hstep, hpoisoned', by omega⟩

/-- Whatever indices the source yields, and whatever is exchanged between steps, a reachable machine
that is not poisoned makes only so many steps before it is done.

**Proof sketch.** The invariant of the machine carries over along calls, so every successful step
lowers the weight. If a sequence of steps went on beyond the weight at the beginning, that would
have been lowered more often than it can be. -/
theorem Reachable.terminates (hless : StrictWeak less) {data : Array α} {m : Machine α σ}
    (h : Reachable less data lo hi m) (hpoisoned : m.poisoned = false) : Terminates less m := by
  have hinv := h.inv hless
  refine ⟨?_, ?_, ?_, ?_⟩
  · intro events m' hreaches memory event m'' hstep
    exact (hinv.of_reaches hless hreaches).weight_lt hless hstep
  · intro events m' _ m'' hexchanged
    rw [hexchanged.same.1]
  · intro events m' hreaches
    exact hinv.length_add_weight_le hless hreaches
  · intro ms hfirst hsteps
    by_contra hnever
    have hwork : ∀ k, k < stackWeight m.stack + 1 → (ms k).isDone = false := by
      intro k hk
      by_contra hdone
      exact hnever ⟨k, by omega, by simpa using hdone⟩
    have hle := (hinv.add_weight_le hless hpoisoned hfirst hsteps _ hwork).2.2
    omega

/-- A machine that is to sort four numbers makes at most 128 steps. -/
theorem Reachable.terminates_of_four :
    Terminates (fun a b => decide (a < b))
        (ofArray (.ofList [0xc0000000]) #[2, 4, 1, 3] : Machine Nat WordCycle) ∧
      stackWeight (ofArray (.ofList [0xc0000000]) #[2, 4, 1, 3] : Machine Nat WordCycle).stack =
        128 :=
  ⟨Reachable.terminates .natural ⟨_, [], .whole (.ofList [0xc0000000]), .refl⟩ rfl, rfl⟩

end Machine

end SampleSort
