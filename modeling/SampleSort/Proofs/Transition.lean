import SampleSort.Proofs.Driving
import SampleSort.Proofs.Turn

set_option relaxedAutoImplicit false
set_option autoImplicit false

/-!
# What a turn can do under any predicate

Some of what a turn does follows from its having come to an end, and does not depend on the
predicate that elements are compared by: frames go through their phases in order, they keep
their plans, and what comes of a frame lies inside its window. This holds even if the predicate is
no ordering.

## Main definitions

* `SampleSort.Transition.Regular` — the transitions that there are.
* `SampleSort.Machine.Bounded` — pending windows lie inside the one that is being sorted.

## Main results

* `SampleSort.Phase.regular_of_turn` — a turn that succeeds makes one of these transitions.
* `SampleSort.Machine.turn_of_step` — a step is a turn of the first frame, or nothing happens.
* `SampleSort.Machine.Reachable.bounded` — every reachable machine is bounded.
-/

namespace SampleSort

variable {α σ β γ ε : Type} {less : α → α → Bool}

/-- A computation that succeeds has succeeded in its first part. -/
lemma exists_ok_of_bind {x : Except ε β} {k : β → Except ε γ} {c : γ} (h : x >>= k = .ok c) :
    ∃ b, x = .ok b ∧ k b = .ok c := by
  cases x with
  | error e => cases h
  | ok b => exact ⟨b, rfl, h⟩

/-- At most half of a window is sampled, whatever the configuration. -/
lemma Config.samples_le {c : Config} {n : Nat} {plan : SamplingPlan}
    (h : c.samplingPlan n = .ok plan) : plan.samples ≤ n / 2 := by
  obtain ⟨-, rfl⟩ := samplingPlan_eq_ok_iff.1 h
  exact Nat.min_le_right _ _

/-! ### The windows that are left pending -/

section Buckets

variable {threshold start stop b : Nat} {splitters v bucket : List α}

/-- Peeling a bucket loses nothing. -/
lemma peelBucket_perm {whole : Nat} {equal rest : List α}
    (h : peelBucket less splitters whole b bucket = .ok (equal, rest)) :
    (equal ++ rest).Perm bucket := by
  unfold peelBucket at h
  split at h
  · split at h
    · next pivot _ =>
      obtain ⟨rfl, rfl⟩ := Prod.mk.inj (Except.ok.inj h)
      exact peelEqual_perm less pivot bucket
    · cases h
  · obtain ⟨rfl, rfl⟩ := Prod.mk.inj (Except.ok.inj h)
    exact .refl _

/-- What is left pending of a bucket is long and lies inside it. -/
lemma pending_of_settleBucket {settled : Settled α}
    (h : settleBucket less threshold splitters v b start stop = .ok settled) {w : Nat × Nat}
    (hw : settled.pending = some w) :
    w.1 ≤ w.2 ∧ w.2 ≤ v.length ∧ threshold < w.2 - w.1 := by
  obtain ⟨bucket, hslice, h⟩ := exists_ok_of_bind h
  obtain ⟨⟨equal, rest⟩, hpeel, h⟩ := exists_ok_of_bind h
  have hbounds := (slice?_eq_ok_iff.1 hslice).1
  have hbucket := length_of_slice?_eq_ok hslice
  have hlength := (peelBucket_perm hpeel).length_eq
  rw [List.length_append] at hlength
  obtain rfl := Except.ok.inj h
  by_cases hlong : threshold < rest.length
  · rw [if_pos hlong] at hw
    obtain rfl := Option.some.inj hw
    simp only
    omega
  · rw [if_neg hlong] at hw
    cases hw

/-- What is left pending of all buckets is long and lies inside the window. -/
lemma pending_of_settleBuckets {bounds : List (Nat × Nat)} {settled : List (Settled α)}
    (h : settleBuckets less threshold splitters v b bounds = .ok settled) {w : Nat × Nat}
    (hw : w ∈ settled.filterMap Settled.pending) :
    w.1 ≤ w.2 ∧ w.2 ≤ v.length ∧ threshold < w.2 - w.1 := by
  induction bounds generalizing b settled with
  | nil =>
    obtain rfl : [] = settled := Except.ok.inj h
    cases hw
  | cons bound bounds ih =>
    obtain ⟨first, later, hfirst, hlater, rfl⟩ := settleBuckets_cons_eq_ok_iff.1 h
    obtain ⟨s, hs, hpending⟩ := List.mem_filterMap.1 hw
    rcases List.mem_cons.1 hs with rfl | hs
    · exact pending_of_settleBucket hfirst hpending
    · exact ih hlater (List.mem_filterMap.2 ⟨s, hs, hpending⟩)

end Buckets

/-! ### Turns -/

/-- The transitions that there are from a phase of the work on a window of `n` elements. -/
inductive Transition.Regular (config : Config) (memory : Memory) (phase : Phase α) (n : Nat) :
    Transition α → Prop where
  /-- The frame goes on to the next phase and keeps its plan. Only a long window is sampled. -/
  | advance {phase' : Phase α} (order : phase'.order = phase.order + 1)
      (plan : phase'.plan? = phase.plan?) (long : phase'.order = 2 → config.threshold < n) :
      Regular config memory phase n (.advance phase')
  /-- The window is done with. -/
  | resolve : Regular config memory phase n .resolve
  /-- A sample is drawn according to the configuration's plan. -/
  | descend {plan : SamplingPlan} (sampling : phase = .sampling)
      (planned : config.samplingPlan n = .ok plan) :
      Regular config memory phase n (.descend plan)
  /-- Long windows inside the window are left. -/
  | split {windows : List (Nat × Nat)} (order : phase.order = 6)
      (within : ∀ w ∈ windows, w.1 ≤ w.2 ∧ w.2 ≤ n ∧ config.threshold < w.2 - w.1) :
      Regular config memory phase n (.split windows)
  /-- There was no memory for what the phase reserves. -/
  | refuse {what : Bookkeeping} (exhausted : memory = .exhausted)
      (reserves : phase.reservation? = some what) : Regular config memory phase n (.refuse what)

section Turns

variable [IndexSource σ] {config : Config} {strategy : Strategy} {memory : Memory} {source : σ}
  {v : List α} {phase : Phase α} {t : Turn α σ}

namespace Phase

/-- The work of a phase, if it succeeds, makes one of these transitions. -/
lemma regular_of_work (h : phase.work less config strategy source v = .ok t) :
    t.transition.Regular config memory phase v.length := by
  cases phase with
  | simpleCases =>
    by_cases hshape : (Shape.detect less v).value = .unsorted
    · rw [work_simpleCases_eq hshape] at h
      obtain rfl := Except.ok.inj h
      exact .advance rfl rfl (by simp [order])
    · rw [work_simpleCases_resolve_eq hshape] at h
      obtain rfl := Except.ok.inj h
      exact .resolve
  | baseCase =>
    by_cases hshort : v.length ≤ config.threshold
    · rw [work_baseCase_resolve_eq hshort] at h
      obtain rfl := Except.ok.inj h
      exact .resolve
    · rw [work_baseCase_eq hshort] at h
      obtain rfl := Except.ok.inj h
      exact .advance rfl rfl fun _ => Nat.lt_of_not_le hshort
  | sampling =>
    obtain ⟨plan, hplan, h⟩ := exists_ok_of_bind h
    obtain ⟨drawn, -, h⟩ := exists_ok_of_bind h
    obtain rfl := Except.ok.inj h
    exact .descend rfl hplan
  | awaiting plan =>
    obtain ⟨sample, -, h⟩ := exists_ok_of_bind h
    obtain ⟨counts, -, h⟩ := exists_ok_of_bind h
    obtain rfl := Except.ok.inj h
    exact .advance rfl rfl (by simp [order])
  | classification plan splitters counts =>
    obtain ⟨labelling, -, h⟩ := exists_ok_of_bind h
    obtain rfl := Except.ok.inj h
    exact .advance rfl rfl (by simp [order])
  | partitioning plan splitters counts labels =>
    obtain ⟨partitioned, -, h⟩ := exists_ok_of_bind h
    obtain rfl := Except.ok.inj h
    exact .advance rfl rfl (by simp [order])
  | recursion plan splitters counts starts =>
    obtain ⟨settled, hsettled, h⟩ := exists_ok_of_bind h
    obtain rfl := Except.ok.inj h
    exact .split rfl fun w hw => pending_of_settleBuckets hsettled hw

/-- Without memory, a phase that reserves some refuses to go on, and nothing happens. -/
lemma turn_exhausted {what : Bookkeeping} (h : phase.reservation? = some what) :
    phase.turn less config strategy .exhausted source v = .ok ⟨v, source, .refuse what⟩ := by
  unfold turn
  rw [h]
  rfl

/-- A phase that reserves no memory does not notice whether there is any. -/
lemma turn_of_reservation?_eq_none (h : phase.reservation? = none) :
    phase.turn less config strategy memory source v =
      phase.work less config strategy source v := by
  unfold turn
  rw [h]
  cases memory <;> rfl

/-- A turn that succeeds makes one of these transitions. -/
theorem regular_of_turn (h : phase.turn less config strategy memory source v = .ok t) :
    t.transition.Regular config memory phase v.length := by
  cases memory with
  | available =>
    rw [turn_available] at h
    exact regular_of_work h
  | exhausted =>
    cases hwhat : phase.reservation? with
    | none =>
      rw [turn_of_reservation?_eq_none hwhat] at h
      exact regular_of_work h
    | some what =>
      rw [turn_exhausted hwhat] at h
      obtain rfl := Except.ok.inj h
      exact .refuse rfl hwhat

end Phase

end Turns

/-- The frames that come of a frame keep inside its window. -/
lemma Transition.Regular.within {config : Config} {memory : Memory} {f g : Frame α}
    {transition : Transition α} (h : transition.Regular config memory f.phase f.length)
    (hle : f.start ≤ f.stop) (hg : g ∈ f.successors transition) :
    f.start ≤ g.start ∧ g.start ≤ g.stop ∧ g.stop ≤ f.stop := by
  have hlength : f.length = f.stop - f.start := rfl
  cases h with
  | advance _ _ _ =>
    obtain rfl := List.mem_singleton.1 hg
    exact ⟨Nat.le_refl _, hle, Nat.le_refl _⟩
  | resolve => cases hg
  | refuse _ _ =>
    obtain rfl := List.mem_singleton.1 hg
    exact ⟨Nat.le_refl _, hle, Nat.le_refl _⟩
  | descend _ hplan =>
    have hsamples := Config.samples_le hplan
    rcases List.mem_cons.1 hg with rfl | hg
    · simp only [Frame.fresh]
      omega
    · obtain rfl := List.mem_singleton.1 hg
      exact ⟨Nat.le_refl _, hle, Nat.le_refl _⟩
  | split _ hwithin =>
    obtain ⟨w, hw, rfl⟩ := List.mem_map.1 hg
    have := hwithin w hw
    simp only [Frame.fresh]
    omega

/-- A turn has no error, or else memory was exhausted and the frame stays. -/
lemma Transition.Regular.error_cases {config : Config} {memory : Memory} {f : Frame α} {n : Nat}
    {transition : Transition α} (h : transition.Regular config memory f.phase n) :
    f.error? transition = none ∨ f.successors transition = [f] := by
  cases h with
  | refuse _ _ => exact Or.inr rfl
  | advance _ _ _ => exact Or.inl rfl
  | resolve => exact Or.inl rfl
  | descend _ _ => exact Or.inl rfl
  | split _ _ => exact Or.inl rfl

/-! ### Steps and calls -/

namespace Machine

variable {m m' : Machine α σ} {memory : Memory} {result : Except SortError (Option Event)}
  {events : List Event} {lo hi : Nat}

/-- Pending windows lie inside the positions from `lo` to `hi` of the data, and a machine that has
failed has work left. -/
structure Bounded (lo hi : Nat) (m : Machine α σ) : Prop where
  /-- The positions are positions of the data. -/
  le_size : hi ≤ m.data.size
  /-- The windows lie inside them. -/
  bounds : ∀ f ∈ m.stack, lo ≤ f.start ∧ f.start ≤ f.stop ∧ f.stop ≤ hi
  /-- A step fails only while there is work. -/
  pending : m.poisoned = true → m.stack ≠ []

variable [IndexSource σ]

/-- A step of a machine that is neither poisoned nor done, if it has a result, is a turn of the
first frame. -/
lemma exists_turn_of_step {f : Frame α} {others : List (Frame α)} (hpoisoned : m.poisoned = false)
    (hstack : m.stack = f :: others) (h : m.step less memory = .ok (result, m')) :
    ∃ v t, readWindow? m.data f.start f.stop = .ok v ∧
      f.phase.turn less m.config m.strategy memory m.source v = .ok t ∧
      result = answer f others t ∧ m' = m.after f others t := by
  have hdo := h
  simp only [step, hpoisoned, hstack, Bool.false_eq_true, if_false] at hdo
  obtain ⟨v, hread, hdo⟩ := exists_ok_of_bind hdo
  obtain ⟨t, hturn, -⟩ := exists_ok_of_bind hdo
  rw [step_of_turn hpoisoned hstack hread hturn] at h
  obtain ⟨rfl, rfl⟩ := Prod.mk.inj (Except.ok.inj h)
  exact ⟨v, t, hread, hturn, rfl, rfl⟩

/-- A step that has a result is a turn of the first frame, unless the machine is poisoned or done
and nothing happens. -/
theorem turn_of_step (h : m.step less memory = .ok (result, m')) :
    (m' = m ∧ eventsOf result = []) ∨
      ∃ (f : Frame α) (others : List (Frame α)) (v : List α) (t : Turn α σ),
        m.poisoned = false ∧ m.stack = f :: others ∧
        readWindow? m.data f.start f.stop = .ok v ∧
        f.phase.turn less m.config m.strategy memory m.source v = .ok t ∧
        result = answer f others t ∧ m' = m.after f others t := by
  rcases halted_or_pending less memory m with
    ⟨result', hsame, hnone⟩ | ⟨hpoisoned, f, others, hstack⟩
  · rw [hsame] at h
    obtain ⟨rfl, rfl⟩ := Prod.mk.inj (Except.ok.inj h)
    exact Or.inl ⟨rfl, hnone⟩
  · obtain ⟨v, t, hread, hturn, hresult, hafter⟩ := exists_turn_of_step hpoisoned hstack h
    exact Or.inr ⟨f, others, v, t, hpoisoned, hstack, hread, hturn, hresult, hafter⟩

/-- The windows that are pending after a step lie inside those that were pending before. -/
lemma exists_around_of_step (hbounds : ∀ f ∈ m.stack, f.start ≤ f.stop)
    (h : m.step less memory = .ok (result, m')) {g : Frame α} (hg : g ∈ m'.stack) :
    ∃ f ∈ m.stack, f.start ≤ g.start ∧ g.start ≤ g.stop ∧ g.stop ≤ f.stop := by
  rcases turn_of_step h with ⟨rfl, _⟩ | ⟨f, others, v, t, _, hstack, hread, hturn, _, rfl⟩
  · exact ⟨g, hg, Nat.le_refl _, hbounds g hg, Nat.le_refl _⟩
  · have hf : f ∈ m.stack := by simp [hstack]
    rcases List.mem_append.1 hg with hg | hg
    · have hlength : v.length = f.length := by
        rw [readWindow?_eq] at hread
        exact length_of_slice?_eq_ok hread
      have hregular := Phase.regular_of_turn hturn
      rw [hlength] at hregular
      exact ⟨f, hf, hregular.within (hbounds f hf) hg⟩
    · have hg' : g ∈ m.stack := by simp [hstack, hg]
      exact ⟨g, hg', Nat.le_refl _, hbounds g hg', Nat.le_refl _⟩

namespace Bounded

/-- A step keeps windows inside the positions that are sorted. -/
theorem of_step (h : m.Bounded lo hi) (hstep : m.step less memory = .ok (result, m')) :
    m'.Bounded lo hi := by
  have haround := fun g => exists_around_of_step (g := g) (fun f hf => (h.bounds f hf).2.1) hstep
  rcases turn_of_step hstep with ⟨rfl, _⟩ | ⟨f, others, v, t, _, _, _, hturn, _, rfl⟩
  · exact h
  · refine ⟨?_, ?_, ?_⟩
    · show hi ≤ (writeWindow m.data f.start t.window).size
      rw [size_writeWindow]
      exact h.le_size
    · intro g hg
      obtain ⟨f', hf', hstart, hle, hstop⟩ := haround g hg
      have := h.bounds f' hf'
      omega
    · intro hpoisoned hnil
      replace hpoisoned : (f.error? t.transition).isSome = true := hpoisoned
      have hnone := (List.append_eq_nil_iff.1 hnil).1
      rcases (Phase.regular_of_turn hturn).error_cases with hmemory | hstays
      · simp [hmemory] at hpoisoned
      · simp [hstays] at hnone

omit [IndexSource σ] in
/-- So does an exchange. -/
lemma of_sameWork (h : m.Bounded lo hi) (hsame : SameWork m m') : m'.Bounded lo hi := by
  refine ⟨?_, ?_, ?_⟩
  · rw [hsame.data]
    exact h.le_size
  · rw [hsame.stack]
    exact h.bounds
  · rw [hsame.stack, hsame.poisoned]
    exact h.pending

end Bounded

omit [IndexSource σ] in
/-- What is set up with a source, a configuration and a strategy differs only by these from what is
set up without them. -/
lemma exists_started_of_setUp {source : σ} {config : Config} {strategy : Strategy}
    {data : Array α} (h : setUp source config strategy data lo hi = .ok m) :
    ∃ m₀ : Machine α σ, Started data lo hi m₀ ∧ SameWork m₀ m := by
  obtain ⟨m₀, hwindow, h⟩ := exists_ok_of_bind h
  obtain ⟨m₁, hconfig, h⟩ := exists_ok_of_bind h
  obtain ⟨hvalid, rfl⟩ := withConfig?_eq_ok_iff.1 hconfig
  obtain rfl := Except.ok.inj h
  exact ⟨m₀, .window hwindow, rfl, rfl, rfl, rfl, fun _ => hvalid⟩

omit [IndexSource σ] in
/-- A machine that is set up has one frame, for the positions to be sorted. -/
lemma Started.bounded {data : Array α} (h : Started data lo hi m) : m.Bounded lo hi := by
  obtain ⟨hle, hhi, source, rfl⟩ := h.exists_eq_initial
  refine ⟨hhi, ?_, fun hpoisoned => nomatch hpoisoned⟩
  intro f hf
  obtain rfl := List.mem_singleton.1 hf
  exact ⟨Nat.le_refl _, hle, Nat.le_refl _⟩

/-- Every reachable machine is bounded, whatever its predicate. -/
theorem Reachable.bounded {data : Array α} (h : Reachable less data lo hi m) :
    m.Bounded lo hi := by
  obtain ⟨m₀, events, hstarted, hreaches⟩ := h
  exact hreaches.keeps (fun h => h.of_step) (fun h => h.of_sameWork) hstarted.bounded

end Machine

end SampleSort
