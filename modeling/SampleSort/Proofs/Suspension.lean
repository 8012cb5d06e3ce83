import SampleSort.Proofs.Conservation
import SampleSort.Proofs.Invariant

set_option relaxedAutoImplicit false
set_option autoImplicit false

/-!
# A frame that waits for its sample

When a sample is drawn, the sort of the sample is put on top of the frame that has drawn it, as a
call would be. Until the sort of the sample is done, that frame and all below it stay as they are,
whatever is exchanged meanwhile, and nothing is touched outside the sample. Then the frame is the
first one again, and it finds its sample sorted.

## Main definitions

* `SampleSort.Machine.Moves` — a step or an exchange.
* `SampleSort.Machine.MovesUntil` — moves up to the next time that the stack has a given depth.
* `SampleSort.Machine.SampleCall` — what holds while a sample is sorted, and when it has been.
* `SampleSort.Machine.Suspended` — the invariant of the moves in between.

## Main results

* `SampleSort.Machine.Reaches.movesUntil` — every sequence of calls begins with such moves.
* `SampleSort.Machine.Suspended.of_moves` — a move above a waiting frame leaves it alone.
* `SampleSort.Machine.Reachable.sampleCall` — a sample is sorted like a call that returns.
-/

namespace SampleSort

namespace Machine

variable {α σ β : Type} {less : α → α → Bool} {data : List α} {lo hi d : Nat}
  {m m₀ m₁ m' : Machine α σ} {f g : Frame α} {others below : List (Frame α)} {plan : SamplingPlan}
  {memory : Memory} {result : Except SortError (Option Event)} {events : List Event}

/-! ### Moves -/

section Statements

variable [IndexSource σ]

/-- One move of a machine. -/
inductive Moves (less : α → α → Bool) (m : Machine α σ) : Machine α σ → Prop where
  /-- A step, which may find memory exhausted. -/
  | step {m' : Machine α σ} {memory : Memory} {result : Except SortError (Option Event)}
      (h : m.step less memory = .ok (result, m')) : Moves less m m'
  /-- An exchange of the source, the configuration or the strategy. -/
  | exchange {m' : Machine α σ} (h : SameWork m m') : Moves less m m'

/-- Moves lead from one machine to another, and at no time before the last of them is the depth of
the stack `d`. -/
inductive MovesUntil (less : α → α → Bool) (d : Nat) (m : Machine α σ) : Machine α σ → Prop where
  /-- No move. -/
  | refl : MovesUntil less d m m
  /-- One more move, if the depth is not `d` yet. -/
  | tail {m' m'' : Machine α σ} (h : MovesUntil less d m m') (hdepth : m'.depth ≠ d)
      (hmove : Moves less m' m'') : MovesUntil less d m m''

end Statements

/-- What holds of a machine `m'` that has come of a machine `m₁` in which a sample has just been
drawn according to `plan`, if `waiting` is the frame that waits for it, with the frames `below`. -/
structure SampleCall (less : α → α → Bool) (waiting : Frame α) (plan : SamplingPlan)
    (below : List (Frame α)) (m₁ m' : Machine α σ) : Prop where
  /-- The waiting frame and those below it stay as they are. -/
  kept : waiting :: below <:+ m'.stack
  /-- Outside the sample nothing changes. -/
  outside : ∀ p, p < waiting.start ∨ waiting.start + plan.samples ≤ p →
    m'.data[p]? = m₁.data[p]?
  /-- Once there is nothing above the waiting frame, the sample that was drawn is sorted. -/
  returned : m'.depth = below.length + 1 →
    m'.stack = waiting :: below ∧
      (window m'.data.toList waiting.start (waiting.start + plan.samples)).Perm
        (window m₁.data.toList waiting.start (waiting.start + plan.samples)) ∧
      Sorted less (window m'.data.toList waiting.start (waiting.start + plan.samples))

/-- What the moves keep that leave a frame waiting for its sample: all that goes on happens in
frames above it, inside the sample. -/
structure Suspended (less : α → α → Bool) (data : List α) (lo hi : Nat) (waiting : Frame α)
    (plan : SamplingPlan) (below : List (Frame α)) (m₁ m' : Machine α σ) : Prop where
  /-- The invariant of all machines. -/
  inv : m'.Inv less data lo hi
  /-- What is recorded about windows covers them. -/
  accounted : m'.Accounted lo hi
  /-- Frames above the waiting one lie in the sample. -/
  above : ∃ above, m'.stack = above ++ waiting :: below ∧
    ∀ f ∈ above, waiting.start ≤ f.start ∧ f.stop ≤ waiting.start + plan.samples
  /-- Elements have changed places in the sample only. -/
  rearranged : Rearranged waiting.start (waiting.start + plan.samples) m₁.data.toList
    m'.data.toList

variable [IndexSource σ]

/-! ### Calls are moves -/

/-- Steps are moves: they are made until the depth is `d`, and if it becomes so on the way, the rest
of them is made from there. -/
lemma MovesUntil.of_steps (h : MovesUntil less d m₀ m) (hsteps : Steps less m events m') :
    ∃ m₁, MovesUntil less d m₀ m₁ ∧
      (m₁ = m' ∨ m₁.depth = d ∧ ∃ events', Reaches less m₁ events' m') := by
  induction hsteps with
  | refl m => exact ⟨m, h, Or.inl rfl⟩
  | @head m m₁ m' memory result events hstep hsteps ih =>
    by_cases hdepth : m.depth = d
    · exact ⟨m, h, Or.inr ⟨hdepth, _, Reaches.refl.steps (.head hstep hsteps)⟩⟩
    · exact ih (h.tail hdepth (.step hstep))

/-- Every sequence of calls consists of moves until the depth is `d`, and if it becomes so, of calls
from there. -/
theorem Reaches.movesUntil (d : Nat) (h : Reaches less m events m') :
    ∃ m₁, MovesUntil less d m m₁ ∧
      (m₁ = m' ∨ m₁.depth = d ∧ ∃ events', Reaches less m₁ events' m') := by
  induction h with
  | refl => exact ⟨m, .refl, Or.inl rfl⟩
  | @tail events events' m' m'' _ hfollows ih =>
    obtain ⟨m₁, hmoves, rfl | ⟨hdepth, events₁, hreaches⟩⟩ := ih
    · by_cases hdepth : m₁.depth = d
      · exact ⟨m₁, hmoves, Or.inr ⟨hdepth, _, Reaches.refl.tail hfollows⟩⟩
      · rcases hfollows.cases_work with hsteps | ⟨-, hsame⟩
        · exact hmoves.of_steps hsteps
        · exact ⟨m'', hmoves.tail hdepth (.exchange hsame), Or.inl rfl⟩
    · exact ⟨m₁, hmoves, Or.inr ⟨hdepth, _, hreaches.tail hfollows⟩⟩

/-- A run until the depth is `d` is made of such moves.

**Proof sketch.** Induction on the budget. A run stops where the depth is `d`, and where it goes on
the depth was another one, so that the step is a move. -/
lemma MovesUntil.of_runFrom {observe : Event → Machine α σ → β} {seen : List β}
    {taken budget : Nat} {r : Run α σ β} (h : MovesUntil less d m₀ m)
    (hrun : runFrom less observe (fun m => m.depth == d) seen taken budget m = .ok r) :
    MovesUntil less d m₀ r.machine := by
  induction budget generalizing seen taken m with
  | zero =>
    obtain rfl : _ = r := Except.ok.inj hrun
    exact h
  | succ budget ih =>
    rw [runFrom] at hrun
    by_cases hdepth : m.depth = d
    · rw [if_pos (by simpa using hdepth)] at hrun
      obtain rfl : _ = r := Except.ok.inj hrun
      exact h
    · rw [if_neg (by simpa using hdepth)] at hrun
      rcases hstep : m.step less .available with fault | ⟨error | event?, m'⟩
      · rw [hstep] at hrun
        cases hrun
      · rw [hstep] at hrun
        obtain rfl : _ = r := Except.ok.inj hrun
        exact h.tail hdepth (.step hstep)
      · have hnext : MovesUntil less d m₀ m' := h.tail hdepth (.step hstep)
        cases event? with
        | none =>
          rw [hstep] at hrun
          obtain rfl : _ = r := Except.ok.inj hrun
          exact hnext
        | some event =>
          rw [hstep] at hrun
          exact ih hnext hrun

/-! ### While the sample is being sorted -/

namespace Suspended

omit [IndexSource σ] in
/-- An exchange leaves the waiting frame alone. -/
lemma of_sameWork {m'' : Machine α σ} (h : Suspended less data lo hi g plan below m₁ m')
    (hsame : SameWork m' m'') : Suspended less data lo hi g plan below m₁ m'' := by
  refine ⟨h.inv.of_sameWork hsame, h.accounted.of_sameWork hsame, ?_, ?_⟩
  · rw [hsame.stack]
    exact h.above
  · rw [hsame.data]
    exact h.rearranged

/-- So does a step, as long as there is a frame above it.

**Proof sketch.** The step takes a turn of the first frame, which lies in the sample. What comes of
this frame lies in its window, and so in the sample as well, and only this window is written to. -/
theorem of_step {m'' : Machine α σ} (hless : StrictWeak less)
    (h : Suspended less data lo hi g plan below m₁ m') (hdepth : m'.depth ≠ below.length + 1)
    (hstep : m'.step less memory = .ok (result, m'')) :
    Suspended less data lo hi g plan below m₁ m'' := by
  obtain ⟨above, hstack, hinside⟩ := h.above
  cases above with
  | nil => simp [depth, hstack] at hdepth
  | cons f above =>
    obtain ⟨hstart, hstop⟩ := hinside f (by simp)
    have hr := (h.accounted.rearranged_of_step hstack hstep).mono hstart hstop
    refine ⟨h.inv.of_step hless hstep, h.accounted.of_step hstep, ?_, h.rearranged.trans hr⟩
    rcases turn_of_step hstep with ⟨rfl, -⟩ | ⟨f', others, v, t, -, hfirst, hread, hturn, -, rfl⟩
    · exact ⟨f :: above, hstack, hinside⟩
    · obtain ⟨rfl, rfl⟩ := List.cons.inj (hstack.symm.trans hfirst)
      have hregular := Phase.regular_of_turn hturn
      rw [readWindow?_eq] at hread
      rw [length_of_slice?_eq_ok hread] at hregular
      have hle := (slice?_eq_ok_iff.1 hread).1.1
      refine ⟨f.successors t.transition ++ above, (List.append_assoc _ _ _).symm, ?_⟩
      intro g' hg'
      rcases List.mem_append.1 hg' with hg' | hg'
      · have := hregular.within hle hg'
        omega
      · exact hinside g' (by simp [hg'])

/-- So does every move. -/
lemma of_moves {m'' : Machine α σ} (hless : StrictWeak less)
    (h : Suspended less data lo hi g plan below m₁ m') (hdepth : m'.depth ≠ below.length + 1)
    (hmove : Moves less m' m'') : Suspended less data lo hi g plan below m₁ m'' := by
  cases hmove with
  | step hstep => exact h.of_step hless hdepth hstep
  | exchange hsame => exact h.of_sameWork hsame

/-- So do all moves until there is no frame above it any more. -/
theorem of_movesUntil (hless : StrictWeak less)
    (h : Suspended less data lo hi g plan below m₁ m)
    (hmoves : MovesUntil less (below.length + 1) m m') :
    Suspended less data lo hi g plan below m₁ m' := by
  induction hmoves with
  | refl => exact h
  | tail _ hdepth hmove ih => exact ih.of_moves hless hdepth hmove

omit [IndexSource σ] in
/-- The call is kept, and when it returns, the sample is sorted. -/
lemma call (h : Suspended less data lo hi g plan below m₁ m')
    (hwaits : g.phase = .awaiting plan) : SampleCall less g plan below m₁ m' := by
  obtain ⟨above, hstack, -⟩ := h.above
  refine ⟨⟨above, hstack.symm⟩, fun p => h.rearranged.getElem?_eq, ?_⟩
  intro hdepth
  have hnone : above = [] := by
    rw [depth, hstack, List.length_append, List.length_cons] at hdepth
    exact List.length_eq_zero_iff.1 (by omega)
  rw [hnone, List.nil_append] at hstack
  have hstacked := h.inv.stacked
  rw [hstack] at hstacked
  exact ⟨hstack, h.rearranged.window_perm (Nat.le_add_right _ _) (Nat.le_refl _)
    (Nat.le_refl _), hstacked.sorted_sample hwaits⟩

end Suspended

/-- A step of a frame that is to be sampled draws a sample and puts its sort on top. -/
theorem Inv.exists_draw (h : m.Inv less data lo hi) (hpoisoned : m.poisoned = false)
    (hstack : m.stack = f :: others) (hphase : f.phase = .sampling) (memory : Memory) :
    ∃ plan event m₁, m.config.samplingPlan f.length = .ok plan ∧
      m.step less memory = .ok (.ok (some event), m₁) ∧
      m₁.stack = .fresh f.start (f.start + plan.samples) .sample ::
        { f with phase := .awaiting plan } :: others := by
  have hf : f ∈ m.stack := by simp [hstack]
  have htwo := h.holds f hf
  rw [hphase] at htwo
  obtain ⟨plan, hplan, hfits⟩ := Config.exists_samplingPlan h.valid htwo
  obtain ⟨w, source', hdraw, -⟩ := exists_drawSample hfits.samples_le_self m.source
  have hturn : f.phase.turn less m.config m.strategy memory m.source
      (window m.data.toList f.start f.stop) = .ok ⟨w, source', .descend plan⟩ := by
    rw [hphase, Phase.turn_of_reservation?_eq_none rfl]
    exact Phase.work_sampling_eq hplan hdraw
  rw [h.length_of_mem hf] at hplan
  exact ⟨plan, _, _, hplan, step_of_turn hpoisoned hstack (h.readWindow hf) hturn, rfl⟩

/-- Drawing a sample is a call of the sort, and the call returns properly. A step of a frame that is
to be sampled puts the sort of the sample on top of it. Until the stack has the depth that it had
before, the frame, which has taken its plan, and all below it stay as they are, and nothing changes
outside the sample. At the first time that it has that depth again, the frame is the first one, and
the sample that was drawn has been sorted. Calls from outside cannot do anything in
between but make moves.

**Proof sketch.** After the draw, the frames above the waiting one have their windows within the
sample. A move works on the first of them, so this is kept as long as there is one, and with it the
waiting frame and all that is outside of the sample. When there is none left, the stack is in order,
which means that the sample is sorted. -/
theorem Reachable.sampleCall (hless : StrictWeak less) {data : Array α}
    (h : Reachable less data lo hi m) (hpoisoned : m.poisoned = false)
    (hstack : m.stack = f :: others) (hphase : f.phase = .sampling) (memory : Memory) :
    ∃ plan event m₁, m.config.samplingPlan f.length = .ok plan ∧
      m.step less memory = .ok (.ok (some event), m₁) ∧
      m₁.stack = .fresh f.start (f.start + plan.samples) .sample ::
        { f with phase := .awaiting plan } :: others ∧
      (∀ m', MovesUntil less (others.length + 1) m₁ m' →
        SampleCall less { f with phase := .awaiting plan } plan others m₁ m') ∧
      ∀ events m', Reaches less m₁ events m' →
        ∃ m₂, MovesUntil less (others.length + 1) m₁ m₂ ∧
          (m₂ = m' ∨ m₂.depth = others.length + 1 ∧ ∃ events', Reaches less m₂ events' m') := by
  have hinv := h.inv hless
  obtain ⟨haccounted, -⟩ := h.accounted
  obtain ⟨plan, event, m₁, hplan, hstep, hdrawn⟩ :=
    hinv.exists_draw hpoisoned hstack hphase memory
  refine ⟨plan, event, m₁, hplan, hstep, hdrawn, ?_, fun events m' => Reaches.movesUntil _⟩
  intro m' hmoves
  have hsuspended : Suspended less data.toList lo hi { f with phase := .awaiting plan } plan
      others m₁ m₁ := by
    refine ⟨hinv.of_step hless hstep, haccounted.of_step hstep,
      ⟨[.fresh f.start (f.start + plan.samples) .sample], hdrawn, ?_⟩, .refl _ _ _⟩
    intro g hg
    obtain rfl := List.mem_singleton.1 hg
    exact ⟨Nat.le_refl _, Nat.le_refl _⟩
  exact (hsuspended.of_movesUntil hless hmoves).call rfl

/-- Eight numbers of which three are drawn. To sort these, a sample of one of them is drawn in
turn. -/
theorem Reachable.sampleCall_of_eight :
    ∃ m m₁ m' : Machine Nat WordCycle,
      Reachable (fun a b => decide (a < b)) #[5, 2, 7, 8, 6, 4, 3, 1] 0 8 m ∧
        m.stack = [⟨0, 8, .main, .sampling⟩] ∧
        (∃ event, m.step (fun a b => decide (a < b)) .available = .ok (.ok (some event), m₁)) ∧
        MovesUntil (fun a b => decide (a < b)) 1 m₁ m' ∧ m'.depth = 1 ∧
        m'.data = #[4, 6, 8, 5, 7, 2, 3, 1] ∧
        SampleCall (fun a b => decide (a < b)) ⟨0, 8, .main, .awaiting ⟨2, 4, 1, 3⟩⟩ ⟨2, 4, 1, 3⟩ []
          m₁ m' := by
  let less := fun a b : Nat => decide (a < b)
  let m₀ : Machine Nat WordCycle :=
    .ofArray (.ofList [0x60000000, 0xa0000000]) #[5, 2, 7, 8, 6, 4, 3, 1]
  let m₁ : Machine Nat WordCycle := { m₀ with config := ⟨1, 1, 2, 0⟩ }
  let m : Machine Nat WordCycle := { m₁ with stack := [⟨0, 8, .main, .sampling⟩], steps := 2 }
  have hconfig : m₀.withConfig? ⟨1, 1, 2, 0⟩ = .ok m₁ := rfl
  have hm : (m₁.runFor less 2).map Run.machine = .ok m := by decide +kernel
  have hreturn : ((m.step less .available).bind fun s =>
      s.2.runUntil less (fun event _ => event) (fun m => m.depth == 1) 9).map
        (fun r => (r.machine.depth, r.machine.data)) = .ok (1, #[4, 6, 8, 5, 7, 2, 3, 1]) := by
    decide +kernel
  obtain ⟨_, hreachable, rfl⟩ := Started.exists_reachable (.whole _) hconfig id hm
  obtain ⟨plan, event, m₂, hplan, hstep, -, hcall, -⟩ :=
    Reachable.sampleCall .natural hreachable rfl rfl rfl .available
  have hexpected : m.config.samplingPlan 8 = .ok ⟨2, 4, 1, 3⟩ := by decide +kernel
  obtain rfl := Except.ok.inj (hexpected.symm.trans hplan)
  obtain ⟨r, hrun, hobserved⟩ := exists_run_of_map hreturn
  obtain ⟨hdepth, hdata⟩ := Prod.mk.inj hobserved
  have hrun' : m₂.runUntil less (fun event _ => event) (fun m => m.depth == 1) 9 = .ok r := by
    have hbind := hrun
    rw [show m.step less .available = _ from hstep] at hbind
    exact hbind
  have hmoves : MovesUntil less 1 m₂ r.machine := .of_runFrom .refl hrun'
  exact ⟨m, m₂, r.machine, hreachable, rfl, ⟨event, hstep⟩, hmoves, hdepth, hdata,
    hcall r.machine hmoves⟩

end Machine

end SampleSort
