import SampleSort.Proofs.Fields
import SampleSort.Proofs.Nesting
import SampleSort.Proofs.Transition

set_option relaxedAutoImplicit false
set_option autoImplicit false

/-!
# The discipline of the stack

Of two neighbouring frames on the stack, the upper one stands in the sample that the lower one waits
for, or both are buckets of one window and the lower one has not been begun. Samples are sorted by
frames of their own, and only long windows are kept pending or sampled, as long as the configuration
stays the same.

## Main definitions

* `SampleSort.Frame.Beside` — how buckets of one window stand to each other.
* `SampleSort.Frame.IsSampleOf` — a frame covers the sample that another one waits for.
* `SampleSort.Disciplined` — the discipline.
* `SampleSort.OnlyLong` — short windows are not kept.
* `SampleSort.Machine.ReachableWith` — what calls that keep a configuration can lead to.

## Main results

* `SampleSort.Awaits.isChain` — how neighbours stand to each other.
* `SampleSort.Awaits.sample_of_append` — how a sample stands to the frames below and above it.
* `SampleSort.Machine.onlyLong_of_step` — a step leaves short windows only at the beginning.
* `SampleSort.Machine.ReachableWith.disciplined` — every reachable stack is disciplined.
-/

namespace SampleSort

variable {α σ : Type} {less : α → α → Bool} {v : List α} {lo hi lo' hi' t : Nat} {role : Role}
  {f g : Frame α} {frames below stack top : List (Frame α)}

namespace Frame

/-- The upper one of two buckets of a window stands to the left of the lower one, about which
nothing is known yet. -/
structure Beside (upper lower : Frame α) : Prop where
  /-- Neither is a sample. -/
  roles : upper.role = .main ∧ lower.role = .main
  /-- The lower one has not been begun. -/
  stage : lower.stage = .simpleCases
  /-- It has no plan. -/
  plan : lower.phase.plan? = none
  /-- Its other fields are empty. -/
  blank : lower.Blank
  /-- The windows stand one after the other. -/
  stop_le : upper.stop ≤ lower.start

/-- The frame covers exactly the sample that another one waits for. -/
def IsSampleOf (f g : Frame α) : Prop :=
  ∃ plan, g.phase = .awaiting plan ∧ f.start = g.start ∧ f.stop = g.start + plan.samples

/-- Until splitters are chosen, all fields but the plan are empty. -/
lemma blank_of_order_le (h : f.phase.order ≤ 3) : f.Blank := by
  obtain ⟨start, stop, role, phase⟩ := f
  cases phase with
  | simpleCases => exact ⟨rfl, rfl, rfl, rfl⟩
  | baseCase => exact ⟨rfl, rfl, rfl, rfl⟩
  | sampling => exact ⟨rfl, rfl, rfl, rfl⟩
  | awaiting plan => exact ⟨rfl, rfl, rfl, rfl⟩
  | classification => simp [Phase.order] at h
  | partitioning => simp [Phase.order] at h
  | recursion => simp [Phase.order] at h

/-- A main frame stands beside a main frame to the right of it that has not been begun. -/
lemma beside_of_untouched (hf : f.role = .main) (hg : g.role = .main)
    (huntouched : g.phase = .simpleCases) (hle : f.stop ≤ g.start) : f.Beside g where
  roles := ⟨hf, hg⟩
  stage := by rw [stage, huntouched]; rfl
  plan := by rw [huntouched]; rfl
  blank := blank_of_order_le (by rw [huntouched]; exact Nat.zero_le 3)
  stop_le := hle

/-- A frame that waits for a sample has been begun. -/
lemma Serves.not_beside (h : f.Serves g) : ¬f.Beside g := by
  obtain ⟨plan, hwaits, -⟩ := h
  intro hbeside
  have hstage := hbeside.stage
  rw [stage, hwaits] at hstage
  cases hstage

end Frame

/-- The discipline of the stack of a sort of the positions from `lo` to `hi`, the next frame to be
worked on first, in which windows that are longer than `threshold` are not sorted directly. -/
structure Disciplined (lo hi threshold : Nat) (stack : List (Frame α)) : Prop where
  /-- Windows lie inside the positions that are sorted. -/
  within : ∀ f ∈ stack, lo ≤ f.start ∧ f.start ≤ f.stop ∧ f.stop ≤ hi
  /-- The upper one of two neighbours stands in the sample that the lower one waits for or beside
  it, and not both. -/
  adjacent : stack.IsChain fun upper lower => Xor (upper.Serves lower) (upper.Beside lower)
  /-- Any two windows have no position in common, unless the upper one stands in the sample that
  the lower one waits for. -/
  apart : stack.Pairwise fun upper lower => upper.stop ≤ lower.start ∨ upper.Serves lower
  /-- A sample frame is directly above the frame that waits for it, and everything above it stands
  in its own sample. -/
  sample : ∀ above f below, stack = above ++ f :: below → f.role = .sample →
    (∃ g ∈ below.head?, f.IsSampleOf g) ∧ ∀ g ∈ above, g.Serves f
  /-- A window that is sorted for itself is long, unless it is the one that the sort began with,
  and that has not been sampled yet. -/
  main_long : ∀ f ∈ stack, f.role = .main →
    threshold < f.length ∨ stack = [f] ∧ f.start = lo ∧ f.stop = hi ∧ f.phase.order ≤ 1
  /-- A window that waits for a sample is long. -/
  waiting_long : ∀ f ∈ stack, ∀ plan, f.phase = .awaiting plan → threshold < f.length
  /-- Only the first frame can have splitters, labels or bucket bounds. -/
  blank : ∀ f ∈ stack.tail, f.Blank
  /-- No frame is done. -/
  pending : ∀ f ∈ stack, f.stage ≠ .done

/-! ### Neighbours -/

/-- An element of two lists, one after the other, is one of the first or one of the second. -/
lemma append_cons_cases {β : Type} {u w above others : List β} {x : β}
    (h : u ++ w = above ++ x :: others) :
    (∃ front, u = above ++ x :: front ∧ others = front ++ w) ∨
      ∃ front, above = u ++ front ∧ w = front ++ x :: others := by
  rcases List.append_eq_append_iff.1 h with ⟨front, habove, hw⟩ | ⟨front, hu, hothers⟩
  · exact Or.inr ⟨front, habove, hw⟩
  · cases front with
    | nil => exact Or.inr ⟨[], by simpa using hu.symm, by simpa using hothers.symm⟩
    | cons y front =>
      obtain ⟨rfl, rfl⟩ := List.cons.inj hothers
      exact Or.inl ⟨front, hu, rfl⟩

/-- Any two frames of a layer are beside each other. -/
lemma Layer.pairwise_beside (h : Layer less v lo hi role frames) :
    frames.Pairwise Frame.Beside := by
  rcases h.roles with hmain | ⟨-, phase, rfl⟩
  · have hle := h.sortedBut.pairwise
    cases frames with
    | nil => exact .nil
    | cons first rest =>
      obtain ⟨hfirst, hrest⟩ := List.pairwise_cons.1 hle
      refine List.pairwise_cons.2 ⟨?_, hrest.imp_of_mem ?_⟩
      · intro g hg
        exact Frame.beside_of_untouched (hmain first (by simp)) (hmain g (by simp [hg]))
          (h.untouched g hg) (hfirst g hg).stop_le
      · intro f g hf hg hfg
        exact Frame.beside_of_untouched (hmain f (by simp [hf])) (hmain g (by simp [hg]))
          (h.untouched g hg) hfg.stop_le
  · exact List.pairwise_singleton _ _

namespace Awaits

/-- Neighbours in a layer are beside each other, and what is directly above a waiting frame stands
in its sample. -/
lemma isChain (h : Awaits less v lo hi lo' hi' role below)
    (hlayer : Layer less v lo' hi' role top) :
    (top ++ below).IsChain fun upper lower => upper.Serves lower ∨ upper.Beside lower := by
  induction h generalizing top with
  | bottom =>
    rw [List.append_nil]
    exact (hlayer.pairwise_beside.imp Or.inr).isChain
  | @sample f rest below lo' hi' role plan waits within layer awaits ih =>
    refine List.isChain_append.2 ⟨(hlayer.pairwise_beside.imp Or.inr).isChain, ih layer, ?_⟩
    intro upper hupper lower hlower
    obtain rfl : f = lower := by simpa using hlower
    obtain ⟨hstart, -, hstop⟩ := hlayer.bounds (List.mem_of_getLast? hupper)
    exact Or.inl ⟨plan, waits, hstart, hstop, within⟩

/-- Everything above a sample frame stands in its sample, since a sample has no other frame beside
it. -/
lemma serves_sample (h : Awaits less v lo hi lo' hi' role below) (hf : f ∈ below)
    (hrole : f.role = .sample) (hlo : lo' ≤ g.start) (hhi : g.stop ≤ hi') : g.Serves f := by
  induction h with
  | bottom => cases hf
  | @sample first rest below lo' hi' role plan waits within layer awaits ih =>
    rcases List.mem_append.1 hf with hf | hf
    · rcases layer.roles with hmain | ⟨-, phase, hself⟩
      · have hmain := hmain f hf
        rw [hrole] at hmain
        cases hmain
      · obtain ⟨-, rfl⟩ := List.cons.inj hself
        obtain rfl := List.mem_singleton.1 hf
        exact ⟨plan, waits, hlo, hhi, within⟩
    · obtain ⟨hstart, -, hstop⟩ := layer.bounds (List.mem_cons_self : first ∈ first :: rest)
      exact ih hf (by omega) (by omega)

/-- A sample frame is directly above the frame that waits for it, and everything above it stands in
its own sample.

**Proof sketch.** Induction along the layers. A sample frame is the only one of its layer, so that
the frames above it are those of higher layers, and the frame below it is the one that its layer is
sorted for. -/
lemma sample_of_append (h : Awaits less v lo hi lo' hi' role below)
    (hlayer : Layer less v lo' hi' role top) {above others : List (Frame α)}
    (hstack : top ++ below = above ++ f :: others) (hrole : f.role = .sample) :
    (∃ g ∈ others.head?, f.IsSampleOf g) ∧ ∀ g ∈ above, g.Serves f := by
  induction h generalizing top above with
  | bottom =>
    have hf : f ∈ top := by
      rw [← List.append_nil top, hstack]
      simp
    rcases hlayer.roles with hmain | ⟨hrole', -⟩
    · rw [hmain f hf] at hrole
      cases hrole
    · cases hrole'
  | @sample first rest below lo' hi' role plan waits within layer awaits ih =>
    rcases append_cons_cases hstack with ⟨front, rfl, hothers⟩ | ⟨front, rfl, hbelow⟩
    · -- the frame is the layer on top
      rcases hlayer.roles with hmain | ⟨-, phase, hself⟩
      · rw [hmain f (by simp)] at hrole
        cases hrole
      · obtain ⟨rfl, hf⟩ := List.append_eq_singleton_iff.1 hself |>.resolve_right (by simp)
        obtain ⟨rfl, rfl⟩ := List.cons.inj hf
        subst hothers
        exact ⟨⟨first, rfl, plan, waits, rfl, rfl⟩, by simp⟩
    · -- the frame is in a lower layer
      obtain ⟨hsample, hfront⟩ := ih layer hbelow
      refine ⟨hsample, ?_⟩
      intro g hg
      rcases List.mem_append.1 hg with hg | hg
      · obtain ⟨hstart, -, hstop⟩ := hlayer.bounds hg
        exact (Awaits.sample waits within layer awaits).serves_sample (by simp [hbelow]) hrole
          hstart hstop
      · exact hfront g hg

end Awaits

/-! ### Short windows -/

/-- Windows that are no longer than `threshold` are only there at the beginning, when the stack
still has one frame for all positions. Samples may be short until they have been found not to be. -/
def OnlyLong (lo hi threshold : Nat) (stack : List (Frame α)) : Prop :=
  (∃ phase, stack = [⟨lo, hi, .main, phase⟩] ∧ phase.order ≤ 1) ∨
    ∀ f ∈ stack, f.role = .main ∨ 2 ≤ f.phase.order → threshold < f.length

/-- If all frames that need to be long are long, then those that come of the first one after a turn
are as well.

**Proof sketch.** A frame needs to be long from the third phase on, or if it is not one of a sample.
The step into the third phase makes sure of it, a later phase and a refusal keep the window, and the
windows of a split are longer than the threshold. The frame of a sample needs nothing yet. -/
lemma Transition.Regular.long_of_mem {config : Config} {memory : Memory}
    {transition : Transition α}
    (h : transition.Regular config memory f.phase f.length) (ht : t ≤ config.threshold)
    (hf : f.role = .main ∨ 2 ≤ f.phase.order → t < f.length)
    (hg : g ∈ f.successors transition) (hneeds : g.role = .main ∨ 2 ≤ g.phase.order) :
    t < g.length := by
  cases h with
  | @advance phase' horder _ hlong =>
    obtain rfl := List.mem_singleton.1 hg
    rcases hneeds with hmain | hsampled
    · exact hf (Or.inl hmain)
    · by_cases hnow : phase'.order = 2
      · exact Nat.lt_of_le_of_lt ht (hlong hnow)
      · refine hf (Or.inr ?_)
        replace hsampled : 2 ≤ phase'.order := hsampled
        omega
  | resolve => cases hg
  | descend hsampling _ =>
    rcases List.mem_cons.1 hg with rfl | hg
    · rcases hneeds with hmain | hsampled
      · cases hmain
      · simp [Frame.fresh, Phase.order] at hsampled
    · obtain rfl := List.mem_singleton.1 hg
      refine hf (Or.inr ?_)
      rw [hsampling]
      exact Nat.le_refl 2
  | split _ hwithin =>
    obtain ⟨w, hw, rfl⟩ := List.mem_map.1 hg
    have := hwithin w hw
    simp only [Frame.fresh, Frame.length]
    omega
  | refuse _ _ =>
    obtain rfl := List.mem_singleton.1 hg
    exact hf hneeds

/-- A turn leaves short windows only at the beginning.

**Proof sketch.** At the beginning there is a single frame in one of the first two phases; when it
goes on to the third, its window has been found to be long. Later on
`Transition.Regular.long_of_mem` applies to what comes of the first frame. -/
lemma OnlyLong.successors {config : Config} {memory : Memory} {others : List (Frame α)}
    {transition : Transition α} (h : OnlyLong lo hi t (f :: others))
    (hregular : transition.Regular config memory f.phase f.length) (ht : t ≤ config.threshold) :
    OnlyLong lo hi t (f.successors transition ++ others) := by
  rcases h with ⟨phase, hstack, horder⟩ | hlong
  · obtain ⟨rfl, rfl⟩ := List.cons.inj hstack
    rw [List.append_nil]
    cases hregular with
    | @advance phase' horder' _ hlong' =>
      by_cases hsampled : phase'.order ≤ 1
      · exact Or.inl ⟨phase', rfl, hsampled⟩
      · right
        intro g hg _
        obtain rfl := List.mem_singleton.1 hg
        exact Nat.lt_of_le_of_lt ht (hlong' (by simp only at horder'; omega))
    | resolve => exact Or.inr (by simp [Frame.successors])
    | descend hsampling _ =>
      simp only at hsampling
      rw [hsampling] at horder
      simp [Phase.order] at horder
    | split hlast _ =>
      simp only at hlast
      omega
    | refuse _ _ => exact Or.inl ⟨phase, rfl, horder⟩
  · right
    intro g hg hneeds
    rcases List.mem_append.1 hg with hg | hg
    · exact hregular.long_of_mem ht (hlong f (by simp)) hg hneeds
    · exact hlong g (by simp [hg]) hneeds

namespace Machine

variable {m m' : Machine α σ} {memory : Memory} {result : Except SortError (Option Event)}
  {events : List Event} {config : Config}

section Calls

variable [IndexSource σ]

/-- Any number of calls that keep the configuration lead from one machine to another, with these
events. -/
inductive ReachesAlike (less : α → α → Bool) (m : Machine α σ) :
    List Event → Machine α σ → Prop where
  /-- No call. -/
  | refl : ReachesAlike less m [] m
  /-- One more call. -/
  | tail {events events' : List Event} {m' m'' : Machine α σ}
      (h : ReachesAlike less m events m') (h' : Follows less m' events' m'')
      (same : m''.config = m'.config) : ReachesAlike less m (events ++ events') m''

/-- The machine comes of one that was set up to sort the positions from `lo` to `hi` of `data` with
this configuration, and has kept it since. -/
def ReachableWith (less : α → α → Bool) (data : Array α) (lo hi : Nat) (config : Config)
    (m : Machine α σ) : Prop :=
  ∃ m₀ m₁ events, Started data lo hi m₀ ∧ m₀.withConfig? config = .ok m₁ ∧
    ReachesAlike less m₁ events m

/-- Calls that keep the configuration, after others, are calls. -/
lemma ReachesAlike.reaches {m₀ : Machine α σ} {before : List Event}
    (h : ReachesAlike less m events m') (hbefore : Reaches less m₀ before m) :
    Reaches less m₀ (before ++ events) m' := by
  induction h with
  | refl =>
    rw [List.append_nil]
    exact hbefore
  | tail _ hfollows _ ih =>
    rw [← List.append_assoc]
    exact ih.tail hfollows

/-- What calls that keep a configuration lead to is reachable. -/
lemma ReachableWith.reachable {data : Array α} (h : ReachableWith less data lo hi config m) :
    Reachable less data lo hi m := by
  obtain ⟨m₀, m₁, events, hstarted, hconfig, hreaches⟩ := h
  exact ⟨m₀, _, hstarted, hreaches.reaches (Reaches.refl.tail (.withConfig hconfig))⟩

end Calls

variable [IndexSource σ]

/-- A step leaves short windows only at the beginning. -/
theorem onlyLong_of_step (h : OnlyLong lo hi t m.stack) (ht : t ≤ m.config.threshold)
    (hstep : m.step less memory = .ok (result, m')) :
    OnlyLong lo hi t m'.stack ∧ m'.config = m.config := by
  rcases turn_of_step hstep with ⟨rfl, _⟩ | ⟨f, others, v, t, _, hstack, hread, hturn, _, rfl⟩
  · exact ⟨h, rfl⟩
  · rw [hstack] at h
    have hregular := Phase.regular_of_turn hturn
    rw [readWindow?_eq] at hread
    rw [length_of_slice?_eq_ok hread] at hregular
    exact ⟨h.successors hregular ht, rfl⟩

/-- So do calls that keep the configuration. -/
lemma ReachesAlike.onlyLong (hreaches : ReachesAlike less m events m')
    (h : OnlyLong lo hi m.config.threshold m.stack) :
    OnlyLong lo hi m.config.threshold m'.stack ∧ m'.config = m.config := by
  induction hreaches with
  | refl => exact ⟨h, rfl⟩
  | @tail events events' m' m'' _ hfollows hsame ih =>
    obtain ⟨hlong, hconfig⟩ := ih
    rcases hfollows.cases_work with hsteps | ⟨-, hwork⟩
    · refine hsteps.keeps
        (P := fun m'' => OnlyLong lo hi m.config.threshold m''.stack ∧ m''.config = m.config)
        ?_ ⟨hlong, hconfig⟩
      rintro m₁ m₂ memory result ⟨hlong₁, hconfig₁⟩ hstep
      obtain ⟨hlong₂, hconfig₂⟩ := onlyLong_of_step hlong₁ (Nat.le_of_eq (by rw [hconfig₁])) hstep
      exact ⟨hlong₂, hconfig₂.trans hconfig₁⟩
    · rw [hwork.stack]
      exact ⟨hlong, hsame.trans hconfig⟩

/-- As long as a machine keeps its configuration, it leaves short windows only at the beginning. -/
theorem ReachableWith.onlyLong {data : Array α} (h : ReachableWith less data lo hi config m) :
    OnlyLong lo hi config.threshold m.stack := by
  obtain ⟨m₀, m₁, events, hstarted, hconfig, hreaches⟩ := h
  obtain ⟨-, -, source, rfl⟩ := hstarted.exists_eq_initial
  obtain ⟨-, rfl⟩ := withConfig?_eq_ok_iff.1 hconfig
  exact (hreaches.onlyLong (Or.inl ⟨.simpleCases, rfl, Nat.zero_le 1⟩)).1

/-- The stack of every machine that has kept its configuration is disciplined.

**Proof sketch.** All but the lengths comes from the invariant that the stack is made of layers:
neighbours are in one layer, or the upper one is at the end of a layer and serves the lower one. The
lengths come from `OnlyLong`, of which the first alternative is the beginning, when there is a
single frame. -/
theorem ReachableWith.disciplined (hless : StrictWeak less) {data : Array α}
    (h : ReachableWith less data lo hi config m) :
    Disciplined lo hi config.threshold m.stack := by
  have hstacked := (h.reachable.inv hless).stacked
  have hlong := h.onlyLong
  refine ⟨fun f hf => hstacked.bounds hf, ?_, ?_, ?_, ?_, ?_, ?_, fun f _ => f.stage_ne_done⟩
  · obtain ⟨lo', hi', role, top, below, hstack, hlayer, -, hawaits⟩ := hstacked
    rw [hstack]
    refine (hawaits.isChain hlayer).imp ?_
    intro upper lower hneighbours
    rcases hneighbours with hserves | hbeside
    · exact Or.inl ⟨hserves, hserves.not_beside⟩
    · exact Or.inr ⟨hbeside, fun hserves => hserves.not_beside hbeside⟩
  · exact hstacked.pairwise.imp fun habove => habove.imp Frame.Precedes.stop_le id
  · obtain ⟨lo', hi', role, top, below, hstack, hlayer, -, hawaits⟩ := hstacked
    rw [hstack]
    intro above f below hsplit hrole
    exact hawaits.sample_of_append hlayer hsplit hrole
  · intro f hf hrole
    rcases hlong with ⟨phase, hstack, horder⟩ | hlong
    · rw [hstack] at hf ⊢
      obtain rfl := List.mem_singleton.1 hf
      exact Or.inr ⟨rfl, rfl, rfl, horder⟩
    · exact Or.inl (hlong f hf (Or.inl hrole))
  · intro f hf plan hwaits
    rcases hlong with ⟨phase, hstack, horder⟩ | hlong
    · rw [hstack] at hf
      obtain rfl := List.mem_singleton.1 hf
      simp only at hwaits
      simp [hwaits, Phase.order] at horder
    · exact hlong f hf (Or.inr (by rw [hwaits]; simp [Phase.order]))
  · intro g hg
    rcases hstack : m.stack with _ | ⟨f, others⟩
    · simp [hstack] at hg
    · rw [hstack] at hg hstacked
      exact Frame.blank_of_order_le (hstacked.order_le hg)

/-- Eight numbers after nineteen steps: of three buckets, the first one waits for its sample. -/
theorem ReachableWith.disciplined_of_eight :
    ∃ m : Machine Nat WordCycle,
      ReachableWith (fun a b => decide (a < b)) #[5, 2, 7, 8, 6, 4, 3, 1] 0 8 ⟨1, 1, 2, 0⟩ m ∧
        m.stack.map (fun f => (f.role, f.bounds)) =
          [(.sample, (0, 1)), (.main, (0, 3)), (.main, (3, 5)), (.main, (5, 7))] ∧
        Disciplined 0 8 1 m.stack := by
  let less := fun a b : Nat => decide (a < b)
  let m₀ : Machine Nat WordCycle :=
    .ofArray (.ofList [0x60000000, 0xa0000000]) #[5, 2, 7, 8, 6, 4, 3, 1]
  let m₁ : Machine Nat WordCycle := { m₀ with config := ⟨1, 1, 2, 0⟩ }
  have hconfig : m₀.withConfig? ⟨1, 1, 2, 0⟩ = .ok m₁ := rfl
  have hframes : (m₁.runFor less 19).map (fun r => (r.machine.config,
      r.machine.stack.map fun f => (f.role, f.bounds))) =
        .ok (⟨1, 1, 2, 0⟩,
          [(.sample, (0, 1)), (.main, (0, 3)), (.main, (3, 5)), (.main, (5, 7))]) := by
    decide +kernel
  obtain ⟨r, hrun, hobserved⟩ := exists_run_of_map hframes
  obtain ⟨hsame, hstack⟩ := Prod.mk.inj hobserved
  have hreachable : ReachableWith less #[5, 2, 7, 8, 6, 4, 3, 1] 0 8 ⟨1, 1, 2, 0⟩ r.machine :=
    ⟨m₀, m₁, _, .whole _, hconfig, ReachesAlike.refl.tail (.runFor hrun) hsame⟩
  exact ⟨r.machine, hreachable, hstack, ReachableWith.disciplined .natural hreachable⟩

end Machine

end SampleSort
