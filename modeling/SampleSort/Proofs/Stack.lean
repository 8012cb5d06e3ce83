import SampleSort.Machine.Step
import SampleSort.Proofs.Turn

set_option relaxedAutoImplicit false
set_option autoImplicit false

/-!
# The stack of pending work

Frames on the stack form layers. The frames of a layer are what is pending of a stretch of the
sequence, from the left to the right, and only the first of them has been begun. When that one waits
for its sample, the layer above sorts the sample, which is the front part of its window. So a
rearrangement by a layer stays inside the window of the waiting frame below, and the lower layers do
not notice.

## Main definitions

* `SampleSort.Layer` — what is pending of a stretch of the sequence.
* `SampleSort.Awaits` — the frames below a layer.
* `SampleSort.Stacked` — a stack of layers.

## Main results

* `SampleSort.Stacked.successors` — a sound turn on the first frame leaves a stack of layers.
* `SampleSort.Stacked.sorted_of_nil` — when nothing is pending, all is sorted.
* `SampleSort.Stacked.sorted_sample` — when a waiting frame is the first one again, its sample is
  sorted.
* `SampleSort.Stacked.bounds`, `SampleSort.Stacked.order_le` — frames keep inside the stretch, and
  those that are not first know nothing but the length of their windows.
-/

namespace SampleSort

variable {α σ : Type} {less : α → α → Bool} {v w : List α} {lo hi lo' hi' : Nat} {role : Role}
  {f : Frame α} {frames rest below others stack : List (Frame α)}

/-- The bounds of a frame's window. -/
def Frame.bounds (f : Frame α) : Nat × Nat :=
  (f.start, f.stop)

/-- The frames are what is pending of the positions from `lo` to `hi`, which are sorted for
`role`. -/
structure Layer (less : α → α → Bool) (v : List α) (lo hi : Nat) (role : Role)
    (frames : List (Frame α)) : Prop where
  /-- The positions are in order except inside the frames' windows. -/
  sortedBut : SortedBut less v lo hi (frames.map Frame.bounds)
  /-- Nothing is known about any but the first frame. -/
  untouched : ∀ f ∈ frames.tail, f.phase = .simpleCases
  /-- A sample is sorted by a frame of its own, or by those that have come of it. -/
  roles : (∀ f ∈ frames, f.role = .main) ∨
    role = .sample ∧ ∃ phase, frames = [⟨lo, hi, .sample, phase⟩]

/-- The frames below a layer that sorts the positions from `lo'` to `hi'` for `role`, in a sort of
the positions from `lo` to `hi`. -/
inductive Awaits (less : α → α → Bool) (v : List α) (lo hi : Nat) :
    (lo' hi' : Nat) → Role → List (Frame α) → Prop where
  /-- The lowest layer sorts all positions. -/
  | bottom : Awaits less v lo hi lo hi .main []
  /-- A layer above another one sorts the sample that the first frame of that one waits for. -/
  | sample {f : Frame α} {rest below : List (Frame α)} {lo' hi' : Nat} {role : Role}
      {plan : SamplingPlan} (waits : f.phase = .awaiting plan)
      (within : f.start + plan.samples ≤ f.stop) (layer : Layer less v lo' hi' role (f :: rest))
      (awaits : Awaits less v lo hi lo' hi' role below) :
      Awaits less v lo hi f.start (f.start + plan.samples) .sample (f :: rest ++ below)

/-- The frames form layers, of which the topmost does not wait for anything. -/
def Stacked (less : α → α → Bool) (v : List α) (lo hi : Nat) (stack : List (Frame α)) : Prop :=
  ∃ lo' hi' role top below, stack = top ++ below ∧ Layer less v lo' hi' role top ∧
    (∀ f ∈ top.head?, f.phase.order ≠ 3) ∧ Awaits less v lo hi lo' hi' role below

/-! ### One layer -/

namespace Layer

/-- Every frame keeps inside the positions of its layer. -/
lemma bounds (h : Layer less v lo hi role frames) (hf : f ∈ frames) :
    lo ≤ f.start ∧ f.start ≤ f.stop ∧ f.stop ≤ hi :=
  h.sortedBut.ascending.bounds (List.mem_map_of_mem hf)

/-- The first frame gives way to others, which take over its window in such an order as they leave
it.

**Proof sketch.** The new windows refine the one of the first frame. The frames of a layer are
ordinary ones or a single frame of a sample, and this can be told of the new ones as well. -/
lemma replace (frames : List (Frame α)) (h : Layer less v lo hi role (f :: rest))
    (hr : Rearranged f.start f.stop v w)
    (hin : SortedBut less w f.start f.stop (frames.map Frame.bounds))
    (huntouched : ∀ g ∈ frames.tail, g.phase = .simpleCases)
    (hroles : (∀ g ∈ frames, g.role = .main) ∨ ∃ phase, frames = [{ f with phase }]) :
    Layer less w lo hi role (frames ++ rest) := by
  refine ⟨?_, ?_, ?_⟩
  · rw [List.map_append]
    exact h.sortedBut.refine hr hin
  · intro g hg
    cases frames with
    | nil => exact h.untouched g (List.mem_of_mem_tail hg)
    | cons first frames =>
      rcases List.mem_append.1 hg with hg | hg
      · exact huntouched g hg
      · exact h.untouched g hg
  · rcases h.roles with hmain | ⟨hsample, phase, hself⟩
    · left
      intro g hg
      rcases List.mem_append.1 hg with hg | hg
      · rcases hroles with hall | ⟨phase, rfl⟩
        · exact hall g hg
        · obtain rfl := List.mem_singleton.1 hg
          exact hmain f (by simp)
      · exact hmain g (by simp [hg])
    · obtain ⟨rfl, rfl⟩ := List.cons.inj hself
      rcases hroles with hall | ⟨phase', rfl⟩
      · left
        rw [List.append_nil]
        exact hall
      · exact Or.inr ⟨hsample, phase', rfl⟩

/-- The first frame's window is rearranged, and the frame goes on to another phase. -/
lemma rearrange (h : Layer less v lo hi role (f :: rest)) (hr : Rearranged f.start f.stop v w)
    (phase : Phase α) : Layer less w lo hi role ({ f with phase } :: rest) := by
  have hle := (h.bounds (List.mem_cons_self : f ∈ f :: rest)).2.1
  exact h.replace [{ f with phase }] hr (SortedBut.whole less w hle) (by simp)
    (Or.inr ⟨phase, rfl⟩)

end Layer

/-! ### The layers below -/

namespace Awaits

/-- A layer sorts positions of the sort it belongs to. -/
lemma bounds (h : Awaits less v lo hi lo' hi' role below) (hle : lo' ≤ hi') :
    lo ≤ lo' ∧ hi' ≤ hi := by
  induction h with
  | bottom => exact ⟨Nat.le_refl _, Nat.le_refl _⟩
  | sample _ within layer _ ih =>
    obtain ⟨h₁, h₂, h₃⟩ := layer.bounds List.mem_cons_self
    obtain ⟨h₄, h₅⟩ := ih (by omega)
    exact ⟨by omega, by omega⟩

/-- The frames below a layer keep inside the positions of the sort. -/
lemma bounds_of_mem (h : Awaits less v lo hi lo' hi' role below) (hf : f ∈ below) :
    lo ≤ f.start ∧ f.start ≤ f.stop ∧ f.stop ≤ hi := by
  induction h with
  | bottom => cases hf
  | sample _ _ layer awaits ih =>
    rcases List.mem_append.1 hf with hf | hf
    · obtain ⟨h₁, h₂, h₃⟩ := layer.bounds hf
      obtain ⟨h₄, h₅⟩ := awaits.bounds layer.sortedBut.ascending.le
      exact ⟨by omega, h₂, by omega⟩
    · exact ih hf

/-- The frames below a layer have not chosen their splitters. -/
lemma order_le (h : Awaits less v lo hi lo' hi' role below) (hf : f ∈ below) :
    f.phase.order ≤ 3 := by
  induction h with
  | bottom => cases hf
  | sample waits _ layer _ ih =>
    rcases List.mem_append.1 hf with hf | hf
    · rcases List.mem_cons.1 hf with rfl | hf
      · rw [waits]
        exact Nat.le_refl 3
      · rw [layer.untouched _ hf]
        exact Nat.zero_le 3
    · exact ih hf

/-- The layers below do not notice what a layer rearranges. -/
lemma rearrange (h : Awaits less v lo hi lo' hi' role below) (hr : Rearranged lo' hi' v w) :
    Awaits less w lo hi lo' hi' role below := by
  induction h with
  | bottom => exact .bottom
  | @sample f rest below lo' hi' role plan waits within layer awaits ih =>
    have hr := hr.mono (Nat.le_refl f.start) within
    obtain ⟨h₁, _, h₃⟩ := layer.bounds (List.mem_cons_self : f ∈ f :: rest)
    exact .sample waits within (layer.rearrange hr f.phase) (ih (hr.mono h₁ h₃))

end Awaits

/-! ### All layers -/

namespace Stacked

/-- The first frame of a stack is the first frame of a layer, whether that has just been completed
above it or not. -/
lemma exists_layer (h : Stacked less v lo hi (f :: others)) :
    ∃ lo' hi' role rest below, others = rest ++ below ∧
      Layer less v lo' hi' role (f :: rest) ∧ Awaits less v lo hi lo' hi' role below := by
  obtain ⟨lo', hi', role, top, below, hstack, hlayer, -, hawaits⟩ := h
  cases top with
  | cons g rest =>
    obtain ⟨rfl, rfl⟩ := List.cons.inj hstack
    exact ⟨lo', hi', role, rest, below, rfl, hlayer, hawaits⟩
  | nil =>
    cases hawaits with
    | bottom => cases hstack
    | sample waits within layer awaits =>
      obtain ⟨rfl, rfl⟩ := List.cons.inj hstack
      exact ⟨_, _, _, _, _, rfl, layer, awaits⟩

/-- A sort that has not begun has one frame. -/
lemma initial (less : α → α → Bool) (v : List α) (h : lo ≤ hi) :
    Stacked less v lo hi [.fresh lo hi .main] :=
  ⟨lo, hi, .main, [.fresh lo hi .main], [], rfl,
    ⟨SortedBut.whole less v h, by simp, Or.inl (by simp [Frame.fresh])⟩,
    by simp [Frame.fresh, Phase.order], .bottom⟩

/-- When nothing is pending, all is sorted. -/
lemma sorted_of_nil (h : Stacked less v lo hi []) : Sorted less (window v lo hi) := by
  obtain ⟨lo', hi', role, top, below, hstack, hlayer, -, hawaits⟩ := h
  obtain ⟨rfl, rfl⟩ := List.append_eq_nil_iff.1 hstack.symm
  cases hawaits with
  | bottom => exact hlayer.sortedBut.sorted

/-- When a frame that waits for its sample is the first one again, the sample is sorted.

**Proof sketch.** The topmost layer does not begin with a waiting frame, so it has none, and the
waiting frame is the first one of the layer below. It waits for what the topmost layer was to
sort. -/
lemma sorted_sample {plan : SamplingPlan} (h : Stacked less v lo hi (f :: others))
    (hwaits : f.phase = .awaiting plan) :
    Sorted less (window v f.start (f.start + plan.samples)) := by
  obtain ⟨lo', hi', role, top, below, hstack, hlayer, hready, hawaits⟩ := h
  cases top with
  | cons g rest =>
    obtain ⟨rfl, rfl⟩ := List.cons.inj hstack
    have horder := hready f (by simp)
    simp [hwaits, Phase.order] at horder
  | nil =>
    cases hawaits with
    | bottom => cases hstack
    | sample waits within layer awaits =>
      obtain ⟨rfl, rfl⟩ := List.cons.inj hstack
      obtain rfl := Phase.awaiting.inj (waits.symm.trans hwaits)
      exact hlayer.sortedBut.sorted

/-- Every frame keeps inside the positions of the sort. -/
lemma bounds (h : Stacked less v lo hi stack) (hf : f ∈ stack) :
    lo ≤ f.start ∧ f.start ≤ f.stop ∧ f.stop ≤ hi := by
  obtain ⟨lo', hi', role, top, below, rfl, hlayer, -, hawaits⟩ := h
  rcases List.mem_append.1 hf with hf | hf
  · obtain ⟨h₁, h₂, h₃⟩ := hlayer.bounds hf
    obtain ⟨h₄, h₅⟩ := hawaits.bounds hlayer.sortedBut.ascending.le
    exact ⟨by omega, h₂, by omega⟩
  · exact hawaits.bounds_of_mem hf

/-- Frames other than the first have not chosen their splitters. -/
lemma order_le (h : Stacked less v lo hi (f :: others)) {g : Frame α} (hg : g ∈ others) :
    g.phase.order ≤ 3 := by
  obtain ⟨_, _, _, rest, below, rfl, hlayer, hawaits⟩ := h.exists_layer
  rcases List.mem_append.1 hg with hg | hg
  · rw [hlayer.untouched g hg]
    exact Nat.zero_le 3
  · exact hawaits.order_le hg

/-- The first frame of a layer gives way to others that do not wait. -/
lemma replace (frames : List (Frame α)) (hlayer : Layer less v lo' hi' role (f :: rest))
    (hawaits : Awaits less v lo hi lo' hi' role below) (hr : Rearranged f.start f.stop v w)
    (hin : SortedBut less w f.start f.stop (frames.map Frame.bounds))
    (huntouched : ∀ g ∈ frames.tail, g.phase = .simpleCases)
    (hroles : (∀ g ∈ frames, g.role = .main) ∨ ∃ phase, frames = [{ f with phase }])
    (hready : ∀ g ∈ frames.head?, g.phase.order ≠ 3) :
    Stacked less w lo hi (frames ++ (rest ++ below)) := by
  obtain ⟨h₁, _, h₃⟩ := hlayer.bounds (List.mem_cons_self : f ∈ f :: rest)
  refine ⟨lo', hi', role, frames ++ rest, below, (List.append_assoc _ _ _).symm,
    hlayer.replace frames hr hin huntouched hroles, ?_, hawaits.rearrange (hr.mono h₁ h₃)⟩
  cases frames with
  | cons first frames => exact hready
  | nil =>
    intro g hg
    have hg : g ∈ rest := List.mem_of_mem_head? hg
    rw [hlayer.untouched g hg]
    simp [Phase.order]

/-- A sound turn on the first frame leaves a stack of layers.

**Proof sketch.** A frame that draws a sample becomes the waiting frame of its layer, and the sample
a layer of its own. In all other cases frames of the same layer take its place. -/
theorem successors {threshold : Nat} {memory : Memory} {transition : Transition α}
    (h : Stacked less v lo hi (f :: others)) (hhi : hi ≤ v.length)
    (hperm : w.Perm (window v f.start f.stop))
    (hsound : transition.Sound less threshold memory f.phase (window v f.start f.stop) w) :
    Stacked less (splice v f.start w) lo hi (f.successors transition ++ others) := by
  obtain ⟨-, hle, hstop⟩ := h.bounds List.mem_cons_self
  have hr : Rearranged f.start f.stop v (splice v f.start w) := .splice hle (by omega) hperm
  have hlength : w.length = f.stop - f.start := by
    rw [hperm.length_eq, length_window (by omega)]
  have hadd : f.start + w.length = f.stop := by omega
  cases hsound with
  | refuse _ hsame =>
    rw [hsame, splice_slice (slice?_eq_window hle (by omega))]
    exact h
  | @advance phase' _ hready _ =>
    obtain ⟨lo', hi', role, rest, below, rfl, hlayer, hawaits⟩ := h.exists_layer
    refine replace [{ f with phase := phase' }] hlayer hawaits hr
      (SortedBut.whole less _ hle) (by simp) (Or.inr ⟨phase', rfl⟩) ?_
    simpa using hready
  | resolve hsorted =>
    obtain ⟨lo', hi', role, rest, below, rfl, hlayer, hawaits⟩ := h.exists_layer
    have hin := (SortedBut.ofSorted hsorted).splice (p := f.start) (v := v) (by omega)
    rw [hadd] at hin
    exact replace [] hlayer hawaits hr hin (by simp) (Or.inl (by simp)) (by simp)
  | @split windows _ hsorted _ =>
    obtain ⟨lo', hi', role, rest, below, rfl, hlayer, hawaits⟩ := h.exists_layer
    have hin := hsorted.splice (p := f.start) (v := v) (by omega)
    rw [hadd] at hin
    refine replace _ hlayer hawaits hr ?_ ?_ (Or.inl ?_) ?_
    · rw [Frame.successors, List.map_map]
      exact hin
    · intro g hg
      obtain ⟨u, _, rfl⟩ := List.mem_map.1 (List.mem_of_mem_tail hg)
      rfl
    · intro g hg
      obtain ⟨u, _, rfl⟩ := List.mem_map.1 hg
      rfl
    · intro g hg
      obtain ⟨u, _, rfl⟩ := List.mem_map.1 (List.mem_of_mem_head? hg)
      simp [Frame.fresh, Phase.order]
  | @descend plan _ hfits =>
    obtain ⟨lo', hi', role, rest, below, rfl, hlayer, hawaits⟩ := h.exists_layer
    obtain ⟨h₁, _, h₃⟩ := hlayer.bounds (List.mem_cons_self : f ∈ f :: rest)
    have hsamples := hfits.samples_le_self
    rw [length_window (by omega)] at hsamples
    refine ⟨f.start, f.start + plan.samples, .sample,
      [.fresh f.start (f.start + plan.samples) .sample],
      { f with phase := .awaiting plan } :: rest ++ below, rfl, ⟨?_, by simp, ?_⟩, ?_, ?_⟩
    · exact SortedBut.whole less _ (Nat.le_add_right _ _)
    · exact Or.inr ⟨rfl, .simpleCases, rfl⟩
    · simp [Frame.fresh, Phase.order]
    · exact .sample (f := { f with phase := .awaiting plan }) rfl
        (by show f.start + plan.samples ≤ f.stop; omega) (hlayer.rearrange hr _)
        (hawaits.rearrange (hr.mono h₁ h₃))

end Stacked

end SampleSort
