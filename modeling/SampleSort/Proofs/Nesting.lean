import SampleSort.Proofs.Stack

set_option relaxedAutoImplicit false
set_option autoImplicit false

/-!
# How pending frames stand to each other

Of two frames of one layer, the upper one stands to the left of the lower one, and their elements
are in this order too. A frame of a higher layer stands in the sample that the first frame of a
lower layer waits for; so it stands to the left of the other frames of that layer.

## Main definitions

* `SampleSort.Frame.Covers` — a position lies in a frame's window.
* `SampleSort.Frame.Precedes` — a frame stands to the left of another one.
* `SampleSort.Frame.Serves` — a frame stands in the sample that another one waits for.
* `SampleSort.Frame.Above` — one or the other.

## Main results

* `SampleSort.Stacked.pairwise` — of any two frames, the upper one stands to the left of the lower
  one or in its sample.
* `SampleSort.Stacked.inOrder` — what is not covered by any frame is in order.
-/

namespace SampleSort

variable {α : Type} {less : α → α → Bool} {v : List α} {lo hi lo' hi' a b : Nat} {role : Role}
  {ws : List (Nat × Nat)} {f g : Frame α} {frames below stack top : List (Frame α)}

namespace Frame

/-- The position lies in the frame's window. -/
def Covers (f : Frame α) (p : Nat) : Prop :=
  f.start ≤ p ∧ p < f.stop

/-- The frame stands to the left of another one, and none of its elements is greater than one of
the other's. -/
structure Precedes (less : α → α → Bool) (v : List α) (f g : Frame α) : Prop where
  /-- The windows stand one after the other. -/
  stop_le : f.stop ≤ g.start
  /-- So do their elements. -/
  inOrder : ∀ i j x y, f.Covers i → g.Covers j → v[i]? = some x → v[j]? = some y →
    less y x = false

/-- The frame stands in the sample that another one waits for. -/
def Serves (f g : Frame α) : Prop :=
  ∃ plan, g.phase = .awaiting plan ∧ g.start ≤ f.start ∧ f.stop ≤ g.start + plan.samples ∧
    g.start + plan.samples ≤ g.stop

/-- How the upper one of two frames stands to the lower one: to the left of it, or in its
sample. -/
def Above (less : α → α → Bool) (v : List α) (f g : Frame α) : Prop :=
  f.Precedes less v g ∨ f.Serves g

/-- A frame that serves another one covers no more than it. -/
lemma Serves.covers (h : f.Serves g) {p : Nat} (hp : f.Covers p) : g.Covers p := by
  obtain ⟨plan, -, hstart, hsample, hstop⟩ := h
  obtain ⟨h₁, h₂⟩ := hp
  exact ⟨by omega, by omega⟩

end Frame

/-! ### Windows of one stretch -/

namespace SortedBut

/-- Everything before the end of the first window is in order with everything behind it. -/
lemma across (h : SortedBut less v lo hi ((a, b) :: ws)) {i j : Nat} {x y : α} (hlo : lo ≤ i)
    (hib : i < b) (hbj : b ≤ j) (hj : j < hi) (hx : v[i]? = some x) (hy : v[j]? = some y) :
    less y x = false := by
  refine h.inOrder i j x y hlo (by omega) hj hx hy ?_
  intro w hw
  rcases List.mem_cons.1 hw with rfl | hw
  · simp only
    omega
  · have := (h.ascending.2.2.bounds hw).1
    omega

/-- Behind the first window, the stretch is in order except inside the others. -/
lemma tail (h : SortedBut less v lo hi ((a, b) :: ws)) : SortedBut less v b hi ws := by
  obtain ⟨hlo, hab, hws⟩ := h.ascending
  refine ⟨hws, ?_⟩
  intro i j x y hbi hij hj hx hy hno
  refine h.inOrder i j x y (by omega) hij hj hx hy ?_
  intro w hw
  rcases List.mem_cons.1 hw with rfl | hw
  · simp only
    omega
  · exact hno w hw

/-- Frames whose windows are where a stretch is not in order stand one after the other. -/
lemma pairwise (h : SortedBut less v lo hi (frames.map Frame.bounds)) :
    frames.Pairwise (Frame.Precedes less v) := by
  induction frames generalizing lo with
  | nil => exact .nil
  | cons f frames ih =>
    refine List.pairwise_cons.2 ⟨?_, ih h.tail⟩
    intro g hg
    obtain ⟨hlo, -, hws⟩ := h.ascending
    have hbounds := hws.bounds (List.mem_map_of_mem hg : g.bounds ∈ frames.map Frame.bounds)
    simp only [Frame.bounds] at hlo hbounds
    refine ⟨hbounds.1, ?_⟩
    intro i j x y hfi hgj hx hy
    obtain ⟨hi₁, hi₂⟩ := hfi
    obtain ⟨hj₁, hj₂⟩ := hgj
    exact h.across (by omega) hi₂ (by omega) (by omega) hx hy

end SortedBut

/-! ### Layers -/

namespace Awaits

/-- A frame below a layer stands to the right of all of it, or the layer stands in its sample.

**Proof sketch.** Induction along the layers. The frame that the layer is sorted for waits for just
these positions. The frames beside that one stand behind the end of its window. All other frames
stand below its layer, and the induction hypothesis tells how they stand to that. -/
lemma right_or_serves (h : Awaits less v lo hi lo' hi' role below) (hg : g ∈ below) :
    (hi' ≤ g.start ∧ ∀ i j x y, lo' ≤ i → i < hi' → g.Covers j → v[i]? = some x →
      v[j]? = some y → less y x = false) ∨
      ∃ plan, g.phase = .awaiting plan ∧ g.start ≤ lo' ∧ hi' ≤ g.start + plan.samples ∧
        g.start + plan.samples ≤ g.stop := by
  induction h with
  | bottom => cases hg
  | @sample f rest below lo' hi' role plan waits within layer awaits ih =>
    obtain ⟨hstart, _, hstop⟩ := layer.bounds (List.mem_cons_self : f ∈ f :: rest)
    rcases List.mem_append.1 hg with hg | hg
    · rcases List.mem_cons.1 hg with rfl | hg
      · exact Or.inr ⟨plan, waits, Nat.le_refl _, Nat.le_refl _, within⟩
      · left
        have hfg := (List.pairwise_cons.1 layer.sortedBut.pairwise).1 g hg
        have hstop_le := hfg.stop_le
        refine ⟨by omega, ?_⟩
        intro i j x y hi₁ hi₂ hj hx hy
        exact hfg.inOrder i j x y ⟨hi₁, by omega⟩ hj hx hy
    · rcases ih hg with ⟨hright, horder⟩ | ⟨plan', hwaits, hstart', hsample, hstop'⟩
      · left
        refine ⟨by omega, ?_⟩
        intro i j x y hi₁ hi₂ hj hx hy
        exact horder i j x y (by omega) (by omega) hj hx hy
      · exact Or.inr ⟨plan', hwaits, by omega, by omega, hstop'⟩

/-- A frame of a layer stands to the left of the frames below the layer or in their samples. -/
lemma above_of_mem (h : Awaits less v lo hi lo' hi' role below)
    (hlayer : Layer less v lo' hi' role top) (hf : f ∈ top) (hg : g ∈ below) :
    f.Above less v g := by
  obtain ⟨hstart, _, hstop⟩ := hlayer.bounds hf
  rcases h.right_or_serves hg with ⟨hright, horder⟩ | ⟨plan, hwaits, hstart', hsample, hstop'⟩
  · left
    refine ⟨by omega, ?_⟩
    intro i j x y hi hj hx hy
    obtain ⟨hi₁, hi₂⟩ := hi
    exact horder i j x y (by omega) (by omega) hj hx hy
  · exact Or.inr ⟨plan, hwaits, by omega, by omega, hstop'⟩

/-- A layer and the frames below it stand to each other as frames do. -/
lemma pairwise (h : Awaits less v lo hi lo' hi' role below)
    (hlayer : Layer less v lo' hi' role top) :
    (top ++ below).Pairwise (Frame.Above less v) := by
  induction h generalizing top with
  | bottom =>
    rw [List.append_nil]
    exact hlayer.sortedBut.pairwise.imp Or.inl
  | sample waits within layer awaits ih =>
    refine List.pairwise_append.2 ⟨hlayer.sortedBut.pairwise.imp Or.inl, ih layer, ?_⟩
    intro f hf g hg
    exact (Awaits.sample waits within layer awaits).above_of_mem hlayer hf hg

/-- The lowest layer is in order except inside windows of frames. -/
lemma exists_lowest (h : Awaits less v lo hi lo' hi' role below)
    (hlayer : Layer less v lo' hi' role top) :
    ∃ frames : List (Frame α), (∀ f ∈ frames, f ∈ top ++ below) ∧
      SortedBut less v lo hi (frames.map Frame.bounds) := by
  induction h generalizing top with
  | bottom => exact ⟨top, by simp, hlayer.sortedBut⟩
  | sample waits within layer awaits ih =>
    obtain ⟨frames, hframes, hsorted⟩ := ih layer
    exact ⟨frames, fun f hf => List.mem_append_right _ (hframes f hf), hsorted⟩

end Awaits

namespace Stacked

/-- Of any two frames on a stack, the upper one stands to the left of the lower one or in its
sample. -/
theorem pairwise (h : Stacked less v lo hi stack) :
    stack.Pairwise (Frame.Above less v) := by
  obtain ⟨lo', hi', role, top, below, rfl, hlayer, -, hawaits⟩ := h
  exact hawaits.pairwise hlayer

/-- Two positions of which one is not covered by any frame are in order. -/
theorem inOrder (h : Stacked less v lo hi stack) {i j : Nat} {x y : α} (hlo : lo ≤ i)
    (hij : i < j) (hj : j < hi)
    (hfinal : (∀ f ∈ stack, ¬f.Covers i) ∨ ∀ f ∈ stack, ¬f.Covers j) (hx : v[i]? = some x)
    (hy : v[j]? = some y) : less y x = false := by
  obtain ⟨lo', hi', role, top, below, rfl, hlayer, -, hawaits⟩ := h
  obtain ⟨frames, hframes, hsorted⟩ := hawaits.exists_lowest hlayer
  refine hsorted.inOrder i j x y hlo hij hj hx hy ?_
  intro w hw
  obtain ⟨f, hf, rfl⟩ := List.mem_map.1 hw
  rintro ⟨hstart, hstop⟩
  simp only [Frame.bounds] at hstart hstop
  rcases hfinal with hfinal | hfinal
  · exact hfinal f (hframes f hf) ⟨hstart, by omega⟩
  · exact hfinal f (hframes f hf) ⟨by omega, hstop⟩

end Stacked

end SampleSort
