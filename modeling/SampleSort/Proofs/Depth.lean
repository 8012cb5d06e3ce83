import Mathlib.Algebra.Group.Action.Defs
import Mathlib.Algebra.Order.BigOperators.Group.List
import Mathlib.Algebra.Order.Ring.Nat
import SampleSort.Proofs.Discipline
import SampleSort.Proofs.Termination
import SampleSort.Random.Cycle

set_option relaxedAutoImplicit false
set_option autoImplicit false

/-!
# How much work is pending

Frames of one layer stand beside each other and are longer than the threshold, so that there are few
of them. Layers stand inside each other: a layer sorts a sample, which is at most half of a window
that is itself longer than the threshold. Both kinds of frames are on the stack at the same time,
and still there are no more of them than windows longer than the threshold fit side by side.

## Main definitions

* `SampleSort.Frame.isWaiting` — a frame waits for its sample.

## Main results

* `SampleSort.Awaits.length_le` — lower layers leave room for as many frames as they have.
* `SampleSort.Stacked.length_le` — a bound on the number of frames, if they are long.
* `SampleSort.Awaits.two_pow_waiting_le` — each waiting frame halves the window.
* `SampleSort.Machine.pending_work_le` — bounds on the stack of every reachable machine.
-/

namespace SampleSort

variable {α σ : Type} {less : α → α → Bool} {v : List α} {lo hi lo' hi' t : Nat} {role : Role}
  {f : Frame α} {frames below stack : List (Frame α)}

/-- Whether a frame waits for its sample. -/
def Frame.isWaiting (f : Frame α) : Bool :=
  f.stage = .sampling && f.phase.plan?.isSome

/-- A frame that waits has a plan for the sample. -/
lemma Frame.isWaiting_iff : f.isWaiting = true ↔ ∃ plan, f.phase = .awaiting plan := by
  obtain ⟨start, stop, role, phase⟩ := f
  cases phase <;> simp [isWaiting, stage, Phase.stage, Phase.plan?]

/-- A frame about which nothing is known does not wait. -/
lemma Frame.isWaiting_of_untouched (h : f.phase = .simpleCases) : f.isWaiting = false := by
  simp [isWaiting, h, Phase.plan?]

/-! ### Long windows -/

/-- Frames longer than `t` that stand between two positions are no more than fit there. -/
lemma Ascending.length_le (h : Ascending lo hi (frames.map Frame.bounds))
    (hlong : ∀ f ∈ frames, t < f.length) : frames.length ≤ (hi - lo) / (t + 1) := by
  have hlengths : ∀ n ∈ (frames.map Frame.bounds).map fun w => w.2 - w.1, t + 1 ≤ n := by
    intro n hn
    obtain ⟨w, hw, rfl⟩ := List.mem_map.1 hn
    obtain ⟨f, hf, rfl⟩ := List.mem_map.1 hw
    exact hlong f hf
  have hsum := List.card_nsmul_le_sum _ _ hlengths
  rw [List.length_map, List.length_map, smul_eq_mul] at hsum
  exact (Nat.le_div_iff_mul_le (Nat.succ_pos t)).2 (Nat.le_trans hsum h.sum_lengths_le)

/-- Of a window that is longer than `t`, at most half is left to a sample; so it has room for one
frame more than the sample. -/
lemma succ_half_div_le {s n : Nat} (hs : s ≤ n / 2) (ht : t < n) :
    1 + s / (t + 1) ≤ n / (t + 1) := by
  by_cases hshort : s < t + 1
  · rw [Nat.div_eq_of_lt hshort]
    exact Nat.div_pos ht (Nat.succ_pos t)
  · calc 1 + s / (t + 1) = (s + (t + 1)) / (t + 1) := by
          rw [Nat.add_div_right _ (Nat.succ_pos t), Nat.add_comm]
      _ ≤ n / (t + 1) := Nat.div_le_div_right (by omega)

section Depth

variable (hmain : ∀ f ∈ stack, f.role = .main → t < f.length)
  (hwait : ∀ f ∈ stack, ∀ plan, f.phase = .awaiting plan → t < f.length ∧ plan.Fits f.length)

include hmain hwait in
/-- The frames below a layer leave so much room to it that all of them are no more than fit side by
side, and one.

**Proof sketch.** Induction along the layers. Of the window that waits for its sample, the sample is
at most half, so it has room for one frame more; the other frames of its layer stand behind it. -/
lemma Awaits.length_le (h : Awaits less v lo hi lo' hi' role below) (hbelow : below ⊆ stack) :
    below.length + (hi' - lo') / (t + 1) ≤ (hi - lo) / (t + 1) := by
  induction h with
  | bottom => exact Nat.le_of_eq (Nat.zero_add _)
  | @sample f rest below lo' hi' role plan waits within layer awaits ih =>
    have hf : f ∈ stack := hbelow (by simp)
    have hlower := ih fun g hg => hbelow (by simp [hg])
    obtain ⟨hstart, hle, hrest⟩ := layer.sortedBut.ascending
    have hcount : rest.length ≤ (hi' - f.stop) / (t + 1) := by
      rcases layer.roles with hroles | ⟨-, phase, hself⟩
      · exact hrest.length_le fun g hg => hmain g (hbelow (by simp [hg])) (hroles g (by simp [hg]))
      · simp [(List.cons.inj hself).2]
    obtain ⟨hlong, hfits⟩ := hwait f hf plan waits
    have hsample := succ_half_div_le hfits.samples_le hlong
    have hstop : f.stop ≤ hi' := hrest.le
    have hlayer : (hi' - f.stop) / (t + 1) + f.length / (t + 1) ≤ (hi' - lo') / (t + 1) := by
      refine Nat.le_trans (Nat.div_add_div_le_add_div) (Nat.div_le_div_right ?_)
      unfold Frame.length
      omega
    rw [Nat.add_sub_cancel_left, List.length_append, List.length_cons]
    omega

include hmain hwait in
/-- There are no more frames than fit side by side, and one. -/
theorem Stacked.length_le (h : Stacked less v lo hi stack) :
    stack.length ≤ 1 + (hi - lo) / (t + 1) := by
  obtain ⟨lo', hi', role, top, below, hstack, hlayer, -, hawaits⟩ := h
  have hbelow := hawaits.length_le hmain hwait (by simp [hstack])
  have htop : top.length ≤ 1 + (hi' - lo') / (t + 1) := by
    rcases hlayer.roles with hroles | ⟨-, phase, rfl⟩
    · have hcount := hlayer.sortedBut.ascending.length_le fun f hf =>
        hmain f (by simp [hstack, hf]) (hroles f hf)
      omega
    · exact Nat.le_add_right 1 _
  rw [hstack, List.length_append]
  omega

end Depth

/-! ### Waiting frames -/

/-- Each waiting frame below a layer halves the positions that the layer sorts. There are always
some.

**Proof sketch.** Induction on the layers. Below each layer there is one frame that waits for it,
since all others of its layer are untouched; and its sample has at most half of the elements of its
window. -/
lemma Awaits.two_pow_waiting_le (h : Awaits less v lo hi lo' hi' role below) (hlt : lo < hi)
    (hfits : ∀ f ∈ below, ∀ plan, f.phase = .awaiting plan → plan.Fits f.length) :
    lo' < hi' ∧ 2 ^ below.countP Frame.isWaiting * (hi' - lo') ≤ hi - lo := by
  induction h with
  | bottom => exact ⟨hlt, by simp⟩
  | @sample f rest below lo' hi' role plan waits within layer awaits ih =>
    obtain ⟨-, hlower⟩ := ih fun g hg => hfits g (by simp [hg])
    have hfit := hfits f (by simp) plan waits
    have hpos := hfit.samples_pos
    have hhalf := hfit.samples_le
    obtain ⟨hstart, hle, hstop⟩ := layer.bounds (List.mem_cons_self : f ∈ f :: rest)
    have hrest : rest.countP Frame.isWaiting = 0 := by
      rw [List.countP_eq_zero]
      intro g hg
      simp [Frame.isWaiting_of_untouched (layer.untouched g hg)]
    have hcount : (f :: rest ++ below).countP Frame.isWaiting =
        below.countP Frame.isWaiting + 1 := by
      rw [List.cons_append, List.countP_cons_of_pos (Frame.isWaiting_iff.2 ⟨plan, waits⟩),
        List.countP_append, hrest, Nat.zero_add]
    refine ⟨by omega, ?_⟩
    unfold Frame.length at hhalf
    calc 2 ^ (f :: rest ++ below).countP Frame.isWaiting * (f.start + plan.samples - f.start)
        = 2 ^ below.countP Frame.isWaiting * (2 * plan.samples) := by
          rw [hcount, Nat.pow_succ, Nat.add_sub_cancel_left, Nat.mul_assoc]
      _ ≤ 2 ^ below.countP Frame.isWaiting * (hi' - lo') := Nat.mul_le_mul_left _ (by omega)
      _ ≤ hi - lo := hlower

/-- The number of waiting frames is at most the binary logarithm of the number of positions. -/
theorem Stacked.countP_isWaiting_le (h : Stacked less v lo hi stack) (hlt : lo < hi)
    (hfits : ∀ f ∈ stack, ∀ plan, f.phase = .awaiting plan → plan.Fits f.length) :
    stack.countP Frame.isWaiting ≤ (hi - lo).log2 := by
  obtain ⟨lo', hi', role, top, below, rfl, hlayer, hready, hawaits⟩ := h
  obtain ⟨hlt', hpow⟩ := hawaits.two_pow_waiting_le hlt fun f hf => hfits f (by simp [hf])
  have htop : top.countP Frame.isWaiting = 0 := by
    rw [List.countP_eq_zero]
    intro f hf hwaits
    cases top with
    | nil => cases hf
    | cons first rest =>
      rcases List.mem_cons.1 hf with rfl | hf
      · obtain ⟨plan, hplan⟩ := Frame.isWaiting_iff.1 hwaits
        exact hready f rfl (by rw [hplan]; rfl)
      · simp [Frame.isWaiting_of_untouched (hlayer.untouched f hf)] at hwaits
  rw [List.countP_append, htop, Nat.zero_add, Nat.le_log2 (by omega)]
  exact Nat.le_trans (Nat.le_mul_of_pos_right _ (by omega)) hpow

/-! ### Machines -/

namespace Machine

variable {m : Machine α σ} {data : List α} {config : Config}

/-- The plan that a frame waits by is one for its window. -/
lemma Inv.fits (h : m.Inv less data lo hi) (hf : f ∈ m.stack) {plan : SamplingPlan}
    (hwaits : f.phase = .awaiting plan) : plan.Fits f.length := by
  have hholds := h.holds f hf
  rw [hwaits] at hholds
  have hfits : plan.Fits (window m.data.toList f.start f.stop).length := hholds
  rwa [h.length_of_mem hf] at hfits

/-- If windows are longer than `t`, except at the beginning, there are no more frames than fit side
by side, and one. -/
theorem Inv.depth_le (h : m.Inv less data lo hi) (honly : OnlyLong lo hi t m.stack) :
    m.depth ≤ 1 + (hi - lo) / (t + 1) := by
  rcases honly with ⟨phase, hstack, -⟩ | hlong
  · rw [depth, hstack]
    exact Nat.le_add_right 1 _
  · refine Stacked.length_le ?_ ?_ h.stacked
    · exact fun f hf hrole => hlong f hf (Or.inl hrole)
    · intro f hf plan hwaits
      refine ⟨hlong f hf (Or.inr ?_), h.fits hf hwaits⟩
      rw [hwaits]
      exact Nat.le_succ 2

variable [IndexSource σ]

/-- Pending work is bounded. As long as a machine keeps its configuration, it has at most one frame
more than windows longer than the threshold fit into the positions that are sorted. And however
configurations are exchanged, the frames that wait for a sample are at most the binary logarithm of
the number of positions.

**Proof sketch.** While the configuration is kept, all frames but those of samples have windows
longer than the threshold, and by `Stacked.length_le` no more of these fit into the layers. For the
waiting frames see `Awaits.two_pow_waiting_le`. -/
theorem pending_work_le (hless : StrictWeak less) (data : Array α) (lo hi : Nat) :
    (∀ (config : Config) (m : Machine α σ), ReachableWith less data lo hi config m →
      m.depth ≤ 1 + (hi - lo) / (config.threshold + 1)) ∧
    (lo < hi → ∀ m : Machine α σ, Reachable less data lo hi m →
      m.stack.countP Frame.isWaiting ≤ (hi - lo).log2) := by
  constructor
  · intro config m h
    exact (h.reachable.inv hless).depth_le h.onlyLong
  · intro hlt m h
    have hinv := h.inv hless
    exact hinv.stacked.countP_isWaiting_le hlt fun f hf plan hwaits => hinv.fits hf hwaits

/-- Eight numbers after nineteen steps: of three buckets, the first one waits for its sample. -/
theorem pending_work_le_of_eight :
    ∃ m : Machine Nat WordCycle,
      ReachableWith (fun a b => decide (a < b)) #[5, 2, 7, 8, 6, 4, 3, 1] 0 8 ⟨1, 1, 2, 0⟩ m ∧
        m.stack.map Frame.isWaiting = [false, true, false, false] ∧
        m.depth ≤ 1 + 8 / 2 ∧ m.stack.countP Frame.isWaiting ≤ Nat.log2 8 := by
  let less := fun a b : Nat => decide (a < b)
  let m₀ : Machine Nat WordCycle :=
    .ofArray (.ofList [0x60000000, 0xa0000000]) #[5, 2, 7, 8, 6, 4, 3, 1]
  let m₁ : Machine Nat WordCycle := { m₀ with config := ⟨1, 1, 2, 0⟩ }
  have hconfig : m₀.withConfig? ⟨1, 1, 2, 0⟩ = .ok m₁ := rfl
  have hwaiting : (m₁.runFor less 19).map (fun r => (r.machine.config,
      r.machine.stack.map Frame.isWaiting)) =
        .ok (⟨1, 1, 2, 0⟩, [false, true, false, false]) := by decide +kernel
  obtain ⟨r, hrun, hobserved⟩ := exists_run_of_map hwaiting
  obtain ⟨hsame, hstack⟩ := Prod.mk.inj hobserved
  have hreachable : ReachableWith less #[5, 2, 7, 8, 6, 4, 3, 1] 0 8 ⟨1, 1, 2, 0⟩ r.machine :=
    ⟨m₀, m₁, _, .whole _, hconfig, ReachesAlike.refl.tail (.runFor hrun) hsame⟩
  obtain ⟨hdepth, hlog⟩ :=
    pending_work_le (σ := WordCycle) .natural #[5, 2, 7, 8, 6, 4, 3, 1] 0 8
  exact ⟨r.machine, hreachable, hstack, hdepth _ _ hreachable,
    hlog (by decide) _ hreachable.reachable⟩

end Machine

end SampleSort
