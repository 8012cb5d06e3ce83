import Mathlib.Algebra.Order.BigOperators.Group.List
import Mathlib.Algebra.Order.Ring.Nat
import SampleSort.Proofs.Nesting
import SampleSort.Proofs.Progress
import SampleSort.Proofs.Termination
import SampleSort.Random.Cycle

set_option relaxedAutoImplicit false
set_option autoImplicit false

/-!
# Few classes of ties mean few steps

Whatever indices are drawn, a split leaves windows that have fewer classes of ties than the window
that is split, and together no more of them. A sample may have all classes of its window, but no
more than half of its elements. So the steps on a window of `n` elements in `d` classes are bounded
by a power of the logarithm of `n`, whose exponent is `d - 1`; and every step makes the bound on the
steps that are left smaller.

## Main definitions

* `SampleSort.stepBound` — a bound on the steps on a window.
* `SampleSort.Phase.stepsLeft`, `SampleSort.Frame.stepsLeft`, `SampleSort.stepsLeft` — a bound on
  the steps that are left to a phase, to a frame and to a stack.
* `SampleSort.Machine.Paced` — what has been done and what is left keep to the bound.

## Main results

* `SampleSort.add_stepBound_le` — a sample leaves room for the steps on the buckets.
* `SampleSort.sum_stepBound_le` — the windows of a split keep to the bound together.
* `SampleSort.Machine.Paced.stepsLeft_lt` — a turn leaves fewer steps than there were before it.
* `SampleSort.Machine.Paced.of_step` — a step keeps the pace.
* `SampleSort.Machine.Reachable.steps_le` — a bound on the steps of a run.
-/

namespace SampleSort

variable {α σ : Type} {less : α → α → Bool} {v w : List α} {n n' d d' s e : Nat}

/-- A bound on the steps on a window of `n` elements in `d` classes of ties. -/
def stepBound (n d : Nat) : Nat :=
  (9 * n.log2 + 2) ^ (d - 1)

/-- A bound on the steps that are left to a phase of the work on a window of `n` elements in `d`
classes, with those on its buckets. The steps on its sample are counted with it until the sample has
been drawn. -/
def Phase.stepsLeft (n d : Nat) (phase : Phase α) : Nat :=
  if phase.order < 3 then stepBound n d - phase.order
  else 2 * stepBound n (d - 1) + (7 - phase.order)

/-- A bound on the steps that are left to a frame. -/
def Frame.stepsLeft (less : α → α → Bool) (data : List α) (f : Frame α) : Nat :=
  f.phase.stepsLeft f.length (classes less (window data f.start f.stop))

/-- A bound on the steps that are left to all frames of a stack. -/
def stepsLeft (less : α → α → Bool) (data : List α) (stack : List (Frame α)) : Nat :=
  (stack.map (Frame.stepsLeft less data)).sum

/-! ### The bound -/

/-- The bound is positive. -/
lemma stepBound_pos (n d : Nat) : 0 < stepBound n d :=
  Nat.pow_pos (Nat.succ_pos _)

/-- More elements or more classes have a larger bound. -/
lemma stepBound_mono (hn : n ≤ n') (hd : d ≤ d') : stepBound n d ≤ stepBound n' d' := by
  have hlog := log2_mono hn
  calc stepBound n d ≤ (9 * n'.log2 + 2) ^ (d - 1) := Nat.pow_le_pow_left (by omega) _
    _ ≤ stepBound n' d' := Nat.pow_le_pow_right (Nat.succ_pos _) (by omega)

/-- With two classes there are two steps at least. -/
lemma two_le_stepBound (hd : 2 ≤ d) : 2 ≤ stepBound n d := by
  calc 2 ≤ 9 * n.log2 + 2 := Nat.le_add_left _ _
    _ = stepBound n 2 := (Nat.pow_one _).symm
    _ ≤ stepBound n d := stepBound_mono (Nat.le_refl n) hd

/-- A sample of at most half of a window leaves room for nine times the steps on a window with one
class less, because its logarithm is less by one. -/
lemma add_stepBound_le (hn : 2 ≤ n) (hs : s ≤ n / 2) (hd : 2 ≤ d) (he : e ≤ d) :
    stepBound s e + 9 * stepBound n (d - 1) ≤ stepBound n d := by
  have hlog : s.log2 + 1 ≤ n.log2 := by
    have := log2_mono hs
    rw [Nat.log2_def n, if_pos hn]
    omega
  have hsample : stepBound s e ≤ (9 * s.log2 + 2) * stepBound n (d - 1) := by
    calc stepBound s e ≤ (9 * s.log2 + 2) ^ (d - 1) :=
          Nat.pow_le_pow_right (Nat.succ_pos _) (by omega)
      _ = (9 * s.log2 + 2) * (9 * s.log2 + 2) ^ (d - 1 - 1) := by
          rw [← Nat.pow_succ']
          congr 1
          omega
      _ ≤ (9 * s.log2 + 2) * stepBound n (d - 1) :=
          Nat.mul_le_mul_left _ (Nat.pow_le_pow_left (by omega) _)
  calc stepBound s e + 9 * stepBound n (d - 1)
      ≤ (9 * s.log2 + 2) * stepBound n (d - 1) + 9 * stepBound n (d - 1) :=
        Nat.add_le_add_right hsample _
    _ = (9 * s.log2 + 2 + 9) * stepBound n (d - 1) := (Nat.add_mul _ _ _).symm
    _ ≤ (9 * n.log2 + 2) * stepBound n (d - 1) := Nat.mul_le_mul_right _ (by omega)
    _ = stepBound n d := by
        unfold stepBound
        rw [← Nat.pow_succ']
        congr 1
        omega

/-- Powers of exponents that add up are together no more than one power.

**Proof sketch.** Induction on the list: two powers with exponents below the sum are no more than
twice the larger one, and the base is two at least. -/
lemma sum_pow_le {b : Nat} (hb : 2 ≤ b) {ds : List Nat} (hne : ds ≠ []) (h : ∀ x ∈ ds, 1 ≤ x) :
    (ds.map fun x => b ^ (x - 1)).sum ≤ b ^ (ds.sum - 1) := by
  induction ds with
  | nil => exact absurd rfl hne
  | cons x ds ih =>
    have hx := h x (by simp)
    cases ds with
    | nil => simp
    | cons y ds =>
      have hrest := ih (by simp) fun z hz => h z (by simp [hz])
      have hsum : 1 ≤ (y :: ds).sum := by
        have := h y (by simp)
        rw [List.sum_cons]
        omega
      rw [List.map_cons, List.sum_cons, List.sum_cons]
      have h₁ : b ^ (x - 1) ≤ b ^ (x + (y :: ds).sum - 2) :=
        Nat.pow_le_pow_right (by omega) (by omega)
      have h₂ : b ^ ((y :: ds).sum - 1) ≤ b ^ (x + (y :: ds).sum - 2) :=
        Nat.pow_le_pow_right (by omega) (by omega)
      calc b ^ (x - 1) + ((y :: ds).map fun x => b ^ (x - 1)).sum
          ≤ 2 * b ^ (x + (y :: ds).sum - 2) := by omega
        _ ≤ b * b ^ (x + (y :: ds).sum - 2) := Nat.mul_le_mul_right _ hb
        _ = b ^ (x + (y :: ds).sum - 1) := by
            rw [← Nat.pow_succ']
            congr 1
            omega

/-- Windows with fewer classes than `d`, and with no more than `d` of them together, take at most
twice the steps of a window with one class less than `d`: each of them takes at most these, and so
do all but the first together. -/
lemma sum_stepBound_le (ps : List (Nat × Nat)) (h : ∀ p ∈ ps, p.1 ≤ n ∧ 1 ≤ p.2 ∧ p.2 < d)
    (hsum : (ps.map Prod.snd).sum ≤ d) :
    (ps.map fun p => stepBound p.1 p.2).sum ≤ 2 * stepBound n (d - 1) := by
  cases ps with
  | nil => exact Nat.zero_le _
  | cons p ps =>
    obtain ⟨hp, hone, hlt⟩ := h p (by simp)
    have hfirst : stepBound p.1 p.2 ≤ stepBound n (d - 1) := stepBound_mono hp (by omega)
    have hrest : (ps.map fun p => stepBound p.1 p.2).sum ≤ stepBound n (d - 1) := by
      by_cases hne : ps.map Prod.snd = []
      · rw [List.map_eq_nil_iff.1 hne]
        exact Nat.zero_le _
      · calc (ps.map fun p => stepBound p.1 p.2).sum
            ≤ (ps.map fun p => stepBound n p.2).sum :=
              List.sum_le_sum fun q hq => stepBound_mono (h q (by simp [hq])).1 (Nat.le_refl _)
          _ = ((ps.map Prod.snd).map fun x => (9 * n.log2 + 2) ^ (x - 1)).sum := by
              rw [List.map_map]
              rfl
          _ ≤ stepBound n (ps.map Prod.snd).sum := by
              refine sum_pow_le (Nat.le_add_left _ _) hne ?_
              intro x hx
              obtain ⟨q, hq, rfl⟩ := List.mem_map.1 hx
              exact (h q (by simp [hq])).2.1
          _ ≤ stepBound n (d - 1) := by
              rw [List.map_cons, List.sum_cons] at hsum
              exact stepBound_mono (Nat.le_refl n) (by omega)
    rw [List.map_cons, List.sum_cons]
    omega

/-! ### Steps left -/

/-- Before the sample has been drawn. -/
lemma Phase.stepsLeft_of_lt {phase : Phase α} (h : phase.order < 3) (n d : Nat) :
    phase.stepsLeft n d = stepBound n d - phase.order := by
  rw [stepsLeft, if_pos h]

/-- After the sample has been drawn. -/
lemma Phase.stepsLeft_of_le {phase : Phase α} (h : 3 ≤ phase.order) (n d : Nat) :
    phase.stepsLeft n d = 2 * stepBound n (d - 1) + (7 - phase.order) := by
  rw [stepsLeft, if_neg (by omega)]

/-- A phase has a step left. -/
lemma Phase.stepsLeft_pos {phase : Phase α} (hmixed : 1 ≤ phase.order → 2 ≤ d)
    (hlong : 2 ≤ phase.order → 2 ≤ n) : 0 < phase.stepsLeft n d := by
  by_cases hdrawn : 3 ≤ phase.order
  · rw [stepsLeft_of_le hdrawn]
    have := stepBound_pos n (d - 1)
    omega
  · rw [stepsLeft_of_lt (by omega)]
    rcases Nat.lt_or_ge phase.order 2 with hearly | hlate
    · rcases Nat.eq_zero_or_pos phase.order with hfirst | hsecond
      · rw [hfirst]
        exact stepBound_pos n d
      · have := two_le_stepBound (n := n) (hmixed hsecond)
        omega
    · have := add_stepBound_le (hlong hlate) (Nat.zero_le (n / 2)) (hmixed (Nat.le_of_lt hlate))
        (Nat.zero_le d)
      have := stepBound_pos n (d - 1)
      omega

/-- The next phase has fewer steps left, unless it waits for a sample. -/
lemma Phase.stepsLeft_lt_of_advance {phase phase' : Phase α} (hmixed : 1 ≤ phase.order → 2 ≤ d)
    (horder : phase'.order = phase.order + 1) (hready : phase'.order ≠ 3) :
    phase'.stepsLeft n d < phase.stepsLeft n d := by
  have hsix := phase'.order_le_six
  by_cases hdrawn : 3 ≤ phase.order
  · rw [stepsLeft_of_le hdrawn, stepsLeft_of_le (by omega)]
    omega
  · rw [stepsLeft_of_lt (by omega), stepsLeft_of_lt (by omega)]
    rcases Nat.eq_zero_or_pos phase.order with hfirst | hsecond
    · have := stepBound_pos n d
      omega
    · have := two_le_stepBound (n := n) (hmixed hsecond)
      omega

/-- The steps on a sample and those left to the frame that waits for it are fewer than were left to
the frame. -/
lemma stepsLeft_lt_of_descend (plan : SamplingPlan) (hn : 2 ≤ n) (hs : s ≤ n / 2) (hd : 2 ≤ d)
    (he : e ≤ d) :
    stepBound s e + (Phase.awaiting plan : Phase α).stepsLeft n d <
      (Phase.sampling : Phase α).stepsLeft n d := by
  have hroom := add_stepBound_le hn hs hd he
  have hpos := stepBound_pos n (d - 1)
  have hwaiting : (Phase.awaiting plan : Phase α).order = 3 := rfl
  have hsampling : (Phase.sampling : Phase α).order = 2 := rfl
  rw [Phase.stepsLeft_of_le (by omega), Phase.stepsLeft_of_lt (by omega)]
  omega

/-- A window that has not been begun has all steps left. -/
lemma Frame.stepsLeft_fresh (data : List α) (start stop : Nat) (role : Role) :
    (Frame.fresh start stop role).stepsLeft less data =
      stepBound (stop - start) (classes less (window data start stop)) :=
  rfl

/-- The steps left to a stack are those left to its first frame and to those below. -/
@[simp] lemma stepsLeft_cons (data : List α) (f : Frame α) (stack : List (Frame α)) :
    stepsLeft less data (f :: stack) = f.stepsLeft less data + stepsLeft less data stack := by
  simp [stepsLeft]

/-- Steps left add up. -/
@[simp] lemma stepsLeft_append (data : List α) (stack stack' : List (Frame α)) :
    stepsLeft less data (stack ++ stack') =
      stepsLeft less data stack + stepsLeft less data stack' := by
  simp [stepsLeft]

/-- A frame that goes on to another phase. -/
lemma stepsLeft_advance (data : List α) (f : Frame α) (phase : Phase α) :
    stepsLeft less data (f.successors (.advance phase)) =
      phase.stepsLeft f.length (classes less (window data f.start f.stop)) := by
  rw [Frame.successors, stepsLeft_cons]
  exact Nat.add_zero _

/-- A frame that waits for its sample, with the frame that sorts the sample. -/
lemma stepsLeft_descend (data : List α) (f : Frame α) (plan : SamplingPlan) :
    stepsLeft less data (f.successors (.descend plan)) =
      stepBound plan.samples (classes less (window data f.start (f.start + plan.samples))) +
        (Phase.awaiting plan : Phase α).stepsLeft f.length
          (classes less (window data f.start f.stop)) := by
  rw [Frame.successors, stepsLeft_cons, Frame.stepsLeft_fresh, Nat.add_sub_cancel_left]
  exact congrArg _ (stepsLeft_advance data f (.awaiting plan))

/-- The frames that sort the windows of a split. -/
lemma stepsLeft_split (data : List α) (f : Frame α) (ws : List (Nat × Nat)) :
    stepsLeft less data (f.successors (.split ws)) =
      (ws.map fun p => stepBound (p.2 - p.1)
        (classes less (window data (f.start + p.1) (f.start + p.2)))).sum := by
  rw [Frame.successors, stepsLeft, List.map_map]
  refine congrArg List.sum (List.map_congr_left ?_)
  intro p _
  rw [Function.comp_apply, Frame.stepsLeft_fresh, Nat.add_sub_add_left]

/-! ### Classes of a window -/

/-- A window with all elements tied is not found unsorted. -/
lemma Shape.two_le_classes (hless : StrictWeak less) (h : (detect less v).value = .unsorted) :
    2 ≤ classes less v := by
  by_contra hfew
  have htied : ∀ x ∈ v, ∀ y ∈ v, less x y = false := fun x hx y hy =>
    (tied_iff.1 (tied_of_classes_le_one hless (by omega) hx hy)).1
  have hsorted : Sorted less v :=
    List.pairwise_of_forall_mem_list fun x hx y hy => htied y hy x hx
  exact ((value_detect_iff hless v _).1 h).1 hsorted

/-- A frame goes on from the first phase only if its window has two classes. -/
lemma Phase.two_le_classes_of_advance [IndexSource σ] {config : Config} {strategy : Strategy}
    {memory : Memory} {source : σ} {phase phase' : Phase α} {t : Turn α σ}
    (hless : StrictWeak less) (hfirst : phase.order = 0)
    (hturn : phase.turn less config strategy memory source v = .ok t)
    (hadvance : t.transition = .advance phase') : 2 ≤ classes less v := by
  cases phase with
  | simpleCases =>
    rw [turn_of_reservation?_eq_none rfl] at hturn
    by_cases hshape : (Shape.detect less v).value = .unsorted
    · exact Shape.two_le_classes hless hshape
    · rw [work_simpleCases_resolve_eq hshape] at hturn
      obtain rfl := Except.ok.inj hturn
      cases hadvance
  | _ => simp [order] at hfirst

/-- The steps left to the windows of a split are fewer than were left to the phase. -/
lemma stepsLeft_lt_of_split (hless : StrictWeak less) {phase : Phase α} {ws : List (Nat × Nat)}
    (horder : phase.order = 6) (hdivides : Divides less v w ws) (hws : Ascending 0 w.length ws)
    (hlengths : ∀ p ∈ ws, p.1 < p.2 ∧ p.2 - p.1 < n) :
    (ws.map fun p => stepBound (p.2 - p.1) (classes less (window w p.1 p.2))).sum <
      phase.stepsLeft n (classes less v) := by
  have hsum : (ws.map fun p => stepBound (p.2 - p.1) (classes less (window w p.1 p.2))).sum ≤
      2 * stepBound n (classes less v - 1) := by
    have hle := sum_stepBound_le (n := n) (d := classes less v)
      (ws.map fun p => (p.2 - p.1, classes less (window w p.1 p.2)))
    rw [List.map_map, List.map_map] at hle
    apply hle
    · intro q hq
      obtain ⟨p, hp, rfl⟩ := List.mem_map.1 hq
      obtain ⟨hne, hlt⟩ := hlengths p hp
      refine ⟨Nat.le_of_lt hlt, ?_, hdivides.fewer p hp⟩
      have hlength : (window w p.1 p.2).length = p.2 - p.1 := length_window (hws.bounds hp).2.2
      obtain ⟨x, hx⟩ := List.exists_mem_of_length_pos
        (show 0 < (window w p.1 p.2).length by omega)
      exact classes_pos hless hx
    · have hparts := sum_classes_le hless (v := v) (ws.map fun p => window w p.1 p.2)
      rw [List.map_map] at hparts
      apply hparts
      · intro part hpart
        obtain ⟨p, hp, rfl⟩ := List.mem_map.1 hpart
        exact hdivides.subset p hp
      · exact List.pairwise_map.2 hdivides.untied
  rw [Phase.stepsLeft_of_le (by omega), horder]
  omega

/-! ### Machines -/

namespace Machine

variable {m m' : Machine α σ} {f g : Frame α} {others : List (Frame α)} {lo hi : Nat}
  {data : List α} {memory : Memory} {result : Except SortError (Option Event)}

/-- A machine keeps the pace that the bound sets for the sort of the positions from `lo` to `hi` of
`data`. -/
structure Paced (less : α → α → Bool) (data : List α) (lo hi : Nat) (m : Machine α σ) : Prop where
  /-- The machine is as it should be. -/
  inv : m.Inv less data lo hi
  /-- Windows that are worked on further have two classes. -/
  mixed : ∀ f ∈ m.stack, 1 ≤ f.phase.order →
    2 ≤ classes less (window m.data.toList f.start f.stop)
  /-- Unless memory has been exhausted, the steps that have been done and those that are left keep
  to the bound. -/
  spent_le : m.poisoned = false → m.steps + stepsLeft less m.data.toList m.stack ≤
    stepBound (hi - lo) (classes less (window data lo hi))

section Turns

variable [IndexSource σ] {t : Turn α σ}

/-- A turn of the first frame changes the classes of no pending window: it permutes the windows of
the frame itself and of those that wait for it, and leaves the others as they are. -/
lemma Inv.classes_after (hless : StrictWeak less) (h : m.Inv less data lo hi)
    (htakes : m.Takes less memory f others t) (hg : g ∈ m.stack) :
    classes less (window (m.after f others t).data.toList g.start g.stop) =
      classes less (window m.data.toList g.start g.stop) := by
  have hr := h.rearranged_after htakes.stack htakes.perm
  have hle := (h.stacked.bounds hg).2.1
  have hpairs := h.stacked.pairwise
  rw [htakes.stack] at hg hpairs
  rcases List.mem_cons.1 hg with rfl | hg
  · exact classes_perm hless (hr.window_perm hle (Nat.le_refl _) (Nat.le_refl _))
  · rcases (List.pairwise_cons.1 hpairs).1 g hg with
      hbefore | ⟨plan, -, hstart, hsample, hstop⟩
    · rw [hr.window_eq hbefore.stop_le]
    · exact classes_perm hless (hr.window_perm hle hstart (by omega))

/-- So the frames below have as many steps left as before. -/
lemma Inv.stepsLeft_after (hless : StrictWeak less) (h : m.Inv less data lo hi)
    (htakes : m.Takes less memory f others t) :
    stepsLeft less (m.after f others t).data.toList others =
      stepsLeft less m.data.toList others := by
  refine congrArg List.sum (List.map_congr_left ?_)
  intro g hg
  have hg : g ∈ m.stack := by simp [htakes.stack, hg]
  rw [Frame.stepsLeft, h.classes_after hless htakes hg, ← Frame.stepsLeft]

namespace Paced

/-- A turn leaves only windows with two classes for later phases.

**Proof sketch.** A frame below has kept its classes. A frame that advances has kept them as well,
so that there were two before, or else it leaves the first phase, which it does only if its window
is not monotonic. The frames of a sample and of pending buckets are in their first phase, about
which nothing is claimed. -/
lemma mixed_after (hless : StrictWeak less) (h : m.Paced less data lo hi)
    (htakes : m.Takes less memory f others t) (hg : g ∈ (m.after f others t).stack)
    (horder : 1 ≤ g.phase.order) :
    2 ≤ classes less (window (m.after f others t).data.toList g.start g.stop) := by
  have hf := htakes.mem
  have hsound := htakes.sound
  have hclasses := h.inv.classes_after hless htakes hf
  rcases List.mem_append.1 hg with hg | hg
  · cases htransition : t.transition with
    | advance phase =>
      rw [htransition] at hg
      obtain rfl := List.mem_singleton.1 hg
      show 2 ≤ classes less (window (m.after f others t).data.toList f.start f.stop)
      rw [hclasses]
      rcases Nat.eq_zero_or_pos f.phase.order with hfirst | hlater
      · exact Phase.two_le_classes_of_advance hless hfirst htakes.turn htransition
      · exact h.mixed f hf hlater
    | resolve =>
      rw [htransition] at hg
      cases hg
    | descend plan =>
      rw [htransition] at hg hsound
      cases hsound with
      | descend hsampling _ =>
        rcases List.mem_cons.1 hg with rfl | hg
        · cases horder
        · obtain rfl := List.mem_singleton.1 hg
          show 2 ≤ classes less (window (m.after f others t).data.toList f.start f.stop)
          rw [hclasses]
          apply h.mixed f hf
          rw [hsampling]
          exact Nat.le_succ 1
    | split ws =>
      rw [htransition] at hg
      obtain ⟨p, -, rfl⟩ := List.mem_map.1 hg
      cases horder
    | refuse what =>
      rw [htransition] at hg
      obtain rfl := List.mem_singleton.1 hg
      rw [hclasses]
      exact h.mixed g hf horder
  · have hg : g ∈ m.stack := by simp [htakes.stack, hg]
    rw [h.inv.classes_after hless htakes hg]
    exact h.mixed g hg horder

/-- The frames that come of a frame have fewer steps left than it had, unless it was refused
memory.

**Proof sketch.** The window has the same classes as before, so a later phase of the frame is just
nearer to the end. The steps on a sample fit into the bound on the frame, since the sample has no
more than half of its elements. The windows of a split have fewer classes each, and no more of them
together. -/
theorem stepsLeft_lt (hless : StrictWeak less) (h : m.Paced less data lo hi)
    (htakes : m.Takes less memory f others t) (hnone : f.error? t.transition = none) :
    stepsLeft less (m.after f others t).data.toList (f.successors t.transition) <
      f.stepsLeft less m.data.toList := by
  have hf := htakes.mem
  have hsound := htakes.sound
  have hlength := h.inv.length_of_mem hf
  have hclasses := h.inv.classes_after hless htakes hf
  have hmixed := h.mixed f hf
  rw [← hclasses] at hmixed
  rw [Frame.stepsLeft, ← hclasses]
  cases htransition : t.transition with
  | advance phase =>
    rw [htransition] at hsound
    cases hsound with
    | advance horder hready _ =>
      rw [stepsLeft_advance]
      exact Phase.stepsLeft_lt_of_advance hmixed horder hready
  | resolve =>
    have hlong := fun horder => hlength ▸ (h.inv.holds f hf).two_le horder
    exact Phase.stepsLeft_pos hmixed hlong
  | descend plan =>
    rw [htransition] at hsound
    cases hsound with
    | descend hsampling hfits =>
      rw [hlength] at hfits
      rw [hsampling] at hmixed ⊢
      have hwithin : f.start + plan.samples ≤ f.stop := by
        have hle := (h.inv.stacked.bounds hf).2.1
        have hsamples := hfits.samples_le_self
        unfold Frame.length at hsamples
        omega
      have hfewer := classes_mono hless
        (window_subset (window (m.after f others t).data.toList f.start f.stop) 0 plan.samples)
      rw [window_window _ hwithin, Nat.add_zero] at hfewer
      rw [stepsLeft_descend]
      exact stepsLeft_lt_of_descend plan hfits.two_le hfits.samples_le (hmixed (Nat.le_succ 1))
        hfewer
  | split ws =>
    have hdivides := Phase.divides_of_turn hless (h.inv.holds f hf) htakes.turn htransition
    rw [htransition] at hsound
    cases hsound with
    | split horder hsortedBut hlengths =>
      rw [hlength] at hlengths
      have hws := hsortedBut.ascending
      have hwindows : (ws.map fun p => stepBound (p.2 - p.1)
          (classes less (window (m.after f others t).data.toList (f.start + p.1)
            (f.start + p.2)))) =
          ws.map fun p => stepBound (p.2 - p.1) (classes less (window t.window p.1 p.2)) := by
        refine List.map_congr_left ?_
        intro p hp
        rw [h.inv.window_after htakes (hws.bounds hp).2.2]
      rw [stepsLeft_split, hwindows, hclasses]
      refine stepsLeft_lt_of_split hless horder hdivides hws ?_
      intro p hp
      have := hlengths p hp
      omega
  | refuse what =>
    rw [htransition] at hnone
    cases hnone

end Paced

end Turns

namespace Paced

variable [IndexSource σ]

/-- A step keeps the pace. -/
theorem of_step (hless : StrictWeak less) (h : m.Paced less data lo hi)
    (hstep : m.step less memory = .ok (result, m')) : m'.Paced less data lo hi := by
  rcases h.inv.turn_of_step hless hstep with ⟨rfl, -⟩ | ⟨f, others, t, htakes, -, rfl⟩
  · exact h
  · refine ⟨h.inv.of_step hless hstep, ?_, ?_⟩
    · intro g hg horder
      exact h.mixed_after hless htakes hg horder
    · intro hpoisoned
      replace hpoisoned : (f.error? t.transition).isSome = false := hpoisoned
      have hlt := h.stepsLeft_lt hless htakes (by simpa using hpoisoned)
      have hsame := h.inv.stepsLeft_after hless htakes
      have hle := h.spent_le htakes.unpoisoned
      rw [htakes.stack, stepsLeft_cons] at hle
      show m.steps + 1 + stepsLeft less (m.after f others t).data.toList
        (f.successors t.transition ++ others) ≤ _
      rw [stepsLeft_append, hsame]
      omega

omit [IndexSource σ] in
/-- So does an exchange. -/
lemma of_sameWork (h : m.Paced less data lo hi) (hsame : SameWork m m') :
    m'.Paced less data lo hi where
  inv := h.inv.of_sameWork hsame
  mixed := by
    rw [hsame.stack, hsame.data]
    exact h.mixed
  spent_le := by
    rw [hsame.stack, hsame.data, hsame.steps, hsame.poisoned]
    exact h.spent_le

end Paced

/-- A machine that is set up has all steps left. -/
lemma Started.paced {data : Array α} (h : Started data lo hi m) :
    m.Paced less data.toList lo hi := by
  refine ⟨h.inv, ?_, ?_⟩
  · obtain ⟨-, -, source, rfl⟩ := h.exists_eq_initial
    intro f hf horder
    obtain rfl := List.mem_singleton.1 hf
    cases horder
  · obtain ⟨-, -, source, rfl⟩ := h.exists_eq_initial
    intro _
    show 0 + ((Frame.fresh lo hi .main).stepsLeft less data.toList + 0) ≤ _
    rw [Frame.stepsLeft_fresh, Nat.zero_add]
    exact Nat.le_refl _

variable [IndexSource σ]

/-- Every reachable machine keeps the pace. -/
theorem Reachable.paced (hless : StrictWeak less) {data : Array α}
    (h : Reachable less data lo hi m) : m.Paced less data.toList lo hi := by
  obtain ⟨m₀, events, hstarted, hreaches⟩ := h
  exact hreaches.keeps (fun h => h.of_step hless) (fun h => h.of_sameWork) hstarted.paced

/-- Few classes of ties mean few steps. As long as memory is not exhausted, a machine has made no
more steps than the bound allows for the positions that are sorted, wherever calls have led; and if
it is run, it gets done within the bound.

**Proof sketch.** Every machine that is not poisoned has made some steps and has some left, and by
`Reachable.paced` both together stay within the bound. A run comes to an end at a reachable machine
that is not poisoned, since a poisoned one has work left. -/
theorem Reachable.steps_le (hless : StrictWeak less) {data : Array α}
    (h : Reachable less data lo hi m) (hpoisoned : m.poisoned = false) :
    m.steps ≤ (9 * (hi - lo).log2 + 2) ^ (classes less (window data.toList lo hi) - 1) ∧
      ∃ r, m.run less = .ok r ∧ r.error? = none ∧ r.machine.isDone = true ∧
        r.machine.steps ≤
          (9 * (hi - lo).log2 + 2) ^ (classes less (window data.toList lo hi) - 1) := by
  have hbound : ∀ m' : Machine α σ, Reachable less data lo hi m' → m'.poisoned = false →
      m'.steps ≤ stepBound (hi - lo) (classes less (window data.toList lo hi)) :=
    fun m' h' hpoisoned' =>
      Nat.le_trans (Nat.le_add_right _ _) ((h'.paced hless).spent_le hpoisoned')
  refine ⟨hbound m h hpoisoned, ?_⟩
  obtain ⟨r, hrun, hnone, hdone⟩ := (h.inv hless).exists_run hless hpoisoned
  obtain ⟨m₀, events, hstarted, hreaches⟩ := h
  have hreachable : Reachable less data lo hi r.machine :=
    ⟨m₀, _, hstarted, hreaches.tail (.run hrun)⟩
  refine ⟨r, hrun, hnone, hdone, hbound r.machine hreachable ?_⟩
  -- a machine that is poisoned has work left
  by_contra hfailed
  exact (hreachable.inv hless).pending (by simpa using hfailed) (List.isEmpty_iff.1 hdone)

/-- Six numbers, of which there are only two different ones, after nine steps: a run makes no more
than twenty. -/
theorem Reachable.steps_le_of_six :
    ∃ m : Machine Nat WordCycle,
      Reachable (fun a b => decide (a < b)) #[2, 1, 2, 1, 1, 2] 0 6 m ∧ m.steps = 9 ∧
        m.isDone = false ∧
        ∃ r, m.run (fun a b => decide (a < b)) = .ok r ∧ r.error? = none ∧
          r.machine.isDone = true ∧ r.machine.steps ≤ 20 := by
  let less := fun a b : Nat => decide (a < b)
  let m₀ : Machine Nat WordCycle := .ofArray (.ofList [0xc0000000]) #[2, 1, 2, 1, 1, 2]
  let m₁ : Machine Nat WordCycle := { m₀ with config := ⟨1, 1, 2, 0⟩ }
  have hconfig : m₀.withConfig? ⟨1, 1, 2, 0⟩ = .ok m₁ := rfl
  let observe := fun m : Machine Nat WordCycle => (m.poisoned, m.steps, m.isDone)
  have hrun : (m₁.runFor less 9).map (fun r => observe r.machine) = .ok (false, 9, false) := by
    decide +kernel
  obtain ⟨m, hreachable, hobserved⟩ := Started.exists_reachable (.whole _) hconfig observe hrun
  obtain ⟨hpoisoned, hobserved⟩ := Prod.mk.inj hobserved
  obtain ⟨hsteps, hwork⟩ := Prod.mk.inj hobserved
  obtain ⟨-, r, hr, hnone, hdone, hle⟩ := Reachable.steps_le .natural hreachable hpoisoned
  have hbound : (9 * (6 - 0).log2 + 2) ^
      (classes less (window #[2, 1, 2, 1, 1, 2].toList 0 6) - 1) = 20 := by decide +kernel
  exact ⟨m, hreachable, hsteps, hwork, r, hr, hnone, hdone, hbound ▸ hle⟩

end Machine

end SampleSort
