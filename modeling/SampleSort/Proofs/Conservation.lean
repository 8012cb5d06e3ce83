import SampleSort.Proofs.Transition
import SampleSort.Random.Cycle

set_option relaxedAutoImplicit false
set_option autoImplicit false

/-!
# Nothing is lost, and nothing is touched outside the window

A turn permutes its window, and a step writes to the window of the first frame only. This does not
depend on the predicate that elements are compared by. Even if that is no ordering, labels are
numbers of buckets, the bucket sizes add up to the length of the window, and so every turn succeeds;
only whether the window is sorted in the end is another matter.

## Main definitions

* `SampleSort.Phase.AccountsFor` — what a phase has recorded covers its whole window.
* `SampleSort.Phase.ReadsOnly` — the turns that leave the window as it is.
* `SampleSort.Turn.Conserves` — a turn that loses nothing.
* `SampleSort.Machine.Accounted` — the invariant that carries this from step to step.
* `SampleSort.Machine.Conserves` — what a step does to the data.

## Main results

* `SampleSort.Phase.AccountsFor.exists_turn` — a turn succeeds and loses nothing.
* `SampleSort.Machine.Accounted.step_cases` — all that a step can do.
* `SampleSort.Machine.Reachable.conserves` — the data of every reachable machine is conserved.
-/

namespace SampleSort

variable {α σ : Type} {less : α → α → Bool} {v : List α} {n : Nat}

/-! ### Turns under any predicate -/

/-- What a phase of the work on a window of `n` elements has recorded covers all of them. -/
def Phase.AccountsFor (n : Nat) : Phase α → Prop
  | simpleCases => True
  | baseCase => True
  | sampling => 2 ≤ n
  | awaiting plan => plan.Fits n
  | classification _ splitters counts =>
    splitters.length + 1 ≤ maxBuckets ∧ counts.toList = List.replicate (splitters.length + 1) 0
  | partitioning _ splitters counts labels =>
    splitters.length + 1 ≤ maxBuckets ∧ labels.length = n ∧
      (∀ label ∈ labels, label.toNat < splitters.length + 1) ∧
      counts.toList = tally (splitters.length + 1) (labels.map UInt8.toNat)
  | recursion _ splitters _ starts =>
    ∃ sizes, starts = offsets sizes ∧ sizes.length = splitters.length + 1 ∧ sizes.sum = n

/-- What a transition records about a window of `n` elements covers all of them. -/
def Transition.AccountsFor (n : Nat) : Transition α → Prop
  | advance phase => phase.AccountsFor n
  | descend plan => plan.Fits n
  | _ => True

/-- The turn of the phase only looks at the window `v`. -/
def Phase.ReadsOnly (less : α → α → Bool) (config : Config) (v : List α) : Phase α → Prop
  | simpleCases => (Shape.detect less v).value ≠ .reversed
  | baseCase => config.threshold < v.length
  | awaiting _ => True
  | classification .. => True
  | _ => False

/-- A turn of the phase on the window `v` loses nothing, and changes nothing where it only looks or
has no memory. -/
structure Turn.Conserves (less : α → α → Bool) (config : Config) (phase : Phase α) (v : List α)
    (t : Turn α σ) : Prop where
  /-- The window is permuted. -/
  perm : t.window.Perm v
  /-- What the next phase is given covers the window. -/
  accounts : t.transition.AccountsFor v.length
  /-- A turn that only looks leaves the window as it is. -/
  readsOnly : phase.ReadsOnly less config v → t.window = v
  /-- So does one that is refused memory. -/
  refused : ∀ what, t.transition = .refuse what → t.window = v

section Turns

variable [IndexSource σ] {config : Config} {phase : Phase α}

/-- The work of a phase succeeds and loses nothing, whatever the predicate.

**Proof sketch.** The labels are numbers of buckets because the binary search stays within the
splitters; so a placement has room for every element, and the buckets it leaves make up the
window. Whether the elements of a bucket belong there does not matter for this. -/
theorem Phase.AccountsFor.exists_work (less : α → α → Bool) (hc : config.Valid)
    (h : phase.AccountsFor v.length) (strategy : Strategy) (source : σ) :
    ∃ t, phase.work less config strategy source v = .ok t ∧
      t.Conserves less config phase v := by
  cases phase with
  | simpleCases =>
    by_cases hshape : (Shape.detect less v).value = .unsorted
    · exact ⟨_, work_simpleCases_eq hshape, .refl v, trivial, fun _ => rfl, nofun⟩
    · exact ⟨_, work_simpleCases_resolve_eq hshape, Shape.arrange_perm _ v, trivial,
        fun hne => Shape.arrange_of_ne_reversed hne v, nofun⟩
  | baseCase =>
    by_cases hshort : v.length ≤ config.threshold
    · exact ⟨_, work_baseCase_resolve_eq hshort, insertionSort_perm less v, trivial,
        fun hlong => absurd hshort (Nat.not_le.2 hlong), nofun⟩
    · have hpos := Config.threshold_pos hc
      have htwo : 2 ≤ v.length := by omega
      exact ⟨_, work_baseCase_eq hshort, .refl v, htwo, fun _ => rfl, nofun⟩
  | sampling =>
    obtain ⟨plan, hplan, hfits⟩ := Config.exists_samplingPlan hc h
    obtain ⟨w, source', hdraw, hperm⟩ := exists_drawSample hfits.samples_le_self source
    exact ⟨_, work_sampling_eq hplan hdraw, hperm, hfits, nofun, nofun⟩
  | awaiting plan =>
    have hfits : plan.Fits v.length := h
    have hsample := slice?_eq_window (Nat.zero_le plan.samples) hfits.samples_le_self
    have hlength := Nat.le_trans
      (length_chooseSplitters_lt less hfits (window v 0 plan.samples)) hfits.buckets_le
    obtain ⟨counts, hcounts, hzeros⟩ := Histogram.exists_reset_empty hlength
    exact ⟨_, work_awaiting_eq hsample rfl hcounts, .refl v, ⟨hlength, hzeros⟩, fun _ => rfl,
      nofun⟩
  | classification plan splitters counts =>
    obtain ⟨hlength, hzeros⟩ := h
    obtain ⟨labelling, hlabelling, hlabels, hcounts⟩ :=
      exists_labelWindow_bucketOf less hzeros v
    refine ⟨_, work_classification_eq hlabelling, .refl v, ⟨hlength, ?_, ?_, ?_⟩, fun _ => rfl,
      nofun⟩
    · simpa using congrArg List.length hlabels
    · exact label_lt_of_map_eq hlabels fun x => Nat.lt_succ_of_le (bucketOf_le less splitters x)
    · rw [hcounts, hlabels]
  | partitioning plan splitters counts labels =>
    obtain ⟨hlength, hsame, hlt, hcounts⟩ := h
    obtain ⟨partitioned, sizes, hpartitioned, hperm, hstarts, hsizes, hsum⟩ :=
      strategy.exists_partition_perm less hlength hsame hlt hcounts
    exact ⟨_, work_partitioning_eq hpartitioned, hperm, ⟨sizes, hstarts, hsizes, hsum⟩, nofun,
      nofun⟩
  | recursion plan splitters counts starts =>
    obtain ⟨sizes, rfl, hsizes, hsum⟩ := h
    obtain ⟨settled, hsettled, hperm⟩ := exists_settleBuckets_perm (b := 0) less config.threshold
      (by rw [Nat.zero_add, hsizes]) (show 0 + sizes.sum = v.length by rw [Nat.zero_add, hsum])
    exact ⟨_, work_recursion_eq hsettled, hperm, trivial, nofun, nofun⟩

/-- So does a turn, where memory may run out. -/
theorem Phase.AccountsFor.exists_turn (less : α → α → Bool) (hc : config.Valid)
    (h : phase.AccountsFor v.length) (strategy : Strategy) (memory : Memory) (source : σ) :
    ∃ t, phase.turn less config strategy memory source v = .ok t ∧
      t.Conserves less config phase v := by
  unfold Phase.turn
  split
  · exact ⟨_, rfl, .refl v, trivial, fun _ => rfl, fun _ _ => rfl⟩
  · exact h.exists_work less hc strategy source

end Turns

/-- The frames that come of a frame cover their windows. -/
lemma Transition.AccountsFor.of_mem {f g : Frame α} {transition : Transition α}
    (h : transition.AccountsFor f.length) (hf : f.phase.AccountsFor f.length)
    (hg : g ∈ f.successors transition) : g.phase.AccountsFor g.length := by
  cases transition with
  | advance phase =>
    obtain rfl := List.mem_singleton.1 hg
    exact h
  | resolve => cases hg
  | descend plan =>
    rcases List.mem_cons.1 hg with rfl | hg
    · trivial
    · obtain rfl := List.mem_singleton.1 hg
      exact h
  | split windows =>
    obtain ⟨w, _, rfl⟩ := List.mem_map.1 hg
    trivial
  | refuse what =>
    obtain rfl := List.mem_singleton.1 hg
    exact hf

/-! ### Steps -/

namespace Machine

variable {m m' : Machine α σ} {f : Frame α} {others : List (Frame α)} {lo hi : Nat}
  {memory : Memory} {result : Except SortError (Option Event)} {events : List Event}

/-- Pending windows lie inside the positions from `lo` to `hi`, and their phases account for
them. -/
structure Accounted (lo hi : Nat) (m : Machine α σ) : Prop where
  /-- Windows lie where they should. -/
  bounded : m.Bounded lo hi
  /-- The configuration was accepted. -/
  valid : m.config.Valid
  /-- What is recorded about a window covers all of it. -/
  accounts : ∀ f ∈ m.stack, f.phase.AccountsFor f.length

/-- What a step that leads from one machine to another and has this result does to the data. -/
structure Conserves (less : α → α → Bool) (m m' : Machine α σ)
    (result : Except SortError (Option Event)) : Prop where
  /-- Without a frame to work on, nothing happens. -/
  idle : m.poisoned = true ∨ m.stack = [] → m'.data = m.data
  /-- Nothing changes outside the window of the first frame. -/
  outside : ∀ f others, m.stack = f :: others → ∀ p, p < f.start ∨ f.stop ≤ p →
    m'.data[p]? = m.data[p]?
  /-- The window of the first frame is permuted. -/
  inside : ∀ f others, m.stack = f :: others →
    (window m'.data.toList f.start f.stop).Perm (window m.data.toList f.start f.stop)
  /-- A step that only looks at the window changes nothing. -/
  readsOnly : ∀ f others, m.stack = f :: others →
    f.phase.ReadsOnly less m.config (window m.data.toList f.start f.stop) → m'.data = m.data
  /-- Neither does a step that fails. -/
  failed : ∀ error, result = .error error → m'.data = m.data

/-- A step that leaves the data as it is conserves it. -/
lemma conserves_of_data_eq (h : m'.data = m.data) : m.Conserves less m' result where
  idle _ := h
  outside f others _ p _ := by rw [h]
  inside f others _ := by rw [h]
  readsOnly _ _ _ _ := h
  failed _ _ := h

namespace Accounted

/-- Every frame can read its window. -/
lemma readWindow (h : m.Accounted lo hi) (hf : f ∈ m.stack) :
    readWindow? m.data f.start f.stop = .ok (window m.data.toList f.start f.stop) ∧
      (window m.data.toList f.start f.stop).length = f.length := by
  obtain ⟨-, hle, hstop⟩ := h.bounded.bounds f hf
  have hsize : f.stop ≤ m.data.toList.length := by
    rw [Array.length_toList]
    exact Nat.le_trans hstop h.bounded.le_size
  exact ⟨by rw [readWindow?_eq, slice?_eq_window hle hsize], length_window hsize⟩

/-- A turn that loses nothing rearranges the window of the first frame. -/
lemma rearranged_after (h : m.Accounted lo hi) (hstack : m.stack = f :: others) {t : Turn α σ}
    (hperm : t.window.Perm (window m.data.toList f.start f.stop)) :
    Rearranged f.start f.stop m.data.toList (m.after f others t).data.toList := by
  obtain ⟨-, hle, hstop⟩ := h.bounded.bounds f (by simp [hstack])
  obtain ⟨-, hlength⟩ := h.readWindow (f := f) (by simp [hstack])
  have hsize := h.bounded.le_size
  have hsame := hperm.length_eq.trans hlength
  unfold Frame.length at hsame
  show Rearranged _ _ _ (writeWindow m.data f.start t.window).toList
  rw [toList_writeWindow (by omega)]
  exact .splice hle (by rw [Array.length_toList]; omega) hperm

/-- A turn that leaves the window as it is leaves the data as it is. -/
lemma data_after (h : m.Accounted lo hi) (hstack : m.stack = f :: others) {t : Turn α σ}
    (hsame : t.window = window m.data.toList f.start f.stop) :
    (m.after f others t).data = m.data := by
  obtain ⟨hread, -⟩ := h.readWindow (f := f) (by simp [hstack])
  show writeWindow m.data f.start t.window = m.data
  rw [hsame, writeWindow_self hread]

variable [IndexSource σ]

/-- The turn of every frame succeeds and loses nothing. -/
lemma exists_turn_of_mem (less : α → α → Bool) (h : m.Accounted lo hi) (hf : f ∈ m.stack)
    (memory : Memory) :
    ∃ t : Turn α σ, f.phase.turn less m.config m.strategy memory m.source
        (window m.data.toList f.start f.stop) = .ok t ∧
      t.Conserves less m.config f.phase (window m.data.toList f.start f.stop) := by
  have haccounts := h.accounts f hf
  rw [← (h.readWindow hf).2] at haccounts
  exact haccounts.exists_turn less h.valid m.strategy memory m.source

/-- The turn of the first frame succeeds and loses nothing, and a step of the machine is this
turn. -/
lemma exists_turn (less : α → α → Bool) (h : m.Accounted lo hi) (hstack : m.stack = f :: others)
    (hpoisoned : m.poisoned = false) (memory : Memory) :
    ∃ t : Turn α σ, m.step less memory = .ok (answer f others t, m.after f others t) ∧
      t.Conserves less m.config f.phase (window m.data.toList f.start f.stop) := by
  have hf : f ∈ m.stack := by simp [hstack]
  obtain ⟨t, hturn, hconserves⟩ := h.exists_turn_of_mem less hf memory
  exact ⟨t, step_of_turn hpoisoned hstack (h.readWindow hf).1 hturn, hconserves⟩

/-- A step has a result, whatever the predicate. -/
theorem exists_step (less : α → α → Bool) (h : m.Accounted lo hi) (memory : Memory) :
    ∃ result m', m.step less memory = .ok (result, m') := by
  rcases halted_or_pending less memory m with
    ⟨result, hsame, -⟩ | ⟨hpoisoned, f, others, hstack⟩
  · exact ⟨result, m, hsame⟩
  · obtain ⟨t, hturn, -⟩ := h.exists_turn less hstack hpoisoned memory
    exact ⟨_, _, hturn⟩

/-- All that a step can do: nothing, if the machine is poisoned or done, or else a turn of the first
frame that loses nothing. -/
theorem step_cases (h : m.Accounted lo hi) (hstep : m.step less memory = .ok (result, m')) :
    m' = m ∨
      ∃ (f : Frame α) (others : List (Frame α)) (t : Turn α σ), m.poisoned = false ∧
        m.stack = f :: others ∧ result = answer f others t ∧ m' = m.after f others t ∧
        t.Conserves less m.config f.phase (window m.data.toList f.start f.stop) := by
  rcases halted_or_pending less memory m with
    ⟨result', hsame, -⟩ | ⟨hpoisoned, f, others, hstack⟩
  · rw [hsame] at hstep
    obtain ⟨-, rfl⟩ := Prod.mk.inj (Except.ok.inj hstep)
    exact Or.inl rfl
  · right
    obtain ⟨t, hturn, hconserves⟩ := h.exists_turn less hstack hpoisoned memory
    rw [hturn] at hstep
    obtain ⟨rfl, rfl⟩ := Prod.mk.inj (Except.ok.inj hstep)
    exact ⟨f, others, t, hpoisoned, hstack, rfl, rfl, hconserves⟩

/-- A step rearranges the window of the first frame. -/
theorem rearranged_of_step (h : m.Accounted lo hi) (hstack : m.stack = f :: others)
    (hstep : m.step less memory = .ok (result, m')) :
    Rearranged f.start f.stop m.data.toList m'.data.toList := by
  rcases h.step_cases hstep with rfl | ⟨g, others', t, -, hg, -, rfl, hconserves⟩
  · exact .refl _ _ _
  · obtain ⟨rfl, rfl⟩ := List.cons.inj (hstack.symm.trans hg)
    exact h.rearranged_after hstack hconserves.perm

/-- A step conserves the data. -/
theorem conserves_of_step (h : m.Accounted lo hi)
    (hstep : m.step less memory = .ok (result, m')) : m.Conserves less m' result := by
  rcases h.step_cases hstep with
    rfl | ⟨f, others, t, hpoisoned, hstack, rfl, rfl, hconserves⟩
  · exact conserves_of_data_eq rfl
  · have hr := h.rearranged_after hstack hconserves.perm
    refine ⟨?_, ?_, ?_, ?_, ?_⟩
    · rintro (hp | hnil)
      · simp [hpoisoned] at hp
      · simp [hstack] at hnil
    · intro g others' hg p hp
      obtain ⟨rfl, rfl⟩ := List.cons.inj (hstack.symm.trans hg)
      exact hr.getElem?_eq hp
    · intro g others' hg
      obtain ⟨rfl, rfl⟩ := List.cons.inj (hstack.symm.trans hg)
      exact hr.window_perm (h.bounded.bounds f (by simp [hstack])).2.1 (Nat.le_refl _)
        (Nat.le_refl _)
    · intro g others' hg hreads
      obtain ⟨rfl, rfl⟩ := List.cons.inj (hstack.symm.trans hg)
      exact h.data_after hstack (hconserves.readsOnly hreads)
    · intro error herror
      refine h.data_after hstack ?_
      cases htransition : t.transition with
      | refuse what => exact hconserves.refused what htransition
      | advance => simp [answer, Frame.error?, htransition] at herror
      | resolve => simp [answer, Frame.error?, htransition] at herror
      | descend => simp [answer, Frame.error?, htransition] at herror
      | split => simp [answer, Frame.error?, htransition] at herror

/-- A step keeps the books. -/
theorem of_step (h : m.Accounted lo hi) (hstep : m.step less memory = .ok (result, m')) :
    m'.Accounted lo hi := by
  have hbounded := h.bounded.of_step hstep
  rcases h.step_cases hstep with rfl | ⟨f, others, t, -, hstack, -, rfl, hconserves⟩
  · exact h
  · have hf : f ∈ m.stack := by simp [hstack]
    refine ⟨hbounded, h.valid, ?_⟩
    intro g hg
    rcases List.mem_append.1 hg with hg | hg
    · have haccounts := hconserves.accounts
      rw [(h.readWindow hf).2] at haccounts
      exact haccounts.of_mem (h.accounts f hf) hg
    · exact h.accounts g (by simp [hstack, hg])

/-- Any number of steps has answers. -/
theorem exists_stepThrough (less : α → α → Bool) (h : m.Accounted lo hi)
    (memories : List Memory) :
    ∃ answers m', m.stepThrough less memories = .ok (answers, m') := by
  induction memories generalizing m with
  | nil => exact ⟨[], m, rfl⟩
  | cons memory memories ih =>
    obtain ⟨answer, m₁, hstep⟩ := h.exists_step less memory
    obtain ⟨answers, m', hrest⟩ := ih (h.of_step hstep)
    refine ⟨answer :: answers, m', ?_⟩
    rw [stepThrough, hstep]
    simp only [bind, Except.bind, hrest]
    rfl

/-- A run for a number of steps ends in a record. -/
theorem exists_runFor (less : α → α → Bool) (h : m.Accounted lo hi) (budget : Nat) :
    ∃ r, m.runFor less budget = .ok r := by
  suffices hfrom : ∀ (seen : List Event) (taken : Nat),
      ∃ r, runFrom less (fun event _ => event) (fun _ => false) seen taken budget m = .ok r from
    hfrom [] 0
  induction budget generalizing m with
  | zero => exact fun seen taken => ⟨_, rfl⟩
  | succ budget ih =>
    intro seen taken
    obtain ⟨answer, m', hstep⟩ := h.exists_step less .available
    rw [runFrom, if_neg Bool.false_ne_true, hstep]
    rcases answer with error | event?
    · exact ⟨_, rfl⟩
    · cases event? with
      | none => exact ⟨_, rfl⟩
      | some event => exact ih (h.of_step hstep) (event :: seen) (taken + 1)

omit [IndexSource σ] in
/-- So does an exchange. -/
lemma of_sameWork (h : m.Accounted lo hi) (hsame : SameWork m m') : m'.Accounted lo hi := by
  refine ⟨h.bounded.of_sameWork hsame, hsame.valid h.valid, ?_⟩
  rw [hsame.stack]
  exact h.accounts

end Accounted

/-- A machine that is set up has recorded nothing yet. -/
lemma Started.accounted {data : Array α} (h : Started data lo hi m) : m.Accounted lo hi := by
  refine ⟨h.bounded, ?_, ?_⟩
  · obtain ⟨-, -, source, rfl⟩ := h.exists_eq_initial
    rfl
  · obtain ⟨-, -, source, rfl⟩ := h.exists_eq_initial
    intro f hf
    obtain rfl := List.mem_singleton.1 hf
    trivial

/-- So has one that is set up with all that can be exchanged. -/
lemma accounted_of_setUp {source : σ} {config : Config} {strategy : Strategy} {data : Array α}
    (h : setUp source config strategy data lo hi = .ok m) : m.Accounted lo hi := by
  obtain ⟨m₀, hstarted, hsame⟩ := exists_started_of_setUp h
  exact hstarted.accounted.of_sameWork hsame

variable [IndexSource σ]

/-- In every reachable machine, whatever its predicate, what is recorded about a window covers all
of it, and the data is rearranged only where it is to be sorted. -/
theorem Reachable.accounted {data : Array α} (h : Reachable less data lo hi m) :
    m.Accounted lo hi ∧ Rearranged lo hi data.toList m.data.toList := by
  obtain ⟨m₀, events, hstarted, hreaches⟩ := h
  refine hreaches.keeps
    (P := fun m => m.Accounted lo hi ∧ Rearranged lo hi data.toList m.data.toList) ?_ ?_ ?_
  · rintro m m' memory result ⟨h, hr⟩ hstep
    refine ⟨h.of_step hstep, hr.trans ?_⟩
    rcases h.step_cases hstep with rfl | ⟨f, others, t, -, hstack, -, rfl, hconserves⟩
    · exact .refl _ _ _
    · obtain ⟨hlo, -, hhi⟩ := h.bounded.bounds f (by simp [hstack])
      exact (h.rearranged_after hstack hconserves.perm).mono hlo hhi
  · rintro m m' ⟨h, hr⟩ hsame
    refine ⟨h.of_sameWork hsame, ?_⟩
    rw [hsame.data]
    exact hr
  · refine ⟨hstarted.accounted, ?_⟩
    obtain ⟨-, -, source, rfl⟩ := hstarted.exists_eq_initial
    exact .refl _ _ _

/-- Nothing is ever lost, and nothing is touched outside the positions that are sorted: however a
machine has been driven, these hold a permutation of what they held at the beginning. Every step
from there has a result; it permutes the window of the first frame, touches nothing else, and
leaves all as it is if it only looks at the window or fails. The predicate need not be an
ordering. -/
theorem Reachable.conserves {data : Array α} (h : Reachable less data lo hi m) :
    (window m.data.toList lo hi).Perm (window data.toList lo hi) ∧
      (∀ p, p < lo ∨ hi ≤ p → m.data[p]? = data[p]?) ∧
      ∀ memory, ∃ result m', m.step less memory = .ok (result, m') ∧
        m.Conserves less m' result := by
  obtain ⟨haccounted, hr⟩ := h.accounted
  have hle : lo ≤ hi := by
    obtain ⟨m₀, events, hstarted, -⟩ := h
    exact hstarted.exists_eq_initial.1
  refine ⟨hr.window_perm hle (Nat.le_refl _) (Nat.le_refl _), fun p => hr.getElem?_eq, ?_⟩
  intro memory
  obtain ⟨result, m', hstep⟩ := haccounted.exists_step less memory
  exact ⟨result, m', hstep, haccounted.conserves_of_step hstep⟩

/-- Four numbers after four steps by a predicate that is no ordering. -/
theorem Reachable.conserves_of_four :
    ∃ m : Machine Nat WordCycle, Reachable (fun a b => decide (a ≤ b)) #[2, 4, 1, 3] 0 4 m ∧
      m.stack.map Frame.stage = [.sampling] ∧
      (window m.data.toList 0 4).Perm [2, 4, 1, 3] ∧
      ∃ result m', m.step (fun a b => decide (a ≤ b)) .available = .ok (result, m') ∧
        m.Conserves (fun a b => decide (a ≤ b)) m' result := by
  let less := fun a b : Nat => decide (a ≤ b)
  let m₀ : Machine Nat WordCycle := .ofArray (.ofList [0xc0000000]) #[2, 4, 1, 3]
  let m₁ : Machine Nat WordCycle := { m₀ with config := ⟨1, 1, 1, 0⟩ }
  have hconfig : m₀.withConfig? ⟨1, 1, 1, 0⟩ = .ok m₁ := rfl
  have hstages : (m₁.runFor less 4).map (fun r => r.machine.stack.map Frame.stage) =
      .ok [.sampling] := by decide +kernel
  obtain ⟨m, hreachable, hstack⟩ :=
    Started.exists_reachable (.whole _) hconfig (fun m => m.stack.map Frame.stage) hstages
  obtain ⟨hperm, -, hsteps⟩ := Reachable.conserves hreachable
  exact ⟨m, hreachable, hstack, hperm, hsteps .available⟩

end Machine

end SampleSort
