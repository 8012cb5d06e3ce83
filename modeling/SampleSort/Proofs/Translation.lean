import SampleSort.Proofs.Conservation
import SampleSort.Random.Cycle

set_option relaxedAutoImplicit false
set_option autoImplicit false

/-!
# Sorting a window is sorting a copy of it

A frame says where in the sequence its window begins, but all that a turn finds out about the window
is counted from there. So a machine that sorts the positions from `lo` to `hi` of a sequence goes
in lockstep with one that sorts a copy of these positions: the answers to its steps and its frames
are those of the other, further up by `lo`.

## Main definitions

* `SampleSort.Frame.shift`, `SampleSort.Event.shift`, `SampleSort.SortError.shift` — the same,
  further up.
* `SampleSort.Machine.shiftAnswer` — the answer to a step, further up.
* `SampleSort.Machine.Embedded` — a machine that does the work of another in a window.

## Main results

* `SampleSort.Machine.Embedded.exists_step` — a step of the one is a step of the other.
* `SampleSort.Machine.Embedded.exists_stepThrough` — so it is with any number of steps.
* `SampleSort.Machine.setUp_lockstep` — a window is sorted as a copy of it is.
-/

namespace SampleSort

variable {α σ : Type} {less : α → α → Bool} {lo hi : Nat}

/-! ### Further up -/

/-- The frame whose window lies further up by `k` positions. -/
def Frame.shift (k : Nat) (f : Frame α) : Frame α :=
  { f with start := k + f.start, stop := k + f.stop }

/-- The event of a step whose window lies further up by `k` positions. -/
def Event.shift (k : Nat) (e : Event) : Event :=
  { e with start := k + e.start, stop := k + e.stop }

/-- The error of a step whose window lies further up by `k` positions. Only an error for want of
memory names a window that the machine works on. -/
def SortError.shift (k : Nat) : SortError → SortError
  | .allocation what start stop => .allocation what (k + start) (k + stop)
  | error => error

namespace Frame

variable (k : Nat) (f : Frame α)

@[simp] lemma start_shift : (f.shift k).start = k + f.start := rfl

@[simp] lemma stop_shift : (f.shift k).stop = k + f.stop := rfl

@[simp] lemma role_shift : (f.shift k).role = f.role := rfl

@[simp] lemma phase_shift : (f.shift k).phase = f.phase := rfl

@[simp] lemma stage_shift : (f.shift k).stage = f.stage := rfl

/-- What comes of a frame further up is further up. Bounds of buckets and the length of a sample are
counted from the frame's start, so that the shift is made once. -/
@[simp] lemma successors_shift (transition : Transition α) :
    (f.shift k).successors transition = (f.successors transition).map (shift k) := by
  cases transition with
  | advance phase => rfl
  | resolve => rfl
  | descend plan => simp [successors, shift, fresh, Nat.add_assoc]
  | split windows => simp [successors, shift, fresh, Nat.add_assoc]
  | refuse what => rfl

/-- The error of a frame further up is further up. -/
@[simp] lemma error?_shift (transition : Transition α) :
    (f.shift k).error? transition = (f.error? transition).map (SortError.shift k) := by
  cases transition <;> rfl

end Frame

namespace Machine

/-- The answer to a step whose window lies further up by `k` positions. -/
def shiftAnswer (k : Nat) :
    Except SortError (Option Event) → Except SortError (Option Event)
  | .ok event? => .ok (event?.map (Event.shift k))
  | .error error => .error (error.shift k)

/-- The answer to a turn of a frame further up is further up. -/
lemma answer_shift (k : Nat) (f : Frame α) (others : List (Frame α)) (t : Turn α σ) :
    answer (f.shift k) (others.map (Frame.shift k)) t = shiftAnswer k (answer f others t) := by
  unfold answer
  rw [Frame.error?_shift]
  cases f.error? t.transition with
  | none => simp [shiftAnswer, Event.shift]
  | some error => rfl

/-! ### Lockstep -/

/-- What the machine `m` does at the positions from `lo` to `hi` of its data, `inner` does with all
of its data. -/
structure Embedded (lo hi : Nat) (inner m : Machine α σ) : Prop where
  /-- The data of the one stands in that of the other. -/
  data : m.data.extract lo hi = inner.data
  /-- The frames are the same ones, further up. -/
  stack : m.stack = inner.stack.map (Frame.shift lo)
  /-- The same is drawn next. -/
  source : m.source = inner.source
  /-- The machines are configured in the same way. -/
  config : m.config = inner.config
  /-- They partition in the same way. -/
  strategy : m.strategy = inner.strategy
  /-- They have taken equally many steps. -/
  steps : m.steps = inner.steps
  /-- They fail at the same time. -/
  poisoned : m.poisoned = inner.poisoned

namespace Embedded

variable {inner inner' m : Machine α σ} {f : Frame α} {others : List (Frame α)} {memory : Memory}
  {result : Except SortError (Option Event)}

/-- The elements of the embedded machine are a window. -/
lemma toList_eq (h : Embedded lo hi inner m) :
    inner.data.toList = window m.data.toList lo hi := by
  rw [← h.data]
  simp [window, List.extract_eq_take_drop, List.drop_take]

/-- There are as many positions as the embedded machine has elements. -/
lemma size_eq (h : Embedded lo hi inner m) (hhi : hi ≤ m.data.size) :
    inner.data.size = hi - lo := by
  rw [← Array.length_toList, h.toList_eq, length_window (by simpa using hhi)]

/-- The window that a frame reads stands further up in the other machine. -/
lemma readWindow?_eq (h : Embedded lo hi inner m) (hle : lo ≤ hi) (hhi : hi ≤ m.data.size)
    {start stop : Nat} {v : List α} (hread : readWindow? inner.data start stop = .ok v) :
    readWindow? m.data (lo + start) (lo + stop) = .ok v := by
  rw [SampleSort.readWindow?_eq] at hread ⊢
  obtain ⟨⟨hstart, hstop⟩, hv⟩ := slice?_eq_ok_iff.1 hread
  rw [Array.length_toList, h.size_eq hhi] at hstop
  rw [slice?_eq_window (by omega) (by rw [Array.length_toList]; omega),
    ← window_window m.data.toList (show lo + stop ≤ hi by omega), ← h.toList_eq]
  exact congrArg Except.ok hv

/-- What a frame writes is written further up by the other machine. -/
lemma extract_writeWindow (h : Embedded lo hi inner m) (hle : lo ≤ hi) (hhi : hi ≤ m.data.size)
    {start : Nat} {w : List α} (hw : start + w.length ≤ inner.data.size) :
    (writeWindow m.data (lo + start) w).extract lo hi = writeWindow inner.data start w := by
  have hsize := h.size_eq hhi
  have hinside : lo + start + w.length ≤ hi := by omega
  have hlength : hi ≤ m.data.toList.length := by simpa using hhi
  apply Array.toList_inj.1
  calc ((writeWindow m.data (lo + start) w).extract lo hi).toList
      = window (writeWindow m.data (lo + start) w).toList lo hi := by
        simp [window, List.extract_eq_take_drop, List.drop_take]
    _ = window (splice m.data.toList (lo + start) w) lo hi := by
        rw [toList_writeWindow (by omega)]
    _ = splice (window m.data.toList lo hi) start w := window_splice_inside hinside hlength
    _ = (writeWindow inner.data start w).toList := by
        rw [toList_writeWindow hw, h.toList_eq]

/-- Turns of frames that are further up by `lo`, with the same outcome, lead from an embedded
machine to an embedded machine. -/
lemma after (h : Embedded lo hi inner m) (hle : lo ≤ hi) (hhi : hi ≤ m.data.size)
    {t : Turn α σ} (ht : f.start + t.window.length ≤ inner.data.size) :
    Embedded lo hi (inner.after f others t)
      (m.after (f.shift lo) (others.map (Frame.shift lo)) t) where
  data := h.extract_writeWindow hle hhi ht
  stack := by simp [Machine.after]
  source := rfl
  config := h.config
  strategy := h.strategy
  steps := congrArg (· + 1) h.steps
  poisoned := by simp [Machine.after]

variable [IndexSource σ]

/-- A step of the embedded machine is a step of the other, further up.

**Proof sketch.** The first frames have the same elements in their windows, and they are in the same
phase, so their turns are the same one. It keeps the length of the window, and so what it writes
is written to the same place in the window of the other machine. -/
theorem exists_step (h : Embedded lo hi inner m) (hle : lo ≤ hi) (hhi : hi ≤ m.data.size)
    (haccounted : inner.Accounted 0 (hi - lo))
    (hstep : inner.step less memory = .ok (result, inner')) :
    ∃ m', m.step less memory = .ok (shiftAnswer lo result, m') ∧ Embedded lo hi inner' m' ∧
      m'.data.size = m.data.size := by
  by_cases hpoisoned : inner.poisoned = true
  · simp only [step, hpoisoned, if_true] at hstep
    obtain ⟨rfl, rfl⟩ := Prod.mk.inj (Except.ok.inj hstep)
    refine ⟨m, ?_, h, rfl⟩
    simp only [step, h.poisoned, hpoisoned, if_true]
    rfl
  · replace hpoisoned : inner.poisoned = false := by simpa using hpoisoned
    cases hstack : inner.stack with
    | nil =>
      rw [step_of_done less memory hpoisoned (List.isEmpty_iff.2 hstack)] at hstep
      obtain ⟨rfl, rfl⟩ := Prod.mk.inj (Except.ok.inj hstep)
      have hdone : m.isDone = true := by simp [isDone, h.stack, hstack]
      exact ⟨m, step_of_done less memory (h.poisoned.trans hpoisoned) hdone, h, rfl⟩
    | cons f others =>
      have hf : f ∈ inner.stack := by simp [hstack]
      obtain ⟨hread, hlength⟩ := haccounted.readWindow hf
      obtain ⟨t, hturn, hconserves⟩ := haccounted.exists_turn_of_mem less hf memory
      rw [step_of_turn hpoisoned hstack hread hturn] at hstep
      obtain ⟨rfl, rfl⟩ := Prod.mk.inj (Except.ok.inj hstep)
      have hstack' : m.stack = f.shift lo :: others.map (Frame.shift lo) := by
        rw [h.stack, hstack, List.map_cons]
      have hread' := h.readWindow?_eq hle hhi hread
      have hturn' : (f.shift lo).phase.turn less m.config m.strategy memory m.source
          (window inner.data.toList f.start f.stop) = .ok t := by
        rw [h.config, h.strategy, h.source]
        exact hturn
      have hwithin : f.start + t.window.length ≤ inner.data.size := by
        obtain ⟨-, hstart, hstop⟩ := haccounted.bounded.bounds f hf
        rw [hconserves.perm.length_eq, hlength, h.size_eq hhi, Frame.length]
        omega
      refine ⟨m.after (f.shift lo) (others.map (Frame.shift lo)) t, ?_, h.after hle hhi hwithin,
        size_writeWindow _ _ _⟩
      rw [step_of_turn (h.poisoned.trans hpoisoned) hstack' hread' hturn', answer_shift]

/-- Any number of steps of the embedded machine are steps of the other, further up. -/
theorem exists_stepThrough (h : Embedded lo hi inner m) (hle : lo ≤ hi) (hhi : hi ≤ m.data.size)
    (haccounted : inner.Accounted 0 (hi - lo)) {memories : List Memory}
    {answers : List (Except SortError (Option Event))}
    (hsteps : inner.stepThrough less memories = .ok (answers, inner')) :
    ∃ m', m.stepThrough less memories = .ok (answers.map (shiftAnswer lo), m') ∧
      Embedded lo hi inner' m' := by
  induction memories generalizing inner m answers with
  | nil =>
    obtain ⟨rfl, rfl⟩ := Prod.mk.inj (Except.ok.inj hsteps)
    exact ⟨m, rfl, h⟩
  | cons memory memories ih =>
    obtain ⟨⟨result, inner₁⟩, hstep, hsteps⟩ := exists_ok_of_bind hsteps
    obtain ⟨⟨results, inner₂⟩, hrest, hsteps⟩ := exists_ok_of_bind hsteps
    obtain ⟨rfl, rfl⟩ := Prod.mk.inj (Except.ok.inj hsteps)
    obtain ⟨m₁, hstep', h₁, hsize⟩ := h.exists_step hle hhi haccounted hstep
    obtain ⟨m', hrest', h'⟩ :=
      ih h₁ (by rw [hsize]; exact hhi) (haccounted.of_step hstep) hrest
    refine ⟨m', ?_, h'⟩
    rw [stepThrough, hstep']
    simp only [bind, Except.bind, hrest']
    rfl

end Embedded

/-! ### Windows and copies -/

/-- A sort of a window is refused exactly if the positions are none of the sequence. -/
lemma ofWindow?_eq_error_iff {source : σ} {data : Array α} {error : SortError} :
    (ofWindow? source data lo hi = .error error) ↔
      (hi < lo ∨ data.size < hi) ∧ error = .invalidRange lo hi data.size := by
  unfold ofWindow?
  split
  · next h =>
    have hbounds : ¬(hi < lo ∨ data.size < hi) := by omega
    simp [hbounds]
  · next h =>
    have hbounds : hi < lo ∨ data.size < hi := by omega
    simp [hbounds, eq_comm]

/-- What is set up, if the positions lie in the sequence and the configuration is accepted. -/
lemma setUp_eq_ok {config : Config} (hc : config.Valid) (source : σ) (strategy : Strategy)
    {data : Array α} (hle : lo ≤ hi) (hhi : hi ≤ data.size) :
    setUp source config strategy data lo hi =
      .ok { initial source data lo hi with config, strategy } := by
  have hwindow : ofWindow? source data lo hi = .ok (initial source data lo hi) :=
    if_pos ⟨hle, hhi⟩
  have hconfig : (initial source data lo hi).withConfig? config =
      .ok { initial source data lo hi with config } := withConfig?_eq_ok_iff.2 ⟨hc, rfl⟩
  rw [setUp, hwindow]
  simp only [bind, Except.bind, hconfig]
  rfl

variable [IndexSource σ]

/-- Sorting a window of a sequence is sorting a copy of it. It is refused exactly if the positions
are none of the sequence. Otherwise the machine for the positions from `lo` to `hi` and the machine
for a copy of what stands there, with the same source, configuration and strategy, go in lockstep,
whether memory runs out at times or not: they give the same answers, with events and errors
further up by `lo` in the first, and have equally many frames; its frames are those of the second,
further up by `lo`, and its window holds the data of the second. The predicate need not be an
ordering.

**Proof sketch.** At the beginning the inner machine is embedded in the outer one: the window holds
its data, and the frames are shifted. A step of the inner machine has a value, and the outer one
makes the same step on the same window, which leaves the machines embedded. -/
theorem setUp_lockstep (less : α → α → Bool) (source : σ) (data : Array α) (lo hi : Nat) :
    (∀ error, ofWindow? source data lo hi = .error error ↔
      (hi < lo ∨ data.size < hi) ∧ error = .invalidRange lo hi data.size) ∧
    (lo ≤ hi → hi ≤ data.size → ∀ (config : Config) (strategy : Strategy), config.Valid →
      ∃ m inner : Machine α σ, setUp source config strategy data lo hi = .ok m ∧
        setUp source config strategy (data.extract lo hi) 0 (hi - lo) = .ok inner ∧
        ∀ memories, ∃ answers m' inner',
          inner.stepThrough less memories = .ok (answers, inner') ∧
          m.stepThrough less memories = .ok (answers.map (shiftAnswer lo), m') ∧
          Embedded lo hi inner' m' ∧ m'.depth = inner'.depth) := by
  refine ⟨fun _ => ofWindow?_eq_error_iff, ?_⟩
  intro hle hhi config strategy hc
  have hsize : hi - lo ≤ (data.extract lo hi).size := by
    rw [Array.size_extract]
    omega
  have hm := setUp_eq_ok hc source strategy hle hhi
  have hinner := setUp_eq_ok hc source strategy (Nat.zero_le (hi - lo)) hsize
  have hembedded : Embedded lo hi
      { initial source (data.extract lo hi) 0 (hi - lo) with config, strategy }
      { initial source data lo hi with config, strategy } := by
    refine ⟨rfl, ?_, rfl, rfl, rfl, rfl, rfl⟩
    simp [initial, Frame.fresh, Frame.shift, Nat.add_sub_cancel' hle]
  refine ⟨_, _, hm, hinner, ?_⟩
  intro memories
  have haccounted := accounted_of_setUp hinner
  obtain ⟨answers, inner', hsteps⟩ := haccounted.exists_stepThrough less memories
  obtain ⟨m', hsteps', h'⟩ := hembedded.exists_stepThrough hle hhi haccounted hsteps
  exact ⟨answers, m', inner', hsteps, hsteps', h', by simp [depth, h'.stack]⟩

/-- The middle four of six numbers; at the last step there is no memory. -/
theorem setUp_lockstep_of_six :
    ∃ m inner : Machine Nat WordCycle,
      setUp (.ofList [0xc0000000]) ⟨1, 1, 1, 0⟩ .placement #[9, 2, 4, 1, 3, 0] 1 5 = .ok m ∧
      setUp (.ofList [0xc0000000]) ⟨1, 1, 1, 0⟩ .placement #[2, 4, 1, 3] 0 4 = .ok inner ∧
      ∃ answers m' inner',
        inner.stepThrough (fun a b => decide (a < b))
          [.available, .available, .available, .available, .exhausted] = .ok (answers, inner') ∧
        m.stepThrough (fun a b => decide (a < b))
          [.available, .available, .available, .available, .exhausted] =
            .ok (answers.map (shiftAnswer 1), m') ∧
        Embedded 1 5 inner' m' ∧ m'.depth = inner'.depth := by
  obtain ⟨m, inner, hm, hinner, hsteps⟩ :=
    (setUp_lockstep (fun a b : Nat => decide (a < b)) (WordCycle.ofList [0xc0000000])
      #[9, 2, 4, 1, 3, 0] 1 5).2 (by decide) (by decide) ⟨1, 1, 1, 0⟩ .placement (by decide)
  exact ⟨m, inner, hm, hinner, hsteps _⟩

end Machine

end SampleSort
