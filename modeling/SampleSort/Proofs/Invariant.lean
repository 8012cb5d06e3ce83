import SampleSort.Proofs.Driving
import SampleSort.Proofs.Stack

set_option relaxedAutoImplicit false
set_option autoImplicit false

/-!
# What holds of every reachable machine

However a machine is driven, its data is a rearrangement of the positions it was set up to sort, its
stack consists of layers, and every frame's phase knows what it needs about the frame's window. A
step keeps this because a turn is sound, and an exchange does not touch it.

## Main definitions

* `SampleSort.Machine.Inv` — the invariant.

## Main results

* `SampleSort.Machine.Inv.step_cases` — all that a step can do.
* `SampleSort.Machine.Inv.exists_step` — a step never ends in a fault.
* `SampleSort.Machine.Inv.of_step`, `SampleSort.Machine.Inv.of_follows` — steps and calls keep the
  invariant.
* `SampleSort.Machine.Reachable.inv` — it holds of every reachable machine.
-/

namespace SampleSort

/-- The frames that come of a frame know what its turn has established. -/
lemma Transition.Sound.holds_of_mem {α : Type} {less : α → α → Bool} {threshold : Nat}
    {memory : Memory} {f g : Frame α} {transition : Transition α} {v w : List α}
    (h : transition.Sound less threshold memory f.phase (window v f.start f.stop) w)
    (hf : f.phase.Holds less (window v f.start f.stop)) (hle : f.start ≤ f.stop)
    (hstop : f.stop ≤ v.length) (hperm : w.Perm (window v f.start f.stop))
    (hg : g ∈ f.successors transition) :
    g.phase.Holds less (window (splice v f.start w) g.start g.stop) := by
  have hlength : w.length = f.stop - f.start := by rw [hperm.length_eq, length_window hstop]
  have hsplice := window_splice (v := v) (w := w) (show f.start + w.length ≤ v.length by omega)
  rw [show f.start + w.length = f.stop by omega] at hsplice
  cases h with
  | advance _ _ hholds =>
    obtain rfl := List.mem_singleton.1 hg
    rw [hsplice]
    exact hholds
  | resolve _ => cases hg
  | split _ _ _ =>
    obtain ⟨u, _, rfl⟩ := List.mem_map.1 hg
    trivial
  | refuse _ hsame =>
    obtain rfl := List.mem_singleton.1 hg
    rw [hsplice, hsame]
    exact hf
  | descend _ hfits =>
    rcases List.mem_cons.1 hg with rfl | hg
    · trivial
    · obtain rfl := List.mem_singleton.1 hg
      show SamplingPlan.Fits _ (window (splice v f.start w) f.start f.stop).length
      rw [hsplice, hperm.length_eq]
      exact hfits

/-- A turn has no error, or else memory was exhausted and the frame stays. -/
lemma Transition.Sound.error_cases {α : Type} {less : α → α → Bool} {threshold : Nat}
    {memory : Memory} {f : Frame α} {transition : Transition α} {v w : List α}
    (h : transition.Sound less threshold memory f.phase v w) :
    f.error? transition = none ∨
      (f.error? transition).isSome = true ∧ memory = .exhausted ∧
        f.successors transition = [f] := by
  cases h with
  | refuse hexhausted _ => exact Or.inr ⟨rfl, hexhausted, rfl⟩
  | advance _ _ _ => exact Or.inl rfl
  | resolve _ => exact Or.inl rfl
  | split _ _ _ => exact Or.inl rfl
  | descend _ _ => exact Or.inl rfl

namespace Machine

variable {α σ : Type} {less : α → α → Bool} {data : List α} {lo hi : Nat} {m m' : Machine α σ}
  {f : Frame α} {others : List (Frame α)} {memory : Memory}
  {result : Except SortError (Option Event)} {events : List Event}

/-- What holds of a machine that sorts the positions from `lo` to `hi` of what was `data`. -/
structure Inv (less : α → α → Bool) (data : List α) (lo hi : Nat) (m : Machine α σ) : Prop where
  /-- The positions are a window of the data. -/
  within : lo ≤ hi ∧ hi ≤ data.length
  /-- The data is rearranged in this window. -/
  rearranged : Rearranged lo hi data m.data.toList
  /-- The configuration was accepted. -/
  valid : m.config.Valid
  /-- The frames form layers. -/
  stacked : Stacked less m.data.toList lo hi m.stack
  /-- Every phase knows what it needs about its window. -/
  holds : ∀ f ∈ m.stack, f.phase.Holds less (window m.data.toList f.start f.stop)
  /-- A step fails only while there is work. -/
  pending : m.poisoned = true → m.stack ≠ []

namespace Inv

/-- The machine sorts a window of its own data. -/
lemma le_length (h : m.Inv less data lo hi) : hi ≤ m.data.toList.length := by
  rw [h.rearranged.length_eq]
  exact h.within.2

/-- A frame's window has as many elements as positions. -/
lemma length_of_mem (h : m.Inv less data lo hi) (hf : f ∈ m.stack) :
    (window m.data.toList f.start f.stop).length = f.length :=
  length_window (Nat.le_trans (h.stacked.bounds hf).2.2 h.le_length)

/-- Every frame can read its window. -/
lemma readWindow (h : m.Inv less data lo hi) (hf : f ∈ m.stack) :
    readWindow? m.data f.start f.stop = .ok (window m.data.toList f.start f.stop) := by
  obtain ⟨-, hle, hstop⟩ := h.stacked.bounds hf
  rw [readWindow?_eq, slice?_eq_window hle (Nat.le_trans hstop h.le_length)]

/-- The data after a turn whose outcome permutes the window. -/
lemma toList_after (h : m.Inv less data lo hi) (hstack : m.stack = f :: others) {t : Turn α σ}
    (hperm : t.window.Perm (window m.data.toList f.start f.stop)) :
    (m.after f others t).data.toList = splice m.data.toList f.start t.window := by
  have hf : f ∈ m.stack := by simp [hstack]
  obtain ⟨-, hle, hstop⟩ := h.stacked.bounds hf
  have hlength : t.window.length = f.stop - f.start :=
    hperm.length_eq.trans (h.length_of_mem hf)
  have hsize := h.le_length
  rw [Array.length_toList] at hsize
  exact toList_writeWindow (by omega)

/-- Such a turn rearranges the window. -/
lemma rearranged_after (h : m.Inv less data lo hi) (hstack : m.stack = f :: others) {t : Turn α σ}
    (hperm : t.window.Perm (window m.data.toList f.start f.stop)) :
    Rearranged f.start f.stop m.data.toList (m.after f others t).data.toList := by
  obtain ⟨-, hle, hstop⟩ := h.stacked.bounds (f := f) (by simp [hstack])
  rw [h.toList_after hstack hperm]
  exact .splice hle (Nat.le_trans hstop h.le_length) hperm

/-- A sound turn of the first frame keeps the invariant.

**Proof sketch.** The frames that come of the first one know what the turn has established. The
others know nothing but the lengths of their windows, which do not change. -/
theorem of_turn (h : m.Inv less data lo hi) (hstack : m.stack = f :: others) {t : Turn α σ}
    {threshold : Nat} (hperm : t.window.Perm (window m.data.toList f.start f.stop))
    (hsound : t.transition.Sound less threshold memory f.phase
      (window m.data.toList f.start f.stop) t.window) :
    (m.after f others t).Inv less data lo hi := by
  have hf : f ∈ m.stack := by simp [hstack]
  obtain ⟨hlo, hle, hstop⟩ := h.stacked.bounds hf
  have hhi := h.le_length
  have hdata := h.toList_after hstack hperm
  have hr := h.rearranged_after hstack hperm
  have hstacked : Stacked less m.data.toList lo hi (f :: others) := by
    rw [← hstack]
    exact h.stacked
  refine ⟨h.within, ?_, h.valid, ?_, ?_, ?_⟩
  · exact h.rearranged.trans (hr.mono hlo hstop)
  · rw [hdata]
    exact hstacked.successors hhi hperm hsound
  · intro g hg
    rcases List.mem_append.1 hg with hg | hg
    · rw [hdata]
      exact hsound.holds_of_mem (h.holds f hf) hle (by omega) hperm hg
    · have hg' : g ∈ m.stack := by simp [hstack, hg]
      obtain ⟨-, -, hgstop⟩ := h.stacked.bounds hg'
      refine (h.holds g hg').of_length_eq ?_ (hstacked.order_le hg)
      rw [length_window (by rw [hr.length_eq]; omega), length_window (by omega)]
  · intro hpoisoned hnil
    replace hpoisoned : (f.error? t.transition).isSome = true := hpoisoned
    have hnone := (List.append_eq_nil_iff.1 hnil).1
    rcases hsound.error_cases with hmemory | ⟨_, _, hstays⟩
    · simp [hmemory] at hpoisoned
    · simp [hstays] at hnone

variable [IndexSource σ]

/-- The turn of the first frame succeeds, and a step of the machine is this turn. -/
theorem exists_turn (hless : StrictWeak less) (h : m.Inv less data lo hi)
    (hstack : m.stack = f :: others) (hpoisoned : m.poisoned = false) (memory : Memory) :
    ∃ t : Turn α σ, m.step less memory = .ok (answer f others t, m.after f others t) ∧
      t.window.Perm (window m.data.toList f.start f.stop) ∧
      t.transition.Sound less m.config.threshold memory f.phase
        (window m.data.toList f.start f.stop) t.window := by
  have hf : f ∈ m.stack := by simp [hstack]
  obtain ⟨t, hturn, hperm, hsound⟩ := Phase.exists_turn hless h.valid (h.holds f hf)
    m.strategy memory m.source
  exact ⟨t, step_of_turn hpoisoned hstack (h.readWindow hf) hturn, hperm, hsound⟩

/-- All that a step can do: nothing, if the machine is poisoned or done, or else a sound turn of the
first frame. -/
theorem step_cases (hless : StrictWeak less) (h : m.Inv less data lo hi)
    (hstep : m.step less memory = .ok (result, m')) :
    (m' = m ∧ eventsOf result = []) ∨
      ∃ (f : Frame α) (others : List (Frame α)) (t : Turn α σ), m.poisoned = false ∧
        m.stack = f :: others ∧ result = answer f others t ∧ m' = m.after f others t ∧
        t.window.Perm (window m.data.toList f.start f.stop) ∧
        t.transition.Sound less m.config.threshold memory f.phase
          (window m.data.toList f.start f.stop) t.window := by
  rcases halted_or_pending less memory m with
    ⟨result', hsame, hnone⟩ | ⟨hpoisoned, f, others, hstack⟩
  · rw [hsame] at hstep
    obtain ⟨rfl, rfl⟩ := Prod.mk.inj (Except.ok.inj hstep)
    exact Or.inl ⟨rfl, hnone⟩
  · right
    obtain ⟨t, hturn, hperm, hsound⟩ := h.exists_turn hless hstack hpoisoned memory
    rw [hturn] at hstep
    obtain ⟨rfl, rfl⟩ := Prod.mk.inj (Except.ok.inj hstep)
    exact ⟨f, others, t, hpoisoned, hstack, rfl, rfl, hperm, hsound⟩

/-- A step never ends in a fault. -/
theorem exists_step (hless : StrictWeak less) (h : m.Inv less data lo hi) (memory : Memory) :
    ∃ result m', m.step less memory = .ok (result, m') := by
  rcases halted_or_pending less memory m with
    ⟨result, hsame, _⟩ | ⟨hpoisoned, f, others, hstack⟩
  · exact ⟨result, m, hsame⟩
  · obtain ⟨t, hturn, _⟩ := h.exists_turn hless hstack hpoisoned memory
    exact ⟨_, _, hturn⟩

/-- A step keeps the invariant. -/
theorem of_step (hless : StrictWeak less) (h : m.Inv less data lo hi)
    (hstep : m.step less memory = .ok (result, m')) : m'.Inv less data lo hi := by
  rcases h.step_cases hless hstep with ⟨rfl, _⟩ | ⟨f, others, t, _, hstack, _, rfl, hperm, hsound⟩
  · exact h
  · exact h.of_turn hstack hperm hsound

omit [IndexSource σ] in
/-- So does an exchange. -/
lemma of_sameWork (h : m.Inv less data lo hi) (hsame : SameWork m m') :
    m'.Inv less data lo hi := by
  refine ⟨h.within, ?_, hsame.valid h.valid, ?_, ?_, ?_⟩
  · rw [hsame.data]
    exact h.rearranged
  · rw [hsame.data, hsame.stack]
    exact h.stacked
  · rw [hsame.data, hsame.stack]
    exact h.holds
  · rw [hsame.stack, hsame.poisoned]
    exact h.pending

/-- So does every call. -/
theorem of_follows (hless : StrictWeak less) (h : m.Inv less data lo hi)
    (hfollows : Follows less m events m') : m'.Inv less data lo hi := by
  rcases hfollows.cases_work with hsteps | ⟨-, hsame⟩
  · exact hsteps.keeps (fun h => h.of_step hless) h
  · exact h.of_sameWork hsame

/-- Any sequence of calls keeps it. -/
lemma of_reaches (hless : StrictWeak less) (h : m.Inv less data lo hi)
    (hreaches : Reaches less m events m') : m'.Inv less data lo hi :=
  hreaches.keeps (fun h => h.of_step hless) (fun h => h.of_sameWork) h

end Inv

/-- It holds of a machine that is set up. -/
lemma inv_initial (less : α → α → Bool) (source : σ) (data : Array α) (hle : lo ≤ hi)
    (hhi : hi ≤ data.size) : (initial source data lo hi).Inv less data.toList lo hi := by
  refine ⟨⟨hle, by simpa using hhi⟩, .refl _ _ _, rfl, .initial less _ hle, ?_, ?_⟩
  · intro f hf
    obtain rfl := List.mem_singleton.1 hf
    trivial
  · intro hpoisoned
    cases hpoisoned

/-- It holds however a machine is set up. -/
lemma Started.inv {data : Array α} (h : Started data lo hi m) :
    m.Inv less data.toList lo hi := by
  obtain ⟨hle, hhi, source, rfl⟩ := h.exists_eq_initial
  exact inv_initial less source data hle hhi

/-- It holds of every reachable machine. -/
theorem Reachable.inv [IndexSource σ] (hless : StrictWeak less) {data : Array α}
    (h : Reachable less data lo hi m) : m.Inv less data.toList lo hi := by
  obtain ⟨m₀, events, hstarted, hreaches⟩ := h
  exact (hstarted.inv).of_reaches hless hreaches

end Machine

end SampleSort
