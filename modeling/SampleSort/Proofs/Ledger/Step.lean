import SampleSort.Proofs.Conservation
import SampleSort.Proofs.Ledger.Handlers

set_option relaxedAutoImplicit false
set_option autoImplicit false

/-!
# Stepping a ledger

A ledger is a machine whose frames are kept as entries. Its step takes the entry on top off the
stack, lets the handler work on it, and puts back what should go back; an entry whose handler has
failed goes back as the handler left it. For every machine that can be reached, whatever its
predicate, the ledger steps as the machine does, and no other ledgers can be reached. So the entries
of a reachable ledger are tidy.

## Main definitions

* `SampleSort.Ledger` — a machine whose frames are kept as entries.
* `SampleSort.Ledger.step` — one step.
* `SampleSort.Ledger.Reachable` — what steps and exchanges can lead to.
* `SampleSort.Machine.ledger` — the ledger of a machine.

## Main results

* `SampleSort.Ledger.step_exhausted` — a step without memory leaves a tidy entry where it was.
* `SampleSort.Ledger.Reachable.tidy` — the entries of a reachable ledger are tidy.
* `SampleSort.Machine.Accounted.step_ledger` — the ledger of a machine steps as the machine does.
* `SampleSort.Ledger.reachable_iff` — the reachable ledgers are those of reachable machines.
-/

namespace SampleSort

variable {α σ : Type}

/-- A machine whose frames are kept as entries. -/
structure Ledger (α σ : Type) where
  /-- The sequence in its present arrangement. -/
  data : List α
  /-- The entries of pending work, the one to be worked on next first. -/
  stack : List (Entry α)
  /-- Where sample indices are drawn from. -/
  source : σ
  /-- The tuning. -/
  config : Config
  /-- How windows are partitioned. -/
  strategy : Strategy
  /-- The number of steps taken so far, a failed one included. -/
  steps : Nat
  /-- Whether a step has failed. -/
  poisoned : Bool
  deriving DecidableEq

/-- The ledger of a machine. -/
def Machine.ledger (m : Machine α σ) : Ledger α σ where
  data := m.data.toList
  stack := m.stack.map Frame.entry
  source := m.source
  config := m.config
  strategy := m.strategy
  steps := m.steps
  poisoned := m.poisoned

namespace Ledger

/-- A ledger about to sort the positions from `start` to `stop`. -/
def initial (source : σ) (data : Array α) (start stop : Nat) : Ledger α σ where
  data := data.toList
  stack := [.fresh start stop .main]
  source
  config := {}
  strategy := .placement
  steps := 0
  poisoned := false

/-- The answer of a step, and the ledger after it, when the entry that was on top of those `below`
has been handled. -/
def settle (l : Ledger α σ) (below : List (Entry α)) (event : Event) (handled : Handled α σ) :
    Except SortError (Option Event) × Ledger α σ :=
  let l := { l with
    data := handled.data, stack := below, source := handled.source, steps := l.steps + 1 }
  match handled.verdict with
  | .ok .advance => (.ok (some event), { l with stack := handled.entry :: l.stack })
  | .ok .resolve => (.ok (some event), l)
  | .ok (.descend child) =>
    (.ok (some event), { l with stack := child :: handled.entry :: l.stack })
  | .ok (.split children) => (.ok (some event), { l with stack := children ++ l.stack })
  | .error error => (.error error, { l with stack := handled.entry :: l.stack, poisoned := true })

/-- One step: the answer, and the ledger after it. -/
def step [IndexSource σ] (less : α → α → Bool) (memory : Memory) (l : Ledger α σ) :
    Except Fault (Except SortError (Option Event) × Ledger α σ) :=
  if l.poisoned then return (.error .poisoned, l)
  else
    match l.stack with
    | [] => return (.ok none, l)
    | e :: below => do
      let event := ⟨e.stage, e.role, e.start, e.stop, below.length + 1⟩
      let handled ← e.handle less l.config l.strategy memory l.source l.data
      return l.settle below event handled

/-- The ledger comes of one that was about to sort the positions from `lo` to `hi` of `data`. -/
inductive Reachable [IndexSource σ] (less : α → α → Bool) (data : Array α) (lo hi : Nat) :
    Ledger α σ → Prop where
  /-- At the beginning. -/
  | start (source : σ) (h : lo ≤ hi ∧ hi ≤ data.size) :
      Reachable less data lo hi (initial source data lo hi)
  /-- One more step, which may find memory exhausted. -/
  | step {l l' : Ledger α σ} {memory : Memory} {result : Except SortError (Option Event)}
      (h : Reachable less data lo hi l) (hstep : l.step less memory = .ok (result, l')) :
      Reachable less data lo hi l'
  /-- Another source of randomness. -/
  | withSource {l : Ledger α σ} (h : Reachable less data lo hi l) (source : σ) :
      Reachable less data lo hi { l with source }
  /-- Another configuration, if it is accepted. -/
  | withConfig {l : Ledger α σ} (h : Reachable less data lo hi l) {config : Config}
      (hvalid : config.Valid) : Reachable less data lo hi { l with config }
  /-- Another strategy. -/
  | withStrategy {l : Ledger α σ} (h : Reachable less data lo hi l) (strategy : Strategy) :
      Reachable less data lo hi { l with strategy }

/-- The ledger after a step that has failed: as it was, but for the number of steps and that it is
poisoned. -/
def failed (l : Ledger α σ) : Ledger α σ :=
  { l with steps := l.steps + 1, poisoned := true }

variable [IndexSource σ] {less : α → α → Bool} {l : Ledger α σ} {e : Entry α}
  {below : List (Entry α)} {memory : Memory} {what : Bookkeeping}

/-- A poisoned ledger takes no step. -/
lemma step_of_poisoned (less : α → α → Bool) (memory : Memory) (h : l.poisoned = true) :
    l.step less memory = .ok (.error .poisoned, l) := by
  rw [step, if_pos h]
  rfl

/-- A step is the work of the handler on the entry that was on top. -/
lemma step_of_handle {handled : Handled α σ} (hpoisoned : l.poisoned = false)
    (hstack : l.stack = e :: below)
    (h : e.handle less l.config l.strategy memory l.source l.data = .ok handled) :
    l.step less memory =
      .ok (l.settle below ⟨e.stage, e.role, e.start, e.stop, below.length + 1⟩ handled) := by
  simp only [step, hpoisoned, hstack, h, Bool.false_eq_true, if_false, bind, Except.bind]
  rfl

/-- Without memory, a step on a tidy entry that reserves some fails. It puts the entry back as it
was, and nothing else has changed but the number of steps. -/
theorem step_exhausted (hpoisoned : l.poisoned = false) (hstack : l.stack = e :: below)
    (htidy : e.Tidy) (hreserves : e.Reserves what)
    (hsample : ∀ plan, e.stage = .sampling → e.plan? = some plan →
      ∃ sample, slice? l.data e.start (e.start + plan.samples) = .ok sample) :
    l.step less .exhausted =
      .ok (.error (.allocation what e.start e.stop), l.failed) := by
  rw [step_of_handle hpoisoned hstack (htidy.handle_exhausted hreserves hsample)]
  simp only [settle, Handled.giveUp, failed, ← hstack]

/-- A step that reserves no memory does not notice whether there is any. -/
lemma step_of_not_reserves (hstack : l.stack = e :: below) (hnone : ∀ what, ¬e.Reserves what) :
    l.step less memory = l.step less .available := by
  simp only [step, hstack, Entry.handle_of_not_reserves memory hnone]

/-! ### What the entries hold -/

omit [IndexSource σ] in
/-- What stands on the stack when an entry has been handled is this entry, others that the handler
puts there, or was there before. -/
lemma mem_stack_settle {handled : Handled α σ} {event : Event}
    (he : e ∈ (l.settle below event handled).2.stack) :
    e = handled.entry ∨
      (∃ verdict, handled.verdict = .ok verdict ∧ e ∈ verdict.children) ∨ e ∈ below := by
  obtain ⟨data, source, entry, verdict⟩ := handled
  cases verdict with
  | error error => simpa [settle] using he
  | ok verdict =>
    cases verdict with
    | advance => simpa [settle, Verdict.children] using he
    | resolve => exact .inr (.inr he)
    | descend child =>
      rcases List.mem_cons.1 he with rfl | he
      · exact .inr (.inl ⟨_, rfl, List.mem_singleton.2 rfl⟩)
      · exact (List.mem_cons.1 he).imp_right .inr
    | split children =>
      rcases List.mem_append.1 he with he | he
      · exact .inr (.inl ⟨_, rfl, he⟩)
      · exact .inr (.inr he)

/-- A step of a ledger with tidy entries leaves tidy entries. -/
lemma tidy_of_step {result : Except SortError (Option Event)} {l' : Ledger α σ}
    (h : ∀ e ∈ l.stack, e.Tidy) (hstep : l.step less memory = .ok (result, l'))
    (he : e ∈ l'.stack) : e.Tidy := by
  rw [step] at hstep
  split at hstep
  · obtain ⟨-, rfl⟩ := Prod.mk.inj (Except.ok.inj hstep)
    exact h e he
  · split at hstep
    · obtain ⟨-, rfl⟩ := Prod.mk.inj (Except.ok.inj hstep)
      exact h e he
    · next top below hstack =>
      obtain ⟨handled, hhandled, hsettled⟩ := exists_ok_of_bind hstep
      have hsettled := Except.ok.inj hsettled
      have htop : top.Tidy := h top (by simp [hstack])
      have hbelow : ∀ e ∈ below, e.Tidy := fun e he => h e (by simp [hstack, he])
      have htidy := htop.handle hhandled
      rw [← show _ = l' from congrArg Prod.snd hsettled] at he
      rcases mem_stack_settle he with rfl | ⟨verdict, hverdict, he⟩ | he
      · exact htidy.entry
      · exact htidy.children verdict hverdict e he
      · exact hbelow e he

/-- The entries of a reachable ledger are tidy: what has not been filled yet is empty. -/
theorem Reachable.tidy {data : Array α} {lo hi : Nat} (h : l.Reachable less data lo hi) :
    ∀ e ∈ l.stack, e.Tidy := by
  induction h with
  | start source _ =>
    intro e he
    obtain rfl := List.mem_singleton.1 he
    exact Entry.tidy_fresh lo hi .main
  | step _ hstep ih => exact fun e he => tidy_of_step ih hstep he
  | withSource _ _ ih => exact ih
  | withConfig _ _ ih => exact ih
  | withStrategy _ _ ih => exact ih

end Ledger

/-! ### Machines and their ledgers -/

namespace Machine

variable {m m' : Machine α σ}

/-- A ledger tells everything about its machine. -/
theorem ledger_injective : Function.Injective (ledger : Machine α σ → Ledger α σ) := by
  rintro ⟨data, stack, source, config, strategy, steps, poisoned⟩
    ⟨data', stack', source', config', strategy', steps', poisoned'⟩ h
  obtain ⟨hdata, hstack, rfl, rfl, rfl, rfl, rfl⟩ := Ledger.mk.inj h
  obtain rfl := Array.toList_inj.1 hdata
  obtain rfl := List.map_injective_iff.2 Frame.entry_injective hstack
  rfl

/-- What a turn leaves is settled as the machine does. -/
lemma settle_ofTurn {f : Frame α} {others : List (Frame α)} {t : Turn α σ}
    (hbounds : f.start + t.window.length ≤ m.data.size) (hpoisoned : m.poisoned = false) :
    m.ledger.settle (others.map Frame.entry)
        ⟨f.stage, f.role, f.start, f.stop, (others.map Frame.entry).length + 1⟩
        (.ofTurn m.ledger.data f t) =
      (answer f others t, (m.after f others t).ledger) := by
  obtain ⟨w, source, transition⟩ := t
  have hdata : splice m.ledger.data f.start w = (writeWindow m.data f.start w).toList :=
    (toList_writeWindow hbounds).symm
  rw [Handled.ofTurn, hdata, List.length_map]
  cases transition <;>
    simp [Ledger.settle, Frame.left, Frame.verdict, answer, after, Frame.error?, Frame.successors,
      ledger, hpoisoned]

variable [IndexSource σ]

/-- The ledger of a machine steps as the machine does.

**Proof sketch.** A poisoned machine and a finished one answer at once, and so do their ledgers.
Else the first frame takes a turn, and the handler of its entry does what this turn does by
`Frame.handle_entry`. So it remains to compare what the ledger and the machine do with the outcome,
which is `settle_ofTurn`. -/
theorem Accounted.step_ledger {less : α → α → Bool} {lo hi : Nat} {memory : Memory}
    {result : Except SortError (Option Event)} (h : m.Accounted lo hi)
    (hstep : m.step less memory = .ok (result, m')) :
    m.ledger.step less memory = .ok (result, m'.ledger) := by
  by_cases hpoisoned : m.poisoned = true
  · have hstill : m.step less memory = .ok (.error .poisoned, m) := by
      rw [step, if_pos hpoisoned]
      rfl
    rw [hstill] at hstep
    obtain ⟨rfl, rfl⟩ := Prod.mk.inj (Except.ok.inj hstep)
    exact Ledger.step_of_poisoned less memory hpoisoned
  · replace hpoisoned : m.poisoned = false := by simpa using hpoisoned
    rcases hstack : m.stack with _ | ⟨f, others⟩
    · rw [step_of_done less memory hpoisoned (List.isEmpty_iff.2 hstack)] at hstep
      obtain ⟨rfl, rfl⟩ := Prod.mk.inj (Except.ok.inj hstep)
      simp [Ledger.step, ledger, hpoisoned, hstack, pure, Except.pure]
    · have hf : f ∈ m.stack := by simp [hstack]
      obtain ⟨hread, hlength⟩ := h.readWindow hf
      obtain ⟨t, hturn, hconserves⟩ := h.exists_turn_of_mem less hf memory
      rw [step_of_turn hpoisoned hstack hread hturn] at hstep
      obtain ⟨rfl, rfl⟩ := Prod.mk.inj (Except.ok.inj hstep)
      have hslice := hread
      rw [readWindow?_eq] at hslice
      -- a frame that waits for its sample has a plan for its window
      have hsample : ∀ plan, f.phase = .awaiting plan →
          plan.samples ≤ (window m.data.toList f.start f.stop).length := by
        intro plan hphase
        have haccounts := h.accounts f hf
        rw [hphase, ← hlength] at haccounts
        exact SamplingPlan.Fits.samples_le_self haccounts
      have hbounds : f.start + t.window.length ≤ m.data.size := by
        have hsame := hconserves.perm.length_eq.trans hlength
        obtain ⟨-, hle, hstop⟩ := h.bounded.bounds f hf
        have hsize := h.bounded.le_size
        unfold Frame.length at hsame
        omega
      have hstack' : m.ledger.stack = f.entry :: others.map Frame.entry := by
        rw [ledger, hstack, List.map_cons]
      rw [← settle_ofTurn hbounds hpoisoned]
      exact Ledger.step_of_handle hpoisoned hstack' (Frame.handle_entry hslice hsample hturn)

/-- A machine that is set up has a ledger that is about to sort. -/
lemma Started.reachable_ledger (less : α → α → Bool) {data : Array α} {lo hi : Nat}
    (h : Started data lo hi m) : m.ledger.Reachable less data lo hi := by
  obtain ⟨hle, hhi, source, rfl⟩ := h.exists_eq_initial
  exact .start source ⟨hle, hhi⟩

/-- The ledger of a reachable machine is reachable. -/
theorem Reachable.ledger {less : α → α → Bool} {data : Array α} {lo hi : Nat}
    (h : Reachable less data lo hi m) : m.ledger.Reachable less data lo hi := by
  obtain ⟨m₀, events, hstarted, hreaches⟩ := h
  refine (hreaches.keeps (P := fun m => m.Accounted lo hi ∧ m.ledger.Reachable less data lo hi)
    ?_ ?_ ⟨hstarted.accounted, hstarted.reachable_ledger less⟩).2
  · rintro m m' memory result ⟨haccounted, hledger⟩ hstep
    exact ⟨haccounted.of_step hstep, hledger.step (haccounted.step_ledger hstep)⟩
  · rintro m m' ⟨haccounted, hledger⟩ hsame
    refine ⟨haccounted.of_sameWork hsame, ?_⟩
    have hexchanged := ((hledger.withSource m'.source).withConfig
      (hsame.valid haccounted.valid)).withStrategy m'.strategy
    have hledger' : m'.ledger = { m.ledger with
        source := m'.source, config := m'.config, strategy := m'.strategy } := by
      simp [Machine.ledger, hsame.data, hsame.stack, hsame.steps, hsame.poisoned]
    rw [hledger']
    exact hexchanged

end Machine

namespace Ledger

/-- The reachable ledgers are those of reachable machines.

**Proof sketch.** A machine that can be reached steps as its ledger does, and a step has a result,
so that whatever the ledger does the machine has done as well. -/
theorem reachable_iff [IndexSource σ] {less : α → α → Bool} {data : Array α} {lo hi : Nat}
    {l : Ledger α σ} : l.Reachable less data lo hi ↔
      ∃ m : Machine α σ, Machine.Reachable less data lo hi m ∧ m.ledger = l := by
  constructor
  · intro h
    induction h with
    | start source hbounds =>
      have hwindow : Machine.ofWindow? source data lo hi =
          .ok (Machine.initial source data lo hi) := if_pos hbounds
      exact ⟨_, ⟨_, _, .window hwindow, .refl⟩, rfl⟩
    | @step l l' memory result _ hstep ih =>
      obtain ⟨m, hreachable, rfl⟩ := ih
      have haccounted := hreachable.accounted.1
      obtain ⟨result', m', hstep'⟩ := haccounted.exists_step less memory
      rw [haccounted.step_ledger hstep'] at hstep
      obtain ⟨-, rfl⟩ := Prod.mk.inj (Except.ok.inj hstep)
      obtain ⟨m₀, events, hstarted, hreaches⟩ := hreachable
      exact ⟨m', ⟨m₀, _, hstarted, hreaches.tail (.step hstep')⟩, rfl⟩
    | withSource _ source ih =>
      obtain ⟨m, ⟨m₀, events, hstarted, hreaches⟩, rfl⟩ := ih
      exact ⟨_, ⟨m₀, _, hstarted, hreaches.tail (.withSource m source)⟩, rfl⟩
    | @withConfig l _ config hvalid ih =>
      obtain ⟨m, ⟨m₀, events, hstarted, hreaches⟩, rfl⟩ := ih
      have hconfig : m.withConfig? config = .ok { m with config } :=
        Machine.withConfig?_eq_ok_iff.2 ⟨hvalid, rfl⟩
      exact ⟨_, ⟨m₀, _, hstarted, hreaches.tail (.withConfig hconfig)⟩, rfl⟩
    | withStrategy _ strategy ih =>
      obtain ⟨m, ⟨m₀, events, hstarted, hreaches⟩, rfl⟩ := ih
      exact ⟨_, ⟨m₀, _, hstarted, hreaches.tail (.withStrategy m strategy)⟩, rfl⟩
  · rintro ⟨m, hreachable, rfl⟩
    exact hreachable.ledger

end Ledger

end SampleSort
