import SampleSort.Proofs.Invariant
import SampleSort.Proofs.Nesting
import SampleSort.Proofs.Transition
import SampleSort.Random.Cycle

set_option relaxedAutoImplicit false
set_option autoImplicit false

/-!
# What is final before the sort is

A position that no pending window contains is final: however the machine is driven on, it keeps its
element, and this element is in order with all others. So a sort can be stopped at any time, and
what is not pending then is where it would have been in the end.

## Main definitions

* `SampleSort.Machine.Final` — a position that no pending window contains.
* `SampleSort.Machine.FinalPositions` — what can be relied on while a sort is in progress.

## Main results

* `SampleSort.Machine.Inv.final_of_step` — a step changes nothing at a final position.
* `SampleSort.Machine.Reachable.finalPositions` — every reachable machine can be relied on.
-/

namespace SampleSort

namespace Machine

variable {α σ : Type} {less : α → α → Bool} {data : List α} {lo hi p : Nat} {m m' : Machine α σ}
  {memory : Memory} {result : Except SortError (Option Event)} {events : List Event}

/-- A position of those from `lo` to `hi`, which are to be sorted, is final when no pending window
contains it. -/
def Final (lo hi : Nat) (m : Machine α σ) (p : Nat) : Prop :=
  (lo ≤ p ∧ p < hi) ∧ ∀ f ∈ m.stack, ¬f.Covers p

/-- What can be relied on while a machine sorts the positions from `lo` to `hi`. -/
structure FinalPositions [IndexSource σ] (less : α → α → Bool) (lo hi : Nat) (m : Machine α σ) :
    Prop where
  /-- Wherever calls lead, a final position stays final and keeps its element. -/
  kept : ∀ p, m.Final lo hi p → ∀ events m', Reaches less m events m' →
    m'.Final lo hi p ∧ ∃ x, m.data[p]? = some x ∧ m'.data[p]? = some x
  /-- Of two elements of which one stands at a final position, the right one is not less than the
  left one. -/
  inOrder : ∀ i j x y, lo ≤ i → i < j → j < hi → m.Final lo hi i ∨ m.Final lo hi j →
    m.data[i]? = some x → m.data[j]? = some y → less y x = false
  /-- Of two elements in pending windows that have no position in common, the right one is not less
  than the left one. -/
  apart : ∀ f ∈ m.stack, ∀ g ∈ m.stack, (∀ p, ¬(f.Covers p ∧ g.Covers p)) →
    ∀ i j x y, f.Covers i → g.Covers j → i < j → m.data[i]? = some x → m.data[j]? = some y →
      less y x = false

namespace Inv

/-- Elements of two frames that have no position in common are in order. -/
lemma inOrder_of_apart (h : m.Inv less data lo hi) {f g : Frame α} (hf : f ∈ m.stack)
    (hg : g ∈ m.stack) (hapart : ∀ p, ¬(f.Covers p ∧ g.Covers p)) {i j : Nat} {x y : α}
    (hi : f.Covers i) (hj : g.Covers j) (hij : i < j) (hx : m.data[i]? = some x)
    (hy : m.data[j]? = some y) : less y x = false := by
  have hne : f ≠ g := by
    rintro rfl
    exact hapart i ⟨hi, hi⟩
  have hpair : Relation.SymmGen (Frame.Above less m.data.toList) f g :=
    (h.stacked.pairwise.imp Relation.SymmGen.of_rel).forall hf hg hne
  rcases hpair with (hbefore | hserves) | (hbefore | hserves)
  · refine hbefore.inOrder i j x y hi hj ?_ ?_
    · rw [Array.getElem?_toList, hx]
    · rw [Array.getElem?_toList, hy]
  · exact absurd ⟨hi, hserves.covers hi⟩ (hapart i)
  · -- the frame of the right position stands to the left
    have := hbefore.stop_le
    obtain ⟨hi₁, hi₂⟩ := hi
    obtain ⟨hj₁, hj₂⟩ := hj
    omega
  · exact absurd ⟨hserves.covers hj, hj⟩ (hapart j)

/-- Elements of which one stands at a final position are in order. -/
lemma inOrder_of_final (h : m.Inv less data lo hi) {i j : Nat} {x y : α} (hlo : lo ≤ i)
    (hij : i < j) (hj : j < hi) (hfinal : m.Final lo hi i ∨ m.Final lo hi j)
    (hx : m.data[i]? = some x) (hy : m.data[j]? = some y) : less y x = false := by
  refine h.stacked.inOrder hlo hij hj (hfinal.imp And.right And.right) ?_ ?_
  · rw [Array.getElem?_toList, hx]
  · rw [Array.getElem?_toList, hy]

variable [IndexSource σ]

/-- A step changes nothing at a final position, and the position stays final. -/
theorem final_of_step (hless : StrictWeak less) (h : m.Inv less data lo hi)
    (hp : m.Final lo hi p) (hstep : m.step less memory = .ok (result, m')) :
    m'.Final lo hi p ∧ m'.data[p]? = m.data[p]? := by
  obtain ⟨hin, hcovers⟩ := hp
  constructor
  · refine ⟨hin, ?_⟩
    rintro g hg ⟨hgp, hpg⟩
    obtain ⟨f, hf, hstart, -, hstop⟩ :=
      exists_around_of_step (fun f hf => (h.stacked.bounds hf).2.1) hstep hg
    exact hcovers f hf ⟨by omega, by omega⟩
  · rcases h.step_cases hless hstep with
      ⟨rfl, _⟩ | ⟨f, others, t, _, hstack, _, rfl, hperm, _⟩
    · rfl
    · apply (h.rearranged_after hstack hperm).getElem?_eq
      have hp := hcovers f (by simp [hstack])
      unfold Frame.Covers at hp
      omega

/-- So do any number of calls. -/
theorem final_of_reaches (hless : StrictWeak less) (h : m.Inv less data lo hi)
    (hp : m.Final lo hi p) (hreaches : Reaches less m events m') :
    m'.Final lo hi p ∧ m'.data[p]? = m.data[p]? := by
  have hall : m'.Inv less data lo hi ∧ m'.Final lo hi p ∧ m'.data[p]? = m.data[p]? := by
    refine hreaches.keeps
      (P := fun m' => m'.Inv less data lo hi ∧ m'.Final lo hi p ∧ m'.data[p]? = m.data[p]?)
      ?_ ?_ ⟨h, hp, rfl⟩
    · rintro m₁ m₂ memory result ⟨hinv, hfinal, hsame⟩ hstep
      obtain ⟨hfinal', hsame'⟩ := hinv.final_of_step hless hfinal hstep
      exact ⟨hinv.of_step hless hstep, hfinal', hsame'.trans hsame⟩
    · rintro m₁ m₂ ⟨hinv, hfinal, hsame⟩ hexchange
      refine ⟨hinv.of_sameWork hexchange, ?_, by rw [hexchange.data, hsame]⟩
      rw [Final, hexchange.stack]
      exact hfinal
  exact hall.2

end Inv

/-- In every reachable machine, what no pending window contains is final, and pending windows that
have no position in common are in order.

**Proof sketch.** Pending windows are in such an order as a sorted sequence is, but for the insides
of the windows. A position that is in none of them is not moved by any step, and stays outside of
those that are left. -/
theorem Reachable.finalPositions [IndexSource σ] (hless : StrictWeak less) {data : Array α}
    (h : Reachable less data lo hi m) : m.FinalPositions less lo hi := by
  have hinv := h.inv hless
  refine ⟨?_, ?_, ?_⟩
  · intro p hp events m' hreaches
    obtain ⟨hfinal, hsame⟩ := hinv.final_of_reaches hless hp hreaches
    have hlength := hinv.le_length
    rw [Array.length_toList] at hlength
    have hget := Array.getElem?_eq_getElem (Nat.lt_of_lt_of_le hp.1.2 hlength)
    exact ⟨hfinal, _, hget, by rw [hsame, hget]⟩
  · intro i j x y hlo hij hj hfinal hx hy
    exact hinv.inOrder_of_final hlo hij hj hfinal hx hy
  · intro f hf g hg hapart i j x y hi hj hij hx hy
    exact hinv.inOrder_of_apart hf hg hapart hi hj hij hx hy

/-- Eight numbers after sixteen steps: three windows are pending, and the last position is
final. -/
theorem Reachable.finalPositions_of_eight :
    ∃ m : Machine Nat WordCycle,
      Reachable (fun a b => decide (a < b)) #[5, 2, 7, 8, 6, 4, 3, 1] 0 8 m ∧
        m.stack.map Frame.bounds = [(0, 3), (3, 5), (5, 7)] ∧
        m.FinalPositions (fun a b => decide (a < b)) 0 8 := by
  let less := fun a b : Nat => decide (a < b)
  let m₀ : Machine Nat WordCycle :=
    .ofArray (.ofList [0x60000000, 0xa0000000]) #[5, 2, 7, 8, 6, 4, 3, 1]
  let m₁ : Machine Nat WordCycle := { m₀ with config := ⟨1, 1, 2, 0⟩ }
  have hconfig : m₀.withConfig? ⟨1, 1, 2, 0⟩ = .ok m₁ := rfl
  have hbounds : (m₁.runFor less 16).map (fun r => r.machine.stack.map Frame.bounds) =
      .ok [(0, 3), (3, 5), (5, 7)] := by decide +kernel
  obtain ⟨m, hreachable, hpending⟩ := Started.exists_reachable (.whole _) hconfig
    (fun m => m.stack.map Frame.bounds) hbounds
  exact ⟨m, hreachable, hpending, Reachable.finalPositions .natural hreachable⟩

end Machine

end SampleSort
