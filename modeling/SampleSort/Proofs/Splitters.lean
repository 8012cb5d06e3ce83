import SampleSort.Proofs.Order
import SampleSort.Splitter.Choice

set_option relaxedAutoImplicit false
set_option autoImplicit false

/-!
# The splitters of a sample

Whether or not the sample has been sorted, the splitters that are chosen from it strictly ascend,
because every candidate is compared with the splitter before it.

## Main results

* `SampleSort.chooseSplitters_ascending` — splitters strictly ascend.
* `SampleSort.length_chooseSplitters_le` — there are no more of them than asked for.
* `SampleSort.chooseSplitters_ne_nil` — a sample with elements yields at least one.
-/

namespace SampleSort

variable {α : Type} {less : α → α → Bool}

/-- Splitters found in the rest of a sample strictly ascend, and they are greater than the one
before them.

**Proof sketch.** Induction along the sample. An element becomes a splitter only if it is greater
than the splitter before it, and the splitters after it are greater than it. -/
lemma spacedFrom_ascending (hless : StrictWeak less) (stride skip limit : Nat) (last : Option α)
    (sample : List α) :
    (spacedFrom less stride skip limit last sample).value.Pairwise (fun s t => less s t = true) ∧
      ∀ l, last = some l → ∀ s ∈ (spacedFrom less stride skip limit last sample).value,
        less l s = true := by
  fun_induction spacedFrom less stride skip limit last sample with
  | case1 => simp
  | case2 _ _ _ _ _ ih => exact ih
  | case3 => simp
  | case4 limit x rest ih =>
    obtain ⟨hrest, hx⟩ := ih
    exact ⟨List.pairwise_cons.2 ⟨hx x rfl, hrest⟩, fun l hl => absurd hl (by simp)⟩
  | case5 limit last x rest ih₁ ih₂ =>
    rw [Counted.value_bind, Counted.value_ask]
    by_cases h : less last x = true
    · obtain ⟨hrest, hx⟩ := ih₁
      rw [if_pos h]
      refine ⟨List.pairwise_cons.2 ⟨hx x rfl, hrest⟩, ?_⟩
      intro l hl s hs
      obtain rfl := Option.some.inj hl
      rcases List.mem_cons.1 hs with rfl | hs
      · exact h
      · exact hless.less_trans h (hx x rfl s hs)
    · rw [if_neg h]
      exact ih₂

/-- No more splitters are found than asked for. -/
lemma length_spacedFrom_le (less : α → α → Bool) (stride skip limit : Nat) (last : Option α)
    (sample : List α) : (spacedFrom less stride skip limit last sample).value.length ≤ limit := by
  fun_induction spacedFrom less stride skip limit last sample with
  | case1 => simp
  | case2 _ _ _ _ _ ih => exact ih
  | case3 => simp
  | case4 limit x rest ih => exact Nat.succ_le_succ ih
  | case5 limit last x rest ih₁ ih₂ =>
    rw [Counted.value_bind, Counted.value_ask]
    by_cases h : less last x = true
    · rw [if_pos h]
      exact Nat.succ_le_succ ih₁
    · rw [if_neg h]
      exact ih₂

/-- The splitters of a sample strictly ascend. -/
theorem chooseSplitters_ascending (hless : StrictWeak less) (stride limit : Nat)
    (sample : List α) :
    (chooseSplitters less stride limit sample).value.Pairwise fun s t => less s t = true := by
  unfold chooseSplitters
  rw [Counted.value_bind]
  split
  · rw [Counted.value_pure]
    cases sample[sample.length / 2]? <;> simp
  · exact (spacedFrom_ascending hless stride (stride - 1) limit none sample).1

/-- There are no more splitters than asked for, if at least one is. -/
theorem length_chooseSplitters_le (less : α → α → Bool) (stride : Nat) {limit : Nat}
    (hlimit : 1 ≤ limit) (sample : List α) :
    (chooseSplitters less stride limit sample).value.length ≤ limit := by
  unfold chooseSplitters
  rw [Counted.value_bind]
  split
  · rw [Counted.value_pure]
    cases sample[sample.length / 2]? <;> simp [hlimit]
  · exact length_spacedFrom_le less stride (stride - 1) limit none sample

/-- A sample with elements yields at least one splitter. -/
theorem chooseSplitters_ne_nil (less : α → α → Bool) (stride limit : Nat) {sample : List α}
    (h : sample ≠ []) : (chooseSplitters less stride limit sample).value ≠ [] := by
  unfold chooseSplitters
  rw [Counted.value_bind]
  split
  · have hlength : sample.length / 2 < sample.length := by
      have := List.length_pos_iff.2 h
      omega
    simp [List.getElem?_eq_getElem hlength]
  · next splitters hne => exact hne

end SampleSort
