import SampleSort.Proofs.Termination
import SampleSort.Sort

set_option relaxedAutoImplicit false
set_option autoImplicit false

/-!
# The sort sorts

A machine that is done has sorted the positions it was set up to sort, however it was driven, and
has left everything else alone. The sorts of a whole sequence always come to an end, and so they
yield a sorted permutation.

## Main definitions

* `SampleSort.SortedWithin` — a sequence after the sort of a window.
* `SampleSort.SortsTo` — the answer of a sort of a whole sequence.

## Main results

* `SampleSort.Machine.Reachable.sortedWithin` — a machine that is done has sorted its window.
* `SampleSort.sortsTo_sortByLess` — a whole sequence is sorted.
* `SampleSort.sorts` — both, for all the ways in which the sort can be used.
-/

namespace SampleSort

variable {α σ : Type} {less : α → α → Bool}

/-- The sequence `w` is `v` with the positions from `lo` to `hi` sorted and everything else left in
its place. -/
structure SortedWithin (less : α → α → Bool) (v w : Array α) (lo hi : Nat) : Prop where
  /-- Of two elements at these positions, the right one is not less than the left one. -/
  inOrder : ∀ i j x y, lo ≤ i → i < j → j < hi → w[i]? = some x → w[j]? = some y →
    less y x = false
  /-- The window is a permutation of what it was. -/
  perm : (window w.toList lo hi).Perm (window v.toList lo hi)
  /-- Outside of it nothing has changed. -/
  outside : ∀ p, p < lo ∨ hi ≤ p → w[p]? = v[p]?

/-- The answer of a sort is a sorted permutation of `v`. -/
def SortsTo (less : α → α → Bool) (v : Array α) (answer : Except Fault (Array α)) : Prop :=
  ∃ w, answer = .ok w ∧ Sorted less w.toList ∧ w.toList.Perm v.toList

/-- When a machine is done, the positions it was set up to sort are sorted. -/
lemma Machine.Inv.sorted_of_done {data : List α} {lo hi : Nat} {m : Machine α σ}
    (h : m.Inv less data lo hi) (hdone : m.isDone = true) :
    Sorted less (window m.data.toList lo hi) := by
  have hstacked := h.stacked
  rw [List.isEmpty_iff.1 hdone] at hstacked
  exact hstacked.sorted_of_nil

/-- A machine that is done has sorted its window. -/
lemma Machine.Reachable.sortedWithin [IndexSource σ] (hless : StrictWeak less) {data : Array α}
    {lo hi : Nat} {m : Machine α σ} (h : Machine.Reachable less data lo hi m)
    (hdone : m.isDone = true) : SortedWithin less data m.data lo hi := by
  have hinv := h.inv hless
  have hsorted := hinv.sorted_of_done hdone
  refine ⟨?_, ?_, ?_⟩
  · intro i j x y hlo hij hj hx hy
    have hx' : (window m.data.toList lo hi)[i - lo]? = some x := by
      rw [getElem?_window, if_pos (by omega), Nat.add_sub_cancel' hlo, Array.getElem?_toList, hx]
    have hy' : (window m.data.toList lo hi)[j - lo]? = some y := by
      rw [getElem?_window, if_pos (by omega), Nat.add_sub_cancel' (by omega),
        Array.getElem?_toList, hy]
    obtain ⟨hi', rfl⟩ := List.getElem?_eq_some_iff.1 hx'
    obtain ⟨hj', rfl⟩ := List.getElem?_eq_some_iff.1 hy'
    exact List.pairwise_iff_getElem.1 hsorted _ _ hi' hj' (by omega)
  · exact hinv.rearranged.window_perm hinv.within.1 (Nat.le_refl lo) (Nat.le_refl hi)
  · intro p hp
    have := hinv.rearranged.outside p hp
    rwa [Array.getElem?_toList, Array.getElem?_toList] at this

/-- A whole sequence is sorted. -/
lemma sortsTo_sortByLess (hless : StrictWeak less) (v : Array α) :
    SortsTo less v (sortByLess less v) := by
  have hinv : (Machine.ofArray defaultSource v).Inv less v.toList 0 v.size :=
    (Machine.Started.whole defaultSource).inv
  obtain ⟨r, hrun, _, hdone⟩ := hinv.exists_run hless rfl
  have hreachable : Machine.Reachable less v 0 v.size r.machine :=
    ⟨_, _, .whole defaultSource, Machine.Reaches.refl.tail (.run hrun)⟩
  have hsorted := (hreachable.inv hless).sorted_of_done hdone
  have hrearranged := (hreachable.inv hless).rearranged
  refine ⟨r.machine.data, ?_, ?_, hrearranged.perm⟩
  · rw [sortByLess, hrun]
    rfl
  · have hwhole : window r.machine.data.toList 0 v.size = r.machine.data.toList := by
      have hlength : r.machine.data.toList.length = v.size := by
        rw [hrearranged.length_eq, Array.length_toList]
      rw [window, List.drop_zero, ← hlength, List.take_length]
    rw [← hwhole]
    exact hsorted

/-- **The sort sorts.** Let a machine be set up for a window and driven in any way, with any source
and with exchanges midway. When it is done, the window is sorted and permuted, and nothing else has
changed. In particular the sorts of a whole sequence yield a sorted permutation of it. -/
theorem sorts :
    (∀ (α σ : Type) [IndexSource σ] (less : α → α → Bool) (data : Array α) (lo hi : Nat)
      (m : Machine α σ), StrictWeak less → Machine.Reachable less data lo hi m →
        m.isDone = true → SortedWithin less data m.data lo hi) ∧
    (∀ (α : Type) (compare : α → α → Ordering) (v : Array α),
      StrictWeak (fun a b => compare a b == .lt) →
        SortsTo (fun a b => compare a b == .lt) v (sortBy compare v)) ∧
    (∀ (α κ : Type) [Ord κ] [LessOrd κ] (key : α → κ) (v : Array α),
      StrictWeak (fun a b : κ => compare a b == .lt) →
        SortsTo (fun a b => compare (key a) (key b) == .lt) v (sortByKey key v)) ∧
    ∀ (α : Type) [Ord α] [LessOrd α] (v : Array α),
      StrictWeak (fun a b : α => compare a b == .lt) →
        SortsTo (fun a b => compare a b == .lt) v (sort v) := by
  refine ⟨?_, ?_, ?_, ?_⟩
  · intro α σ _ less data lo hi m hless hreachable hdone
    exact hreachable.sortedWithin hless hdone
  · intro α compare v hless
    exact sortsTo_sortByLess hless v
  · intro α κ _ _ key v hless
    rw [sortByKey_eq]
    exact sortsTo_sortByLess (hless.ofKey key) v
  · intro α _ _ v hless
    rw [sort_eq]
    exact sortsTo_sortByLess hless v

/-- Four numbers between two others, sorted with a sample and buckets, and three numbers sorted in
one go. -/
theorem sorts_of_four :
    (∃ m : Machine Nat WordCycle,
      Machine.Reachable (fun a b => decide (a < b)) #[9, 2, 4, 1, 3, 0] 1 5 m ∧
        m.isDone = true ∧
        SortedWithin (fun a b => decide (a < b)) #[9, 2, 4, 1, 3, 0] m.data 1 5) ∧
      SortsTo (fun a b => compare a b == .lt) #[3, 1, 2] (sort #[3, 1, 2]) := by
  let less := fun a b : Nat => decide (a < b)
  let data := #[9, 2, 4, 1, 3, 0]
  let m₀ : Machine Nat WordCycle := .initial (.ofList [0xc0000000]) data 1 5
  let m₁ : Machine Nat WordCycle := { m₀ with config := ⟨1, 1, 1, 0⟩ }
  constructor
  · have hwindow : Machine.ofWindow? (.ofList [0xc0000000]) data 1 5 = .ok m₀ := rfl
    have hconfig : m₀.withConfig? ⟨1, 1, 1, 0⟩ = .ok m₁ := rfl
    have hdone : (m₁.run less).map (fun r => r.machine.isDone) = .ok true := by decide +kernel
    rcases hrun : m₁.run less with fault | r
    · rw [hrun] at hdone
      cases hdone
    · rw [hrun] at hdone
      have hreachable : Machine.Reachable less data 1 5 r.machine :=
        ⟨m₀, _, .window hwindow, (Machine.Reaches.refl.tail (.withConfig hconfig)).tail (.run hrun)⟩
      exact ⟨r.machine, hreachable, Except.ok.inj hdone,
        sorts.1 Nat WordCycle less data 1 5 r.machine .natural hreachable (Except.ok.inj hdone)⟩
  · have hcompare : (fun a b : Nat => compare a b == .lt) = fun a b => decide (a < b) := by
      funext a b
      rw [Bool.eq_iff_iff, decide_eq_true_iff, beq_iff_eq, Nat.compare_eq_lt]
    refine sorts.2.2.2 Nat #[3, 1, 2] ?_
    rw [hcompare]
    exact .natural

end SampleSort
