import SampleSort.Proofs.Checked.Small
import SampleSort.Proofs.Classes

set_option relaxedAutoImplicit false
set_option autoImplicit false

/-!
# Peeling a window

The elements that are not greater than a pivot are peeled off a window: one pass moves them to its
front, where they keep their order, and compares each element with the pivot once. All others are
greater. In a window without elements less than the pivot, those that are peeled off are its ties,
and they need not be sorted any more: they stand in front of any arrangement in which the others
are.

## Main definitions

* `SampleSort.PeelsOff` — the parts of a window that is peeled.

## Main results

* `SampleSort.sorted_append_of_tied` — ties of a pivot stand in front of sorted greater elements.
* `SampleSort.peelEqual_peelsOff` — what peeling yields and costs.
-/

namespace SampleSort

variable {α : Type} {less : α → α → Bool} {pivot : α} {v w front rest : List α}

/-- The window `v` is peeled: `front` is what is not greater than the pivot, and `rest` are the
other elements. -/
structure PeelsOff (less : α → α → Bool) (pivot : α) (v front rest : List α) : Prop where
  /-- Nothing is lost. -/
  perm : (front ++ rest).Perm v
  /-- The elements in front are those that are not greater, in their order. -/
  front_eq : front = v.filter fun x => !less pivot x
  /-- They are as many as there are. -/
  length_eq : front.length = v.countP fun x => !less pivot x
  /-- All others are greater. -/
  greater : ∀ x ∈ rest, less pivot x = true
  /-- The pass over a window in place leaves the two parts one after the other, and yields the
  length of the first. -/
  in_place : v.length < wordBound →
    Checked.separate (fun x => !less pivot x) v = .ok (front.length, front ++ rest)
  /-- If no element is less than the pivot, those in front are its ties. -/
  ties : (∀ x ∈ v, less x pivot = false) → front = v.filter fun x => tied less pivot x
  /-- They are in order in front of the others, once these are. -/
  sorted : StrictWeak less → (∀ x ∈ v, less x pivot = false) →
    ∀ w, w.Perm rest → Sorted less w → Sorted less (front ++ w)

/-! ### Ties in front -/

/-- Where nothing is less than the pivot, what is not greater is a tie. -/
lemma filter_notGreater_eq (hmin : ∀ x ∈ v, less x pivot = false) :
    (v.filter fun x => !less pivot x) = v.filter fun x => tied less pivot x := by
  apply List.filter_congr
  intro x hx
  rw [tied, hmin x hx, Bool.not_false, Bool.and_true]

/-- Ties of a pivot stand in front of elements that are greater, if these are sorted. -/
theorem sorted_append_of_tied (hless : StrictWeak less)
    (hfront : ∀ x ∈ front, tied less pivot x = true) (hrest : ∀ x ∈ rest, less pivot x = true)
    (hsorted : Sorted less rest) : Sorted less (front ++ rest) := by
  refine List.pairwise_append.2 ⟨?_, hsorted, ?_⟩
  · refine List.pairwise_of_forall_mem_list fun x hx y hy => ?_
    have htied := hless.tied_trans (tied_comm.trans (hfront x hx)) (hfront y hy)
    exact (tied_iff.1 htied).2
  · intro x hx y hy
    have hnot : less pivot x = false := (tied_iff.1 (hfront x hx)).1
    by_contra hyx
    have hpx := hless.less_trans (hrest y hy) (by simpa using hyx)
    simp [hnot] at hpx

/-- **Peeling a window.** One pass, which compares every element with the pivot once, moves those
that are not greater to the front. -/
theorem peelEqual_peelsOff (less : α → α → Bool) (pivot : α) (v : List α) :
    ∃ front rest, peelEqual less pivot v = ⟨(front, rest), v.length⟩ ∧
      PeelsOff less pivot v front rest := by
  have hfront := peelEqual_fst less pivot v
  refine ⟨(peelEqual less pivot v).value.1, (peelEqual less pivot v).value.2, ?_,
    peelEqual_perm less pivot v, hfront, ?_, fun x => less_of_mem_peelEqual_snd, fun hlength => ?_,
    fun hmin => hfront.trans (filter_notGreater_eq hmin), fun hless hmin w hperm hw => ?_⟩
  · rw [← compares_peelEqual less pivot v]
  · rw [hfront, List.countP_eq_length_filter]
  · exact Checked.peelEqual_eq less pivot hlength
  · have htied : ∀ x ∈ (peelEqual less pivot v).value.1, tied less pivot x = true := by
      intro x hx
      rw [hfront, filter_notGreater_eq hmin] at hx
      exact (List.mem_filter.1 hx).2
    have hgreater : ∀ x ∈ w, less pivot x = true := fun x hx =>
      less_of_mem_peelEqual_snd (hperm.mem_iff.1 hx)
    exact sorted_append_of_tied hless htied hgreater hw

/-- Six numbers, of which three are ties of the least one. -/
theorem peelEqual_peelsOff_of_six :
    ∃ front rest, peelEqual (fun a b : Nat => decide (a < b)) 4 [4, 7, 4, 9, 5, 4] =
        ⟨(front, rest), 6⟩ ∧
      PeelsOff (fun a b => decide (a < b)) 4 [4, 7, 4, 9, 5, 4] front rest ∧
      front = [4, 4, 4] ∧ rest = [9, 5, 7] ∧
      Sorted (fun a b => decide (a < b)) (front ++ [5, 7, 9]) := by
  obtain ⟨front, rest, hpeeled, hpeels⟩ :=
    peelEqual_peelsOff (fun a b : Nat => decide (a < b)) 4 [4, 7, 4, 9, 5, 4]
  have hfront : front = [4, 4, 4] := hpeels.ties (by decide)
  have hrest : rest = [9, 5, 7] := congrArg (fun c => c.value.2) hpeeled.symm
  have hperm : [5, 7, 9].Perm rest := by
    rw [hrest]
    decide
  have hsorted : Sorted (fun a b : Nat => decide (a < b)) [5, 7, 9] := by
    unfold Sorted
    decide
  exact ⟨front, rest, hpeeled, hpeels, hfront, hrest,
    hpeels.sorted .natural (by decide) _ hperm hsorted⟩

end SampleSort
