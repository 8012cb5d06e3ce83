import SampleSort.Counted

set_option relaxedAutoImplicit false
set_option autoImplicit false

/-!
# Choosing splitters from a sorted sample

Candidates stand a stride apart in the sample. One that is not greater than the splitter before it
is passed over, one element at a time, until a greater one comes up; so splitters strictly ascend
even where the sample is full of duplicates.

## Main definitions

* `SampleSort.spacedFrom` — the splitters found in the rest of a sample.
* `SampleSort.chooseSplitters` — the splitters of a sample, at least one if it has elements.

## Main results

* `SampleSort.chooseSplitters_sublist` — the splitters are elements of the sample, in its order.
-/

namespace SampleSort

variable {α : Type}

/-- At most `limit` splitters from the rest of a sample, of which the first `skip` elements are no
candidates. The splitter before them, if there is one, is `last`. -/
def spacedFrom (less : α → α → Bool) (stride : Nat) :
    (skip limit : Nat) → (last : Option α) → List α → Counted (List α)
  | _, _, _, [] => return []
  | skip + 1, limit, last, _ :: rest => spacedFrom less stride skip limit last rest
  | 0, 0, _, _ :: _ => return []
  | 0, limit + 1, none, x :: rest => do
    return x :: (← spacedFrom less stride (stride - 1) limit (some x) rest)
  | 0, limit + 1, some last, x :: rest => do
    if ← Counted.ask less last x then
      return x :: (← spacedFrom less stride (stride - 1) limit (some x) rest)
    else
      spacedFrom less stride 0 (limit + 1) (some last) rest

/-- The splitters of a sample: candidates a stride apart, and at most `limit` of them. If that
yields none, the middle of the sample is taken, since one splitter still makes headway. -/
def chooseSplitters (less : α → α → Bool) (stride limit : Nat) (sample : List α) :
    Counted (List α) := do
  match ← spacedFrom less stride (stride - 1) limit none sample with
  | [] => return sample[sample.length / 2]?.toList
  | splitters => return splitters

/-- Splitters are taken from the rest of the sample, in its order. -/
theorem spacedFrom_sublist (less : α → α → Bool) (stride skip limit : Nat) (last : Option α)
    (sample : List α) :
    (spacedFrom less stride skip limit last sample).value.Sublist sample := by
  fun_induction spacedFrom less stride skip limit last sample with
  | case1 => exact .slnil
  | case2 _ _ _ _ _ ih => exact ih.cons _
  | case3 => exact List.nil_sublist _
  | case4 _ _ _ ih => exact ih.cons_cons _
  | case5 _ last x rest ih₁ ih₂ =>
    rw [Counted.value_bind, Counted.value_ask]
    split
    · exact ih₁.cons_cons _
    · exact ih₂.cons _

/-- Splitters are taken from the sample, in its order. -/
theorem chooseSplitters_sublist (less : α → α → Bool) (stride limit : Nat) (sample : List α) :
    (chooseSplitters less stride limit sample).value.Sublist sample := by
  unfold chooseSplitters
  rw [Counted.value_bind]
  split
  · rw [Counted.value_pure]
    cases h : sample[sample.length / 2]? with
    | none => exact List.nil_sublist _
    | some x => exact List.singleton_sublist.2 (List.mem_of_getElem? h)
  · exact spacedFrom_sublist less stride (stride - 1) limit none sample

end SampleSort
