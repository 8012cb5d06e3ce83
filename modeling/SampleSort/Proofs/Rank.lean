import SampleSort.Proofs.Order
import SampleSort.Splitter.Search

set_option relaxedAutoImplicit false
set_option autoImplicit false

/-!
# The rank of an element among the splitters

The bucket that the binary search finds for an element is the number of splitters that are not
greater than the element, which is its rank among them. Elements of a lower rank are less than
elements of a higher one, so buckets in the order of their numbers are in order.

## Main definitions

* `SampleSort.rank` — the number of splitters that are not greater than an element.

## Main results

* `SampleSort.value_bucketOf` — the binary search finds the rank.
* `SampleSort.notLess_iff_lt_rank` — which splitters are not greater than an element.
* `SampleSort.less_of_rank_lt` — an element of a lower rank is less.
-/

namespace SampleSort

variable {α : Type} {less : α → α → Bool} {splitters : List α}

/-- The number of splitters that are not greater than `x`. -/
def rank (less : α → α → Bool) (splitters : List α) (x : α) : Nat :=
  splitters.countP fun s => !less x s

/-- The rank is at most the number of splitters. -/
lemma rank_le_length (less : α → α → Bool) (splitters : List α) (x : α) :
    rank less splitters x ≤ splitters.length :=
  List.countP_le_length

/-! ### Binary search for a turning point -/

/-- If a predicate holds of the elements before some point of a list and of no others, that point
is the number of elements it holds of. -/
lemma lt_countP_iff {p : α → Bool} {l : List α} (h : l.Pairwise fun a b => p b = true → p a = true)
    {i : Nat} {x : α} (hx : l[i]? = some x) : i < l.countP p ↔ p x = true := by
  induction l generalizing i with
  | nil => simp at hx
  | cons a l ih =>
    obtain ⟨ha, hl⟩ := List.pairwise_cons.1 h
    by_cases hpa : p a = true
    · rw [List.countP_cons_of_pos hpa]
      cases i with
      | zero =>
        obtain rfl : a = x := by simpa using hx
        simp [hpa]
      | succ i => rw [Nat.succ_lt_succ_iff, ih hl (by simpa using hx)]
    · -- the predicate holds of nothing from here on
      have hnone : l.countP p = 0 := List.countP_eq_zero.2 fun b hb hpb => hpa (ha b hb hpb)
      rw [List.countP_cons_of_neg hpa, hnone]
      have hmem : x ∈ a :: l := List.mem_of_getElem? hx
      rcases List.mem_cons.1 hmem with rfl | hmem
      · simp [hpa]
      · simpa using fun hpx => hpa (ha x hmem hpx)

/-- Halving a range around the turning point `k` of a predicate leads to the position before it, or
to the first one if the predicate holds nowhere.

**Proof sketch.** Induction along the halvings. Either the first position of the range is before
the turning point or it is the very first one, and the turning point is not behind the range; both
halves keep this. -/
lemma narrow_value {p : Nat → Counted Bool} {n k : Nat}
    (hp : ∀ i, i < n → ((p i).value = true ↔ i < k)) (base size : Nat) (hsize : 0 < size)
    (hn : base + size ≤ n) (hlow : base < k ∨ base = 0) (hhigh : k ≤ base + size) :
    ((narrow p base size).value < k ∨ (narrow p base size).value = 0) ∧
      k ≤ (narrow p base size).value + 1 := by
  fun_induction narrow p base size with
  | case1 base size hs =>
    rw [Counted.value_pure]
    omega
  | case2 base size hs ih₁ ih₂ =>
    rw [Counted.value_bind]
    have hmid := hp (base + size / 2) (by omega)
    by_cases h : (p (base + size / 2)).value = true
    · rw [if_pos h]
      exact ih₁ (by omega) (by omega) (Or.inl (hmid.1 h)) (by omega)
    · rw [if_neg h]
      have := mt hmid.2 h
      exact ih₂ (by omega) (by omega) hlow (by omega)

/-- The search finds the turning point of a predicate that holds below it and nowhere else. -/
lemma partitionPoint_value {p : Nat → Counted Bool} {n k : Nat} (hk : k ≤ n)
    (hp : ∀ i, i < n → ((p i).value = true ↔ i < k)) : (partitionPoint p n).value = k := by
  unfold partitionPoint
  by_cases hn : n = 0
  · rw [if_pos hn, Counted.value_pure]
    omega
  · rw [if_neg hn, Counted.value_bind, Counted.value_bind]
    have hlt := narrow_lt p 0 n (by omega)
    obtain ⟨hlow, hhigh⟩ := narrow_value hp 0 n (by omega) (by omega) (Or.inr rfl) (by omega)
    have hpos := hp (narrow p 0 n).value (by omega)
    by_cases h : (p (narrow p 0 n).value).value = true
    · rw [if_pos h, Counted.value_pure]
      have := hpos.1 h
      omega
    · rw [if_neg h, Counted.value_pure]
      have := mt hpos.2 h
      omega

/-! ### Ranks and buckets -/

/-- Where splitters do not descend, those not greater than an element come first. -/
lemma pairwise_notLess (hless : StrictWeak less)
    (hs : splitters.Pairwise fun s t => less t s = false) (x : α) :
    splitters.Pairwise fun s t => (!less x t) = true → (!less x s) = true := by
  apply hs.imp
  intro s t hst ht
  rw [Bool.not_eq_true'] at ht ⊢
  exact hless.notGreater_trans hst ht

/-- Strictly ascending splitters do not descend. -/
lemma notGreater_of_ascending (hless : StrictWeak less)
    (hs : splitters.Pairwise fun s t => less s t = true) :
    splitters.Pairwise fun s t => less t s = false :=
  hs.imp fun hst => hless.asymm hst

/-- A splitter is not greater than an element exactly if its number is below the rank. -/
lemma notLess_iff_lt_rank (hless : StrictWeak less)
    (hs : splitters.Pairwise fun s t => less t s = false) {x s : α} {i : Nat}
    (hi : splitters[i]? = some s) : less x s = false ↔ i < rank less splitters x := by
  rw [rank, lt_countP_iff (pairwise_notLess hless hs x) hi, Bool.not_eq_true']

/-- The binary search finds the rank of an element among splitters that do not descend. -/
theorem value_bucketOf (hless : StrictWeak less)
    (hs : splitters.Pairwise fun s t => less t s = false) (x : α) :
    (bucketOf less splitters x).value = rank less splitters x := by
  unfold bucketOf
  apply partitionPoint_value (rank_le_length less splitters x)
  intro i hi
  rw [List.getElem?_eq_getElem hi, ← notLess_iff_lt_rank hless hs (List.getElem?_eq_getElem hi)]
  simp

/-- An element of a lower rank is less than one of a higher rank: the splitter that the ranks
disagree on is greater than the former and not greater than the latter. -/
theorem less_of_rank_lt (hless : StrictWeak less)
    (hs : splitters.Pairwise fun s t => less t s = false) {x y : α}
    (h : rank less splitters x < rank less splitters y) : less x y = true := by
  have hi : rank less splitters x < splitters.length := Nat.lt_of_lt_of_le h (rank_le_length _ _ y)
  have hget := List.getElem?_eq_getElem hi
  have hy := (notLess_iff_lt_rank hless hs (x := y) hget).2 h
  have hx : less x splitters[rank less splitters x] = true := by
    by_contra hx
    exact Nat.lt_irrefl _ ((notLess_iff_lt_rank hless hs hget).1 (by simpa using hx))
  exact hless.less_of_less_of_notGreater hx hy

/-- A splitter has a higher rank than its own number. -/
lemma lt_rank_self (hless : StrictWeak less)
    (hs : splitters.Pairwise fun s t => less t s = false) {i : Nat} {s : α}
    (hi : splitters[i]? = some s) : i < rank less splitters s :=
  (notLess_iff_lt_rank hless hs hi).1 (hless.irrefl s)

end SampleSort
