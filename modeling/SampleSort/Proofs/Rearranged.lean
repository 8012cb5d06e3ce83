import Mathlib.Data.List.Perm.Basic
import SampleSort.Window

set_option relaxedAutoImplicit false
set_option autoImplicit false

/-!
# Rearranging a window

A step of the sort writes to one window of the sequence. What it writes is a rearrangement of what
was there, and what stands outside of the window stays as it is.

## Main definitions

* `SampleSort.window` — the elements at consecutive positions.
* `SampleSort.Rearranged` — two lists that differ by the order of elements in a window.

## Main results

* `SampleSort.Rearranged.splice` — overwriting a window by a permutation of it rearranges it.
* `SampleSort.Rearranged.window_perm` — a window around the rearranged one is permuted.
* `SampleSort.Rearranged.exists_origin` — every element of the window comes from the window.
-/

namespace SampleSort

variable {α : Type} {lo hi start stop : Nat} {u v w : List α}

/-- The elements at the positions `lo ≤ p < hi`. -/
def window (v : List α) (lo hi : Nat) : List α :=
  (v.take hi).drop lo

/-- The lists have the same elements, and the same ones in the same places outside of the positions
`lo ≤ p < hi`. -/
structure Rearranged (lo hi : Nat) (v w : List α) : Prop where
  /-- Nothing is lost. -/
  perm : w.Perm v
  /-- Outside, nothing moves. -/
  outside : ∀ p, p < lo ∨ hi ≤ p → w[p]? = v[p]?

/-! ### Windows -/

/-- The element at position `k` of a window. -/
lemma getElem?_window (v : List α) (lo hi k : Nat) :
    (window v lo hi)[k]? = if lo + k < hi then v[lo + k]? else none := by
  rw [window, List.getElem?_drop, List.getElem?_take]

/-- A window has as many elements as positions. -/
lemma length_window (h : hi ≤ v.length) : (window v lo hi).length = hi - lo := by
  simp [window, Nat.min_eq_left h]

/-- A window has only elements of the list. -/
lemma window_subset (v : List α) (lo hi : Nat) : window v lo hi ⊆ v :=
  fun _ hx => List.mem_of_mem_take (List.mem_of_mem_drop hx)

/-- Reading inside the bounds yields the window. -/
lemma slice?_eq_window (h₁ : lo ≤ hi) (h₂ : hi ≤ v.length) :
    slice? v lo hi = .ok (window v lo hi) :=
  slice?_eq_ok_iff.2 ⟨⟨h₁, h₂⟩, rfl⟩

/-- Writing back what was read changes nothing. -/
lemma writeWindow_self {v : Array α} (h : readWindow? v start stop = .ok w) :
    writeWindow v start w = v := by
  rw [readWindow?_eq] at h
  have hlength := length_of_slice?_eq_ok h
  have hbounds := (slice?_eq_ok_iff.1 h).1
  rw [Array.length_toList] at hbounds
  apply Array.toList_inj.1
  rw [toList_writeWindow (by omega), splice_slice h]

/-- A list is what stands before a window, the window, and what stands after it. -/
lemma take_append_window_append_drop (v : List α) (h : lo ≤ hi) :
    v.take lo ++ window v lo hi ++ v.drop hi = v := by
  have hlo : v.take lo = (v.take hi).take lo := by rw [List.take_take, Nat.min_eq_left h]
  rw [window, hlo, List.take_append_drop, List.take_append_drop]

/-- The element at position `p` of a list with a window overwritten. -/
lemma getElem?_splice (h : start + w.length ≤ v.length) (p : Nat) :
    (splice v start w)[p]? =
      if p < start then v[p]? else if p < start + w.length then w[p - start]? else v[p]? := by
  have htake : (v.take start).length = start := by
    rw [List.length_take, Nat.min_eq_left (by omega)]
  rw [splice, List.getElem?_append, List.getElem?_append, List.length_append, htake]
  by_cases h₁ : p < start
  · rw [if_pos (by omega), if_pos h₁, if_pos h₁, List.getElem?_take_of_lt h₁]
  · rw [if_neg h₁, if_neg h₁]
    by_cases h₂ : p < start + w.length
    · rw [if_pos h₂, if_pos h₂]
    · rw [if_neg h₂, if_neg h₂, List.getElem?_drop]
      congr 1
      omega

/-- The window that was written is read back. -/
lemma window_splice (h : start + w.length ≤ v.length) :
    window (splice v start w) start (start + w.length) = w := by
  apply List.ext_getElem?
  intro k
  rw [getElem?_window, getElem?_splice h]
  by_cases hk : start + k < start + w.length
  · rw [if_pos hk, if_neg (by omega), if_pos hk, Nat.add_sub_cancel_left]
  · rw [if_neg hk, List.getElem?_eq_none (by omega)]

/-- A window of a window is a window. -/
lemma window_window {a b : Nat} (v : List α) (h : lo + b ≤ hi) :
    window (window v lo hi) a b = window v (lo + a) (lo + b) := by
  apply List.ext_getElem?
  intro k
  rw [getElem?_window, getElem?_window, getElem?_window, Nat.add_assoc]
  by_cases hk : a + k < b
  · rw [if_pos hk, if_pos (by omega), if_pos (by omega)]
  · rw [if_neg hk, if_neg (by omega)]

/-- A window of what was written is read back further up. -/
lemma window_splice_add {a b : Nat} (h : start + w.length ≤ v.length) (hb : b ≤ w.length) :
    window (splice v start w) (start + a) (start + b) = window w a b := by
  have hb' : start + b ≤ start + w.length := by omega
  rw [← window_window _ hb', window_splice h]

/-- Overwriting inside a window overwrites the window. -/
lemma window_splice_inside {k : Nat} (h : lo + k + w.length ≤ hi) (hhi : hi ≤ v.length) :
    window (splice v (lo + k) w) lo hi = splice (window v lo hi) k w := by
  have hlength : k + w.length ≤ (window v lo hi).length := by
    rw [length_window hhi]
    omega
  apply List.ext_getElem?
  intro p
  rw [getElem?_window, getElem?_splice (by omega), getElem?_splice hlength, getElem?_window,
    Nat.add_sub_add_left, Nat.add_assoc]
  simp only [Nat.add_lt_add_iff_left]
  by_cases hk : p < k
  · rw [if_pos hk, if_pos hk]
  · rw [if_neg hk, if_neg hk]
    by_cases hw : p < k + w.length
    · rw [if_pos hw, if_pos hw, if_pos (by omega)]
    · rw [if_neg hw, if_neg hw]

/-! ### Rearrangements -/

namespace Rearranged

/-- Nothing is moved. -/
lemma refl (lo hi : Nat) (v : List α) : Rearranged lo hi v v :=
  ⟨.refl v, fun _ _ => rfl⟩

/-- One rearrangement after the other. -/
lemma trans (h₁ : Rearranged lo hi u v) (h₂ : Rearranged lo hi v w) : Rearranged lo hi u w :=
  ⟨h₂.perm.trans h₁.perm, fun p hp => (h₂.outside p hp).trans (h₁.outside p hp)⟩

/-- What rearranges a window rearranges every window around it. -/
lemma mono {lo' hi' : Nat} (h : Rearranged lo hi v w) (hlo : lo' ≤ lo) (hhi : hi ≤ hi') :
    Rearranged lo' hi' v w :=
  ⟨h.perm, fun p hp => h.outside p (by omega)⟩

/-- The length stays the same. -/
lemma length_eq (h : Rearranged lo hi v w) : w.length = v.length :=
  h.perm.length_eq

/-- In arrays, too, nothing moves outside. -/
lemma getElem?_eq {v w : Array α} (h : Rearranged lo hi v.toList w.toList) {p : Nat}
    (hp : p < lo ∨ hi ≤ p) : w[p]? = v[p]? := by
  rw [← Array.getElem?_toList, ← Array.getElem?_toList]
  exact h.outside p hp

/-- Overwriting a window by a permutation of it rearranges it. -/
lemma splice (h₁ : start ≤ stop) (h₂ : stop ≤ v.length) (hw : w.Perm (window v start stop)) :
    Rearranged start stop v (splice v start w) := by
  have hlength : start + w.length = stop := by
    rw [hw.length_eq, length_window h₂]
    omega
  constructor
  · calc SampleSort.splice v start w
        = v.take start ++ w ++ v.drop stop := by rw [SampleSort.splice, hlength]
      _ |>.Perm (v.take start ++ window v start stop ++ v.drop stop) :=
          (hw.append_left _).append_right _
      _ = v := take_append_window_append_drop v h₁
  · intro p hp
    rw [getElem?_splice (by omega)]
    split_ifs <;> first | rfl | omega

/-- What stands before the window stays as it is. -/
lemma take_eq (h : Rearranged lo hi v w) {a : Nat} (ha : a ≤ lo) : w.take a = v.take a := by
  apply List.ext_getElem?
  intro p
  rw [List.getElem?_take, List.getElem?_take]
  split_ifs with hp
  · exact h.outside p (by omega)
  · rfl

/-- What stands after the window stays as it is. -/
lemma drop_eq (h : Rearranged lo hi v w) {b : Nat} (hb : hi ≤ b) : w.drop b = v.drop b := by
  apply List.ext_getElem?
  intro p
  rw [List.getElem?_drop, List.getElem?_drop]
  exact h.outside _ (by omega)

/-- A window behind the rearranged one stays as it is. -/
lemma window_eq (h : Rearranged lo hi v w) {a b : Nat} (ha : hi ≤ a) :
    window w a b = window v a b := by
  apply List.ext_getElem?
  intro k
  rw [getElem?_window, getElem?_window, h.outside (a + k) (by omega)]

/-- A window around the rearranged one is permuted. -/
lemma window_perm (h : Rearranged lo hi v w) {a b : Nat} (hab : a ≤ b) (ha : a ≤ lo)
    (hb : hi ≤ b) : (window w a b).Perm (window v a b) := by
  have hperm := h.perm
  rw [← take_append_window_append_drop w hab, ← take_append_window_append_drop v hab,
    h.take_eq ha, h.drop_eq hb] at hperm
  exact (List.perm_append_left_iff _).1 ((List.perm_append_right_iff _).1 hperm)

/-- Every element of the window comes from the window. -/
lemma exists_origin (h : Rearranged lo hi v w) {p : Nat} {x : α} (hlo : lo ≤ p) (hhi : p < hi)
    (hx : w[p]? = some x) : ∃ q, lo ≤ q ∧ q < hi ∧ v[q]? = some x := by
  have hmem : x ∈ window w lo hi := by
    apply List.mem_of_getElem? (i := p - lo)
    rw [getElem?_window, if_pos (by omega), Nat.add_sub_cancel' hlo, hx]
  rw [(h.window_perm (by omega) (Nat.le_refl lo) (Nat.le_refl hi)).mem_iff] at hmem
  obtain ⟨k, hk⟩ := List.mem_iff_getElem?.1 hmem
  rw [getElem?_window] at hk
  split_ifs at hk with hkhi
  exact ⟨lo + k, by omega, hkhi, hk⟩

end Rearranged

end SampleSort
