import SampleSort.Proofs.Order
import SampleSort.Proofs.Rearranged

set_option relaxedAutoImplicit false
set_option autoImplicit false

/-!
# Sorted except inside windows

Between two steps of the sort, a stretch of the sequence is in order except inside the windows that
are still pending: elements that do not stand in one and the same window are in order already. A
window is done with when nothing in it is pending any more, or it gives way to smaller windows
inside it.

## Main definitions

* `SampleSort.Ascending` — windows that stand one after the other between two positions.
* `SampleSort.SortedBut` — a stretch that is in order except inside such windows.
* `SampleSort.shift` — a window moved along.

## Main results

* `SampleSort.SortedBut.refine` — the first window is rearranged so that it is in order except
  inside windows of its own, which take its place.
* `SampleSort.SortedBut.splice` — what holds of a list holds of where it is written to.
-/

namespace SampleSort

variable {α : Type} {less : α → α → Bool} {u v w : List α} {lo hi a b p : Nat}
  {ws inner : List (Nat × Nat)}

/-- The windows stand one after the other, from the left to the right, between `lo` and `hi`. -/
def Ascending : (lo hi : Nat) → List (Nat × Nat) → Prop
  | lo, hi, [] => lo ≤ hi
  | lo, hi, (a, b) :: ws => lo ≤ a ∧ a ≤ b ∧ Ascending b hi ws

/-- The positions from `lo` to `hi` are in order, except for elements that stand in one of the
windows together. -/
structure SortedBut (less : α → α → Bool) (v : List α) (lo hi : Nat) (ws : List (Nat × Nat)) :
    Prop where
  /-- The windows stand one after the other. -/
  ascending : Ascending lo hi ws
  /-- Of two elements that share no window, the right one is not less than the left one. -/
  inOrder : ∀ i j x y, lo ≤ i → i < j → j < hi → v[i]? = some x → v[j]? = some y →
    (∀ w ∈ ws, ¬(w.1 ≤ i ∧ j < w.2)) → less y x = false

/-- A window moved to the right by `p` places. -/
def shift (p : Nat) (w : Nat × Nat) : Nat × Nat :=
  (p + w.1, p + w.2)

/-! ### Windows one after the other -/

namespace Ascending

/-- The left bound is not right of the right bound. -/
lemma le (h : Ascending lo hi ws) : lo ≤ hi := by
  induction ws generalizing lo with
  | nil => exact h
  | cons w ws ih =>
    obtain ⟨h₁, h₂, h₃⟩ := h
    have := ih h₃
    omega

/-- Every window lies between the bounds. -/
lemma bounds (h : Ascending lo hi ws) {w : Nat × Nat} (hw : w ∈ ws) :
    lo ≤ w.1 ∧ w.1 ≤ w.2 ∧ w.2 ≤ hi := by
  induction ws generalizing lo with
  | nil => simp at hw
  | cons w' ws ih =>
    obtain ⟨h₁, h₂, h₃⟩ := h
    rcases List.mem_cons.1 hw with rfl | hw
    · exact ⟨h₁, h₂, h₃.le⟩
    · have := ih h₃ hw
      omega

/-- Every window ends before the later ones begin. -/
lemma pairwise (h : Ascending lo hi ws) : ws.Pairwise fun w w' => w.2 ≤ w'.1 := by
  induction ws generalizing lo with
  | nil => exact .nil
  | cons w ws ih =>
    obtain ⟨-, -, hrest⟩ := h
    exact List.pairwise_cons.2 ⟨fun w' hw' => (hrest.bounds hw').1, ih hrest⟩

/-- The windows also stand right of every position left of the left bound. -/
lemma mono_left {lo' : Nat} (h : Ascending lo hi ws) (hlo : lo' ≤ lo) : Ascending lo' hi ws := by
  cases ws with
  | nil => exact Nat.le_trans hlo h
  | cons w ws => exact ⟨Nat.le_trans hlo h.1, h.2⟩

/-- Windows up to some position are followed by windows from there on. -/
lemma append {mid : Nat} {ws' : List (Nat × Nat)} (h : Ascending lo mid ws)
    (h' : Ascending mid hi ws') : Ascending lo hi (ws ++ ws') := by
  induction ws generalizing lo with
  | nil => exact h'.mono_left h
  | cons w ws ih => exact ⟨h.1, h.2.1, ih h.2.2⟩

/-- Windows and bounds can be moved along together. -/
lemma shift (h : Ascending lo hi ws) (p : Nat) :
    Ascending (p + lo) (p + hi) (ws.map (shift p)) := by
  induction ws generalizing lo with
  | nil => exact Nat.add_le_add_left h p
  | cons w ws ih =>
    exact ⟨Nat.add_le_add_left h.1 p, Nat.add_le_add_left h.2.1 p, ih h.2.2⟩

end Ascending

/-! ### Stretches in order -/

namespace SortedBut

/-- A stretch that is one window may be in any order. -/
lemma whole (less : α → α → Bool) (v : List α) (h : lo ≤ hi) :
    SortedBut less v lo hi [(lo, hi)] :=
  ⟨⟨Nat.le_refl lo, h, Nat.le_refl hi⟩,
    fun _ _ _ _ hi' _ hj _ _ hw => absurd ⟨hi', hj⟩ (hw (lo, hi) (by simp))⟩

/-- A sorted list is in order. -/
lemma ofSorted (h : Sorted less v) : SortedBut less v 0 v.length [] := by
  refine ⟨Nat.zero_le _, ?_⟩
  intro i j x y _ hij hj hx hy _
  obtain ⟨hi', rfl⟩ := List.getElem?_eq_some_iff.1 hx
  obtain ⟨hj', rfl⟩ := List.getElem?_eq_some_iff.1 hy
  exact List.pairwise_iff_getElem.1 h i j hi' hj' hij

/-- A stretch in order without any exceptions is sorted. -/
lemma sorted (h : SortedBut less v lo hi []) : Sorted less (window v lo hi) := by
  apply List.pairwise_iff_getElem.2
  intro i j hi' hj' hij
  have hx := List.getElem?_eq_getElem hi'
  have hy := List.getElem?_eq_getElem hj'
  rw [getElem?_window] at hx hy
  split_ifs at hx hy with h₁ h₂
  exact h.inOrder (lo + i) (lo + j) _ _ (by omega) (by omega) h₂ hx hy (by simp)

/-- The first window is rearranged so that it is in order except inside windows of its own; these
take its place.

**Proof sketch.** Two elements of the window are in order by assumption, and two elements outside
of it have not been moved. An element of the window and one outside of it were in order wherever in
the window the former stood, and so they are now. -/
theorem refine (h : SortedBut less v lo hi ((a, b) :: ws)) (hr : Rearranged a b v w)
    (hin : SortedBut less w a b inner) : SortedBut less w lo hi (inner ++ ws) := by
  obtain ⟨hlo, hab, hws⟩ := h.ascending
  refine ⟨(hin.ascending.mono_left hlo).append hws, ?_⟩
  intro i j x y hi' hij hj hx hy hno
  have hinner : ∀ w ∈ inner, ¬(w.1 ≤ i ∧ j < w.2) := fun w hw => hno w (by simp [hw])
  have houter : ∀ w ∈ ws, ¬(w.1 ≤ i ∧ j < w.2) := fun w hw => hno w (by simp [hw])
  have hright : ∀ w ∈ ws, b ≤ w.1 := fun w hw => (hws.bounds hw).1
  have hbhi := hws.le
  by_cases hia : a ≤ i ∧ i < b
  · by_cases hjb : j < b
    · exact hin.inOrder i j x y hia.1 hij hjb hx hy hinner
    · -- the left element stands in the window, the right one behind it
      obtain ⟨q, hq₁, hq₂, hqx⟩ := hr.exists_origin hia.1 hia.2 hx
      rw [hr.outside j (by omega)] at hy
      refine h.inOrder q j x y (by omega) (by omega) hj hqx hy ?_
      intro w hw
      rcases List.mem_cons.1 hw with rfl | hw
      · simp only; omega
      · have := hright w hw; omega
  · rw [hr.outside i (by omega)] at hx
    by_cases hja : a ≤ j ∧ j < b
    · -- the right element stands in the window, the left one before it
      obtain ⟨q, hq₁, hq₂, hqy⟩ := hr.exists_origin hja.1 hja.2 hy
      refine h.inOrder i q x y hi' (by omega) (by omega) hx hqy ?_
      intro w hw
      rcases List.mem_cons.1 hw with rfl | hw
      · simp only; omega
      · have := hright w hw; omega
    · rw [hr.outside j (by omega)] at hy
      refine h.inOrder i j x y hi' hij hj hx hy ?_
      intro w hw
      rcases List.mem_cons.1 hw with rfl | hw
      · simp only; omega
      · exact houter w hw

/-- What holds of a list holds of the place where it is written. -/
lemma splice (h : SortedBut less w 0 w.length ws) (hp : p + w.length ≤ v.length) :
    SortedBut less (splice v p w) p (p + w.length) (ws.map (shift p)) := by
  refine ⟨by simpa using h.ascending.shift p, ?_⟩
  intro i j x y hi' hij hj hx hy hno
  rw [getElem?_splice hp, if_neg (by omega), if_pos (by omega)] at hx hy
  refine h.inOrder (i - p) (j - p) x y (Nat.zero_le _) (by omega) (by omega) hx hy ?_
  intro w hw
  have := hno (SampleSort.shift p w) (List.mem_map_of_mem hw)
  simp only [SampleSort.shift] at this
  omega

/-- Two lists in order, the second without elements less than one of the first, are in order one
after the other. -/
lemma append {ws' : List (Nat × Nat)} (h : SortedBut less u 0 u.length ws)
    (h' : SortedBut less w 0 w.length ws') (hle : ∀ x ∈ u, ∀ y ∈ w, less y x = false) :
    SortedBut less (u ++ w) 0 (u ++ w).length (ws ++ ws'.map (shift u.length)) := by
  have hshift := h'.ascending.shift u.length
  rw [Nat.add_zero, ← List.length_append] at hshift
  refine ⟨h.ascending.append hshift, ?_⟩
  intro i j x y _ hij _ hx hy hno
  rw [List.getElem?_append] at hx hy
  split_ifs at hx hy with hiu hju hju
  · exact h.inOrder i j x y (Nat.zero_le _) hij hju hx hy fun w hw => hno w (by simp [hw])
  · exact hle x (List.mem_of_getElem? hx) y (List.mem_of_getElem? hy)
  · omega
  · have hlen : j - u.length < w.length := (List.getElem?_eq_some_iff.1 hy).1
    refine h'.inOrder _ _ x y (Nat.zero_le _) (by omega) hlen hx hy ?_
    intro w hw
    have := hno (SampleSort.shift u.length w)
      (List.mem_append_right _ (List.mem_map_of_mem hw))
    simp only [SampleSort.shift] at this
    omega

end SortedBut

end SampleSort
