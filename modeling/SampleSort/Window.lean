import SampleSort.Fault

set_option relaxedAutoImplicit false
set_option autoImplicit false

/-!
# Windows of a sequence

Every algorithm of the sort works on a window, a run of consecutive elements, and leaves the rest
of the sequence alone. A window is read as a list, worked on by itself, and written back.

## Main definitions

* `SampleSort.slice?`, `SampleSort.splice` — a window cut out of a list, and a list with a window
  overwritten.
* `SampleSort.readWindow?`, `SampleSort.writeWindow` — the same on an array; writing is done in
  place.
* `SampleSort.offsets` — where consecutive windows of given sizes begin, and where the last ends.

## Main results

* `SampleSort.readWindow?_eq`, `SampleSort.toList_writeWindow` — arrays agree with lists.
* `SampleSort.slice?_eq_ok_iff` — a slice exists exactly inside the sequence.
* `SampleSort.splice_slice` — putting a slice back changes nothing.
* `SampleSort.length_splice` — a splice inside the sequence keeps its length.
-/

namespace SampleSort

variable {α : Type}

/-- The elements at the positions `start ≤ p < stop`, which have to lie inside the list. -/
def slice? (v : List α) (start stop : Nat) : Except Fault (List α) :=
  if start ≤ stop ∧ stop ≤ v.length then .ok ((v.take stop).drop start) else .error .outOfBounds

/-- The list `v` with the elements from position `start` on overwritten by `w`. -/
def splice (v : List α) (start : Nat) (w : List α) : List α :=
  v.take start ++ w ++ v.drop (start + w.length)

/-- The elements at the positions `start ≤ p < stop`, which have to lie inside the array. -/
def readWindow? (v : Array α) (start stop : Nat) : Except Fault (List α) :=
  if start ≤ stop ∧ stop ≤ v.size then .ok (v.extract start stop).toList
  else .error .outOfBounds

/-- The array `v` with the elements from position `start` on overwritten by `w`, as far as there are
such positions. -/
def writeWindow (v : Array α) (start : Nat) : List α → Array α
  | [] => v
  | x :: w => writeWindow (v.setIfInBounds start x) (start + 1) w

/-- The positions at which consecutive windows of the given sizes begin when the first begins at
`start`, followed by the position at which the last one ends. -/
def offsetsFrom (start : Nat) : List Nat → List Nat
  | [] => [start]
  | size :: sizes => start :: offsetsFrom (start + size) sizes

/-- The running sums of `sizes`, from `0` to the total. -/
def offsets (sizes : List Nat) : List Nat :=
  offsetsFrom 0 sizes

/-- A slice exists exactly inside the list. -/
theorem slice?_eq_ok_iff {v w : List α} {start stop : Nat} :
    slice? v start stop = .ok w ↔
      (start ≤ stop ∧ stop ≤ v.length) ∧ (v.take stop).drop start = w := by
  unfold slice?
  split <;> simp [*]

/-- A slice has as many elements as there are positions between its bounds. -/
theorem length_of_slice?_eq_ok {v w : List α} {start stop : Nat}
    (h : slice? v start stop = .ok w) : w.length = stop - start := by
  obtain ⟨⟨_, h₂⟩, rfl⟩ := slice?_eq_ok_iff.1 h
  simp [Nat.min_eq_left h₂]

/-- Putting a slice back changes nothing. -/
theorem splice_slice {v w : List α} {start stop : Nat} (h : slice? v start stop = .ok w) :
    splice v start w = v := by
  have hlen := length_of_slice?_eq_ok h
  obtain ⟨⟨h₁, h₂⟩, rfl⟩ := slice?_eq_ok_iff.1 h
  unfold splice
  rw [hlen, Nat.add_sub_cancel' h₁]
  have : v.take start = (v.take stop).take start := by
    rw [List.take_take, Nat.min_eq_left h₁]
  rw [this, List.take_append_drop, List.take_append_drop]

/-- A splice inside the list keeps its length. -/
theorem length_splice {v w : List α} {start : Nat} (h : start + w.length ≤ v.length) :
    (splice v start w).length = v.length := by
  simp only [splice, List.length_append, List.length_take, List.length_drop]
  omega

/-- An array is read like the list of its elements. -/
theorem readWindow?_eq (v : Array α) (start stop : Nat) :
    readWindow? v start stop = slice? v.toList start stop := by
  unfold readWindow? slice?
  rw [Array.length_toList]
  split
  · next h => simp [List.extract_eq_take_drop, List.drop_take]
  · rfl

/-- Writing keeps the size of an array. -/
@[simp] theorem size_writeWindow (v : Array α) (start : Nat) (w : List α) :
    (writeWindow v start w).size = v.size := by
  induction w generalizing v start with
  | nil => rfl
  | cons x w ih => simp [writeWindow, ih]

/-- Inside its bounds, an array is written like the list of its elements. -/
theorem toList_writeWindow {v : Array α} {start : Nat} {w : List α}
    (h : start + w.length ≤ v.size) :
    (writeWindow v start w).toList = splice v.toList start w := by
  induction w generalizing v start with
  | nil => simp [writeWindow, splice]
  | cons x w ih =>
    have hstart : start < v.toList.length := by
      simp only [List.length_cons, Array.length_toList] at h ⊢
      omega
    rw [writeWindow, ih (by simpa [Nat.add_assoc, Nat.add_comm 1] using h)]
    simp only [Array.toList_setIfInBounds, splice, List.length_cons]
    rw [List.set_eq_take_append_cons_drop, if_pos hstart]
    have htake : (v.toList.take start).length = start := by
      rw [List.length_take, Nat.min_eq_left (Nat.le_of_lt hstart)]
    simp [List.take_append, List.drop_append, htake, Nat.add_assoc, Nat.add_comm 1]
    rw [List.take_of_length_le (by rw [htake]; omega),
      List.drop_of_length_le (by rw [htake]; omega), List.nil_append]

/-- There is one position more than there are windows. -/
@[simp] theorem length_offsetsFrom (start : Nat) (sizes : List Nat) :
    (offsetsFrom start sizes).length = sizes.length + 1 := by
  induction sizes generalizing start with
  | nil => rfl
  | cons size sizes ih => simp [offsetsFrom, ih]

/-- There is one position more than there are windows. -/
@[simp] theorem length_offsets (sizes : List Nat) : (offsets sizes).length = sizes.length + 1 :=
  length_offsetsFrom 0 sizes

end SampleSort
