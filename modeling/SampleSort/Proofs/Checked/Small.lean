import Mathlib.Data.List.Induction
import SampleSort.Partition.Separation
import SampleSort.Proofs.Checked.Word
import SampleSort.Small.Insertion

set_option relaxedAutoImplicit false
set_option autoImplicit false

/-!
# Insertion and separation in place

Insertion sort looks for the place of every element from the right to the left and turns the part in
between by one place. Separation has one pass over a window, in which an element that passes the
test changes places with the first of those that have not.

## Main definitions

* `SampleSort.Checked.insertionSort`, `SampleSort.Checked.sortSmall` — insertion.
* `SampleSort.Checked.separate` — separation.

## Main results

* `SampleSort.Checked.insertionSort_eq`, `SampleSort.Checked.sortSmall_eq`,
  `SampleSort.Checked.separate_eq` — nothing is stopped in a window that is not too long, and
  the outcome is that of the definitions on lists.
-/

namespace SampleSort.Checked

variable {α : Type} {less : α → α → Bool} {v : List α}

/-! ### Insertion -/

/-- Where the element `x` goes if the `j` elements before it are sorted: behind the last one that is
not greater. -/
def insertionPoint (less : α → α → Bool) (v : List α) (x : α) : (j : Nat) → Except Panic Nat
  | 0 => return 0
  | j + 1 => do
    let y ← get v j
    if less x y then insertionPoint less v x j else return j + 1

/-- The element at position `i` comes to position `j`, and those from there on move on by one
place. -/
def rotate (v : List α) (j i : Nat) : Except Panic (List α) := do
  let stop ← add i 1
  let part ← slice v j stop
  return splice v j part.rotateRight

/-- The element at position `i` is inserted into the sorted ones before it. -/
def insertAt (less : α → α → Bool) (v : List α) (i : Nat) : Except Panic (List α) := do
  let x ← get v i
  let j ← insertionPoint less v x i
  if j < i then rotate v j i else return v

/-- The window, sorted by insertion. -/
def insertionSort (less : α → α → Bool) (v : List α) : Except Panic (List α) :=
  (List.range' 1 (v.length - 1)).foldlM (insertAt less) v

/-- The window, sorted, with no more than one scan if it is sorted or reversed already. -/
def sortSmall (less : α → α → Bool) (v : List α) : Except Panic (List α) :=
  match (Shape.detect less v).value with
  | .unsorted => insertionSort less v
  | shape => return shape.arrange v

/-- The place of an element is where insertion puts it. -/
lemma insertionPoint_eq (less : α → α → Bool) (x : α) (front rest : List α) :
    ∃ j, insertionPoint less (front ++ rest) x front.length = .ok j ∧ j ≤ front.length ∧
      (insertBack less x front.reverse).value.reverse = front.take j ++ x :: front.drop j := by
  induction front using List.reverseRecOn generalizing rest with
  | nil => exact ⟨0, rfl, Nat.le_refl 0, by simp [insertBack]⟩
  | append_singleton front y ih =>
    have hget : get (front ++ [y] ++ rest) front.length = .ok y := by
      rw [List.append_assoc]
      exact get_append front y rest
    rw [List.length_append, List.length_singleton, insertionPoint, hget, ok_bind]
    cases hless : less x y with
    | true =>
      obtain ⟨j, hpoint, hj, hinsert⟩ := ih (y :: rest)
      refine ⟨j, by simpa using hpoint, by omega, ?_⟩
      simp [insertBack, hless, hinsert, List.take_append_of_le_length hj,
        List.drop_append_of_le_length hj]
    | false =>
      refine ⟨front.length + 1, rfl, Nat.le_refl _, ?_⟩
      rw [List.take_of_length_le (by simp), List.drop_of_length_le (by simp)]
      simp [insertBack, hless]

/-- Turning a list to the right brings its last element to the front. -/
lemma rotateRight_append_singleton (u : List α) (x : α) : (u ++ [x]).rotateRight = x :: u := by
  cases u with
  | nil => rfl
  | cons y u => simp [List.rotateRight]

/-- An element that is brought forward moves on those that it passes. -/
lemma rotate_eq {front rest : List α} {x : α} {j : Nat} (hj : j ≤ front.length)
    (hlength : front.length + 1 < wordBound) :
    rotate (front ++ x :: rest) j front.length =
      .ok (front.take j ++ x :: front.drop j ++ rest) := by
  have hv : front ++ x :: rest = front.take j ++ ((front.drop j ++ [x]) ++ rest) := by
    simp only [List.append_assoc, List.singleton_append, ← List.append_assoc (front.take j),
      List.take_append_drop]
  have htake : (front.take j).length = j := by simp [hj]
  have hstop : front.length + 1 = j + (front.drop j ++ [x]).length := by
    simp
    omega
  have hslice := slice_append (front.take j) (front.drop j ++ [x]) rest
  have hsplice := splice_append (front.take j) (front.drop j ++ [x]) rest
    (w := x :: front.drop j) (by simp)
  rw [← hv, htake] at hslice hsplice
  rw [rotate, add_eq hlength, ok_bind, hstop, hslice, ok_bind, rotateRight_append_singleton,
    hsplice]
  simp [pure, Except.pure]

/-- Inserting an element. -/
lemma insertAt_eq {front rest : List α} {x : α} (hlength : front.length + 1 < wordBound) :
    insertAt less (front ++ x :: rest) front.length =
      .ok ((insertBack less x front.reverse).value.reverse ++ rest) := by
  obtain ⟨j, hpoint, hj, hinsert⟩ := insertionPoint_eq less x front (x :: rest)
  rw [insertAt, get_append, ok_bind, hpoint, ok_bind, hinsert]
  by_cases hlt : j < front.length
  · rw [if_pos hlt, rotate_eq hj hlength]
  · obtain rfl : j = front.length := by omega
    simp [pure, Except.pure]

/-- Inserting the elements behind a sorted front part, one after the other. -/
lemma foldlM_insertAt (less : α → α → Bool) (front rest : List α)
    (hlength : front.length + rest.length < wordBound) :
    (List.range' front.length rest.length).foldlM (insertAt less) (front ++ rest) =
      .ok (rest.foldl (fun sorted x => (insertBack less x sorted).value)
        front.reverse).reverse := by
  induction rest generalizing front with
  | nil => simp [pure, Except.pure]
  | cons x rest ih =>
    rw [List.length_cons] at hlength
    rw [List.length_cons, List.range'_succ, List.foldlM_cons, insertAt_eq (by omega), ok_bind]
    have hgrown : (insertBack less x front.reverse).value.length = front.length + 1 := by
      simpa using (insertBack_perm less x front.reverse).length_eq
    have h := ih (insertBack less x front.reverse).value.reverse (by
      rw [List.length_reverse, hgrown]
      omega)
    rw [List.length_reverse, hgrown, List.reverse_reverse] at h
    exact h

/-- A fold that counts comparisons yields what one that does not yields. -/
lemma value_foldlM {β γ : Type} (f : β → γ → Counted β) (b : β) (l : List γ) :
    (l.foldlM f b).value = l.foldl (fun b c => (f b c).value) b := by
  induction l generalizing b with
  | nil => rfl
  | cons c l ih => exact ih (f b c).value

/-- Insertion sort in place. -/
theorem insertionSort_eq (less : α → α → Bool) (hlength : v.length < wordBound) :
    insertionSort less v = .ok (SampleSort.insertionSort less v).value := by
  rw [SampleSort.insertionSort, Counted.value_bind, Counted.value_pure, value_foldlM]
  cases v with
  | nil => rfl
  | cons x rest =>
    rw [List.length_cons] at hlength
    exact foldlM_insertAt less [x] rest (by rw [List.length_singleton]; omega)

/-- The same with the windows in order picked out first. -/
theorem sortSmall_eq (less : α → α → Bool) (hlength : v.length < wordBound) :
    sortSmall less v = .ok (SampleSort.sortSmall less v).value := by
  rw [sortSmall, SampleSort.sortSmall, Counted.value_bind]
  cases (Shape.detect less v).value with
  | unsorted => exact insertionSort_eq less hlength
  | empty => rfl
  | sorted => rfl
  | reversed => rfl

/-! ### Separation -/

/-- One position of a pass: an element that passes the test changes places with the first one that
has not, at position `passed`. -/
def separateAt (test : α → Bool) (state : Nat × List α) (k : Nat) :
    Except Panic (Nat × List α) := do
  let (passed, v) := state
  let x ← get v k
  if test x then
    let v ← swap v passed k
    let passed ← add passed 1
    return (passed, v)
  else return (passed, v)

/-- The window with the elements that pass the test in front, and how many these are. -/
def separate (test : α → Bool) (v : List α) : Except Panic (Nat × List α) :=
  (List.range' 0 v.length).foldlM (separateAt test) (0, v)

/-- An element that passes the test goes behind those that have passed, and those that have not are
turned. -/
lemma separateAt_passing (test : α → Bool) {passed rest : List α} {waiting : Queue α} {x : α}
    (hx : test x = true) (hlength : passed.length + 1 < wordBound) :
    separateAt test (passed.length, passed ++ (waiting.toList ++ x :: rest))
        (passed.length + waiting.toList.length) =
      .ok ((passed ++ [x]).length, (passed ++ [x]) ++ (waiting.turn.toList ++ rest)) := by
  have hget : get (passed ++ (waiting.toList ++ x :: rest))
      (passed.length + waiting.toList.length) = .ok x := by
    rw [← List.append_assoc, ← List.length_append]
    exact get_append _ x rest
  have hswap : swap (passed ++ (waiting.toList ++ x :: rest)) passed.length
      (passed.length + waiting.toList.length) =
        .ok ((passed ++ [x]) ++ (waiting.turn.toList ++ rest)) := by
    rw [Queue.toList_turn]
    cases waiting.toList with
    | nil =>
      simpa using swap_self (v := passed ++ x :: rest) (x := x) (i := passed.length) (by simp)
    | cons w ws => simpa using swap_append passed w ws x rest
  simp only [separateAt, hget, ok_bind, hx, if_true, hswap, add_eq hlength]
  simp [pure, Except.pure]

/-- An element that does not pass waits. -/
lemma separateAt_waiting (test : α → Bool) {passed rest : List α} {waiting : Queue α} {x : α}
    (hx : test x = false) :
    separateAt test (passed.length, passed ++ (waiting.toList ++ x :: rest))
        (passed.length + waiting.toList.length) =
      .ok (passed.length, passed ++ ((waiting.push x).toList ++ rest)) := by
  have hget : get (passed ++ (waiting.toList ++ x :: rest))
      (passed.length + waiting.toList.length) = .ok x := by
    rw [← List.append_assoc, ← List.length_append]
    exact get_append _ x rest
  simp only [separateAt, hget, ok_bind, hx, Queue.toList_push]
  simp [pure, Except.pure]

/-- The rest of a pass.

**Proof sketch.** Induction along the elements that are still to be tested. Those that have passed
stand in front of those that wait. -/
lemma foldlM_separateAt (test : α → Counted Bool) (passed : List α) (waiting : Queue α)
    (rest : List α)
    (hlength : (passed ++ (waiting.toList ++ rest)).length < wordBound) :
    (List.range' (passed.length + waiting.toList.length) rest.length).foldlM
        (separateAt fun x => (test x).value)
        (passed.length, passed ++ (waiting.toList ++ rest)) =
      .ok ((passed ++ (separateFrom test waiting rest).value.1).length,
        passed ++ ((separateFrom test waiting rest).value.1 ++
          (separateFrom test waiting rest).value.2.toList)) := by
  induction rest generalizing passed waiting with
  | nil => simp [separateFrom, pure, Except.pure]
  | cons x rest ih =>
    simp only [List.length_append, List.length_cons] at hlength
    rw [List.length_cons, List.range'_succ, List.foldlM_cons, separateFrom, Counted.value_bind]
    cases hx : (test x).value with
    | true =>
      have hturn := waiting.toList_turn_perm.length_eq
      rw [separateAt_passing (fun x => (test x).value) hx (by omega), ok_bind]
      have h := ih (passed ++ [x]) waiting.turn (by
        simp only [List.length_append, List.length_singleton]
        omega)
      simpa [hturn, Nat.add_right_comm] using h
    | false =>
      rw [separateAt_waiting (fun x => (test x).value) hx, ok_bind]
      have h := ih passed (waiting.push x) (by
        simp only [List.length_append, Queue.toList_push, List.length_singleton]
        omega)
      simpa [Nat.add_assoc] using h

/-- Separation in place. -/
theorem separate_eq (test : α → Counted Bool) (hlength : v.length < wordBound) :
    separate (fun x => (test x).value) v =
      .ok ((SampleSort.separate test v).value.1.length,
        (SampleSort.separate test v).value.1 ++ (SampleSort.separate test v).value.2) := by
  simpa [separate, SampleSort.separate] using
    foldlM_separateAt test [] .empty v (by simpa using hlength)

/-- Peeling in place. -/
theorem peelEqual_eq (less : α → α → Bool) (pivot : α) (hlength : v.length < wordBound) :
    separate (fun x => !less pivot x) v =
      .ok ((peelEqual less pivot v).value.1.length,
        (peelEqual less pivot v).value.1 ++ (peelEqual less pivot v).value.2) :=
  separate_eq (fun x => not <$> Counted.ask less pivot x) hlength

end SampleSort.Checked
