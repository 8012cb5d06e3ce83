import SampleSort.Counted

set_option relaxedAutoImplicit false
set_option autoImplicit false

/-!
# Separating a window in place

One pass over a window moves the elements that pass a test to its front. A passing element changes
places with the first of those passed over so far, which thereby becomes the last of them: the
passing elements keep their order, and the others wait in a queue that turns by one place
for each passing element.

## Main definitions

* `SampleSort.Queue` — a sequence with quick access to both ends.
* `SampleSort.separate` — the elements that pass and the elements that do not.
* `SampleSort.peelEqual` — the elements not greater than a pivot, and the others.

## Main results

* `SampleSort.Queue.toList_push`, `SampleSort.Queue.toList_turn` — the queue's operations.
* `SampleSort.separate_fst` — the passing elements, in their order.
* `SampleSort.separate_perm` — nothing is lost.
* `SampleSort.compares_separate` — every element is tested once.
* `SampleSort.peelEqual_fst`, `SampleSort.less_of_mem_peelEqual_snd` — the two parts of a peeled
  window.
-/

namespace SampleSort

/-- A sequence, held as a first part in order and a second part backwards. -/
structure Queue (α : Type) where
  /-- The first part. -/
  front : List α
  /-- The second part, last element first. -/
  back : List α

namespace Queue

variable {α : Type}

/-- The sequence without elements. -/
def empty : Queue α :=
  ⟨[], []⟩

/-- The elements in order. -/
def toList (q : Queue α) : List α :=
  q.front ++ q.back.reverse

/-- The sequence with one more element at its end. -/
def push (q : Queue α) (x : α) : Queue α :=
  ⟨q.front, x :: q.back⟩

/-- The sequence with its first element moved to its end. -/
def turn (q : Queue α) : Queue α :=
  match q.front with
  | x :: front => ⟨front, x :: q.back⟩
  | [] =>
    match q.back.reverse with
    | x :: front => ⟨front, [x]⟩
    | [] => q

@[simp] theorem toList_empty : (empty : Queue α).toList = [] := rfl

/-- The new element is the last one. -/
@[simp] theorem toList_push (q : Queue α) (x : α) : (q.push x).toList = q.toList ++ [x] := by
  simp [toList, push]

/-- The first element becomes the last one. -/
theorem toList_turn (q : Queue α) : q.turn.toList = q.toList.tail ++ q.toList.take 1 := by
  obtain ⟨front, back⟩ := q
  unfold turn toList
  cases front with
  | cons x front => simp
  | nil =>
    simp only
    cases h : back.reverse with
    | cons x front => simp
    | nil => simp [h]

/-- Turning permutes the elements. -/
theorem toList_turn_perm (q : Queue α) : q.turn.toList.Perm q.toList := by
  rw [toList_turn]
  cases q.toList with
  | nil => exact .refl _
  | cons x l => simp

end Queue

variable {α : Type}

/-- The elements of `v` that pass the test, and those that do not behind the ones `waiting`. -/
def separateFrom (test : α → Counted Bool) (waiting : Queue α) :
    List α → Counted (List α × Queue α)
  | [] => return ([], waiting)
  | x :: v => do
    if ← test x then
      let (passed, waiting) ← separateFrom test waiting.turn v
      return (x :: passed, waiting)
    else
      separateFrom test (waiting.push x) v

/-- The elements of `v` that pass the test, in their order, and those that do not. -/
def separate (test : α → Counted Bool) (v : List α) : Counted (List α × List α) := do
  let (passed, waiting) ← separateFrom test .empty v
  return (passed, waiting.toList)

/-- The elements that are not greater than the pivot, and those that are. In a window without
elements less than the pivot, the former are the ones equal to it. -/
def peelEqual (less : α → α → Bool) (pivot : α) (v : List α) : Counted (List α × List α) :=
  separate (fun x => not <$> Counted.ask less pivot x) v

/-- The passing elements keep their order, whatever is waiting. -/
theorem separateFrom_fst (test : α → Counted Bool) (waiting : Queue α) (v : List α) :
    (separateFrom test waiting v).value.1 = v.filter fun x => (test x).value := by
  induction v generalizing waiting with
  | nil => rfl
  | cons x v ih =>
    rw [separateFrom, Counted.value_bind]
    cases h : (test x).value
    · simpa [h] using ih _
    · simpa [h] using ih _

/-- The others join those that are waiting. -/
theorem separateFrom_snd_perm (test : α → Counted Bool) (waiting : Queue α) (v : List α) :
    (separateFrom test waiting v).value.2.toList.Perm
      (waiting.toList ++ v.filter fun x => !(test x).value) := by
  induction v generalizing waiting with
  | nil => simp [separateFrom]
  | cons x v ih =>
    rw [separateFrom, Counted.value_bind]
    cases h : (test x).value
    · simpa [h] using ih (waiting.push x)
    · simpa [h] using (ih waiting.turn).trans (waiting.toList_turn_perm.append_right _)

/-- The passing elements keep their order. -/
theorem separate_fst (test : α → Counted Bool) (v : List α) :
    (separate test v).value.1 = v.filter fun x => (test x).value :=
  separateFrom_fst test .empty v

/-- The others are all there, though in another order. -/
theorem separate_snd_perm (test : α → Counted Bool) (v : List α) :
    (separate test v).value.2.Perm (v.filter fun x => !(test x).value) := by
  simpa [separate] using separateFrom_snd_perm test .empty v

/-- Separating permutes the elements. -/
theorem separate_perm (test : α → Counted Bool) (v : List α) :
    ((separate test v).value.1 ++ (separate test v).value.2).Perm v := by
  rw [separate_fst]
  exact ((separate_snd_perm test v).append_left _).trans
    (List.filter_append_perm (fun x => (test x).value) v)

/-- A test that takes one comparison is made once for each element, whatever is waiting. -/
theorem compares_separateFrom (test : α → Counted Bool) (htest : ∀ x, (test x).compares = 1)
    (waiting : Queue α) (v : List α) : (separateFrom test waiting v).compares = v.length := by
  induction v generalizing waiting with
  | nil => rfl
  | cons x v ih =>
    rw [separateFrom, Counted.compares_bind, htest]
    cases (test x).value <;> simp [ih, Nat.add_comm]

/-- A test that takes one comparison is made once for each element. -/
theorem compares_separate (test : α → Counted Bool) (htest : ∀ x, (test x).compares = 1)
    (v : List α) : (separate test v).compares = v.length := by
  simp [separate, compares_separateFrom test htest]

/-- The elements that are peeled off are those that are not greater than the pivot, in their
order. -/
theorem peelEqual_fst (less : α → α → Bool) (pivot : α) (v : List α) :
    (peelEqual less pivot v).value.1 = v.filter fun x => !less pivot x :=
  separate_fst _ v

/-- Peeling permutes the elements. -/
theorem peelEqual_perm (less : α → α → Bool) (pivot : α) (v : List α) :
    ((peelEqual less pivot v).value.1 ++ (peelEqual less pivot v).value.2).Perm v :=
  separate_perm _ v

/-- The elements that are left are greater. -/
theorem less_of_mem_peelEqual_snd {less : α → α → Bool} {pivot x : α} {v : List α}
    (hx : x ∈ (peelEqual less pivot v).value.2) : less pivot x = true := by
  have hperm : (peelEqual less pivot v).value.2.Perm (v.filter fun x => !!less pivot x) :=
    separate_snd_perm _ v
  have hgreater := (List.mem_filter.1 (hperm.mem_iff.1 hx)).2
  rwa [Bool.not_not] at hgreater

/-- Every element is compared with the pivot once. -/
theorem compares_peelEqual (less : α → α → Bool) (pivot : α) (v : List α) :
    (peelEqual less pivot v).compares = v.length :=
  compares_separate _ (fun _ => rfl) v

end SampleSort
