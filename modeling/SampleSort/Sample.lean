import SampleSort.Fault
import SampleSort.Random.Source

set_option relaxedAutoImplicit false
set_option autoImplicit false

/-!
# Drawing a sample

A sample of `k` elements is drawn without replacement and moved to the front of its window by the
first `k` exchanges of a Fisher–Yates shuffle: the element at position `i` changes places with one
of those from position `i` on.

## Main definitions

* `SampleSort.drawIndices` — for each of the first positions, the index of its partner.
* `SampleSort.exchangeHead`, `SampleSort.exchangedFrom` — one exchange, and one for every index.
* `SampleSort.drawSample` — the draw and the exchanges.

## Design

The indices are drawn first and the exchanges made afterwards. The draw does not look at the
elements, and the exchanges do not look at the source: what a sample is depends on the indices
alone.

## Main results

* `SampleSort.exchangedFrom_perm` — the window is permuted, whatever the indices.
* `SampleSort.drawIndices_eq_error_iff` — a draw fails exactly when the sample is larger than the
  window.
-/

namespace SampleSort

variable {α σ : Type}

/-- The indices of `k` draws without replacement, for the positions from `i` on: each of them is an
index from its position on and below `n`. -/
def drawIndices [IndexSource σ] (n : Nat) : (k i : Nat) → σ → Except Fault (List Nat × σ)
  | 0, _, source => .ok ([], source)
  | k + 1, i, source =>
    if i < n then do
      let (j, source) := IndexSource.draw i n source
      let (js, source) ← drawIndices n k (i + 1) source
      return (j :: js, source)
    else .error .emptyDraw

/-- The first element and the one `offset` places after it change places. -/
def exchangeHead (offset : Nat) : List α → List α
  | [] => []
  | x :: rest =>
    match offset with
    | 0 => x :: rest
    | j + 1 =>
      match rest[j]? with
      | none => x :: rest
      | some y => y :: rest.set j x

/-- The elements from position `i` on, after one exchange for each index: the first of them changes
places with the element at the first index, and so on. -/
def exchangedFrom (i : Nat) : List Nat → List α → List α
  | [], v => v
  | j :: js, v =>
    match exchangeHead (j - i) v with
    | [] => []
    | y :: rest => y :: exchangedFrom (i + 1) js rest

/-- The window after its first elements have changed places with those at these indices. -/
def exchanged (js : List Nat) (v : List α) : List α :=
  exchangedFrom 0 js v

/-- The window with a random sample of `k` of its elements moved to the front. -/
def drawSample [IndexSource σ] (k : Nat) (v : List α) (source : σ) :
    Except Fault (List α × σ) := do
  let (js, source) ← drawIndices v.length k 0 source
  return (exchanged js v, source)

/-- An exchange permutes the elements. -/
theorem exchangeHead_perm (offset : Nat) (v : List α) : (exchangeHead offset v).Perm v := by
  cases v with
  | nil => exact .refl _
  | cons x rest =>
    cases offset with
    | zero => exact .refl _
    | succ j =>
      unfold exchangeHead
      simp only
      split
      · exact .refl _
      · next y hy =>
        obtain ⟨hj, rfl⟩ := List.getElem?_eq_some_iff.1 hy
        have hset : rest.set j x = rest.take j ++ x :: rest.drop (j + 1) :=
          List.set_eq_take_append_cons_drop.trans (if_pos hj)
        have hrest : rest = rest.take j ++ rest[j] :: rest.drop (j + 1) := by
          rw [List.getElem_cons_drop, List.take_append_drop]
        rw [hset]
        conv => rhs; rw [hrest]
        refine (List.Perm.cons _ List.perm_middle).trans ?_
        refine (List.Perm.swap _ _ _).trans ?_
        exact List.Perm.cons _ List.perm_middle.symm

/-- So does a sequence of exchanges, whatever the indices. -/
theorem exchangedFrom_perm (i : Nat) (js : List Nat) (v : List α) :
    (exchangedFrom i js v).Perm v := by
  induction js generalizing i v with
  | nil => exact .refl _
  | cons j js ih =>
    unfold exchangedFrom
    have h := exchangeHead_perm (j - i) v
    split
    · next he => rw [he] at h; exact h
    · next y rest he =>
      rw [he] at h
      exact ((ih (i + 1) rest).cons y).trans h

/-- A draw without replacement fails exactly when it asks for more elements than there are. -/
theorem drawIndices_eq_error_iff [IndexSource σ] {n k i : Nat} {source : σ} (hi : i ≤ n) :
    (∃ fault, drawIndices n k i source = .error fault) ↔ n < i + k := by
  induction k generalizing i source with
  | zero => simpa [drawIndices] using hi
  | succ k ih =>
    by_cases hlt : i < n
    · unfold drawIndices
      generalize IndexSource.draw i n source = drawn
      obtain ⟨j, source₁⟩ := drawn
      have hrest := @ih (i + 1) source₁ (Nat.succ_le_of_lt hlt)
      simp only [if_pos hlt, bind, Except.bind]
      cases h : drawIndices n k (i + 1) source₁ with
      | error fault => simp [h] at hrest; simp; omega
      | ok r => simp [h] at hrest; simp [pure, Except.pure]; omega
    · unfold drawIndices
      simp only [if_neg hlt, Except.error.injEq, exists_eq', true_iff]
      omega

end SampleSort
