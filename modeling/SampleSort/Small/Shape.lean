import SampleSort.Counted

set_option relaxedAutoImplicit false
set_option autoImplicit false

/-!
# Windows that are resolved at a glance

A window that is empty, in order, or in reverse order needs no sorting. Its two ends tell which of
the orders is possible, and one scan over its neighbours decides.

## Main definitions

* `SampleSort.Shape` — the four outcomes.
* `SampleSort.Shape.detect` — the shape of a window.
* `SampleSort.Shape.arrange` — the window with a reversed one turned round.
-/

namespace SampleSort

variable {α : Type}

/-- What a window looks like before it is sorted. -/
inductive Shape where
  /-- It has no elements. -/
  | empty
  /-- No element is less than one before it. -/
  | sorted
  /-- It is not sorted, and no element is less than one after it. -/
  | reversed
  /-- None of these. -/
  | unsorted
  deriving DecidableEq, Repr

/-- Whether `r` holds of every two neighbours, asked from the left until it fails. -/
def allNeighbours (r : α → α → Counted Bool) : List α → Counted Bool
  | a :: b :: rest => do
    if ← r a b then allNeighbours r (b :: rest) else return false
  | _ => return true

namespace Shape

/-- The shape of a window. If its last element is less than its first, it can only be reversed or
unsorted; otherwise only sorted or unsorted. -/
def detect (less : α → α → Bool) : List α → Counted Shape
  | [] => return .empty
  | first :: rest => do
    if ← Counted.ask less (rest.getLastD first) first then
      let descends ← allNeighbours (fun a b => not <$> Counted.ask less a b) (first :: rest)
      return if descends then .reversed else .unsorted
    else
      let ascends ← allNeighbours (fun a b => not <$> Counted.ask less b a) (first :: rest)
      return if ascends then .sorted else .unsorted

/-- A window in order, if it has a shape other than `unsorted`: a reversed one is turned round and
the others are left alone. -/
def arrange : Shape → List α → List α
  | .reversed, v => v.reverse
  | _, v => v

/-- Putting a window in order permutes its elements. -/
theorem arrange_perm (shape : Shape) (v : List α) : (shape.arrange v).Perm v := by
  cases shape <;> first | exact v.reverse_perm | exact .refl v

/-- A window that is neither unsorted nor reversed is left alone. -/
theorem arrange_of_ne_reversed {shape : Shape} (h : shape ≠ .reversed) (v : List α) :
    shape.arrange v = v := by
  cases shape with
  | reversed => exact absurd rfl h
  | empty => rfl
  | sorted => rfl
  | unsorted => rfl

end Shape

end SampleSort
