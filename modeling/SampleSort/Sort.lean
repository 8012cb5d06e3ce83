import SampleSort.Machine.Run
import SampleSort.Random.ChaCha

set_option relaxedAutoImplicit false
set_option autoImplicit false

/-!
# Sorting in one go

A sequence is sorted by running a machine on it to the end, with the default configuration, the
default strategy, and randomness from a fixed seed; so the same sequence is always arranged in the
same way.

Of an ordered type it is asked that being less and comparing less are the same, however each of them
is programmed: the natural order goes by the one, and a comparison by the other.

## Main definitions

* `SampleSort.LessOrd` — a relation that agrees with the comparison of its type.
* `SampleSort.sortByLess`, `SampleSort.sortBy`, `SampleSort.sortByKey`, `SampleSort.sort` — by a
  predicate, by a comparison, by a key, and in the natural order.
-/

namespace SampleSort

variable {α κ : Type}

/-- A type with a comparison, for which being less may be programmed apart. -/
class LessOrd (α : Type) [Ord α] where
  /-- Whether one element is less than another. -/
  isLess : α → α → Bool
  /-- It is exactly if it compares so. -/
  isLess_eq (a b : α) : isLess a b = (compare a b == .lt)

/-- Being less can be read off the comparison. -/
instance (priority := low) [Ord α] : LessOrd α :=
  ⟨fun a b => compare a b == .lt, fun _ _ => rfl⟩

/-- The seed that is used where none is given. -/
def defaultSeed : UInt64 := 0x1ab5a3c97e570b01

/-- The source of randomness that is used where no seed is given. -/
def defaultSource : ChaCha :=
  .ofSeed defaultSeed

/-- The sequence sorted by a strict weak ordering. -/
def sortByLess (less : α → α → Bool) (v : Array α) : Except Fault (Array α) := do
  let run ← (Machine.ofArray defaultSource v).run less
  return run.machine.data

/-- The sequence sorted by a comparison. -/
def sortBy (compare : α → α → Ordering) (v : Array α) : Except Fault (Array α) :=
  sortByLess (fun a b => compare a b == .lt) v

/-- The sequence sorted by the natural order of a key of its elements. -/
def sortByKey [Ord κ] [LessOrd κ] (key : α → κ) (v : Array α) : Except Fault (Array α) :=
  sortByLess (fun a b => LessOrd.isLess (key a) (key b)) v

/-- The sequence sorted in its natural order. -/
def sort [Ord α] [LessOrd α] (v : Array α) : Except Fault (Array α) :=
  sortByLess LessOrd.isLess v

/-- To sort by a key is to sort by the comparison of keys. -/
theorem sortByKey_eq [Ord κ] [LessOrd κ] (key : α → κ) (v : Array α) :
    sortByKey key v = sortBy (fun a b => compare (key a) (key b)) v := by
  unfold sortByKey sortBy
  congr 1
  funext a b
  exact LessOrd.isLess_eq (key a) (key b)

/-- To sort in the natural order is to sort by the comparison. -/
theorem sort_eq [Ord α] [LessOrd α] (v : Array α) : sort v = sortBy compare v := by
  unfold sort sortBy
  congr 1
  funext a b
  exact LessOrd.isLess_eq a b

end SampleSort
