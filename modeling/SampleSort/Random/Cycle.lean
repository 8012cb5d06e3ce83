import SampleSort.Random.Source

set_option relaxedAutoImplicit false
set_option autoImplicit false

/-!
# A fixed list of words, over and over

A source that plays back given words makes every outcome of the draws reachable.

## Main definitions

* `SampleSort.WordCycle` — some words, handed out in order and then again from the first.
-/

namespace SampleSort

/-- Words that are handed out in order, starting over at the end. -/
structure WordCycle where
  /-- The word handed out when a new turn begins. -/
  first : UInt32
  /-- The words after it. -/
  others : List UInt32
  /-- What is left of the present turn. -/
  pending : List UInt32
  deriving DecidableEq, Repr

namespace WordCycle

/-- The cycle of a list of words; of no words at all, the cycle of zeros. -/
def ofList : List UInt32 → WordCycle
  | [] => ⟨0, [], []⟩
  | first :: others => ⟨first, others, first :: others⟩

/-- The next word of the cycle. -/
def next (s : WordCycle) : UInt32 × WordCycle :=
  match s.pending with
  | word :: rest => (word, { s with pending := rest })
  | [] => (s.first, { s with pending := s.others })

/-- A cycle is a supply of words. -/
instance : WordSource WordCycle :=
  ⟨next⟩

end WordCycle

end SampleSort
