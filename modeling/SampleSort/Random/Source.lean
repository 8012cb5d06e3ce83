set_option relaxedAutoImplicit false
set_option autoImplicit false

/-!
# Sources of random indices

The sort takes its randomness as indices from ranges. How a source makes them is its own affair: all
that the sort relies on is that an index drawn from a range that is not empty lies in it.

Sources at hand are supplies of 32-bit words. An index is made from a word by multiplication: the
word, read as a fraction of `2 ^ 32`, is scaled to the length of the range, and a second word
settles whether the discarded part of the product would have carried into the result. Where the
range ends beyond the largest word, numbers of 64 bits, made of two words each, take their place.

## Main definitions

* `SampleSort.IndexSource` — a supply of indices.
* `SampleSort.WordSource` — a supply of words.
* `SampleSort.drawBelow` — an index below a bound, from random numbers.
* `SampleSort.WordSource.draw` — an index from a range, from words.

## Main results

* `SampleSort.drawBelow_lt` — whatever the numbers, the index is below the bound.
* `SampleSort.WordSource.draw_mem` — so a supply of words is a supply of indices.
-/

namespace SampleSort

/-- A supply of indices. -/
class IndexSource (σ : Type) where
  /-- An index from `low` on and below `high`, and the supply after it. -/
  draw (low high : Nat) (source : σ) : Nat × σ
  /-- An index lies in the range that it is drawn from, unless that is empty. -/
  draw_mem {low high : Nat} (h : low < high) (source : σ) :
    low ≤ (draw low high source).1 ∧ (draw low high source).1 < high

variable {σ : Type}

/-- An index below `bound`, which has to be positive, from numbers below `size`. The high half of
`number * bound` is the index, one more if the low half of it and the high half of a second product
carry. The second number is taken only where a carry is possible. -/
def drawBelow (size : Nat) (number : σ → Nat × σ) (bound : Nat) (source : σ) : Nat × σ :=
  let (n, source) := number source
  let product := n * bound
  let high := product / size
  let low := product % size
  if size - bound < low then
    let (n, source) := number source
    if size ≤ low + n * bound / size then (high + 1, source) else (high, source)
  else (high, source)

/-- Whatever the numbers, the index is below the bound.

**Proof sketch.** A number is at most `size - 1`, so the product is at most `bound * size - bound`.
Were the high half `bound - 1`, the low half would be at most `size - bound`, and no second number
would be asked for. -/
theorem drawBelow_lt {size bound : Nat} {number : σ → Nat × σ}
    (hnumber : ∀ source, (number source).1 < size) (h : 0 < bound) (source : σ) :
    (drawBelow size number bound source).1 < bound := by
  have hfirst := hnumber source
  unfold drawBelow
  generalize number source = first at hfirst ⊢
  obtain ⟨n, source⟩ := first
  replace hfirst : n < size := hfirst
  have hsize : 0 < size := Nat.zero_lt_of_lt hfirst
  have hmul : (n + 1) * bound ≤ size * bound := Nat.mul_le_mul_right bound hfirst
  rw [Nat.add_mul, Nat.one_mul] at hmul
  have hdiv := Nat.div_add_mod (n * bound) size
  have hlow := Nat.mod_lt (n * bound) hsize
  have hhigh : n * bound / size < bound := by
    rw [Nat.div_lt_iff_lt_mul hsize, Nat.mul_comm bound]
    omega
  simp only
  split
  · next hcarry =>
    have hnext : n * bound / size + 1 < bound := by
      refine Nat.lt_of_le_of_ne hhigh fun hlast => ?_
      have hwhole : size * bound = size * (n * bound / size) + size := by
        conv => lhs; rw [← hlast]
        exact Nat.mul_succ size _
      omega
    split <;> assumption
  · exact hhigh

/-- A supply of 32-bit words that never runs out. -/
class WordSource (σ : Type) where
  /-- The next word, and the supply after it. -/
  next : σ → UInt32 × σ

namespace WordSource

variable [WordSource σ]

/-- The next word, as a number. -/
def nextWord (source : σ) : Nat × σ :=
  let (word, source) := next source
  (word.toNat, source)

/-- The next two words, as a number of 64 bits. The first of them is its lower half. -/
def nextPair (source : σ) : Nat × σ :=
  let (low, source) := nextWord source
  let (high, source) := nextWord source
  (high * UInt32.size + low, source)

/-- An index from `low` on and below `high`, which decides how large the numbers are that it is made
from. -/
def draw (low high : Nat) (source : σ) : Nat × σ :=
  let drawn :=
    if high < UInt32.size then drawBelow UInt32.size nextWord (high - low) source
    else drawBelow UInt64.size nextPair (high - low) source
  (low + drawn.1, drawn.2)

/-- A word is a number below `2 ^ 32`. -/
theorem nextWord_lt (source : σ) : (nextWord source).1 < UInt32.size :=
  (next source).1.toNat_lt

/-- Two words are a number below `2 ^ 64`. -/
theorem nextPair_lt (source : σ) : (nextPair source).1 < UInt64.size := by
  have hlow := nextWord_lt source
  have hhigh := nextWord_lt (nextWord source).2
  unfold nextPair
  unfold UInt32.size UInt64.size at *
  simp only
  omega

/-- An index lies in the range that it is drawn from. -/
theorem draw_mem {low high : Nat} (h : low < high) (source : σ) :
    low ≤ (draw low high source).1 ∧ (draw low high source).1 < high := by
  have hbound : 0 < high - low := Nat.sub_pos_of_lt h
  unfold draw
  by_cases hword : high < UInt32.size
  · have hoffset := drawBelow_lt nextWord_lt hbound source
    simp only [if_pos hword]
    omega
  · have hoffset := drawBelow_lt nextPair_lt hbound source
    simp only [if_neg hword]
    omega

/-- Words make indices. -/
instance : IndexSource σ :=
  ⟨draw, draw_mem⟩

end WordSource

end SampleSort
