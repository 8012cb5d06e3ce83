import Mathlib.Tactic.Lemma
import SampleSort.Config
import SampleSort.Random.Source
import SampleSort.Window

set_option relaxedAutoImplicit false
set_option autoImplicit false

/-!
# Operations that can stop a program

Sizes and positions are 64-bit words, and a program that leaves their range, or reads outside a
sequence, is stopped on the spot. The programs in the modules beside this one are written with
operations that check for that, and change sequences in place. What is proved of each is that it is
not stopped and yields what the definitions that do not check yield.

## Main definitions

* `SampleSort.Panic` — what stops a program.
* `SampleSort.Checked.add`, `sub`, `mul`, `div`, `shift`, `clamp`, `byte` — arithmetic on words.
* `SampleSort.Checked.draw` — a random index.
* `SampleSort.Checked.get`, `swap`, `slice` — access to a sequence.
* `SampleSort.Checked.clear` — a table that is to be written anew.

## Main results

* `SampleSort.Checked.swap_append` — what an exchange does.
* `SampleSort.Checked.slice_append` — where a slice is found.
-/

namespace SampleSort

/-- What stops a program. -/
inductive Panic where
  /-- A sum, a product or a power is beyond the largest word. -/
  | overflow
  /-- More is subtracted than there is. -/
  | underflow
  /-- Nothing can be divided by zero. -/
  | divisionByZero
  /-- There is no number between the bounds of a clamp. -/
  | emptyClamp
  /-- An index is drawn from an empty range. -/
  | emptyDraw
  /-- A position or a slice lies outside the sequence or table it is taken from. -/
  | outOfBounds
  /-- A number does not fit in a byte. -/
  | notAByte
  /-- An assertion fails. -/
  | assertion
  /-- There is a frame whose stage says that all is done. -/
  | unreachable
  deriving DecidableEq, Repr

namespace Checked

variable {α β γ ε σ : Type}

/-- The value `x`, if the condition holds. -/
def ensure (condition : Prop) [Decidable condition] (panic : Panic) (x : β) : Except Panic β :=
  if condition then .ok x else .error panic

/-- The sum of two words. -/
def add (a b : Nat) : Except Panic Nat :=
  ensure (a + b < wordBound) .overflow (a + b)

/-- The difference of two words. -/
def sub (a b : Nat) : Except Panic Nat :=
  ensure (b ≤ a) .underflow (a - b)

/-- The product of two words. -/
def mul (a b : Nat) : Except Panic Nat :=
  ensure (a * b < wordBound) .overflow (a * b)

/-- The quotient of two words. -/
def div (a b : Nat) : Except Panic Nat :=
  ensure (b ≠ 0) .divisionByZero (a / b)

/-- A power of two. -/
def shift (bits : Nat) : Except Panic Nat :=
  ensure (1 <<< bits < wordBound) .overflow (1 <<< bits)

/-- The number between two bounds that is nearest to `x`. -/
def clamp (x low high : Nat) : Except Panic Nat :=
  ensure (low ≤ high) .emptyClamp (min (max x low) high)

/-- A number in one byte. -/
def byte (n : Nat) : Except Panic UInt8 :=
  ensure (n < 256) .notAByte n.toUInt8

/-- A random index from `low` on and below `high`. -/
def draw [IndexSource σ] (low high : Nat) (source : σ) : Except Panic (Nat × σ) :=
  ensure (low < high) .emptyDraw (IndexSource.draw low high source)

/-- The element at a position. -/
def get (v : List α) (i : Nat) : Except Panic α :=
  match v[i]? with
  | some x => .ok x
  | none => .error .outOfBounds

/-- The elements at two positions change places. -/
def swap (v : List α) (i j : Nat) : Except Panic (List α) := do
  let x ← get v i
  let y ← get v j
  return (v.set i y).set j x

/-- A table whose entries are dropped, before others are written to it. -/
def clear (_ : List α) : List α :=
  []

/-- The elements at the positions `start ≤ p < stop`. -/
def slice (v : List α) (start stop : Nat) : Except Panic (List α) :=
  ensure (start ≤ stop ∧ stop ≤ v.length) .outOfBounds ((v.take stop).drop start)

/-! ### When nothing is stopped -/

section Words

variable {a b x low high n : Nat}

lemma ensure_eq {condition : Prop} [Decidable condition] {panic : Panic} (h : condition) (x : β) :
    ensure condition panic x = .ok x :=
  if_pos h

lemma add_eq (h : a + b < wordBound) : add a b = .ok (a + b) :=
  if_pos h

/-- A sum that is not stopped is that of the numbers. -/
lemma eq_of_add {c : Nat} (h : add a b = .ok c) : c = a + b := by
  unfold add ensure at h
  split at h
  · exact (Except.ok.inj h).symm
  · cases h

lemma sub_eq (h : b ≤ a) : sub a b = .ok (a - b) :=
  if_pos h

lemma mul_eq (h : a * b < wordBound) : mul a b = .ok (a * b) :=
  if_pos h

lemma div_eq (h : b ≠ 0) : div a b = .ok (a / b) :=
  if_pos h

lemma shift_eq (h : 1 <<< n < wordBound) : shift n = .ok (1 <<< n) :=
  if_pos h

lemma clamp_eq (h : low ≤ high) : clamp x low high = .ok (min (max x low) high) :=
  if_pos h

lemma byte_eq (h : n < 256) : byte n = .ok n.toUInt8 :=
  if_pos h

lemma draw_eq [IndexSource σ] (h : low < high) (source : σ) :
    draw low high source = .ok (IndexSource.draw low high source) :=
  if_pos h

end Words

/-- After a part that succeeds comes the next one. -/
@[simp] lemma ok_bind (x : β) (k : β → Except ε γ) : (Except.ok x >>= k) = k x :=
  rfl

section Sequences

variable {v front middle rest : List α} {x y : α} {i : Nat}

lemma get_eq (h : v[i]? = some x) : get v i = .ok x := by
  rw [get, h]

/-- The element behind a front part. -/
lemma get_append (front : List α) (x : α) (rest : List α) :
    get (front ++ x :: rest) front.length = .ok x :=
  get_eq (by simp)

/-- An element changes places with itself. -/
lemma swap_self (h : v[i]? = some x) : swap v i i = .ok v := by
  rw [swap, get_eq h]
  obtain ⟨hi, rfl⟩ := List.getElem?_eq_some_iff.1 h
  simp [pure, Except.pure]

/-- Two elements change places. -/
lemma swap_append (front : List α) (x : α) (middle : List α) (y : α) (rest : List α) :
    swap (front ++ x :: (middle ++ y :: rest)) front.length (front.length + (middle.length + 1)) =
      .ok (front ++ y :: (middle ++ x :: rest)) := by
  have hy : (front ++ x :: (middle ++ y :: rest))[front.length + (middle.length + 1)]? =
      some y := by
    rw [List.getElem?_append_right (by omega)]
    simp
  rw [swap, get_append, ok_bind, get_eq hy, ok_bind]
  simp [pure, Except.pure]

/-- A slice is found behind a front part. -/
lemma slice_append (front middle rest : List α) :
    slice (front ++ (middle ++ rest)) front.length (front.length + middle.length) =
      .ok middle := by
  rw [slice, ensure_eq ⟨Nat.le_add_right _ _, by simp⟩]
  simp [List.take_append]

/-- A slice exists where one does for those who do not check. -/
lemma slice_eq {start stop : Nat} (h : slice? v start stop = .ok rest) :
    slice v start stop = .ok rest := by
  obtain ⟨hbounds, rfl⟩ := slice?_eq_ok_iff.1 h
  exact if_pos hbounds

/-- A splice behind a front part. -/
lemma splice_append (front middle rest : List α) {w : List α} (h : w.length = middle.length) :
    splice (front ++ (middle ++ rest)) front.length w = front ++ (w ++ rest) := by
  simp [splice, List.drop_append, h]

end Sequences

end Checked

end SampleSort
