import SampleSort.Config
import SampleSort.Window

set_option relaxedAutoImplicit false
set_option autoImplicit false

/-!
# Placing labelled elements into their buckets

When the label of every element and the size of every bucket are known, so is the window that each
bucket will occupy. Every bucket has a head, the first position of its window that has not been
settled. Buckets are filled one after the other: the element at the head of the bucket being
filled is settled if its label is that bucket's; otherwise it changes places with the element at
the head of the bucket it belongs to. Either way one head moves on.

## Main definitions

* `SampleSort.Placement` — labelled elements, heads, and the number of moves made.
* `SampleSort.Placement.move?` — one move, unless it leads out of the window.
* `SampleSort.Placement.fill` — the moves that fill one bucket.
* `SampleSort.placeByLabels` — the moves that fill all of them.

## Main results

* `SampleSort.Placement.room_lt_of_move?` — every move uses up room, whatever the labels are, so
  that filling a bucket ends.
-/

namespace SampleSort

variable {α : Type}

/-- The bucket that a label stands for. -/
def bucketOfLabel (label : UInt8) : Fin maxBuckets :=
  ⟨label.toNat, label.toNat_lt⟩

/-- Labelled elements on their way into buckets. -/
structure Placement (α : Type) where
  /-- The elements with their labels. -/
  slots : Array (UInt8 × α)
  /-- For every bucket, the next position of its window to be settled. -/
  heads : Vector Nat maxBuckets
  /-- The number of moves made so far. -/
  moves : Nat

namespace Placement

/-- The positions that are left to the heads, all heads taken together. -/
def room (p : Placement α) : Nat :=
  p.heads.toList.foldr (fun head n => p.slots.size - head + n) 0

/-- The element at the head of bucket `b` is settled there, or changes places with the one at the
head of the bucket it belongs to. There is no such move if one of the heads is at the end. -/
def move? (p : Placement α) (b : Fin maxBuckets) : Option (Placement α) :=
  let position := p.heads[b]
  if hposition : position < p.slots.size then
    let target := bucketOfLabel p.slots[position].1
    if target = b then
      some { p with heads := p.heads.set b (position + 1), moves := p.moves + 1 }
    else
      let destination := p.heads[target]
      if hdestination : destination < p.slots.size then
        some {
          slots := p.slots.swap position destination
          heads := p.heads.set target (destination + 1)
          moves := p.moves + 1 }
      else none
  else none

/-- Replacing one summand by a smaller one makes a sum smaller. -/
theorem foldr_set_lt (f : Nat → Nat) {l : List Nat} {i x : Nat} (hi : i < l.length)
    (hx : f x < f l[i]) :
    (l.set i x).foldr (fun y n => f y + n) 0 < l.foldr (fun y n => f y + n) 0 := by
  induction l generalizing i with
  | nil => exact absurd hi (Nat.not_lt_zero i)
  | cons y l ih =>
    cases i with
    | zero => simpa using hx
    | succ i => simpa using ih (by simpa using hi) hx

/-- A head that moves on uses up room. -/
theorem room_lt_of_head (slots : Array (UInt8 × α)) (heads : Vector Nat maxBuckets)
    (moves moves' : Nat) (b : Fin maxBuckets) (h : heads[b] < slots.size) :
    room ⟨slots, heads.set b (heads[b] + 1), moves'⟩ < room ⟨slots, heads, moves⟩ := by
  have hlength : b.val < heads.toList.length := by simp
  have hb : heads.toList[b.val] = heads[b] := by simp
  unfold room
  rw [Vector.toList_set]
  apply foldr_set_lt fun head => slots.size - head
  rw [hb]
  show slots.size - (heads[b] + 1) < slots.size - heads[b]
  omega

/-- Every move uses up room: one head moves on, and the number of positions stays the same. -/
theorem room_lt_of_move? {p q : Placement α} {b : Fin maxBuckets} (h : p.move? b = some q) :
    q.room < p.room := by
  unfold move? at h
  dsimp only at h
  split at h
  · next hposition =>
    split at h
    · cases h
      exact room_lt_of_head _ _ _ _ b hposition
    · split at h
      · next hdestination =>
        cases h
        have := room_lt_of_head p.slots p.heads p.moves (p.moves + 1) _ hdestination
        simpa [room] using this
      · cases h
  · cases h

/-- The moves that bring the head of bucket `b` to the end `stop` of its window. If one of them
leads out of the window, the outcome is an error: the placement before it, with the attempt
counted. -/
def fill (b : Fin maxBuckets) (stop : Nat) (p : Placement α) :
    Except (Placement α) (Placement α) :=
  if p.heads[b] < stop then
    match h : p.move? b with
    | some q => fill b stop q
    | none => .error { p with moves := p.moves + 1 }
  else .ok p
termination_by p.room
decreasing_by exact room_lt_of_move? h

end Placement

/-- The elements of `v` with their labels, before the first move. Buckets without a count begin at
the front. -/
def Placement.start (counts : List Nat) (labels : List UInt8) (v : List α) : Placement α where
  slots := (labels.zip v).toArray
  heads := Vector.ofFn fun b => (offsets counts).dropLast[b.val]?.getD 0
  moves := 0

/-- The elements of `v` moved into their buckets, which have the sizes `counts`. An error is a
placement in which a move led out of the window. -/
def placeByLabels (counts : List Nat) (labels : List UInt8) (v : List α) :
    Except (Placement α) (Placement α) :=
  ((List.finRange maxBuckets).zip (offsets counts).tail).foldlM
    (fun p window => p.fill window.1 window.2) (Placement.start counts labels v)

end SampleSort
