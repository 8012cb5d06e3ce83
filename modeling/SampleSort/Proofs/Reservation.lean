import SampleSort.Proofs.Spacing

set_option relaxedAutoImplicit false
set_option autoImplicit false

/-!
# The memory that splitters take

Memory for the splitters of a sample is reserved before the first of them is written: for as many as
are asked for, or for as many as the sample has elements if these are fewer. Whether it can be had
is not certain, and it is asked only this once. As long as one splitter is asked for, all of them
find room in what has been reserved. If none is asked for, nothing is reserved; but the sample
yields its middle, as it does when it is shorter than a stride, and that takes memory which has not
been reserved.

## Main definitions

* `SampleSort.Checked.Buffer` — a sequence in the memory there is for it.
* `SampleSort.Checked.writeSplitters` — the splitters of a sample, written to a buffer.

## Main results

* `SampleSort.length_chooseSplitters_le_min_iff` — when the splitters find room.
* `SampleSort.Checked.writeSplitters_eq` — the buffer after the splitters have been written.
* `SampleSort.chooseSplitters_reserved` — what is reserved is enough just when one is asked for.
* `SampleSort.chooseSplitters_unreserved_of_three` — a splitter for which nothing has been reserved.
-/

namespace SampleSort

variable {α : Type} {less : α → α → Bool} {stride limit : Nat} {sample : List α}

/-! ### How many splitters there are -/

/-- If no splitter is asked for, the sample yields its middle. -/
lemma chooseSplitters_zero (less : α → α → Bool) (stride : Nat) (sample : List α) :
    (chooseSplitters less stride 0 sample).value = sample[sample.length / 2]?.toList := by
  have hfound : (spacedFrom less stride (stride - 1) 0 none sample).value = [] :=
    List.eq_nil_of_length_eq_zero
      (Nat.le_zero.1 (length_spacedFrom_le less stride (stride - 1) 0 none sample))
  rw [chooseSplitters, Counted.value_bind, hfound, Counted.value_pure]

/-- The splitters find room in what is reserved for them if and only if one of them is asked for or
the sample is empty. -/
theorem length_chooseSplitters_le_min_iff (less : α → α → Bool) (stride limit : Nat)
    (sample : List α) :
    (chooseSplitters less stride limit sample).value.length ≤ min limit sample.length ↔
      1 ≤ limit ∨ sample = [] := by
  constructor
  · intro hroom
    by_contra hnone
    obtain ⟨hlimit, hsample⟩ := not_or.1 hnone
    have hpos := List.length_pos_iff.2 (chooseSplitters_ne_nil less stride limit hsample)
    have hle : min limit sample.length ≤ limit := Nat.min_le_left _ _
    omega
  · rintro (hlimit | rfl)
    · exact Nat.le_min.2 ⟨length_chooseSplitters_le less stride hlimit sample,
        (chooseSplitters_sublist less stride limit sample).length_le⟩
    · exact (chooseSplitters_sublist less stride limit []).length_le.trans (Nat.zero_le _)

/-! ### Writing them to memory -/

namespace Checked

/-- A sequence in the memory there is for it. -/
structure Buffer (α : Type) where
  /-- The elements. -/
  elements : List α
  /-- The number of elements that there is memory for. -/
  room : Nat
  /-- There is memory for the elements. -/
  length_le : elements.length ≤ room
  deriving DecidableEq

namespace Buffer

/-- The elements are dropped. Their memory is kept. -/
def clear (out : Buffer α) : Buffer α :=
  ⟨[], out.room, Nat.zero_le _⟩

/-- Memory for `n` more elements is reserved if there is too little. Whether there can be memory for
a number of elements is what `grants` says. -/
def reserve? (grants : Nat → Bool) (n : Nat) (out : Buffer α) : Option (Buffer α) :=
  if out.elements.length + n ≤ out.room then some out
  else if grants (out.elements.length + n) then
    some ⟨out.elements, out.elements.length + n, Nat.le_add_right _ _⟩
  else none

/-- One more element. If there is no memory left for it, it takes some without asking. -/
def push (out : Buffer α) (x : α) : Buffer α :=
  ⟨out.elements ++ [x], max out.room (out.elements.length + 1), by
    rw [List.length_append, List.length_singleton]
    exact Nat.le_max_right _ _⟩

/-- The elements that are written one after the other come behind those that are there. They take
more memory only if there is too little for all of them. -/
lemma foldl_push (out : Buffer α) (xs : List α) :
    (xs.foldl push out).elements = out.elements ++ xs ∧
      (xs.foldl push out).room = max out.room (out.elements.length + xs.length) := by
  induction xs generalizing out with
  | nil => exact ⟨(List.append_nil _).symm, (Nat.max_eq_left out.length_le).symm⟩
  | cons x xs ih =>
    obtain ⟨helements, hroom⟩ := ih (out.push x)
    rw [List.foldl_cons, helements, hroom]
    refine ⟨List.append_assoc _ _ _, ?_⟩
    simp only [push, List.length_append, List.length_cons, List.length_nil]
    omega

end Buffer

/-- The splitters of a sample, written where `out` stands, the elements of which are dropped. No
splitter is written if the memory to be reserved for them cannot be had. -/
def writeSplitters (grants : Nat → Bool) (less : α → α → Bool) (stride limit : Nat)
    (sample : List α) (out : Buffer α) : Except Panic (Option (Buffer α)) := do
  ensure (1 ≤ stride) .assertion ()
  match out.clear.reserve? grants (min limit sample.length) with
  | none => return none
  | some out =>
    let (_, splitters) ← chooseSplitters less .available stride limit sample out.elements
    return some (splitters.foldl Buffer.push out)

/-- Writing the splitters fails just when there is too little memory and no more can be had. Else
they are all that the buffer holds, whatever it held before. It takes what has been reserved, and
more only if there are more splitters.

**Proof sketch.** The buffer is empty when memory is reserved, so there is too little just if the
room is less than what is reserved. If there is enough, or more is granted, the splitters are pushed
one by one, and by `Buffer.foldl_push` the room grows only if they do not fit. -/
theorem writeSplitters_eq (grants : Nat → Bool) (less : α → α → Bool) (limit : Nat)
    (hstride : 1 ≤ stride) (hlength : sample.length < 2 ^ 63) (out : Buffer α) :
    ∃ result, writeSplitters grants less stride limit sample out = .ok result ∧
      (result = none ↔
        out.room < min limit sample.length ∧ grants (min limit sample.length) = false) ∧
      ∀ out', result = some out' →
        out'.elements = (SampleSort.chooseSplitters less stride limit sample).value ∧
        out'.room = max (max out.room (min limit sample.length)) out'.elements.length := by
  have hchosen := chooseSplitters_eq_of_lt less limit hstride hlength
  generalize (SampleSort.chooseSplitters less stride limit sample).value = splitters at hchosen ⊢
  simp only [writeSplitters, ensure_eq hstride, ok_bind, Buffer.reserve?, hchosen]
  simp only [Buffer.clear, List.length_nil, Nat.zero_add]
  by_cases henough : min limit sample.length ≤ out.room
  · -- what the buffer has is enough
    obtain ⟨helements, hroom⟩ := Buffer.foldl_push ⟨[], out.room, Nat.zero_le _⟩ splitters
    rw [if_pos henough]
    refine ⟨_, rfl, ⟨nofun, fun h => absurd h.1 (Nat.not_lt.2 henough)⟩, fun out' hout => ?_⟩
    obtain rfl := Option.some.inj hout
    refine ⟨helements, ?_⟩
    rw [hroom, helements, Nat.max_eq_left henough, List.nil_append, List.length_nil, Nat.zero_add]
  · rw [if_neg henough]
    have hmore : out.room ≤ min limit sample.length := Nat.le_of_not_le henough
    by_cases hgrants : grants (min limit sample.length) = true
    · obtain ⟨helements, hroom⟩ :=
        Buffer.foldl_push ⟨[], min limit sample.length, Nat.zero_le _⟩ splitters
      rw [if_pos hgrants]
      refine ⟨_, rfl, ⟨nofun, fun h => absurd h.2 (by simp [hgrants])⟩, fun out' hout => ?_⟩
      obtain rfl := Option.some.inj hout
      refine ⟨helements, ?_⟩
      rw [hroom, helements, Nat.max_eq_right hmore, List.nil_append, List.length_nil, Nat.zero_add]
    · rw [if_neg hgrants]
      have hrefused : grants (min limit sample.length) = false := Bool.eq_false_iff.2 hgrants
      exact ⟨none, rfl, ⟨fun _ => ⟨Nat.lt_of_not_le henough, hrefused⟩, fun _ => rfl⟩, nofun⟩

end Checked

/-- **What is reserved for splitters is enough** just when one of them is asked for, or when there
is nothing to take one from. Else the sample yields its middle. The same holds in place, wherever
the splitters are written to and whatever memory can be had: they take no more of it than there was
or than was reserved, unless none of them was asked for. -/
theorem chooseSplitters_reserved (less : α → α → Bool) (limit : Nat) (sample : List α)
    (hstride : 1 ≤ stride) :
    ((chooseSplitters less stride limit sample).value.length ≤ min limit sample.length ↔
        1 ≤ limit ∨ sample = []) ∧
      (limit = 0 →
        (chooseSplitters less stride limit sample).value = sample[sample.length / 2]?.toList) ∧
      (sample.length < 2 ^ 63 → ∀ (grants : Nat → Bool) (out : Checked.Buffer α),
        ∃ result, Checked.writeSplitters grants less stride limit sample out = .ok result ∧
          (result = none ↔
            out.room < min limit sample.length ∧ grants (min limit sample.length) = false) ∧
          ∀ out', result = some out' →
            out'.elements = (chooseSplitters less stride limit sample).value ∧
            (1 ≤ limit ∨ sample = [] → out'.room = max out.room (min limit sample.length))) := by
  have hiff := length_chooseSplitters_le_min_iff less stride limit sample
  refine ⟨hiff, ?_, fun hlength grants out => ?_⟩
  · rintro rfl
    exact chooseSplitters_zero less stride sample
  · obtain ⟨result, hresult, hnone, hsome⟩ :=
      Checked.writeSplitters_eq grants less limit hstride hlength out
    refine ⟨result, hresult, hnone, fun out' hout => ?_⟩
    obtain ⟨helements, hroom⟩ := hsome out' hout
    refine ⟨helements, fun hasked => ?_⟩
    have hle := hiff.2 hasked
    rw [← helements] at hle
    rw [hroom, Nat.max_eq_left (hle.trans (Nat.le_max_right _ _))]

/-- Four numbers of which two are asked for. The buffer had memory for one, and another one can be
had. -/
theorem chooseSplitters_reserved_of_four :
    ∃ out' : Checked.Buffer Nat,
      Checked.writeSplitters (fun n => decide (n ≤ 2)) (fun a b => decide (a < b)) 1 2 [4, 4, 7, 9]
        ⟨[5], 1, Nat.le_refl _⟩ = .ok (some out') ∧
      out'.elements = [4, 7] ∧ out'.room = 2 := by
  have hvalue : (chooseSplitters (fun a b : Nat => decide (a < b)) 1 2 [4, 4, 7, 9]).value =
      [4, 7] := by decide
  obtain ⟨-, -, hwritten⟩ := chooseSplitters_reserved (fun a b : Nat => decide (a < b)) 2
    [4, 4, 7, 9] (Nat.le_refl 1)
  obtain ⟨result, hresult, hnone, hsome⟩ :=
    hwritten (by decide) (fun n => decide (n ≤ 2)) ⟨[5], 1, Nat.le_refl _⟩
  cases result with
  | none => exact absurd (hnone.1 rfl).2 (by decide)
  | some out' =>
    obtain ⟨helements, hroom⟩ := hsome out' rfl
    exact ⟨out', hresult, helements.trans hvalue, hroom (Or.inl (by decide))⟩

/-- Three numbers of which none is asked for. Nothing is reserved, and no memory can be had, and yet
the number in the middle is written. -/
theorem chooseSplitters_unreserved_of_three :
    ¬(chooseSplitters (fun a b : Nat => decide (a < b)) 1 0 [1, 2, 3]).value.length ≤
        min 0 [1, 2, 3].length ∧
      Checked.writeSplitters (fun _ => false) (fun a b : Nat => decide (a < b)) 1 0 [1, 2, 3]
        ⟨[], 0, Nat.le_refl _⟩ = .ok (some ⟨[2], 1, Nat.le_refl _⟩) := by
  constructor
  · decide
  · decide +kernel

end SampleSort
