import Mathlib.Algebra.Order.Ring.Nat
import Mathlib.Data.Finset.Card
import Mathlib.Data.List.Pairwise
import SampleSort.Proofs.Order

set_option relaxedAutoImplicit false
set_option autoImplicit false

/-!
# Classes of ties

Under a strict weak ordering the elements of a list fall into classes, of those that are tied with
each other. They are counted by picking out one element of each class. To compare the counts of
different lists, the classes are collected in a finite set.

## Main definitions

* `SampleSort.tied` — neither of two elements is less than the other.
* `SampleSort.representatives`, `SampleSort.classes` — one element of each class, and the number of
  classes.
* `SampleSort.StrictWeak.classSet` — the classes themselves.

## Main results

* `SampleSort.card_classSet` — there is one representative for each class.
* `SampleSort.classes_lt` — a list that lacks a class has fewer of them.
* `SampleSort.sum_classes_le` — lists that share no class have no more together than a list with
  the elements of all.
-/

namespace SampleSort

variable {α : Type} {less : α → α → Bool} {a b c x y : α} {u v w : List α}

/-- Neither element is less than the other. -/
def tied (less : α → α → Bool) (a b : α) : Bool :=
  !less a b && !less b a

/-- One element of each class of ties in a list: those that are not tied with a later one that has
been picked out. -/
def representatives (less : α → α → Bool) (v : List α) : List α :=
  v.pwFilter fun a b => tied less a b = false

/-- The number of classes of ties in a list. -/
def classes (less : α → α → Bool) (v : List α) : Nat :=
  (representatives less v).length

/-- Seven elements in four classes. -/
example : classes (fun a b : Nat => decide (a < b)) [5, 2, 5, 8, 2, 2, 1] = 4 := by decide

/-! ### Ties -/

/-- Two elements are tied if neither is less. -/
lemma tied_iff : tied less a b = true ↔ less a b = false ∧ less b a = false := by
  simp [tied]

/-- An element is not tied with a lesser one. -/
lemma untied_of_less (h : less a b = true) : tied less a b = false := by
  simp [tied, h]

/-- Ties go both ways. -/
lemma tied_comm : tied less a b = tied less b a := by
  rw [tied, tied, Bool.and_comm]

namespace StrictWeak

/-- Every element is tied with itself. -/
lemma tied_self (hless : StrictWeak less) (a : α) : tied less a a = true :=
  tied_iff.2 ⟨hless.irrefl a, hless.irrefl a⟩

/-- Ties are transitive. -/
lemma tied_trans (hless : StrictWeak less) (hab : tied less a b = true)
    (hbc : tied less b c = true) : tied less a c = true := by
  obtain ⟨h₁, h₂⟩ := tied_iff.1 hab
  obtain ⟨h₃, h₄⟩ := tied_iff.1 hbc
  exact tied_iff.2 ⟨hless.notGreater_trans h₃ h₁, hless.notGreater_trans h₂ h₄⟩

/-- Ties as an equivalence relation. -/
def ties (hless : StrictWeak less) : Setoid α where
  r a b := tied less a b = true
  iseqv := ⟨hless.tied_self, fun h => tied_comm.trans h, hless.tied_trans⟩

open Classical in
/-- The classes of ties in a list. -/
noncomputable def classSet (hless : StrictWeak less) (v : List α) : Finset (Quotient hless.ties) :=
  (v.map (Quotient.mk hless.ties)).toFinset

end StrictWeak

/-- An element is in one of the classes if it is tied with an element of the list. -/
lemma mem_classSet (hless : StrictWeak less) :
    Quotient.mk hless.ties a ∈ hless.classSet v ↔ ∃ x ∈ v, tied less x a = true := by
  simp only [StrictWeak.classSet, List.mem_toFinset, List.mem_map, Quotient.eq]
  rfl

/-- An element is tied with one of the representatives exactly if it is tied with an element of the
list. -/
lemma exists_mem_representatives (hless : StrictWeak less) :
    (∃ x ∈ representatives less v, tied less x a = true) ↔ ∃ x ∈ v, tied less x a = true := by
  have hall := List.forall_mem_pwFilter (R := fun a b => tied less a b = false)
    (fun {x y z} hxz => by
      by_contra h
      push Not at h
      have hxy : tied less x y = true := by simpa using h.1
      have hyz : tied less y z = true := by simpa using h.2
      simp [hless.tied_trans hxy hyz] at hxz) a v
  rw [← not_iff_not]
  push Not
  simp only [ne_eq, Bool.not_eq_true, tied_comm (b := a)]
  exact hall

/-- There is one representative for each class. -/
theorem card_classSet (hless : StrictWeak less) (v : List α) :
    (hless.classSet v).card = classes less v := by
  classical
  have hsame : hless.classSet (representatives less v) = hless.classSet v := by
    ext q
    induction q using Quotient.inductionOn with
    | h a => rw [mem_classSet, mem_classSet, exists_mem_representatives hless]
  have hnodup : ((representatives less v).map (Quotient.mk hless.ties)).Nodup := by
    refine List.Pairwise.map _ ?_ (List.pairwise_pwFilter v)
    intro a b hab heq
    have htied : tied less a b = true := Quotient.exact heq
    simp [hab] at htied
  rw [← hsame, StrictWeak.classSet, List.toFinset_card_of_nodup hnodup, List.length_map, classes]

/-! ### Counting classes -/

/-- A list with some of the elements of another has some of its classes. -/
lemma classSet_subset (hless : StrictWeak less) (h : u ⊆ v) :
    hless.classSet u ⊆ hless.classSet v := by
  intro q
  induction q using Quotient.inductionOn with
  | h a =>
    rw [mem_classSet, mem_classSet]
    rintro ⟨x, hx, htied⟩
    exact ⟨x, h hx, htied⟩

/-- So it has no more of them. -/
lemma classes_mono (hless : StrictWeak less) (h : u ⊆ v) : classes less u ≤ classes less v := by
  rw [← card_classSet hless, ← card_classSet hless]
  exact Finset.card_le_card (classSet_subset hless h)

/-- A permutation has the same classes. -/
lemma classes_perm (hless : StrictWeak less) (h : u.Perm v) : classes less u = classes less v :=
  Nat.le_antisymm (classes_mono hless h.subset) (classes_mono hless h.symm.subset)

/-- A list with some of the elements of another, of which none is tied with `x`, has fewer classes
than the other one with `x`. -/
theorem classes_lt (hless : StrictWeak less) (h : u ⊆ v) (hx : x ∈ v)
    (huntied : ∀ y ∈ u, tied less x y = false) : classes less u < classes less v := by
  rw [← card_classSet hless, ← card_classSet hless]
  apply Finset.card_lt_card
  refine (Finset.ssubset_iff_of_subset (classSet_subset hless h)).2
    ⟨Quotient.mk hless.ties x, (mem_classSet hless).2 ⟨x, hx, hless.tied_self x⟩, ?_⟩
  rw [mem_classSet]
  rintro ⟨y, hy, htied⟩
  simp [tied_comm, huntied y hy] at htied

/-- Two lists that share no class have, put together, the classes of both. -/
lemma classes_append (hless : StrictWeak less)
    (huntied : ∀ x ∈ u, ∀ y ∈ w, tied less x y = false) :
    classes less (u ++ w) = classes less u + classes less w := by
  classical
  rw [← card_classSet hless, ← card_classSet hless, ← card_classSet hless, StrictWeak.classSet,
    List.map_append, List.toFinset_append, Finset.card_union_of_disjoint]
  · rfl
  · rw [Finset.disjoint_left]
    intro q hu hw
    obtain ⟨x, hx, rfl⟩ := List.mem_map.1 (List.mem_toFinset.1 hu)
    obtain ⟨y, hy, heq⟩ := List.mem_map.1 (List.mem_toFinset.1 hw)
    have htied : tied less y x = true := Quotient.exact heq
    rw [tied_comm, huntied x hx y hy] at htied
    cases htied

/-- Lists that share no class have no more classes together than a list with the elements of all of
them. -/
theorem sum_classes_le (hless : StrictWeak less) (parts : List (List α))
    (hparts : ∀ part ∈ parts, part ⊆ v)
    (huntied : parts.Pairwise fun u w => ∀ x ∈ u, ∀ y ∈ w, tied less x y = false) :
    (parts.map (classes less)).sum ≤ classes less v := by
  have hsum : (parts.map (classes less)).sum = classes less parts.flatten := by
    induction parts with
    | nil => rfl
    | cons part parts ih =>
      obtain ⟨hfirst, hrest⟩ := List.pairwise_cons.1 huntied
      rw [List.map_cons, List.sum_cons, List.flatten_cons, classes_append hless,
        ih (fun p hp => hparts p (by simp [hp])) hrest]
      intro x hx y hy
      obtain ⟨later, hlater, hy⟩ := List.mem_flatten.1 hy
      exact hfirst later hlater x hx y hy
  rw [hsum]
  apply classes_mono hless
  intro x hx
  obtain ⟨part, hpart, hx⟩ := List.mem_flatten.1 hx
  exact hparts part hpart hx

/-- A list with elements has classes. -/
lemma classes_pos (hless : StrictWeak less) (hx : x ∈ v) : 1 ≤ classes less v := by
  rw [← card_classSet hless]
  exact Finset.card_pos.2 ⟨_, (mem_classSet hless).2 ⟨x, hx, hless.tied_self x⟩⟩

/-- In a list with one class, all elements are tied. -/
lemma tied_of_classes_le_one (hless : StrictWeak less) (h : classes less v ≤ 1) (hx : x ∈ v)
    (hy : y ∈ v) : tied less x y = true := by
  rw [← card_classSet hless, Finset.card_le_one] at h
  have hmem : ∀ a ∈ v, Quotient.mk hless.ties a ∈ hless.classSet v :=
    fun a ha => (mem_classSet hless).2 ⟨a, ha, hless.tied_self a⟩
  exact Quotient.exact (h _ (hmem x hx) _ (hmem y hy))

end SampleSort
