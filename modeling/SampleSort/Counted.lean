set_option relaxedAutoImplicit false
set_option autoImplicit false

/-!
# Computations that count their comparisons

The cost of a sorting algorithm is the number of questions it puts to the order. `Counted β` is a
result of type `β` together with that number, so that one definition is both what runs and what
the cost statements speak of.

## Main definitions

* `SampleSort.Counted` — a value and the number of comparisons made for it.
* `SampleSort.Counted.ask` — one comparison.

## Main results

* `SampleSort.Counted.value_bind`, `SampleSort.Counted.compares_bind` — a sequence of two
  computations has the value of the second, and the comparisons of both.
* `SampleSort.Counted.value_mapM`, `SampleSort.Counted.compares_mapM` — the same along a list.
-/

namespace SampleSort

/-- A value, and the number of comparisons that were made to find it. -/
structure Counted (β : Type) where
  /-- The result. -/
  value : β
  /-- How many comparisons it took. -/
  compares : Nat
  deriving DecidableEq, Repr

namespace Counted

variable {α β γ : Type}

/-- Computations are run one after the other and their comparisons add up. -/
instance : Monad Counted where
  pure a := ⟨a, 0⟩
  bind x f := ⟨(f x.value).value, x.compares + (f x.value).compares⟩

/-- One comparison: is `a` less than `b`? -/
def ask {α : Type} (less : α → α → Bool) (a b : α) : Counted Bool :=
  ⟨less a b, 1⟩

/-! ### What a sequence of computations yields and costs -/

@[simp] theorem value_pure (a : α) : (pure a : Counted α).value = a := rfl

@[simp] theorem compares_pure (a : α) : (pure a : Counted α).compares = 0 := rfl

@[simp] theorem value_bind (x : Counted α) (f : α → Counted β) :
    (x >>= f).value = (f x.value).value := rfl

@[simp] theorem compares_bind (x : Counted α) (f : α → Counted β) :
    (x >>= f).compares = x.compares + (f x.value).compares := rfl

@[simp] theorem value_map (f : α → β) (x : Counted α) : (f <$> x).value = f x.value := rfl

@[simp] theorem compares_map (f : α → β) (x : Counted α) : (f <$> x).compares = x.compares :=
  Nat.add_zero x.compares

@[simp] theorem value_ask {α : Type} (less : α → α → Bool) (a b : α) :
    (ask less a b).value = less a b := rfl

@[simp] theorem compares_ask {α : Type} (less : α → α → Bool) (a b : α) :
    (ask less a b).compares = 1 := rfl

/-- Adding up comparisons is associative, and a computation without any adds nothing. -/
instance : LawfulMonad Counted :=
  LawfulMonad.mk' Counted
    (fun _ => rfl)
    (fun x f => by
      cases h : f x with
      | mk b n =>
        show (⟨(f x).value, 0 + (f x).compares⟩ : Counted _) = ⟨b, n⟩
        rw [h, Nat.zero_add])
    (fun x f g =>
      congrArg (Counted.mk (g (f x.value).value).value)
        (Nat.add_assoc x.compares (f x.value).compares (g (f x.value).value).compares))

/-- Along a list, every element is given the value its own computation finds. -/
@[simp] theorem value_mapM {α : Type} (f : α → Counted β) (l : List α) :
    (l.mapM f).value = l.map fun x => (f x).value := by
  induction l with
  | nil => rfl
  | cons x l ih => simp [ih]

/-- Along a list, the comparisons made for every element add up. -/
@[simp] theorem compares_mapM {α : Type} (f : α → Counted β) (l : List α) :
    (l.mapM f).compares = l.foldr (fun x n => (f x).compares + n) 0 := by
  induction l with
  | nil => rfl
  | cons x l ih => simp [ih]

end Counted

end SampleSort
