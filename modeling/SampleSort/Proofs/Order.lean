import Mathlib.Order.RelClasses

set_option relaxedAutoImplicit false
set_option autoImplicit false

/-!
# Strict weak orderings and sorted lists

The sort is given a predicate `less`. Elements of which neither is less than the other are ties;
for the predicate to be an ordering, ties have to be transitive. Then `less y x = false`, read "`x`
is not greater than `y`", is transitive as well, and that is all the sort needs to know.

## Main definitions

* `SampleSort.StrictWeak` — the predicate is a strict weak ordering.
* `SampleSort.Sorted` — no element of a list is less than one before it.

## Main results

* `SampleSort.StrictWeak.notGreater_trans` — "not greater" is transitive.
* `SampleSort.StrictWeak.ofKey` — comparing keys is a strict weak ordering if comparing by the
  keys' own order is.
-/

namespace SampleSort

variable {α κ : Type} {less : α → α → Bool}

/-- The predicate is a strict weak ordering: irreflexive, transitive, and with transitive ties. -/
def StrictWeak (less : α → α → Bool) : Prop :=
  IsStrictWeakOrder α fun a b => less a b = true

/-- No element is less than one before it. -/
def Sorted (less : α → α → Bool) (v : List α) : Prop :=
  v.Pairwise fun x y => less y x = false

namespace StrictWeak

/-- No element is less than itself. -/
lemma irrefl (h : StrictWeak less) (a : α) : less a a = false := by
  have : ¬less a a = true := h.toIsStrictOrder.toIrrefl.irrefl a
  simpa using this

/-- Of two elements, at most one is less than the other. -/
lemma asymm (h : StrictWeak less) {a b : α} (hab : less a b = true) : less b a = false := by
  by_contra hba
  have hba : less b a = true := by simpa using hba
  have haa : less a a = true := h.toIsStrictOrder.toIsTrans.trans a b a hab hba
  simp [h.irrefl a] at haa

/-- "Less" is transitive. -/
lemma less_trans (h : StrictWeak less) {a b c : α} (hab : less a b = true)
    (hbc : less b c = true) : less a c = true :=
  h.toIsStrictOrder.toIsTrans.trans a b c hab hbc

/-- "Not greater" is transitive.

**Proof sketch.** Were `c` less than `a`, then, `b` not being greater than `c`, either `b` and `c`
are ties or `b` is less than `c`; in the second case `b` would be less than `a`. So `b` and `c` are
ties, and for the same reason `a` and `b` are, hence `a` and `c`. -/
lemma notGreater_trans (h : StrictWeak less) {a b c : α} (hab : less b a = false)
    (hbc : less c b = false) : less c a = false := by
  by_contra hca
  have hca : less c a = true := by simpa using hca
  have hb : less b c = false := by
    by_contra hbc'
    have := h.less_trans (by simpa using hbc') hca
    simp [hab] at this
  have ha : less a b = false := by
    by_contra hab'
    have := h.less_trans hca (by simpa using hab')
    simp [hbc] at this
  have hties := h.incomp_trans a b c ⟨by simp [ha], by simp [hab]⟩ ⟨by simp [hb], by simp [hbc]⟩
  exact hties.2 hca

/-- An element less than one that is not greater than a third is less than the third. -/
lemma less_of_less_of_notGreater (h : StrictWeak less) {a b c : α} (hab : less a b = true)
    (hbc : less c b = false) : less a c = true := by
  by_contra hac
  have := h.notGreater_trans hbc (by simpa using hac)
  simp [hab] at this

/-- Comparing keys is a strict weak ordering if the keys' own ordering is one. -/
lemma ofKey {less : κ → κ → Bool} (h : StrictWeak less) (key : α → κ) :
    StrictWeak fun a b => less (key a) (key b) where
  irrefl a := h.toIsStrictOrder.toIrrefl.irrefl (key a)
  trans a b c := h.toIsStrictOrder.toIsTrans.trans (key a) (key b) (key c)
  incomp_trans a b c := h.incomp_trans (key a) (key b) (key c)

/-- The order of the natural numbers is a strict weak ordering. -/
lemma natural : StrictWeak fun a b : Nat => decide (a < b) where
  irrefl a := by simp
  trans a b c := by simpa using Nat.lt_trans
  incomp_trans a b c := by simp only [decide_eq_true_eq]; omega

end StrictWeak

end SampleSort
