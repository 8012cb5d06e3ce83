import Mathlib.Data.Nat.Factorial.Basic
import Mathlib.Data.Set.Function
import Mathlib.Probability.Distributions.Uniform
import SampleSort.Proofs.Checked.Sampling
import SampleSort.Random.Cycle

set_option relaxedAutoImplicit false
set_option autoImplicit false

/-!
# The draw of a sample is fair

An exchange at position `i` needs the index of an element from there on, and the source yields one
from just this range. Whatever these indices are, the exchanges permute the window and do not touch
what is neither in the sample nor at one of them. Where no two elements are equal, the first one
after the exchanges tells which index was the first, and so on; so there are exactly as many lists
of indices as ordered selections, and a uniform choice of every index is a uniform choice of the
selection.

## Main definitions

* `SampleSort.Admissible` — the indices that may be drawn.
* `SampleSort.Yields` — the indices that a source yields for one position after the other.
* `SampleSort.selections` — the samples that can be drawn.
* `SampleSort.uniformIndices` — independent, uniformly distributed indices.
* `SampleSort.FairDraw` — what is promised of the draw of a sample.

## Main results

* `SampleSort.Yields.drawSample_eq` — the exchanges are made with the indices that the source
  yields.
* `SampleSort.Checked.exchangeAll_eq` — the exchanges can be made in place.
* `SampleSort.bijOn_exchanged` — a selection is the outcome of exactly one list of indices.
* `SampleSort.uniformIndices_apply` — every list of indices is equally likely.
* `SampleSort.map_uniformIndices` — so is every selection.
* `SampleSort.drawSample_fair` — the draw of a sample is fair.
-/

namespace SampleSort

open scoped ENNReal

variable {α σ : Type} {i j k n p : Nat} {js : List Nat} {v w rest : List α} {x y : α}

/-! ### Indices -/

/-- The indices for the positions from `i` on: every one is that of an element, of `n`, that does
not stand before the position. -/
def Admissible (i n : Nat) (js : List Nat) : Prop :=
  ∀ p j, js[p]? = some j → i + p ≤ j ∧ j < n

lemma admissible_nil (i n : Nat) : Admissible i n [] := by
  intro p j hj
  cases hj

lemma admissible_cons :
    Admissible i n (j :: js) ↔ (i ≤ j ∧ j < n) ∧ Admissible (i + 1) n js := by
  constructor
  · intro h
    refine ⟨h 0 j rfl, fun p l hl => ?_⟩
    have := h (p + 1) l hl
    omega
  · rintro ⟨hj, h⟩ p l hl
    cases p with
    | zero =>
      obtain rfl := Option.some.inj hl
      exact hj
    | succ p =>
      have := h p l hl
      omega

/-- For the positions from `i` on, the source yields these indices one after the other: the first
from the range from `i` on and below `n`, the next from the range from `i + 1` on, and so on. It is
`source'` afterwards. -/
inductive Yields [IndexSource σ] (n : Nat) : (i : Nat) → σ → List Nat → σ → Prop where
  /-- No index. -/
  | nil (i : Nat) (source : σ) : Yields n i source [] source
  /-- An index for the first position, and those for the positions after it. -/
  | cons {i j : Nat} {source source₁ source' : σ} {js : List Nat}
      (h : IndexSource.draw i n source = (j, source₁)) (h' : Yields n (i + 1) source₁ js source') :
      Yields n i source (j :: js) source'

section Yields

variable [IndexSource σ] {source source' : σ}

/-- A source yields any number of indices. -/
lemma exists_yields (n k i : Nat) (source : σ) :
    ∃ js source', js.length = k ∧ Yields n i source js source' := by
  induction k generalizing i source with
  | zero => exact ⟨[], source, rfl, .nil i source⟩
  | succ k ih =>
    obtain ⟨js, source', hlength, hyields⟩ := ih (i + 1) (IndexSource.draw i n source).2
    exact ⟨_ :: js, source', congrArg Nat.succ hlength, .cons rfl hyields⟩

namespace Yields

/-- The indices are admissible, as long as there are enough elements. -/
lemma admissible (h : Yields n i source js source') (hn : i + js.length ≤ n) :
    Admissible i n js := by
  induction h with
  | nil i source => exact admissible_nil i n
  | @cons i j source source₁ source' js hdraw _ ih =>
    rw [List.length_cons] at hn
    have hmem := IndexSource.draw_mem (show i < n by omega) source
    rw [hdraw] at hmem
    exact admissible_cons.2 ⟨hmem, ih (by omega)⟩

/-- They are the indices that are drawn. -/
lemma drawIndices_eq (h : Yields n i source js source') (hn : i + js.length ≤ n) :
    drawIndices n js.length i source = .ok (js, source') := by
  induction h with
  | nil i source => rfl
  | @cons i j source source₁ source' js hdraw _ ih =>
    rw [List.length_cons] at hn ⊢
    rw [drawIndices, if_pos (by omega), hdraw]
    simp only [ih (by omega)]
    rfl

/-- The first elements of a window change places with those at the indices that the source
yields. -/
theorem drawSample_eq (h : Yields v.length 0 source js source') (hjs : js.length ≤ v.length) :
    drawSample js.length v source = .ok (exchanged js v, source') := by
  rw [drawSample, h.drawIndices_eq (by omega)]
  rfl

end Yields

end Yields

/-! ### Exchanges -/

/-- What an exchange does: the element at the offset comes first, and those at other positions than
the first stay. -/
lemma exists_exchangeHead {offset : Nat} (h : offset < v.length) :
    ∃ y rest, exchangeHead offset v = y :: rest ∧ v[offset]? = some y ∧ (y :: rest).Perm v ∧
      ∀ p, p + 1 ≠ offset → rest[p]? = v[p + 1]? := by
  have hperm := exchangeHead_perm offset v
  cases v with
  | nil => cases h
  | cons x rest =>
    cases offset with
    | zero => exact ⟨x, rest, rfl, rfl, .refl _, fun p _ => rfl⟩
    | succ o =>
      have ho : o < rest.length := Nat.lt_of_succ_lt_succ h
      rw [exchangeHead, List.getElem?_eq_getElem ho] at hperm ⊢
      refine ⟨rest[o], rest.set o x, rfl, List.getElem?_eq_getElem ho, hperm, fun p hp => ?_⟩
      rw [List.getElem?_set_ne (by omega)]
      rfl

/-- The exchanges, one by one. -/
lemma exchangedFrom_cons {offset : Nat} (h : exchangeHead offset v = y :: rest) :
    exchangedFrom i ((i + offset) :: js) v = y :: exchangedFrom (i + 1) js rest := by
  rw [exchangedFrom, Nat.add_sub_cancel_left, h]

/-- The first of the exchanges, with an admissible index. -/
lemma exists_exchangedFrom_cons (hij : i ≤ j) (hj : j < i + v.length) :
    ∃ y rest, v[j - i]? = some y ∧ (y :: rest).Perm v ∧ i + v.length = i + 1 + rest.length ∧
      (∀ p, i + (p + 1) ≠ j → rest[p]? = v[p + 1]?) ∧
      ∀ js, exchangedFrom i (j :: js) v = y :: exchangedFrom (i + 1) js rest := by
  obtain ⟨offset, rfl⟩ := Nat.exists_eq_add_of_le hij
  obtain ⟨y, rest, hhead, hy, hperm, hstay⟩ := exists_exchangeHead (Nat.lt_of_add_lt_add_left hj)
  have hlength := hperm.length_eq
  rw [List.length_cons] at hlength
  rw [Nat.add_sub_cancel_left]
  exact ⟨y, rest, hy, hperm, by omega, fun p hp => hstay p (by omega),
    fun js => exchangedFrom_cons hhead⟩

/-- Behind the sample, an element that is at none of the indices stays where it is. -/
lemma getElem?_exchangedFrom (hjs : Admissible i (i + v.length) js) (hp : js.length ≤ p)
    (hmem : i + p ∉ js) : (exchangedFrom i js v)[p]? = v[p]? := by
  induction js generalizing i v p with
  | nil => rfl
  | cons j js ih =>
    obtain ⟨hj, hrest⟩ := admissible_cons.1 hjs
    obtain ⟨y, rest, -, -, hlength, hstay, hcons⟩ := exists_exchangedFrom_cons hj.1 hj.2
    rw [List.mem_cons, not_or] at hmem
    obtain ⟨p, rfl⟩ := Nat.exists_eq_add_of_le' (Nat.one_le_of_lt hp)
    rw [hcons, List.getElem?_cons_succ, ← hstay p hmem.1]
    refine ih (hlength ▸ hrest) (Nat.le_of_succ_le_succ hp) ?_
    rw [Nat.add_right_comm]
    exact hmem.2

namespace Checked

/-- The elements at position `i` and those behind it change places with the ones at these indices,
one after the other. -/
def exchangeAll (i : Nat) : List Nat → List α → Except Panic (List α)
  | [], v => .ok v
  | j :: js, v => do
    let v ← swap v i j
    exchangeAll (i + 1) js v

/-- The exchanges behind a front part, in place. -/
lemma exchangeAll_append (front : List α)
    (hjs : Admissible front.length (front.length + v.length) js) :
    exchangeAll front.length js (front ++ v) = .ok (front ++ exchangedFrom front.length js v) := by
  induction js generalizing front v with
  | nil => rfl
  | cons j js ih =>
    obtain ⟨⟨hle, hlt⟩, hrest⟩ := admissible_cons.1 hjs
    obtain ⟨offset, rfl⟩ := Nat.exists_eq_add_of_le hle
    cases v with
    | nil => simp at hlt
    | cons x v =>
      have hoffset : offset ≤ v.length := by simpa [Nat.lt_succ_iff] using hlt
      have hhead : offset < (x :: v).length := Nat.lt_succ_of_le hoffset
      obtain ⟨y, rest, hhead, -, hperm, -⟩ := exists_exchangeHead hhead
      have hlength := hperm.length_eq
      rw [← hlength, List.length_cons, Nat.add_comm rest.length, ← Nat.add_assoc] at hrest
      rw [exchangeAll, swap_eq_exchangeHead front x v hoffset, ok_bind, hhead,
        exchangedFrom_cons hhead]
      simpa using ih (v := rest) (front ++ [y]) (by simpa using hrest)

/-- The exchanges can be made in place. -/
theorem exchangeAll_eq (hjs : Admissible 0 v.length js) :
    exchangeAll 0 js v = .ok (exchanged js v) :=
  exchangeAll_append [] (by simpa using hjs)

end Checked

/-! ### Selections -/

/-- The ordered selections of `k` elements, no element being taken twice. -/
def selections (k : Nat) (v : List α) : Set (List α) :=
  {w | w.length = k ∧ w.Nodup ∧ ∀ x ∈ w, x ∈ v}

/-- The first elements after the exchanges are a selection. -/
lemma take_exchangedFrom_mem (hv : v.Nodup) (hk : k ≤ v.length) :
    (exchangedFrom i js v).take k ∈ selections k v := by
  have hperm := exchangedFrom_perm i js v
  refine ⟨?_, (hperm.nodup_iff.2 hv).sublist (List.take_sublist k _), fun x hx => ?_⟩
  · rw [List.length_take, hperm.length_eq, Nat.min_eq_left hk]
  · exact hperm.mem_iff.1 (List.mem_of_mem_take hx)

/-- The first elements after the exchanges tell the indices.

**Proof sketch.** Induction along the indices. The first element stood at the first index and
nowhere else. What is left after the first exchange is the same for both lists, so the later indices
can be recovered from the rest of the selection. -/
lemma injOn_exchangedFrom (hv : v.Nodup) {js' : List Nat} (hlength : js.length = js'.length)
    (hjs : Admissible i (i + v.length) js) (hjs' : Admissible i (i + v.length) js')
    (h : (exchangedFrom i js v).take js.length = (exchangedFrom i js' v).take js.length) :
    js = js' := by
  induction js generalizing i js' v with
  | nil => exact (List.length_eq_zero_iff.1 hlength.symm).symm
  | cons j js ih =>
    cases js' with
    | nil => cases hlength
    | cons j' js' =>
      obtain ⟨hj, hrest⟩ := admissible_cons.1 hjs
      obtain ⟨hj', hrest'⟩ := admissible_cons.1 hjs'
      obtain ⟨y, rest, hy, hperm, hcount, -, hcons⟩ := exists_exchangedFrom_cons hj.1 hj.2
      obtain ⟨y', rest', hy', -, -, -, hcons'⟩ := exists_exchangedFrom_cons hj'.1 hj'.2
      rw [hcons, hcons', List.length_cons, List.take_succ_cons, List.take_succ_cons] at h
      obtain ⟨rfl, hlater⟩ := List.cons_eq_cons.1 h
      have hoffset : j - i = j' - i :=
        (List.getElem?_inj (by omega) hv).1 (hy.trans hy'.symm)
      obtain rfl : j = j' := by omega
      -- with the same first index, the rest is the same
      obtain ⟨-, hsame⟩ := List.cons_eq_cons.1 ((hcons js').symm.trans (hcons' js'))
      have hnodup := List.nodup_cons.1 (hperm.nodup_iff.2 hv)
      rw [hcount] at hrest hrest'
      rw [← hsame] at hlater
      rw [ih hnodup.2 (Nat.succ.inj hlength) hrest hrest' hlater]

/-- Every selection is drawn with some indices: the first one is where its first element stands, and
the rest is a selection from what is left. -/
lemma surjOn_exchangedFrom (hw : w ∈ selections k v) :
    ∃ js, js.length = k ∧ Admissible i (i + v.length) js ∧ (exchangedFrom i js v).take k = w := by
  induction k generalizing i v w with
  | zero => exact ⟨[], rfl, admissible_nil _ _, (List.length_eq_zero_iff.1 hw.1).symm⟩
  | succ k ih =>
    obtain ⟨hlength, hnodup, hmem⟩ := hw
    cases w with
    | nil => cases hlength
    | cons z w =>
      obtain ⟨hz, hnodup⟩ := List.nodup_cons.1 hnodup
      obtain ⟨offset, hoffset, hget⟩ := List.getElem_of_mem (hmem z (List.mem_cons_self ..))
      obtain ⟨y, rest, hy, hperm, hcount, -, hcons⟩ :=
        exists_exchangedFrom_cons (Nat.le_add_right i offset) (Nat.add_lt_add_left hoffset i)
      rw [Nat.add_sub_cancel_left, List.getElem?_eq_getElem hoffset, hget] at hy
      obtain rfl := Option.some.inj hy
      have hrest : w ∈ selections k rest := by
        refine ⟨Nat.succ.inj hlength, hnodup, fun x hx => ?_⟩
        have hxv := hperm.mem_iff.2 (hmem x (List.mem_cons_of_mem z hx))
        exact (List.mem_cons.1 hxv).resolve_left fun hxz => hz (hxz ▸ hx)
      obtain ⟨js, hjs, hadmissible, htake⟩ := ih (i := i + 1) hrest
      refine ⟨(i + offset) :: js, congrArg Nat.succ hjs,
        admissible_cons.2 ⟨by omega, hcount ▸ hadmissible⟩, ?_⟩
      rw [hcons, List.take_succ_cons, htake]

/-- Where no two elements are equal, every ordered selection is the outcome of exactly one list of
indices. -/
theorem bijOn_exchanged (hv : v.Nodup) (hk : k ≤ v.length) :
    Set.BijOn (fun js => (exchanged js v).take k) {js | js.length = k ∧ Admissible 0 v.length js}
      (selections k v) := by
  refine ⟨fun js _ => take_exchangedFrom_mem hv hk, ?_, ?_⟩
  · rintro js ⟨rfl, hjs⟩ js' ⟨hlength, hjs'⟩ h
    rw [← Nat.zero_add v.length] at hjs hjs'
    exact injOn_exchangedFrom hv hlength.symm hjs hjs' h
  · intro w hw
    obtain ⟨js, hlength, hjs, htake⟩ := surjOn_exchangedFrom (i := 0) hw
    rw [Nat.zero_add] at hjs
    exact ⟨js, ⟨hlength, hjs⟩, htake⟩

/-! ### Probabilities -/

/-- Independent indices for the `k` positions from `i` on, each of them uniformly distributed over
the elements from its position on. -/
noncomputable def uniformIndices (n : Nat) : (k i : Nat) → PMF (List Nat)
  | 0, _ => .pure []
  | k + 1, i =>
    if h : (Finset.Ico i n).Nonempty then
      (PMF.uniformOfFinset (Finset.Ico i n) h).bind fun j =>
        (uniformIndices n k (i + 1)).map (j :: ·)
    else .pure []

/-- An outcome is as likely as the only value it can come from. -/
lemma map_apply_eq {β γ : Type} {law : PMF β} {f : β → γ} {b : β}
    (h : ∀ a ∈ law.support, f a = f b → a = b) : law.map f (f b) = law b := by
  classical
  rw [PMF.map_apply, tsum_eq_single b]
  · exact if_pos rfl
  · intro a hne
    by_cases hab : f b = f a
    · rw [if_pos hab, PMF.apply_eq_zero_iff]
      exact fun hmem => hne (h a hmem hab.symm)
    · exact if_neg hab

/-- Uniform indices are admissible, as long as there are enough elements. -/
lemma admissible_of_mem_support (hn : i + k ≤ n) (hjs : js ∈ (uniformIndices n k i).support) :
    js.length = k ∧ Admissible i n js := by
  induction k generalizing i js with
  | zero =>
    obtain rfl := (PMF.mem_support_pure_iff _ _).1 hjs
    exact ⟨rfl, admissible_nil i n⟩
  | succ k ih =>
    have hsome : (Finset.Ico i n).Nonempty := Finset.nonempty_Ico.2 (by omega)
    rw [uniformIndices, dif_pos hsome] at hjs
    obtain ⟨j, hj, hjs⟩ := (PMF.mem_support_bind_iff _ _ _).1 hjs
    obtain ⟨js, hrest, rfl⟩ := (PMF.mem_support_map_iff _ _ _).1 hjs
    obtain ⟨hlength, hadmissible⟩ := ih (by omega) hrest
    rw [PMF.mem_support_uniformOfFinset_iff, Finset.mem_Ico] at hj
    exact ⟨congrArg Nat.succ hlength, admissible_cons.2 ⟨hj, hadmissible⟩⟩

/-- All lists of admissible indices are equally likely. -/
theorem uniformIndices_apply (hjs : Admissible i n js) :
    uniformIndices n js.length i js = ((n - i).descFactorial js.length : ℝ≥0∞)⁻¹ := by
  induction js generalizing i with
  | nil => simp [uniformIndices]
  | cons j js ih =>
    obtain ⟨hj, hrest⟩ := admissible_cons.1 hjs
    have hmem : j ∈ Finset.Ico i n := Finset.mem_Ico.2 hj
    have hsome : (Finset.Ico i n).Nonempty := ⟨j, hmem⟩
    have hcount : n - i = n - (i + 1) + 1 := by omega
    rw [List.length_cons, uniformIndices, dif_pos hsome, PMF.bind_apply, tsum_eq_single j]
    · have hcons : (uniformIndices n js.length (i + 1)).map (j :: ·) (j :: js) =
          uniformIndices n js.length (i + 1) js :=
        map_apply_eq fun a _ ha => (List.cons_eq_cons.1 ha).2
      rw [PMF.uniformOfFinset_apply_of_mem _ hmem, hcons, ih hrest, Nat.card_Ico, hcount,
        Nat.succ_descFactorial_succ, Nat.cast_mul, ENNReal.mul_inv (.inr (ENNReal.natCast_ne_top _))
          (.inl (ENNReal.natCast_ne_top _))]
    · intro l hne
      have hzero : (uniformIndices n js.length (i + 1)).map (l :: ·) (j :: js) = 0 := by
        rw [PMF.apply_eq_zero_iff, PMF.mem_support_map_iff]
        rintro ⟨a, -, ha⟩
        exact hne (List.cons_eq_cons.1 ha).1
      rw [hzero, mul_zero]

/-- Uniform indices make all selections equally likely. -/
theorem map_uniformIndices (hv : v.Nodup) (hk : k ≤ v.length) (hw : w ∈ selections k v) :
    (uniformIndices v.length k 0).map (fun js => (exchanged js v).take k) w =
      (v.length.descFactorial k : ℝ≥0∞)⁻¹ := by
  obtain ⟨-, hinj, hsurj⟩ := bijOn_exchanged hv hk
  obtain ⟨js, ⟨rfl, hjs⟩, rfl⟩ := hsurj hw
  rw [map_apply_eq, uniformIndices_apply hjs, Nat.sub_zero]
  intro js' hjs' h
  exact hinj (admissible_of_mem_support (by omega) hjs') ⟨rfl, hjs⟩ h

/-- Nothing but a selection is drawn with uniform indices. -/
lemma map_uniformIndices_eq_zero (hv : v.Nodup) (hk : k ≤ v.length) (hw : w ∉ selections k v) :
    (uniformIndices v.length k 0).map (fun js => (exchanged js v).take k) w = 0 := by
  rw [PMF.apply_eq_zero_iff, PMF.mem_support_map_iff]
  rintro ⟨js, -, rfl⟩
  exact hw (take_exchangedFrom_mem hv hk)

/-! ### Samples larger than the window -/

/-- A draw that asks for more elements than there are fails at an empty range. -/
lemma drawIndices_eq_error [IndexSource σ] (hi : i ≤ n) (hk : n < i + k) (source : σ) :
    drawIndices n k i source = .error .emptyDraw := by
  induction k generalizing i source with
  | zero => omega
  | succ k ih =>
    by_cases hlt : i < n
    · rw [drawIndices, if_pos hlt]
      simp only [ih (Nat.succ_le_of_lt hlt) (show n < i + 1 + k by omega)]
      rfl
    · rw [drawIndices, if_neg hlt]

/-- In place, all elements have changed places before the range is empty. -/
lemma Checked.foldlM_drawAt_eq_error [IndexSource σ] (hk : v.length < k) (source : σ) :
    (List.range' 0 k).foldlM Checked.drawAt (v, source) = .error .emptyDraw := by
  obtain ⟨m, rfl⟩ := Nat.exists_eq_add_of_lt hk
  obtain ⟨js, source', hjs, hyields⟩ := exists_yields v.length v.length 0 source
  have hdraw := hyields.drawIndices_eq (by omega)
  rw [hjs] at hdraw
  have hfront := foldlM_drawAt v.length [] v hdraw
  have hlength := (exchangedFrom_perm 0 js v).length_eq
  have hempty : Checked.drawAt (exchangedFrom 0 js v, source') v.length = .error .emptyDraw := by
    rw [Checked.drawAt]
    simp only [hlength, Checked.draw, Checked.ensure, if_neg (Nat.lt_irrefl v.length)]
    rfl
  rw [Nat.add_assoc, ← List.range'_append, List.foldlM_append]
  rw [List.length_nil, List.nil_append, List.nil_append] at hfront
  rw [hfront, ok_bind, Nat.one_mul, Nat.zero_add, List.range'_succ, List.foldlM_cons, hempty]
  rfl

/-! ### The draw -/

/-- What is promised of the draw of `k` elements from a window that has as many. -/
structure FairDraw (σ : Type) [IndexSource σ] (k : Nat) (v : List α) : Prop where
  /-- Any source yields indices for the first `k` positions. -/
  yields : ∀ source : σ, ∃ js source', js.length = k ∧ Yields v.length 0 source js source'
  /-- With these indices, which are admissible, the draw exchanges the first elements, and it leaves
  the source as it is after them; so it does in place. -/
  draws : ∀ (source : σ) js source', js.length = k → Yields v.length 0 source js source' →
    Admissible 0 v.length js ∧
    drawSample k v source = .ok (exchanged js v, source') ∧
    Checked.drawSample k v source = .ok (exchanged js v, source')
  /-- The exchanges with any admissible indices can be made in place. -/
  exchanges : ∀ js, js.length = k → Admissible 0 v.length js →
    Checked.exchangeAll 0 js v = .ok (exchanged js v)
  /-- They permute the window. -/
  permutes : ∀ js, js.length = k → Admissible 0 v.length js → (exchanged js v).Perm v
  /-- They leave alone what is behind the sample and at none of the indices. -/
  keeps : ∀ js, js.length = k → Admissible 0 v.length js →
    ∀ p, k ≤ p → p ∉ js → (exchanged js v)[p]? = v[p]?
  /-- Where no two elements are equal, every selection comes from exactly one list of indices. -/
  selects : v.Nodup →
    Set.BijOn (fun js => (exchanged js v).take k) {js | js.length = k ∧ Admissible 0 v.length js}
      (selections k v)
  /-- Then with uniform indices all selections are equally likely. -/
  uniform : v.Nodup → ∀ w ∈ selections k v,
    (uniformIndices v.length k 0).map (fun js => (exchanged js v).take k) w =
      (v.length.descFactorial k : ℝ≥0∞)⁻¹
  /-- And nothing but a selection is drawn. -/
  only : v.Nodup → ∀ w ∉ selections k v,
    (uniformIndices v.length k 0).map (fun js => (exchanged js v).take k) w = 0

/-- The draw of a sample is fair. If it asks for more elements than there are, it fails: with checks
at the assertion, and without the assertion at an empty range. -/
theorem drawSample_fair [IndexSource σ] (k : Nat) (v : List α) :
    (k ≤ v.length → FairDraw σ k v) ∧
      (v.length < k → ∀ source : σ,
        drawSample k v source = .error .emptyDraw ∧
          Checked.drawSample k v source = .error .assertion ∧
          (List.range' 0 k).foldlM Checked.drawAt (v, source) = .error .emptyDraw) := by
  constructor
  · intro hk
    refine ⟨exists_yields v.length k 0, ?_, fun js _ hjs => Checked.exchangeAll_eq hjs,
      fun js _ _ => exchangedFrom_perm 0 js v, ?_, fun hv => bijOn_exchanged hv hk,
      fun hv w hw => map_uniformIndices hv hk hw,
      fun hv w hw => map_uniformIndices_eq_zero hv hk hw⟩
    · rintro source js source' rfl hyields
      have hsample := hyields.drawSample_eq hk
      exact ⟨hyields.admissible (by omega), hsample, Checked.drawSample_eq hsample⟩
    · rintro js rfl hjs p hp hmem
      refine getElem?_exchangedFrom ?_ hp ?_
      · rwa [Nat.zero_add]
      · rwa [Nat.zero_add]
  · intro hk source
    refine ⟨?_, ?_, Checked.foldlM_drawAt_eq_error hk source⟩
    · rw [drawSample, drawIndices_eq_error (Nat.zero_le _) (by omega)]
      rfl
    · rw [Checked.drawSample, Checked.ensure, if_neg (Nat.not_le_of_lt hk)]
      rfl

/-- Two of three numbers. The source yields the indices `2` and `2`, which draw the last number and
then the first, which has gone to its place; that is one of six selections. Four numbers cannot be
drawn. -/
theorem drawSample_fair_of_three :
    ∃ source', Yields 3 0 (WordCycle.ofList [0xc0000000]) [2, 2] source' ∧
      drawSample 2 [10, 20, 30] (WordCycle.ofList [0xc0000000]) = .ok ([30, 10, 20], source') ∧
      Checked.drawSample 2 [10, 20, 30] (WordCycle.ofList [0xc0000000]) =
        .ok ([30, 10, 20], source') ∧
      Checked.exchangeAll 0 [2, 2] [10, 20, 30] = .ok [30, 10, 20] ∧
      (uniformIndices 3 2 0).map (fun js => (exchanged js [10, 20, 30]).take 2) [30, 10] = 6⁻¹ ∧
      drawSample 4 [10, 20, 30] (WordCycle.ofList [0xc0000000]) = .error .emptyDraw := by
  obtain ⟨hfair, -⟩ := drawSample_fair (σ := WordCycle) 2 [10, 20, 30]
  obtain ⟨-, hover⟩ := drawSample_fair (σ := WordCycle) 4 [10, 20, 30]
  have hdraw := hfair (by decide)
  let after : WordCycle := ⟨0xc0000000, [], []⟩
  have hfirst : IndexSource.draw 0 3 (WordCycle.ofList [0xc0000000]) = (2, after) := by
    decide +kernel
  have hsecond : IndexSource.draw 1 3 after = (2, after) := by decide +kernel
  have hyields := Yields.cons hfirst (.cons hsecond (.nil _ _))
  obtain ⟨hadmissible, hsample, hchecked⟩ := hdraw.draws _ _ _ rfl hyields
  have huniform := hdraw.uniform (by decide) [30, 10] ⟨rfl, by decide, by simp⟩
  refine ⟨_, hyields, hsample, hchecked, hdraw.exchanges [2, 2] rfl hadmissible, ?_,
    (hover (by decide) _).1⟩
  simpa using huniform

end SampleSort
