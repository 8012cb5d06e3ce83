import Mathlib.Order.Bounds.Defs
import SampleSort.Proofs.Checked.Sampling

set_option relaxedAutoImplicit false
set_option autoImplicit false

/-!
# Where splitters stand in the sample

The first splitter stands one place before the end of the first stride. From then on the next
splitter is the first element, at least a stride behind the last one, that is greater. The choice
ends only when there are enough splitters or when no such element is left. This holds of every
sample, sorted or not. A sample that is shorter than a stride yields the element in its middle.

## Main definitions

* `SampleSort.greaterBeyond` — the positions from which the next splitter can be taken.
* `SampleSort.Spaced` — splitters that stand at given positions.

## Main results

* `SampleSort.exists_spaced` — a sample that is as long as a stride yields such splitters.
* `SampleSort.chooseSplitters_of_length_lt` — a shorter one yields its middle.
* `SampleSort.compares_chooseSplitters_le` — no element is compared twice with a splitter before it.
* `SampleSort.Checked.chooseSplitters_eq_of_length_lt` — a stride beyond the end of the sample does
  no harm.
* `SampleSort.chooseSplitters_spaced` — all of these.
-/

namespace SampleSort

variable {α : Type} {less : α → α → Bool} {stride limit : Nat} {sample splitters : List α}
  {positions : List Nat}

/-- The positions that are at least a stride behind `p` and hold an element greater than that
at `p`. -/
def greaterBeyond (less : α → α → Bool) (stride : Nat) (sample : List α) (p : Nat) : Set Nat :=
  {q | p + stride ≤ q ∧ ∃ x y, sample[p]? = some x ∧ sample[q]? = some y ∧ less x y = true}

/-- The splitters stand at these positions of the sample, every one at the first possible position
behind the one before it, and there are as many as can be. -/
structure Spaced (less : α → α → Bool) (stride limit : Nat) (sample splitters : List α)
    (positions : List Nat) : Prop where
  /-- The splitters are the elements at the positions. -/
  elements : positions.map (fun p => sample[p]?) = splitters.map some
  /-- The first position is the last one of the first stride. -/
  first : positions.head? = some (stride - 1)
  /-- The positions ascend. -/
  ascending : positions.Pairwise (· < ·)
  /-- The next position is the least one that is a stride further on and holds a greater element. -/
  next : positions.IsChain fun p q => IsLeast (greaterBeyond less stride sample p) q
  /-- There are as many splitters as asked for, or there is no next position. -/
  complete : splitters.length = limit ∨
    ∀ p, positions.getLast? = some p → greaterBeyond less stride sample p = ∅

/-! ### Positions -/

/-- Where the splitters found in the rest of a sample stand, if the one before them stands at `p`.

**Proof sketch.** Induction along the rest of the sample. What has been passed over is either less
than a stride behind `p`, or not greater than the splitter there; `skip` counts the elements that
are still too near. So the first element that is accepted stands at the least possible position. -/
lemma exists_positions_from (hstride : 1 ≤ stride) {skip limit : Nat} {last : Option α}
    {rest : List α} {p i : Nat} {x : α} (hlast : last = some x) (hx : sample[p]? = some x)
    (hrest : rest = sample.drop i) (hreach : p + stride ≤ i + skip)
    (hpassed : ∀ q ∈ greaterBeyond less stride sample p, i + skip ≤ q) :
    ∃ positions : List Nat,
      positions.map (fun p => sample[p]?) =
        (spacedFrom less stride skip limit last rest).value.map some ∧
      (p :: positions).IsChain (fun p q => IsLeast (greaterBeyond less stride sample p) q) ∧
      (positions.length = limit ∨ ∀ l, (p :: positions).getLast? = some l →
        greaterBeyond less stride sample l = ∅) := by
  fun_induction spacedFrom less stride skip limit last rest generalizing p i x with
  | case1 skip limit last =>
    refine ⟨[], rfl, .singleton p, Or.inr ?_⟩
    intro l hl
    obtain rfl := Option.some.inj hl
    rw [Set.eq_empty_iff_forall_notMem]
    intro q hq
    have hle := hpassed q hq
    obtain ⟨-, -, y, -, hy, -⟩ := hq
    have hlength : sample.length ≤ i := List.drop_eq_nil_iff.1 hrest.symm
    have hlt := (List.getElem?_eq_some_iff.1 hy).1
    omega
  | case2 skip limit last y rest ih =>
    refine ih hlast hx (i := i + 1) ?_ (by omega) fun q hq => ?_
    · rw [← List.tail_drop, ← hrest]
      rfl
    · have := hpassed q hq
      omega
  | case3 => exact ⟨[], rfl, .singleton p, Or.inl rfl⟩
  | case4 => cases hlast
  | case5 limit last y rest ih₁ ih₂ =>
    obtain rfl := Option.some.inj hlast
    have hy : sample[i]? = some y := by
      rw [← List.head?_drop, ← hrest]
      rfl
    have hrest' : rest = sample.drop (i + 1) := by
      rw [← List.tail_drop, ← hrest]
      rfl
    rw [Counted.value_bind, Counted.value_ask]
    by_cases hless : less last y = true
    · obtain ⟨positions, helements, hnext, hcomplete⟩ := ih₁ rfl hy hrest'
        (show i + stride ≤ i + 1 + (stride - 1) by omega) fun q hq => by
          have := hq.1
          omega
      rw [if_pos hless]
      refine ⟨i :: positions, ?_, ?_, ?_⟩
      · rw [List.map_cons, helements, hy]
        rfl
      · refine List.isChain_cons_cons.2 ⟨⟨⟨hreach, last, y, hx, hy, hless⟩, ?_⟩, hnext⟩
        exact fun q hq => hpassed q hq
      · rw [List.getLast?_cons_cons, List.length_cons, Nat.add_right_cancel_iff]
        exact hcomplete
    · rw [if_neg hless]
      refine ih₂ rfl hx hrest' (by omega) fun q hq => ?_
      have hle := hpassed q hq
      have hne : q ≠ i := by
        rintro rfl
        obtain ⟨-, x', y', hx', hy', hless'⟩ := hq
        obtain rfl := Option.some.inj (hx.symm.trans hx')
        obtain rfl := Option.some.inj (hy.symm.trans hy')
        exact hless hless'
      omega

/-- Positions that follow one another at a distance ascend. -/
lemma pairwise_lt_of_isChain (hstride : 1 ≤ stride)
    (h : positions.IsChain fun p q => IsLeast (greaterBeyond less stride sample p) q) :
    positions.Pairwise (· < ·) := by
  rw [← List.isChain_iff_pairwise]
  refine h.imp ?_
  intro p q hq
  have := hq.1.1
  omega

/-- The splitters of a sample that is as long as a stride are those that are found in it. -/
lemma value_chooseSplitters_of_le (less : α → α → Bool) (limit : Nat) (hstride : 1 ≤ stride)
    (hlength : stride ≤ sample.length) :
    ∃ x, sample[stride - 1]? = some x ∧
      (chooseSplitters less stride (limit + 1) sample).value = x ::
        (spacedFrom less stride 0 limit (some x) (sample.drop (stride - 1 + stride))).value := by
  have hlt : stride - 1 < sample.length := by omega
  have hfound : (spacedFrom less stride (stride - 1) (limit + 1) none sample).value =
      sample[stride - 1] :: (spacedFrom less stride 0 limit (some sample[stride - 1])
        (sample.drop (stride - 1 + stride))).value := by
    rw [Checked.value_spacedFrom_skip, ← List.getElem_cons_drop hlt,
      Checked.value_spacedFrom_accept hstride rfl, List.getElem_cons_drop, List.drop_drop]
  refine ⟨_, List.getElem?_eq_getElem hlt, ?_⟩
  rw [chooseSplitters, Counted.value_bind, hfound]
  rfl

/-- A sample that is as long as a stride yields splitters at the first possible positions. -/
theorem exists_spaced (hstride : 1 ≤ stride) (hlimit : 1 ≤ limit)
    (hlength : stride ≤ sample.length) :
    ∃ positions, Spaced less stride limit sample
      (chooseSplitters less stride limit sample).value positions := by
  obtain ⟨limit, rfl⟩ := Nat.exists_eq_succ_of_ne_zero (Nat.one_le_iff_ne_zero.1 hlimit)
  obtain ⟨x, hx, hvalue⟩ := value_chooseSplitters_of_le less limit hstride hlength
  have hrest : sample.drop (stride - 1 + stride) = sample.drop (stride - 1 + stride) := rfl
  have hreach : stride - 1 + stride ≤ stride - 1 + stride + 0 := Nat.le_refl _
  obtain ⟨positions, helements, hnext, hcomplete⟩ :=
    exists_positions_from hstride rfl hx hrest hreach fun q hq => hq.1
  have hcount : positions.length = (spacedFrom less stride 0 limit (some x)
      (sample.drop (stride - 1 + stride))).value.length := by
    simpa using congrArg List.length helements
  refine ⟨(stride - 1) :: positions, ?_, rfl, pairwise_lt_of_isChain hstride hnext, hnext, ?_⟩
  · rw [List.map_cons, helements, hvalue, hx, List.map_cons]
  · rw [hvalue, List.length_cons, ← hcount, Nat.succ_inj]
    exact hcomplete

/-! ### Short samples -/

/-- A sample that is shorter than a stride yields its middle. -/
lemma chooseSplitters_of_length_lt (hlength : sample.length < stride) :
    (chooseSplitters less stride limit sample).value = sample[sample.length / 2]?.toList := by
  have hfound : (spacedFrom less stride (stride - 1) limit none sample).value = [] := by
    rw [Checked.value_spacedFrom_skip, List.drop_of_length_le (by omega)]
    simp [spacedFrom]
  rw [chooseSplitters, Counted.value_bind, hfound, Counted.value_pure]

/-! ### Comparisons -/

/-- Every element of the rest of a sample is compared at most once. -/
lemma compares_spacedFrom_le (less : α → α → Bool) (stride skip limit : Nat) (last : Option α)
    (rest : List α) : (spacedFrom less stride skip limit last rest).compares ≤ rest.length := by
  fun_induction spacedFrom less stride skip limit last rest with
  | case1 => simp
  | case2 _ _ _ y rest ih => exact Nat.le_succ_of_le ih
  | case3 => simp
  | case4 limit x rest ih => exact Nat.le_succ_of_le ih
  | case5 limit last x rest ih₁ ih₂ =>
    rw [Counted.compares_bind, Counted.compares_ask, Counted.value_ask, List.length_cons,
      Nat.add_comm]
    apply Nat.succ_le_succ
    by_cases hless : less last x = true
    · rw [if_pos hless]
      exact ih₁
    · rw [if_neg hless]
      exact ih₂

/-- The choice of splitters takes no more comparisons than the sample has elements. -/
lemma compares_chooseSplitters_le (less : α → α → Bool) (stride limit : Nat) (sample : List α) :
    (chooseSplitters less stride limit sample).compares ≤ sample.length := by
  have hfound := compares_spacedFrom_le less stride (stride - 1) limit none sample
  rw [chooseSplitters, Counted.compares_bind]
  split <;> simpa using hfound

/-! ### In place -/

namespace Checked

/-- A stride beyond the end of the sample does no harm: no position is moved on by it. -/
lemma chooseSplitters_eq_of_length_lt (hlength : sample.length < stride) (out : List α) :
    chooseSplitters less .available stride limit sample out =
      .ok (true, (SampleSort.chooseSplitters less stride limit sample).value) := by
  refine chooseSplitters_eq_of_spacedAt (by omega) ?_ out
  rw [spacedAt, if_neg (by omega), value_spacedFrom_skip, List.drop_of_length_le (by omega)]
  simp [spacedFrom, pure, Except.pure]

/-- Splitters are chosen in place from any sample whose length is that of a sequence. -/
lemma chooseSplitters_eq_of_lt (less : α → α → Bool) (limit : Nat) (hstride : 1 ≤ stride)
    (hlength : sample.length < 2 ^ 63) (out : List α) :
    chooseSplitters less .available stride limit sample out =
      .ok (true, (SampleSort.chooseSplitters less stride limit sample).value) := by
  by_cases hle : stride ≤ sample.length
  · refine chooseSplitters_eq hstride ?_ out
    unfold wordBound UInt64.size
    omega
  · exact chooseSplitters_eq_of_length_lt (Nat.lt_of_not_le hle) out

end Checked

/-! ### All together -/

/-- The splitters of a sample, sorted or not, strictly ascend, are taken from it in its order, and
are no more than asked for. In a sample that is as long as a stride every one of them stands at the
first possible position; a shorter one yields its middle. Looking for them by position, no sum
leaves the range of words, whatever is overwritten, and no more comparisons are made than there are
elements. -/
theorem chooseSplitters_spaced (hless : StrictWeak less) (hstride : 1 ≤ stride)
    (hlimit : 1 ≤ limit)
    (hsplitters : (chooseSplitters less stride limit sample).value = splitters) :
    splitters.Sublist sample ∧ splitters.Pairwise (fun s t => less s t = true) ∧
      splitters.length ≤ limit ∧ (splitters ≠ [] ↔ sample ≠ []) ∧
      (stride ≤ sample.length →
        ∃ positions, Spaced less stride limit sample splitters positions) ∧
      (0 < sample.length → sample.length < stride →
        ∃ x, sample[sample.length / 2]? = some x ∧ splitters = [x]) ∧
      (sample.length < 2 ^ 63 →
        ∀ out, Checked.chooseSplitters less .available stride limit sample out =
          .ok (true, splitters)) ∧
      (chooseSplitters less stride limit sample).compares ≤ sample.length := by
  subst hsplitters
  refine ⟨chooseSplitters_sublist less stride limit sample,
    chooseSplitters_ascending hless stride limit sample,
    length_chooseSplitters_le less stride hlimit sample, ⟨?_, chooseSplitters_ne_nil less _ _⟩,
    exists_spaced hstride hlimit, ?_, ?_, compares_chooseSplitters_le less stride limit sample⟩
  · rintro hne rfl
    exact hne (List.sublist_nil.1 (chooseSplitters_sublist less stride limit []))
  · intro hpos hlength
    have hmiddle : sample.length / 2 < sample.length := Nat.div_lt_self hpos (by decide)
    refine ⟨_, List.getElem?_eq_getElem hmiddle, ?_⟩
    rw [chooseSplitters_of_length_lt hlength, List.getElem?_eq_getElem hmiddle]
    rfl
  · exact Checked.chooseSplitters_eq_of_lt less limit hstride

/-- Eight numbers that are not sorted: the sevens are found only after a four has been passed over,
and the nine after a second seven. -/
theorem chooseSplitters_spaced_of_eight :
    (∃ positions, Spaced (fun a b : Nat => decide (a < b)) 2 5 [4, 4, 4, 4, 7, 2, 7, 9] [4, 7, 9]
      positions) ∧
      Checked.chooseSplitters (fun a b : Nat => decide (a < b)) .available 2 5
        [4, 4, 4, 4, 7, 2, 7, 9] [8, 8] = .ok (true, [4, 7, 9]) ∧
      (chooseSplitters (fun a b : Nat => decide (a < b)) 2 5 [4, 4, 4, 4, 7, 2, 7, 9]).compares ≤
        8 := by
  have hsplitters : (chooseSplitters (fun a b : Nat => decide (a < b)) 2 5
      [4, 4, 4, 4, 7, 2, 7, 9]).value = [4, 7, 9] := by decide
  obtain ⟨-, -, -, -, hspaced, -, hchecked, hcompares⟩ :=
    chooseSplitters_spaced .natural (by decide) (by decide) hsplitters
  exact ⟨hspaced (by decide), hchecked (by decide) _, hcompares⟩

end SampleSort
