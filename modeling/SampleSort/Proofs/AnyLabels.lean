import SampleSort.Proofs.Placed

set_option relaxedAutoImplicit false
set_option autoImplicit false

/-!
# Placement ends, whatever the labels are

The bucket sizes need not count the labels, and a label may name a bucket that is not in use. Then
heads run beyond the ends of their buckets, and what has been settled is moved again, so that the
positions left to be settled measure nothing. But every move takes one of the heads on, be it that
of an unused bucket, and no head goes beyond the end of the window: a move that would take it there
is stopped. So the positions left to all heads together bound what can still happen.

## Main definitions

* `SampleSort.Placement.Within` — the moves made, and those there is room for, stay within a bound.
* `SampleSort.Placement.EndsWithin` — moves end within a bound, be it that one of them is stopped.

## Main results

* `SampleSort.Placement.Within.move` — a move stays within the bound.
* `SampleSort.Placement.Within.fill` — filling a bucket ends within it.
* `SampleSort.endsWithin_placeByLabels` — there is a bound that holds for any labels.
* `SampleSort.Strategy.placement_anyLabels` — placement is stopped or permutes labelled elements.
-/

namespace SampleSort

variable {α : Type} {counts : List Nat} {labels : List UInt8} {v : List α} {bound stop : Nat}
  {slots : List (UInt8 × α)} {p q : Placement α} {b : Fin maxBuckets}

/-- The elements are permuted together with their labels, and the moves made so far and the
positions left to the heads are together no more than `bound`. -/
structure Placement.Within (bound : Nat) (slots : List (UInt8 × α)) (p : Placement α) : Prop where
  /-- Nothing is lost. -/
  perm : p.slots.toList.Perm slots
  /-- There is no room for more moves than the bound allows. -/
  moves_add_room_le : p.moves + p.room ≤ bound

/-- What moves come to: either a placement within the bound, or one in which the next attempt at a
move was stopped, which counts as well. -/
def Placement.EndsWithin (bound : Nat) (slots : List (UInt8 × α)) :
    Except (Placement α) (Placement α) → Prop
  | .ok p => p.Within bound slots
  | .error p => p.slots.toList.Perm slots ∧ p.moves ≤ bound

namespace Placement

/-! ### Room for moves -/

/-- A head before the end of the window has room. -/
lemma room_pos (h : p.heads.get b < p.slots.size) : 0 < p.room :=
  Nat.lt_of_le_of_lt (Nat.zero_le _) (room_lt_of_head p.slots p.heads p.moves p.moves b h)

/-- What several numbers lack of `n` is together no more than `n` for each of them. -/
lemma foldr_sub_le (n : Nat) (heads : List Nat) :
    heads.foldr (fun head m => n - head + m) 0 ≤ heads.length * n := by
  induction heads with
  | nil => exact Nat.zero_le _
  | cons head heads ih =>
    rw [List.foldr_cons, List.length_cons, Nat.succ_mul]
    omega

/-- No head has more room than there are positions. -/
lemma room_le (p : Placement α) : p.room ≤ maxBuckets * p.slots.size := by
  have hheads := foldr_sub_le p.slots.size p.heads.toList
  rwa [Vector.length_toList] at hheads

/-! ### Moves -/

/-- All that a move does: it permutes the elements together with their labels, takes a head on that
was before the end of the window, and is counted. -/
lemma exists_moveOn_of_move? (h : p.move? b = some q) :
    ∃ (slots' : Array (UInt8 × α)) (t : Fin maxBuckets),
      slots'.toList.Perm p.slots.toList ∧ p.heads.get t < p.slots.size ∧
        q = ⟨slots', moveOn p.heads t, p.moves + 1⟩ := by
  unfold move? at h
  dsimp only at h
  split at h
  · next hposition =>
    split at h
    · obtain rfl := Option.some.inj h
      exact ⟨_, b, .refl _, hposition, rfl⟩
    · split at h
      · next hdestination =>
        obtain rfl := Option.some.inj h
        exact ⟨_, _, Array.perm_iff_toList_perm.1 (Array.swap_perm hposition hdestination),
          hdestination, rfl⟩
      · cases h
  · cases h

namespace Within

/-- A move stays within the bound, since it uses up room. -/
lemma move (h : p.Within bound slots) (hmove : p.move? b = some q) : q.Within bound slots := by
  have hroom := room_lt_of_move? hmove
  have hbound := h.moves_add_room_le
  obtain ⟨slots', t, hperm, -, rfl⟩ := exists_moveOn_of_move? hmove
  refine ⟨hperm.trans h.perm, ?_⟩
  simp only
  omega

/-- Filling a bucket ends within the bound.

**Proof sketch.** Induction along the moves. An attempt that is stopped is one more than the moves
made before it; but the bucket was not full, so its head was before the end of the window, and there
was room for one more move. -/
theorem fill (h : p.Within bound slots) (b : Fin maxBuckets) (hstop : stop ≤ slots.length) :
    EndsWithin bound slots (p.fill b stop) := by
  fun_induction Placement.fill b stop p with
  | case1 p hlt q hmove ih => exact ih (h.move hmove)
  | case2 p hlt hmove =>
    have hsize : p.slots.size = slots.length := by rw [← Array.length_toList, h.perm.length_eq]
    have hhead : p.heads.get b < p.slots.size := by
      rw [hsize]
      exact Nat.lt_of_lt_of_le hlt hstop
    have hroom := room_pos hhead
    have hbound := h.moves_add_room_le
    exact ⟨h.perm, show p.moves + 1 ≤ bound by omega⟩
  | case3 p hfull => exact h

/-- Filling several buckets one after the other ends within the bound. -/
lemma fills (h : p.Within bound slots) (windows : List (Fin maxBuckets × Nat))
    (hstops : ∀ w ∈ windows, w.2 ≤ slots.length) :
    EndsWithin bound slots (windows.foldlM (fun p w => p.fill w.1 w.2) p) := by
  induction windows generalizing p with
  | nil => exact h
  | cons w windows ih =>
    have hfirst := h.fill w.1 (hstops w (by simp))
    rw [List.foldlM_cons]
    cases hfill : p.fill w.1 w.2 with
    | error q =>
      rw [hfill] at hfirst
      exact hfirst
    | ok q =>
      rw [hfill] at hfirst
      exact ih hfirst fun w hw => hstops w (by simp [hw])

end Within

end Placement

/-- Placement ends within as many moves as there are positions for all heads together, whatever the
labels are. -/
theorem endsWithin_placeByLabels (hlabels : labels.length = v.length)
    (hsum : counts.sum = v.length) :
    Placement.EndsWithin (maxBuckets * v.length) (labels.zip v)
      (placeByLabels counts labels v) := by
  have hzip : (labels.zip v).length = v.length := by rw [List.length_zip, hlabels, Nat.min_self]
  have hroom := (Placement.start counts labels v).room_le
  have hsize : (Placement.start counts labels v).slots.size = v.length := hzip
  have hstart :
      (Placement.start counts labels v).Within (maxBuckets * v.length) (labels.zip v) := by
    refine ⟨.refl _, ?_⟩
    rw [hsize] at hroom
    exact (Nat.zero_add _).le.trans hroom
  refine hstart.fills _ fun w hw => ?_
  rw [(mem_windows.1 hw).2, hzip, ← hsum]
  exact bucketStart_le_sum counts _

/-- **Placement ends, whatever the labels are.** If the bucket sizes add up to the length of the
window, at most 256 moves for each element are attempted. Either one of them would lead out of the
window, and placement is stopped there; or there is a result, in which elements are permuted
together with their labels and the bounds of the buckets are the running sums of their sizes. In
place it is the same, whatever bounds stand there from before, and an access out of bounds is all
that can stop it.

**Proof sketch.** A move that is made lowers the room that is left to all heads together, which is
at most 256 times the length at the beginning (`endsWithin_placeByLabels`), whether the sizes count
the labels or not. -/
theorem Strategy.placement_anyLabels (less : α → α → Bool) (splitters : List α)
    (hsize : counts.length ≤ maxBuckets) (hsum : counts.sum = v.length)
    (hlabels : labels.length = v.length) :
    (∃ p : Placement α, placeByLabels counts labels v = .error p ∧ p.moves ≤ 256 * v.length ∧
      p.slots.toList.Perm (labels.zip v) ∧
      (placement.partition less splitters counts labels v).value = .error .outOfBounds ∧
      (v.length < wordBound → ∀ starts,
        Checked.partition less placement splitters counts labels v starts =
          .error .outOfBounds)) ∨
    ∃ (p : Placement α) (result : Partitioned α),
      placeByLabels counts labels v = .ok p ∧ p.moves ≤ 256 * v.length ∧
      (placement.partition less splitters counts labels v).value = .ok result ∧
      result.labels.length = result.window.length ∧
      (result.labels.zip result.window).Perm (labels.zip v) ∧
      result.starts = counts.scanl (· + ·) 0 ∧
      (v.length < wordBound → ∀ starts,
        Checked.partition less placement splitters counts labels v starts = .ok result) := by
  have hends := endsWithin_placeByLabels hlabels hsum
  have hchecked := Checked.placeByLabels_eq_mapError hsize hlabels hsum
  cases hplace : placeByLabels counts labels v with
  | error p =>
    rw [hplace] at hends hchecked
    refine Or.inl ⟨p, rfl, hends.2, hends.1, ?_, hchecked⟩
    rw [partition, Counted.value_pure, if_neg (Nat.not_lt.2 hsize), if_neg (by simpa using hlabels),
      hplace]
  | ok p =>
    rw [hplace] at hends hchecked
    have hbound := hends.moves_add_room_le
    refine Or.inr ⟨p, _, rfl, Nat.le_trans (Nat.le_add_right _ _) hbound,
      partition_placement_eq less splitters hsize hlabels hplace, ?_, ?_, ?_, hchecked⟩
    · simp
    · rw [← List.zip_of_prod rfl rfl]
      exact hends.perm
    · show offsets counts = _
      rw [offsets, offsetsFrom_eq_scanl]

/-- Labels that the bucket sizes do not count: three sevens, of which there should be none, lead out
of the window; a one and a zero where two ones should be change places, though in three moves. -/
theorem Strategy.placement_anyLabels_of_stray :
    (∃ p : Placement Nat, placeByLabels [1, 1, 1] [7, 7, 7] [10, 11, 12] = .error p ∧
      p.moves ≤ 256 * 3 ∧
      Checked.partition (fun a b => decide (a < b)) placement [] [1, 1, 1] [7, 7, 7] [10, 11, 12]
        [4, 4] = .error .outOfBounds) ∧
    ∃ p : Placement Nat, placeByLabels [0, 2] [1, 0] [10, 11] = .ok p ∧ p.moves ≤ 256 * 2 ∧
      Checked.partition (fun a b => decide (a < b)) placement [] [0, 2] [1, 0] [10, 11] [] =
        .ok ⟨[11, 10], [0, 1], [0, 0, 2]⟩ := by
  have hout : (placement.partition (fun a b : Nat => decide (a < b)) [] [1, 1, 1] [7, 7, 7]
      [10, 11, 12]).value = .error .outOfBounds := by decide +kernel
  have hin : (placement.partition (fun a b : Nat => decide (a < b)) [] [0, 2] [1, 0]
      [10, 11]).value = .ok ⟨[11, 10], [0, 1], [0, 0, 2]⟩ := by decide +kernel
  constructor
  · obtain ⟨p, hp, hmoves, -, -, hchecked⟩ | ⟨p, result, -, -, hvalue, -⟩ :=
      Strategy.placement_anyLabels (fun a b : Nat => decide (a < b)) []
        (show [1, 1, 1].length ≤ maxBuckets by decide)
        (show [1, 1, 1].sum = [10, 11, 12].length from rfl)
        (show ([7, 7, 7] : List UInt8).length = [10, 11, 12].length from rfl)
    · exact ⟨p, hp, hmoves, hchecked (by decide) _⟩
    · rw [hout] at hvalue
      cases hvalue
  · obtain ⟨p, -, -, -, hvalue, -⟩ | ⟨p, result, hp, hmoves, hvalue, -, -, -, hchecked⟩ :=
      Strategy.placement_anyLabels (fun a b : Nat => decide (a < b)) []
        (show [0, 2].length ≤ maxBuckets by decide)
        (show [0, 2].sum = [10, 11].length from rfl)
        (show ([1, 0] : List UInt8).length = [10, 11].length from rfl)
    · rw [hin] at hvalue
      cases hvalue
    · obtain rfl := Except.ok.inj (hin.symm.trans hvalue)
      exact ⟨p, hp, hmoves, hchecked (by decide) _⟩

end SampleSort
