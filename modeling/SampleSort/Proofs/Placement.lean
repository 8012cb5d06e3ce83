import Mathlib.Algebra.BigOperators.Group.Finset.Piecewise
import Mathlib.Algebra.Order.Group.Nat
import SampleSort.Partition.Placement
import SampleSort.Proofs.Buckets

set_option relaxedAutoImplicit false
set_option autoImplicit false

/-!
# Placement by labels brings the buckets together

The moves of a placement keep an invariant: between the start of a bucket and its head stand
elements with the bucket's label, and the head is not behind the end of the bucket. An element that
stands elsewhere always finds room in its own bucket, since not all elements with its label can have
been settled. So no move leads out of the window, and in the end every bucket is filled. Each move
settles one position, so there are as many moves as elements.

## Main definitions

* `SampleSort.Consistent` — the bucket sizes count the labels.
* `SampleSort.Placement.Steady` — the invariant of the moves.
* `SampleSort.moveOn` — the heads after one of them has moved on.
* `SampleSort.Placement.remaining` — the number of positions that are not settled yet.
* `SampleSort.Placement.Onward` — what moves do to the heads.

## Main results

* `SampleSort.Placement.Steady.exists_move` — a bucket that is not full has a next move.
* `SampleSort.Placement.Steady.exists_fill` — a bucket can be filled.
* `SampleSort.exists_placeByLabels` — all of them can, and how many moves that takes.
-/

namespace SampleSort

variable {α : Type} {counts : List Nat} {slots : List (UInt8 × α)} {p q : Placement α}

/-- The bucket sizes `counts` count the labels of the elements, each of which is the number of a
bucket. -/
structure Consistent (counts : List Nat) (slots : List (UInt8 × α)) : Prop where
  /-- There are no more buckets than the tables hold. -/
  length_le : counts.length ≤ maxBuckets
  /-- Every label is the number of a bucket. -/
  label_lt : ∀ slot ∈ slots, slot.1.toNat < counts.length
  /-- A bucket has as many elements as there are with its label. -/
  eq_tally : counts = tally counts.length (slots.map fun slot => slot.1.toNat)

/-- What the moves keep: the elements are permuted, every head stands in the window of its bucket or
at its end, and the elements before it in that window have the bucket's label. -/
structure Placement.Steady (counts : List Nat) (slots : List (UInt8 × α)) (p : Placement α) :
    Prop where
  /-- Nothing is lost. -/
  perm : p.slots.toList.Perm slots
  /-- A head is not left of its bucket. -/
  head_ge : ∀ b : Fin maxBuckets, b.val < counts.length → bucketStart counts b ≤ p.heads.get b
  /-- A head is not right of its bucket. -/
  head_le : ∀ b : Fin maxBuckets, b.val < counts.length →
    p.heads.get b ≤ bucketStart counts (b + 1)
  /-- What has been settled in a bucket belongs there. -/
  settled : ∀ b : Fin maxBuckets, b.val < counts.length → ∀ i slot,
    bucketStart counts b ≤ i → i < p.heads.get b → p.slots[i]? = some slot → slot.1.toNat = b

/-- The heads after that of bucket `t` has moved on by one position. -/
def moveOn (heads : Vector Nat maxBuckets) (t : Fin maxBuckets) : Vector Nat maxBuckets :=
  heads.set t (heads.get t + 1) t.isLt

/-- The number of positions that are not settled yet: those from the head of each bucket to its
end. -/
def Placement.remaining (counts : List Nat) (p : Placement α) : Nat :=
  ∑ b ∈ Finset.range counts.length, (bucketStart counts (b + 1) - p.heads[b]?.getD 0)

/-- Moves lead from the placement `p` to the placement `q`: no head has gone back, and each move has
settled one position. -/
structure Placement.Onward (counts : List Nat) (p q : Placement α) : Prop where
  /-- No head goes back. -/
  head_le : ∀ c : Fin maxBuckets, p.heads.get c ≤ q.heads.get c
  /-- What has been moved and what remains are the same number together. -/
  moves_add : q.moves + q.remaining counts = p.moves + p.remaining counts

/-! ### Labels and positions -/

namespace Consistent

/-- The buckets have room for exactly the elements there are. -/
lemma sum (hc : Consistent counts slots) : counts.sum = slots.length := by
  rw [hc.eq_tally, sum_tally, List.length_map]
  intro n hn
  obtain ⟨slot, hslot, rfl⟩ := List.mem_map.1 hn
  exact hc.label_lt slot hslot

/-- The elements with the label of a bucket just fill it. -/
lemma bucketStart_succ (hc : Consistent counts slots) {b : Nat} (hb : b < counts.length) :
    bucketStart counts (b + 1) =
      bucketStart counts b + (slots.map fun slot => slot.1.toNat).count b := by
  apply SampleSort.bucketStart_succ
  conv => lhs; rw [hc.eq_tally]
  exact getElem?_tally hb _

end Consistent

/-- A position lies in the window of one bucket only. -/
lemma bucket_unique {a b i : Nat} (ha : bucketStart counts a ≤ i)
    (ha' : i < bucketStart counts (a + 1)) (hb : bucketStart counts b ≤ i)
    (hb' : i < bucketStart counts (b + 1)) : a = b := by
  rcases Nat.lt_trichotomy a b with h | h | h
  · have := bucketStart_mono counts (show a + 1 ≤ b from h)
    omega
  · exact h
  · have := bucketStart_mono counts (show b + 1 ≤ a from h)
    omega

/-- If a window is full of a number and there is no more of it than the window holds, then it
occurs in the window only. -/
lemma mem_window_of_count (numbers : List Nat) {a b n i : Nat} (hab : a ≤ b)
    (hfull : ∀ k, a ≤ k → k < b → numbers[k]? = some n)
    (hcount : numbers.count n = b - a) (hi : numbers[i]? = some n) : a ≤ i ∧ i < b := by
  have hwindow : window numbers a b = List.replicate (b - a) n := by
    apply List.ext_getElem?
    intro k
    rw [getElem?_window, List.getElem?_replicate]
    by_cases hk : a + k < b
    · rw [if_pos hk, if_pos (by omega), hfull (a + k) (by omega) hk]
    · rw [if_neg hk, if_neg (by omega)]
  have hsplit := congrArg (List.count n) (take_append_window_append_drop numbers hab)
  rw [List.count_append, List.count_append, hwindow, List.count_replicate_self, hcount] at hsplit
  have hbefore : n ∉ numbers.take a := List.count_eq_zero.1 (by omega)
  have hafter : n ∉ numbers.drop b := List.count_eq_zero.1 (by omega)
  constructor
  · by_contra hlt
    refine hbefore (List.mem_of_getElem? (i := i) ?_)
    rw [List.getElem?_take, if_pos (by omega), hi]
  · by_contra hge
    refine hafter (List.mem_of_getElem? (i := i - b) ?_)
    rw [List.getElem?_drop, Nat.add_sub_cancel' (by omega), hi]

/-! ### Moving a head on -/

/-- A head that moves on leaves the others where they are. -/
lemma get_moveOn (heads : Vector Nat maxBuckets) (t c : Fin maxBuckets) :
    (moveOn heads t).get c = if t = c then heads.get c + 1 else heads.get c := by
  show (heads.set t (heads.get t + 1) t.isLt)[c.val] = _
  rw [Vector.getElem_set]
  by_cases h : t = c
  · rw [if_pos (congrArg Fin.val h), if_pos h, h]
  · rw [if_neg fun heq => h (Fin.ext heq), if_neg h]
    rfl

/-- A head that moves on does not go back. -/
lemma le_get_moveOn (heads : Vector Nat maxBuckets) (t c : Fin maxBuckets) :
    heads.get c ≤ (moveOn heads t).get c := by
  rw [get_moveOn]
  split
  · exact Nat.le_succ _
  · exact Nat.le_refl _

/-! ### What remains to be settled -/

/-- Heads are looked up by the numbers of their buckets. -/
lemma getD_heads (heads : Vector Nat maxBuckets) (c : Fin maxBuckets) :
    heads[c.val]?.getD 0 = heads.get c := by
  rw [Vector.getElem?_eq_getElem c.isLt, Option.getD_some]
  rfl

namespace Placement

/-- A head that moves on settles one position. -/
lemma remaining_moveOn {t : Fin maxBuckets} (hmax : counts.length ≤ maxBuckets)
    (ht : t.val < counts.length) (hroom : p.heads.get t < bucketStart counts (t + 1))
    (slots' : Array (UInt8 × α)) (moves : Nat) :
    remaining counts ⟨slots', moveOn p.heads t, moves⟩ + 1 = p.remaining counts := by
  have hterm : ∀ b ∈ Finset.range counts.length,
      bucketStart counts (b + 1) - p.heads[b]?.getD 0 =
        bucketStart counts (b + 1) - (moveOn p.heads t)[b]?.getD 0 +
          if t.val = b then 1 else 0 := by
    intro b hb
    have hbmax : b < maxBuckets := Nat.lt_of_lt_of_le (Finset.mem_range.1 hb) hmax
    have hp := getD_heads p.heads ⟨b, hbmax⟩
    have hq := getD_heads (moveOn p.heads t) ⟨b, hbmax⟩
    rw [get_moveOn] at hq
    simp only at hp hq
    rw [hp, hq]
    by_cases htb : t.val = b
    · obtain rfl : t = ⟨b, hbmax⟩ := Fin.ext htb
      simp only at hroom
      rw [if_pos rfl, if_pos rfl]
      omega
    · rw [if_neg fun heq => htb (congrArg Fin.val heq), if_neg htb]
      rfl
  have hone : (∑ b ∈ Finset.range counts.length, if t.val = b then 1 else 0) = 1 := by
    rw [Finset.sum_ite_eq, if_pos (Finset.mem_range.2 ht)]
  rw [remaining, remaining, Finset.sum_congr rfl hterm, Finset.sum_add_distrib, hone]

/-- What remains when it is known where the heads stand. -/
lemma remaining_of_heads (hmax : counts.length ≤ maxBuckets) (position : Nat → Nat)
    (hheads : ∀ b : Fin maxBuckets, b.val < counts.length → p.heads.get b = position b) :
    p.remaining counts =
      ∑ b ∈ Finset.range counts.length, (bucketStart counts (b + 1) - position b) := by
  refine Finset.sum_congr rfl fun b hb => ?_
  have hb := Finset.mem_range.1 hb
  have hbmax : b < maxBuckets := Nat.lt_of_lt_of_le hb hmax
  rw [getD_heads p.heads ⟨b, hbmax⟩, hheads ⟨b, hbmax⟩ hb]

/-- When all heads are at the ends of their buckets, nothing remains. -/
lemma remaining_eq_zero (hmax : counts.length ≤ maxBuckets)
    (hfull : ∀ b : Fin maxBuckets, b.val < counts.length →
      p.heads.get b = bucketStart counts (b + 1)) : p.remaining counts = 0 := by
  rw [remaining_of_heads hmax (fun b => bucketStart counts (b + 1)) hfull]
  exact Finset.sum_eq_zero fun b _ => Nat.sub_self _

/-- When all heads are at the starts of their buckets, all positions remain. -/
lemma remaining_eq_sum (hmax : counts.length ≤ maxBuckets)
    (hstart : ∀ b : Fin maxBuckets, b.val < counts.length →
      p.heads.get b = bucketStart counts b) : p.remaining counts = counts.sum := by
  have hmono : Monotone (bucketStart counts) := fun _ _ h => bucketStart_mono counts h
  rw [remaining_of_heads hmax (bucketStart counts) hstart, Finset.sum_range_tsub hmono,
    bucketStart_length, bucketStart_zero, Nat.sub_zero]

namespace Onward

/-- Nothing is moved. -/
lemma refl (counts : List Nat) (p : Placement α) : p.Onward counts p :=
  ⟨fun _ => Nat.le_refl _, rfl⟩

/-- First some moves, then others. -/
lemma trans {r : Placement α} (h₁ : p.Onward counts q) (h₂ : q.Onward counts r) :
    p.Onward counts r :=
  ⟨fun c => Nat.le_trans (h₁.head_le c) (h₂.head_le c), h₂.moves_add.trans h₁.moves_add⟩

/-- One move. -/
lemma moveOn {t : Fin maxBuckets} (hmax : counts.length ≤ maxBuckets)
    (ht : t.val < counts.length) (hroom : p.heads.get t < bucketStart counts (t + 1))
    (slots' : Array (UInt8 × α)) :
    p.Onward counts ⟨slots', SampleSort.moveOn p.heads t, p.moves + 1⟩ := by
  refine ⟨le_get_moveOn p.heads t, ?_⟩
  rw [← remaining_moveOn hmax ht hroom slots' (p.moves + 1)]
  exact Nat.add_right_comm p.moves 1 _

end Onward

end Placement

/-! ### The two kinds of moves -/

/-- An element that stands in the bucket of its label is settled there. -/
lemma Placement.move?_of_eq {b : Fin maxBuckets} (hb : p.heads.get b < p.slots.size)
    (htarget : bucketOfLabel p.slots[p.heads.get b].1 = b) :
    p.move? b = some ⟨p.slots, moveOn p.heads b, p.moves + 1⟩ := by
  have hb' : p.heads[b] < p.slots.size := hb
  have htarget' : bucketOfLabel p.slots[p.heads[b]].1 = b := htarget
  simp only [move?, dif_pos hb', if_pos htarget']
  rfl

/-- An element that stands elsewhere changes places with the one at the head of its bucket. -/
lemma Placement.move?_of_ne {b t : Fin maxBuckets} (hb : p.heads.get b < p.slots.size)
    (ht : p.heads.get t < p.slots.size) (htarget : bucketOfLabel p.slots[p.heads.get b].1 = t)
    (hne : t ≠ b) :
    p.move? b =
      some ⟨p.slots.swap (p.heads.get b) (p.heads.get t), moveOn p.heads t, p.moves + 1⟩ := by
  have hb' : p.heads[b] < p.slots.size := hb
  have ht' : p.heads[t] < p.slots.size := ht
  have htarget' : bucketOfLabel p.slots[p.heads[b]].1 = t := htarget
  simp only [move?, dif_pos hb', htarget', if_neg hne, dif_pos ht']
  rfl

namespace Placement.Steady

/-! ### One move -/

/-- The number of positions is that of the elements to be placed. -/
lemma size_eq (h : p.Steady counts slots) : p.slots.size = slots.length := by
  rw [← Array.length_toList, h.perm.length_eq]

/-- An element that stands in another bucket finds room in its own.

**Proof sketch.** Were the bucket of its label full, then all elements with that label would stand
there, this one included. -/
lemma head_lt_of_label (hc : Consistent counts slots) (h : p.Steady counts slots)
    {b : Fin maxBuckets} (hb : b.val < counts.length) {i : Nat} {slot : UInt8 × α}
    (hslot : p.slots[i]? = some slot) (hlabel : slot.1.toNat = b)
    (hout : ¬(bucketStart counts b ≤ i ∧ i < bucketStart counts (b + 1))) :
    p.heads.get b < bucketStart counts (b + 1) := by
  by_contra hfull
  have hend : p.heads.get b = bucketStart counts (b + 1) :=
    Nat.le_antisymm (h.head_le b hb) (Nat.le_of_not_lt hfull)
  have hsum : bucketStart counts (b + 1) ≤ slots.length := by
    rw [← hc.sum]
    exact bucketStart_le_sum counts _
  have hsucc := hc.bucketStart_succ hb
  have hnumbers : ((p.slots.toList.map fun slot => slot.1.toNat)).count b.val =
      (slots.map fun slot => slot.1.toNat).count b.val := (h.perm.map _).count_eq _
  refine hout (mem_window_of_count (p.slots.toList.map fun slot => slot.1.toNat)
    (n := b) (by omega) ?_ (by omega) ?_)
  · intro k hk hk'
    have hkn : k < p.slots.size := by
      rw [h.size_eq]
      omega
    have hk := h.settled b hb k _ hk (by omega) (Array.getElem?_eq_getElem hkn)
    rw [List.getElem?_map, Array.getElem?_toList, Array.getElem?_eq_getElem hkn, Option.map_some,
      hk]
  · rw [List.getElem?_map, Array.getElem?_toList, hslot, Option.map_some, hlabel]

/-- A settled position is not that of the head of a bucket with room. -/
lemma ne_head (h : p.Steady counts slots) {c t : Fin maxBuckets} {i : Nat}
    (hc : c.val < counts.length) (hi : bucketStart counts c ≤ i) (hi' : i < p.heads.get c)
    (ht : t.val < counts.length) (hroom : p.heads.get t < bucketStart counts (t + 1)) :
    i ≠ p.heads.get t := by
  intro heq
  have hend := h.head_le c hc
  have hstart := h.head_ge t ht
  obtain rfl : c = t := Fin.ext (bucket_unique (i := i) hi (by omega) (by omega) (by omega))
  omega

/-- The invariant is kept when the elements are permuted so that one with the right label comes to
a head and nothing settled is moved, and that head moves on.

**Proof sketch.** Only the bucket `t` has a new position to account for, the one where its head was.
That holds an element with the right label, and all positions settled before are as they were. -/
lemma advance (h : p.Steady counts slots) {slots' : Array (UInt8 × α)} {t : Fin maxBuckets}
    (slot : UInt8 × α) (moves : Nat) (hperm : slots'.toList.Perm p.slots.toList)
    (hroom : p.heads.get t < bucketStart counts (t + 1))
    (hslot : slots'[p.heads.get t]? = some slot) (hlabel : slot.1.toNat = t)
    (hkept : ∀ c : Fin maxBuckets, c.val < counts.length → ∀ i, bucketStart counts c ≤ i →
      i < p.heads.get c → slots'[i]? = p.slots[i]?) :
    Steady counts slots ⟨slots', moveOn p.heads t, moves⟩ := by
  have hself : (moveOn p.heads t).get t = p.heads.get t + 1 := by
    rw [get_moveOn, if_pos rfl]
  have hother : ∀ c : Fin maxBuckets, t ≠ c → (moveOn p.heads t).get c = p.heads.get c := by
    intro c hne
    rw [get_moveOn, if_neg hne]
  refine ⟨hperm.trans h.perm, ?_, ?_, ?_⟩
  · intro c hc
    by_cases hne : t = c
    · subst hne
      rw [hself]
      exact Nat.le_succ_of_le (h.head_ge t hc)
    · rw [hother c hne]
      exact h.head_ge c hc
  · intro c hc
    by_cases hne : t = c
    · subst hne
      rw [hself]
      exact hroom
    · rw [hother c hne]
      exact h.head_le c hc
  · intro c hc i s hi hi' hs
    replace hs : slots'[i]? = some s := hs
    by_cases hne : t = c
    · subst hne
      rw [hself] at hi'
      by_cases hlast : i = p.heads.get t
      · rw [hlast, hslot] at hs
        obtain rfl := Option.some.inj hs
        exact hlabel
      · have hlt : i < p.heads.get t := by omega
        exact h.settled t hc i s hi hlt (by rw [← hkept t hc i hi hlt]; exact hs)
    · rw [hother c hne] at hi'
      exact h.settled c hc i s hi hi' (by rw [← hkept c hc i hi hi']; exact hs)

/-- A bucket that is not full has a next move. It keeps the invariant and settles one position.

**Proof sketch.** The element at the head of `b` has a label that counts, so the bucket `t` that it
belongs to has room: else all positions with that label would be settled, and this one is not. If
`t` is `b`, the head moves on. Else the element goes to the head of `t`, and the one from there
comes back; neither of the two positions is settled, so `Steady.advance` applies. -/
theorem exists_move (hc : Consistent counts slots) (h : p.Steady counts slots)
    {b : Fin maxBuckets} (hb : b.val < counts.length)
    (hlt : p.heads.get b < bucketStart counts (b + 1)) :
    ∃ q, p.move? b = some q ∧ q.Steady counts slots ∧ p.Onward counts q := by
  have hinside : ∀ c : Fin maxBuckets, p.heads.get c < bucketStart counts (c + 1) →
      p.heads.get c < p.slots.size := by
    intro c hc'
    have := bucketStart_le_sum counts (c + 1)
    rw [hc.sum] at this
    rw [h.size_eq]
    omega
  have hposition := hinside b hlt
  have hget := Array.getElem?_eq_getElem hposition
  by_cases htarget : bucketOfLabel p.slots[p.heads.get b].1 = b
  · -- the element belongs where it stands
    refine ⟨_, move?_of_eq hposition htarget, ?_, .moveOn hc.length_le hb hlt _⟩
    exact h.advance _ _ (.refl _) hlt hget (congrArg Fin.val htarget) fun _ _ _ _ _ => rfl
  · -- it changes places with the one at the head of its bucket
    have hslot : p.slots[p.heads.get b] ∈ slots :=
      h.perm.mem_iff.1 (Array.mem_toList_iff.2 (Array.getElem_mem hposition))
    obtain ⟨t, htdef⟩ : ∃ t, bucketOfLabel p.slots[p.heads.get b].1 = t := ⟨_, rfl⟩
    rw [htdef] at htarget
    have hlabel : p.slots[p.heads.get b].1.toNat = t := congrArg Fin.val htdef
    have ht : t.val < counts.length := hlabel ▸ hc.label_lt _ hslot
    have hroom : p.heads.get t < bucketStart counts (t + 1) := by
      refine h.head_lt_of_label hc ht hget hlabel fun hin => htarget (Fin.ext ?_)
      exact bucket_unique hin.1 hin.2 (h.head_ge b hb) hlt
    have hdestination := hinside t hroom
    refine ⟨_, move?_of_ne hposition hdestination htdef htarget, ?_,
      .moveOn hc.length_le ht hroom _⟩
    refine h.advance p.slots[p.heads.get b] _
      (Array.perm_iff_toList_perm.1 (Array.swap_perm hposition hdestination)) hroom ?_ hlabel ?_
    · rw [Array.getElem?_swap, if_pos rfl]
    · intro c hc' i hi hi'
      -- neither of the two positions has been settled
      have hne := h.ne_head hc' hi hi' hb hlt
      have hne' := h.ne_head hc' hi hi' ht hroom
      rw [Array.getElem?_swap, if_neg hne'.symm, if_neg hne.symm]

/-! ### All moves -/

/-- A bucket can be filled. That keeps the invariant, and each move settles one position.

**Proof sketch.** Induction along the moves. As long as the head of the bucket is before its end
there is a next move, so the moves stop only when the bucket is full. -/
theorem exists_fill (hc : Consistent counts slots) (h : p.Steady counts slots)
    {b : Fin maxBuckets} (hb : b.val < counts.length) :
    ∃ q, p.fill b (bucketStart counts (b + 1)) = .ok q ∧ q.Steady counts slots ∧
      q.heads.get b = bucketStart counts (b + 1) ∧ p.Onward counts q := by
  generalize hstop : bucketStart counts (b + 1) = stop
  fun_induction fill b stop p with
  | case1 p hlt q hmove ih =>
    subst hstop
    obtain ⟨q', hmove', hq, honward⟩ := h.exists_move hc hb hlt
    obtain rfl : q' = q := Option.some.inj (hmove'.symm.trans hmove)
    obtain ⟨r, hfill, hr, hfull, honward'⟩ := ih hq
    exact ⟨r, hfill, hr, hfull, honward.trans honward'⟩
  | case2 p hlt hmove =>
    subst hstop
    obtain ⟨q', hmove', _⟩ := h.exists_move hc hb hlt
    rw [hmove] at hmove'
    cases hmove'
  | case3 p hfull =>
    subst hstop
    exact ⟨p, rfl, h, Nat.le_antisymm (h.head_le b hb) (Nat.le_of_not_lt hfull), .refl counts p⟩

/-- Several buckets can be filled one after the other. A bucket that is full stays so. -/
lemma exists_fills (hc : Consistent counts slots) (h : p.Steady counts slots)
    (windows : List (Fin maxBuckets × Nat))
    (hw : ∀ w ∈ windows, w.1.val < counts.length ∧ w.2 = bucketStart counts (w.1 + 1)) :
    ∃ q, windows.foldlM (fun p w => p.fill w.1 w.2) p = Except.ok (ε := Placement α) q ∧
      q.Steady counts slots ∧ p.Onward counts q ∧ ∀ w ∈ windows, q.heads.get w.1 = w.2 := by
  induction windows generalizing p with
  | nil => exact ⟨p, rfl, h, .refl counts p, by simp⟩
  | cons w windows ih =>
    obtain ⟨b, stop⟩ := w
    have hb : b.val < counts.length := (hw (b, stop) (by simp)).1
    obtain rfl : stop = bucketStart counts (b + 1) := (hw (b, stop) (by simp)).2
    obtain ⟨q, hfill, hq, hfull, honward⟩ := h.exists_fill hc hb
    obtain ⟨r, hfills, hr, honward', hfull'⟩ := ih hq fun w hmem => hw w (by simp [hmem])
    refine ⟨r, ?_, hr, honward.trans honward', ?_⟩
    · rw [List.foldlM_cons, hfill]
      exact hfills
    · intro w hmem
      rcases List.mem_cons.1 hmem with rfl | hmem
      · have hkeep := honward'.head_le b
        have hend := hr.head_le b hb
        simp only
        omega
      · exact hfull' w hmem

end Placement.Steady

/-- Before the first move every head stands at the start of its bucket. -/
lemma Placement.get_heads_start (counts : List Nat) (labels : List UInt8) (v : List α)
    {b : Fin maxBuckets} (hb : b.val < counts.length) :
    (Placement.start counts labels v).heads.get b = bucketStart counts b := by
  have hstart : (offsets counts).dropLast[b.val]? = some (bucketStart counts b) := by
    rw [List.getElem?_dropLast, if_pos (by simpa using hb), getElem?_offsets (Nat.le_of_lt hb)]
  show (Vector.ofFn fun b : Fin maxBuckets => (offsets counts).dropLast[b.val]?.getD 0)[b.val] = _
  rw [Vector.getElem_ofFn, hstart, Option.getD_some]

/-- The invariant holds before the first move. -/
lemma Placement.steady_start (counts : List Nat) (labels : List UInt8) (v : List α) :
    (Placement.start counts labels v).Steady counts (labels.zip v) := by
  refine ⟨.refl _, ?_, ?_, ?_⟩
  · intro b hb
    rw [get_heads_start counts labels v hb]
  · intro b hb
    rw [get_heads_start counts labels v hb]
    exact bucketStart_mono counts (Nat.le_succ _)
  · intro b hb i slot hi hi' _
    rw [get_heads_start counts labels v hb] at hi'
    omega

/-- The bounds of the windows to be filled are those of the buckets in use. -/
lemma mem_windows {w : Fin maxBuckets × Nat} :
    w ∈ (List.finRange maxBuckets).zip (offsets counts).tail ↔
      w.1.val < counts.length ∧ w.2 = bucketStart counts (w.1 + 1) := by
  rw [List.mem_iff_getElem?]
  constructor
  · rintro ⟨k, hk⟩
    obtain ⟨hb, hstop⟩ := List.getElem?_zip_eq_some.1 hk
    have hkb : w.1.val = k := by
      obtain ⟨hlt, heq⟩ := List.getElem?_eq_some_iff.1 hb
      rw [← heq, List.getElem_finRange]
      rfl
    rw [List.getElem?_tail] at hstop
    have hkn : k + 1 ≤ counts.length := by
      have hlength := (List.getElem?_eq_some_iff.1 hstop).1
      rw [length_offsets] at hlength
      omega
    rw [getElem?_offsets hkn] at hstop
    rw [hkb]
    exact ⟨hkn, (Option.some.inj hstop).symm⟩
  · rintro ⟨hb, hstop⟩
    refine ⟨w.1, List.getElem?_zip_eq_some.2 ⟨?_, ?_⟩⟩
    · rw [List.getElem?_eq_getElem (by simp), List.getElem_finRange]
      rfl
    · rw [List.getElem?_tail, getElem?_offsets hb, hstop]

/-- Elements with consistent labels can be placed: they are permuted, bucket number `b` gets the
elements with that label, and there are as many moves as elements. -/
theorem exists_placeByLabels {labels : List UInt8} {v : List α}
    (hc : Consistent counts (labels.zip v)) :
    ∃ p, placeByLabels counts labels v = .ok p ∧ p.slots.toList.Perm (labels.zip v) ∧
      (∀ b i slot, b < counts.length → bucketStart counts b ≤ i →
        i < bucketStart counts (b + 1) → p.slots[i]? = some slot → slot.1.toNat = b) ∧
      p.moves = (labels.zip v).length := by
  obtain ⟨p, hp, hsteady, honward, hfull⟩ :=
    (Placement.steady_start counts labels v).exists_fills hc _ fun _ hw => mem_windows.1 hw
  have hend : ∀ b : Fin maxBuckets, b.val < counts.length →
      p.heads.get b = bucketStart counts (b + 1) :=
    fun b hb => hfull ⟨b, _⟩ (mem_windows.2 ⟨hb, rfl⟩)
  refine ⟨p, hp, hsteady.perm, ?_, ?_⟩
  · intro b i slot hb hi hi' hslot
    have hbmax : b < maxBuckets := Nat.lt_of_lt_of_le hb hc.length_le
    refine hsteady.settled ⟨b, hbmax⟩ hb i slot hi ?_ hslot
    rw [hend ⟨b, hbmax⟩ hb]
    exact hi'
  · have hall : (Placement.start counts labels v).remaining counts = counts.sum :=
      Placement.remaining_eq_sum hc.length_le fun b hb =>
        Placement.get_heads_start counts labels v hb
    have hmoves := honward.moves_add
    rw [Placement.remaining_eq_zero hc.length_le hend, hall, hc.sum] at hmoves
    simpa [Placement.start] using hmoves

end SampleSort
