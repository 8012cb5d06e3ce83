import SampleSort.Proofs.Classes
import SampleSort.Proofs.Invariant
import SampleSort.Proofs.Transition
import SampleSort.Random.Cycle

set_option relaxedAutoImplicit false
set_option autoImplicit false

/-!
# A split makes progress

When the buckets of a window are settled, what is left pending is shorter than the window and lacks
at least one class of ties. A bucket that is not the whole window lacks the elements of all other
ranks. One that is the whole window can only come about if there is a single splitter and it is a
minimum; then the elements tied with it are done with, and the others lack its class. Elements of
different buckets are never tied, because their ranks differ.

## Main definitions

* `SampleSort.Progressive` — pending windows with elements of ascending ranks, each lacking a class.
* `SampleSort.Peeled` — what is done with before a bucket is sorted.
* `SampleSort.Transition.Divides` — pending windows that share no class and have fewer classes.
* `SampleSort.Machine.Takes` — a machine takes a sound turn of its first frame.
* `SampleSort.Machine.Split` — what a split puts on the stack.

## Main results

* `SampleSort.Bucketed.exists_peeled` — a bucket is peeled only if its splitter is a minimum.
* `SampleSort.Bucketed.exists_untied` — what is left of a bucket lacks a class.
* `SampleSort.Bucketed.progressive` — so does every pending window, and they share no class.
* `SampleSort.Machine.Reachable.split_progress` — a split of a reachable machine makes progress.
-/

namespace SampleSort

variable {α σ : Type} {less : α → α → Bool} {splitters u v w : List α} {buckets : List (List α)}
  {b : Nat} {bucket equal rest : List α} {ws : List (Nat × Nat)}

/-- Elements of different ranks are not tied. -/
lemma untied_of_rank_ne (hless : StrictWeak less)
    (hs : splitters.Pairwise fun s t => less t s = false) {x y : α}
    (h : rank less splitters x ≠ rank less splitters y) : tied less x y = false := by
  rcases Nat.lt_or_gt_of_ne h with hlt | hlt
  · exact untied_of_less (less_of_rank_lt hless hs hlt)
  · rw [tied_comm]
    exact untied_of_less (less_of_rank_lt hless hs hlt)

/-! ### One bucket -/

/-- What is done with of bucket number `b` of the window `v` before it is sorted, `equal`, and what
is left of it, `rest`. -/
structure Peeled (less : α → α → Bool) (splitters v : List α) (b : Nat)
    (bucket equal rest : List α) : Prop where
  /-- Nothing is lost. -/
  perm : (equal ++ rest).Perm bucket
  /-- Nothing is done with unless a bucket that is not the first one is the whole window. -/
  untouched : ¬(0 < b ∧ bucket.length = v.length) → equal = [] ∧ rest = bucket
  /-- In that case there is only one splitter, which is a minimum of the window, and the elements
  tied with it are done with; it is one of them. -/
  minimum : 0 < b ∧ bucket.length = v.length → ∃ s, splitters = [s] ∧ s ∈ v ∧
    (∀ x ∈ v, less x s = false) ∧ equal ≠ [] ∧ equal = v.filter fun x => tied less x s

namespace Bucketed

/-- A bucket that is not the first one is the whole window only if there is just one splitter.

**Proof sketch.** All splitters are in the window, so all of them have the rank `b`. If there were
two, the first would have a rank of at most one, since it is less than the second, and the second a
rank above its own number, which is one. -/
lemma exists_eq_singleton (hless : StrictWeak less)
    (hs : splitters.Pairwise fun s t => less s t = true) (hmem : ∀ s ∈ splitters, s ∈ v)
    (h : Bucketed less splitters v buckets) (hb : buckets[b]? = some bucket) (hpos : 0 < b)
    (hwhole : bucket.length = v.length) : ∃ s, splitters = [s] ∧ b = 1 := by
  have hs' := notGreater_of_ascending hless hs
  have hbn : b < splitters.length + 1 := by
    rw [← h.length]
    exact (List.getElem?_eq_some_iff.1 hb).1
  have hrank : ∀ s ∈ splitters, rank less splitters s = b := by
    intro s hsm
    apply h.ranked b bucket hb
    rw [h.eq_of_length hb hwhole]
    exact hmem s hsm
  cases splitters with
  | nil =>
    rw [List.length_nil] at hbn
    omega
  | cons s later =>
    cases later with
    | nil =>
      rw [List.length_singleton] at hbn
      exact ⟨s, rfl, by omega⟩
    | cons t later =>
      have hsecond : (s :: t :: later)[1]? = some t := rfl
      have hst : less s t = true := (List.pairwise_cons.1 hs).1 t (by simp)
      have hfirst : ¬1 < rank less (s :: t :: later) s := by
        rw [← notLess_iff_lt_rank hless hs' hsecond, hst]
        exact Bool.noConfusion
      have hlt := lt_rank_self hless hs' hsecond
      rw [hrank s (by simp)] at hfirst
      rw [hrank t (by simp)] at hlt
      exact absurd hlt hfirst

/-- A bucket can be peeled, and only what is tied with a minimum is ever peeled off.

**Proof sketch.** A later bucket that is the whole window has a single splitter before it, and this
is not greater than any element of the window. So what is not greater than the splitter is tied with
it. -/
theorem exists_peeled (hless : StrictWeak less)
    (hs : splitters.Pairwise fun s t => less s t = true) (hmem : ∀ s ∈ splitters, s ∈ v)
    (h : Bucketed less splitters v buckets) (hb : buckets[b]? = some bucket) :
    ∃ equal rest, peelBucket less splitters v.length b bucket = .ok (equal, rest) ∧
      Peeled less splitters v b bucket equal rest := by
  by_cases hwhole : 0 < b ∧ bucket.length = v.length
  · obtain ⟨s, rfl, rfl⟩ := h.exists_eq_singleton hless hs hmem hb hwhole.1 hwhole.2
    have hsv : s ∈ v := hmem s (by simp)
    have hbucket := h.eq_of_length hb hwhole.2
    have hmin : ∀ x ∈ v, less x s = false := by
      intro x hx
      rw [← hbucket] at hx
      exact h.notLess_splitter hless (notGreater_of_ascending hless hs) hb
        (show [s][0]? = some s from rfl) (by decide) hx
    have hequal : (peelEqual less s bucket).value.1 = v.filter fun x => tied less x s := by
      rw [peelEqual_fst, hbucket]
      apply List.filter_congr
      intro x hx
      simp [tied, hmin x hx]
    refine ⟨(peelEqual less s bucket).value.1, (peelEqual less s bucket).value.2, ?_,
      peelEqual_perm less s bucket, fun hnot => absurd hwhole hnot,
      fun _ => ⟨s, rfl, hsv, hmin, ?_, hequal⟩⟩
    · rw [peelBucket, if_pos hwhole]
      rfl
    · apply List.ne_nil_of_mem (a := s)
      rw [hequal, List.mem_filter]
      exact ⟨hsv, hless.tied_self s⟩
  · exact ⟨[], bucket, by rw [peelBucket, if_neg hwhole], .refl _, fun _ => ⟨rfl, rfl⟩,
      fun hyes => absurd hyes hwhole⟩

/-- What is left of a bucket lacks a class of the window: that of the splitter if the bucket was the
whole window, and else that of an element of another bucket.

**Proof sketch.** If the bucket was the whole window, all that is tied with the splitter has been
peeled off. Else some element of the window is in another bucket, since the bucket is shorter; it
has another rank, and elements of different ranks are not tied. -/
lemma exists_untied (hless : StrictWeak less)
    (hs : splitters.Pairwise fun s t => less s t = true) (hne : splitters ≠ [])
    (hmem : ∀ s ∈ splitters, s ∈ v) (h : Bucketed less splitters v buckets)
    (hb : buckets[b]? = some bucket) (hpeeled : Peeled less splitters v b bucket equal rest) :
    ∃ x ∈ v, ∀ y ∈ rest, tied less x y = false := by
  by_cases hwhole : 0 < b ∧ bucket.length = v.length
  · obtain ⟨s, -, hsv, -, -, rfl⟩ := hpeeled.minimum hwhole
    have hrest : rest.Perm (v.filter fun x => !tied less x s) := by
      rw [← List.perm_append_left_iff (v.filter fun x => tied less x s)]
      have hperm := hpeeled.perm
      rw [h.eq_of_length hb hwhole.2] at hperm
      exact hperm.trans (List.filter_append_perm _ v).symm
    refine ⟨s, hsv, ?_⟩
    intro y hy
    have huntied := (List.mem_filter.1 (hrest.mem_iff.1 hy)).2
    rwa [Bool.not_eq_true', tied_comm] at huntied
  · obtain ⟨-, rfl⟩ := hpeeled.untouched hwhole
    have hs' := notGreater_of_ascending hless hs
    have hlt : rest.length < v.length := by
      rcases Nat.eq_zero_or_pos b with rfl | hpos
      · exact h.length_lt_of_first hless hs' hne hmem hb
      · exact Nat.lt_of_le_of_ne (h.length_le hb) fun hlength => hwhole ⟨hpos, hlength⟩
    rw [← h.filter_rank hb, List.length_filter_lt_length_iff_exists] at hlt
    obtain ⟨x, hx, hrank⟩ := hlt
    refine ⟨x, hx, ?_⟩
    intro y hy
    apply untied_of_rank_ne hless hs'
    rw [h.ranked b rest hb y hy]
    simpa using hrank

/-- The work on a bucket keeps its length. If it leaves a window pending, this is where the rest of
the bucket stands, whatever stands before the bucket and after it; and the rest lacks a class.

**Proof sketch.** If what is left of the bucket is long it is pending, and stands behind what has
been peeled off, at the end of the bucket. By `exists_untied` it lacks a class. If it is short
nothing is pending. -/
lemma settleBucket_cases (hless : StrictWeak less)
    (hs : splitters.Pairwise fun s t => less s t = true) (hne : splitters ≠ [])
    (hmem : ∀ s ∈ splitters, s ∈ v) (h : Bucketed less splitters v buckets)
    (hb : buckets[b]? = some bucket) {threshold start stop : Nat} {settled : Settled α}
    (hslice : slice? v start stop = .ok bucket)
    (hsettled : settleBucket less threshold splitters v b start stop = .ok settled) :
    settled.elements.length = bucket.length ∧
      (settled.pending = none ∨ ∃ p rest, settled.pending = some p ∧ rest ⊆ bucket ∧
        (∀ u x : List α, u.length = start → window (u ++ settled.elements ++ x) p.1 p.2 = rest) ∧
        ∃ x ∈ v, ∀ y ∈ rest, tied less x y = false) := by
  obtain ⟨equal, rest, hpeel, hpeeled⟩ := h.exists_peeled hless hs hmem hb
  have hlength := hpeeled.perm.length_eq
  rw [List.length_append] at hlength
  rw [settleBucket_eq threshold hslice hpeel] at hsettled
  by_cases hlong : threshold < rest.length
  · rw [if_pos hlong] at hsettled
    obtain rfl := Except.ok.inj hsettled
    refine ⟨hpeeled.perm.length_eq, Or.inr ⟨_, rest, rfl, ?_, ?_, ?_⟩⟩
    · exact fun x hx => hpeeled.perm.subset (by simp [hx])
    · intro u x hu
      have hmiddle := window_middle (u ++ equal) rest x
      have hstop : stop = start + equal.length + rest.length := by
        have := length_of_slice?_eq_ok hslice
        have := (slice?_eq_ok_iff.1 hslice).1.1
        omega
      rwa [List.append_assoc u, List.length_append, hu, ← hstop] at hmiddle
    · exact h.exists_untied hless hs hne hmem hb hpeeled
  · rw [if_neg hlong] at hsettled
    obtain rfl := Except.ok.inj hsettled
    refine ⟨?_, Or.inl rfl⟩
    rw [List.length_append, (sortSmall_perm less rest).length_eq, hlength]

end Bucketed

/-! ### All buckets -/

/-- Pending windows of `w`, left by the work on the buckets of `v` from number `b` on: their ranks
ascend from `b` on, and each of them has elements of `v` only, but lacks a class of it. -/
structure Progressive (less : α → α → Bool) (splitters v : List α) (b : Nat) (w : List α)
    (ws : List (Nat × Nat)) : Prop where
  /-- The first bucket is number `b`. -/
  ranks : ∀ p ∈ ws, ∀ x ∈ window w p.1 p.2, b ≤ rank less splitters x
  /-- Different windows belong to different buckets. -/
  ascending : ws.Pairwise fun p q => ∀ x ∈ window w p.1 p.2, ∀ y ∈ window w q.1 q.2,
    rank less splitters x < rank less splitters y
  /-- Nothing is added. -/
  subset : ∀ p ∈ ws, window w p.1 p.2 ⊆ v
  /-- A class is missing. -/
  untied : ∀ p ∈ ws, ∃ x ∈ v, ∀ y ∈ window w p.1 p.2, tied less x y = false

namespace Progressive

/-- A bucket that leaves nothing pending. -/
lemma skip (h : Progressive less splitters v (b + 1) w ws) :
    Progressive less splitters v b w ws where
  ranks p hp x hx := Nat.le_of_succ_le (h.ranks p hp x hx)
  ascending := h.ascending
  subset := h.subset
  untied := h.untied

/-- A bucket that leaves a window pending, in front of later ones. -/
lemma cons {p : Nat × Nat} (h : Progressive less splitters v (b + 1) w ws)
    (hrank : ∀ x ∈ window w p.1 p.2, rank less splitters x = b) (hsubset : window w p.1 p.2 ⊆ v)
    (huntied : ∃ x ∈ v, ∀ y ∈ window w p.1 p.2, tied less x y = false) :
    Progressive less splitters v b w (p :: ws) where
  ranks := List.forall_mem_cons.2 ⟨fun x hx => Nat.le_of_eq (hrank x hx).symm, h.skip.ranks⟩
  ascending := by
    refine List.pairwise_cons.2 ⟨?_, h.ascending⟩
    intro q hq x hx y hy
    rw [hrank x hx]
    exact h.ranks q hq y hy
  subset := List.forall_mem_cons.2 ⟨hsubset, h.subset⟩
  untied := List.forall_mem_cons.2 ⟨huntied, h.untied⟩

end Progressive

/-- The work on the buckets of a window from some bucket on, whose outcome stands behind what has
become of the earlier buckets, `u`, leaves windows that lack classes.

**Proof sketch.** Induction along the buckets. What is left pending of a bucket is a part of it, so
its elements are of the bucket's rank. -/
lemma Bucketed.progressive_from (hless : StrictWeak less)
    (hs : splitters.Pairwise fun s t => less s t = true) (hne : splitters ≠ [])
    (hmem : ∀ s ∈ splitters, s ∈ v) {threshold : Nat} (done remaining : List (List α))
    (h : Bucketed less splitters v (done ++ remaining)) {bounds : List (Nat × Nat)}
    (hbounds : bounds = (offsetsFrom done.flatten.length (remaining.map List.length)).zip
      (offsetsFrom done.flatten.length (remaining.map List.length)).tail)
    {settled : List (Settled α)}
    (hsettled : settleBuckets less threshold splitters v done.length bounds = .ok settled)
    (hu : u.length = done.flatten.length) :
    Progressive less splitters v done.length (u ++ (settled.map Settled.elements).flatten)
      (settled.filterMap Settled.pending) := by
  induction remaining generalizing done bounds settled u with
  | nil =>
    subst hbounds
    obtain rfl : [] = settled := Except.ok.inj hsettled
    exact ⟨by simp, by simp, by simp, by simp⟩
  | cons bucket remaining ih =>
    rw [List.map_cons, zip_tail_offsetsFrom] at hbounds
    subst hbounds
    have hb : (done ++ bucket :: remaining)[done.length]? = some bucket := by simp
    have hbucket : bucket ⊆ v := by
      rw [← h.flatten]
      exact (List.sublist_flatten_of_mem (List.mem_of_getElem? hb)).subset
    obtain ⟨first, later, hfirst, hlater, rfl⟩ := settleBuckets_cons_eq_ok_iff.1 hsettled
    obtain ⟨hlength, hcases⟩ :=
      h.settleBucket_cases hless hs hne hmem hb h.slice?_bucket hfirst
    have hdone : (done ++ [bucket]).flatten.length = done.flatten.length + bucket.length := by
      simp
    have hrest := ih (done ++ [bucket]) (u := u ++ first.elements)
      (by rwa [List.append_assoc, List.singleton_append]) (by rw [hdone])
      (by rwa [List.length_append, List.length_singleton])
      (by rw [List.length_append, hu, hlength, hdone])
    rw [List.length_append, List.length_singleton] at hrest
    rw [List.map_cons, List.flatten_cons, ← List.append_assoc]
    rcases hcases with hnone | ⟨p, rest, hsome, hsubset, hwindow, huntied⟩
    · rw [List.filterMap_cons_none hnone]
      exact hrest.skip
    · rw [List.filterMap_cons_some hsome]
      specialize hwindow u (later.map Settled.elements).flatten hu
      apply hrest.cons
      · rw [hwindow]
        exact fun x hx => h.ranked _ _ hb x (hsubset hx)
      · rw [hwindow]
        exact fun x hx => hbucket (hsubset hx)
      · rw [hwindow]
        exact huntied

/-- The work on all buckets of a window leaves windows that lack classes. -/
theorem Bucketed.progressive (hless : StrictWeak less)
    (hs : splitters.Pairwise fun s t => less s t = true) (hne : splitters ≠ [])
    (hmem : ∀ s ∈ splitters, s ∈ v) {threshold : Nat} (h : Bucketed less splitters v buckets)
    {starts : List Nat} (hstarts : starts = offsets (buckets.map List.length))
    {settled : List (Settled α)}
    (hsettled : settleBuckets less threshold splitters v 0 (starts.zip starts.tail) =
      .ok settled) :
    Progressive less splitters v 0 (settled.map Settled.elements).flatten
      (settled.filterMap Settled.pending) := by
  subst hstarts
  exact progressive_from hless hs hne hmem [] buckets (by simpa using h) rfl hsettled rfl

/-! ### Turns -/

/-- The windows `ws` of `w`, which are left of a window `v`, share no class of ties, and each has
fewer of them than `v`. -/
structure Divides (less : α → α → Bool) (v w : List α) (ws : List (Nat × Nat)) : Prop where
  /-- Nothing is added. -/
  subset : ∀ p ∈ ws, window w p.1 p.2 ⊆ v
  /-- No class occurs in two windows. -/
  untied : ws.Pairwise fun p q => ∀ x ∈ window w p.1 p.2, ∀ y ∈ window w q.1 q.2,
    tied less x y = false
  /-- In each window a class is missing. -/
  fewer : ∀ p ∈ ws, classes less (window w p.1 p.2) < classes less v

/-- Windows of ascending ranks that lack classes divide the window. -/
lemma Progressive.divides (hless : StrictWeak less)
    (hs : splitters.Pairwise fun s t => less t s = false)
    (h : Progressive less splitters v b w ws) : Divides less v w ws where
  subset := h.subset
  untied := by
    apply h.ascending.imp
    intro p q hpq x hx y hy
    exact untied_of_rank_ne hless hs (Nat.ne_of_lt (hpq x hx y hy))
  fewer p hp := by
    obtain ⟨x, hx, huntied⟩ := h.untied p hp
    exact classes_lt hless (h.subset p hp) hx huntied

/-- The buckets of a window in the last phase. -/
lemma Phase.Holds.exists_bucketed {phase : Phase α} (h : phase.Holds less v)
    (hstage : phase.stage = .recursion) :
    ∃ plan counts buckets, phase = .recursion plan phase.splitters counts phase.starts ∧
      Splits less plan phase.splitters v ∧ Bucketed less phase.splitters v buckets ∧
      phase.starts = offsets (buckets.map List.length) := by
  cases phase with
  | recursion plan splitters counts starts =>
    obtain ⟨hsplits, hcounts, hstarts, buckets, hbucketed⟩ := h
    refine ⟨plan, counts, buckets, rfl, hsplits, hbucketed, ?_⟩
    rw [hbucketed.sizes, ← hcounts]
    exact hstarts
  | simpleCases => cases hstage
  | baseCase => cases hstage
  | sampling => cases hstage
  | awaiting plan => cases hstage
  | classification plan splitters counts => cases hstage
  | partitioning plan splitters counts labels => cases hstage

section Turns

variable [IndexSource σ] {config : Config} {strategy : Strategy} {memory : Memory} {source : σ}
  {phase : Phase α} {t : Turn α σ}

/-- Only the last phase splits a window, and only if there is memory. -/
lemma Phase.stage_of_split (hturn : phase.turn less config strategy memory source v = .ok t)
    (hsplit : t.transition = .split ws) :
    phase.stage = .recursion ∧ phase.work less config strategy source v = .ok t := by
  have hregular := Phase.regular_of_turn hturn
  rw [hsplit] at hregular
  cases hregular with
  | split horder _ =>
    constructor
    · cases phase with
      | recursion plan splitters counts starts => rfl
      | _ => simp [Phase.order] at horder
    · cases memory with
      | available => rwa [turn_available] at hturn
      | exhausted =>
        cases hwhat : phase.reservation? with
        | none => rwa [turn_of_reservation?_eq_none hwhat] at hturn
        | some what =>
          rw [turn_exhausted hwhat] at hturn
          obtain rfl := Except.ok.inj hturn
          cases hsplit

/-- The last phase splits its window, unless it is refused memory. -/
lemma Phase.split_or_refuse (hstage : phase.stage = .recursion)
    (hturn : phase.turn less config strategy memory source v = .ok t) :
    (∃ ws, t.transition = .split ws) ∨ ∃ what, t.transition = .refuse what := by
  cases phase with
  | recursion plan splitters counts starts =>
    cases memory with
    | available =>
      rw [turn_available] at hturn
      obtain ⟨settled, -, hturn⟩ := exists_ok_of_bind hturn
      obtain rfl := Except.ok.inj hturn
      exact Or.inl ⟨_, rfl⟩
    | exhausted =>
      rw [turn_exhausted rfl] at hturn
      obtain rfl := Except.ok.inj hturn
      exact Or.inr ⟨_, rfl⟩
  | _ => cases hstage

/-- The windows that a turn leaves pending divide its window. -/
theorem Phase.divides_of_turn (hless : StrictWeak less) (h : phase.Holds less v)
    (hturn : phase.turn less config strategy memory source v = .ok t)
    (hsplit : t.transition = .split ws) : Divides less v t.window ws := by
  obtain ⟨hstage, hwork⟩ := Phase.stage_of_split hturn hsplit
  obtain ⟨plan, counts, buckets, hphase, hsplits, hbucketed, hstarts⟩ := h.exists_bucketed hstage
  rw [hphase] at hwork
  obtain ⟨settled, hsettled, hwork⟩ := exists_ok_of_bind hwork
  obtain rfl := Except.ok.inj hwork
  obtain rfl := Transition.split.inj hsplit
  exact (hbucketed.progressive hless hsplits.ascending hsplits.ne_nil hsplits.mem hstarts
    hsettled).divides hless (hsplits.notGreater hless)

end Turns

/-! ### Steps -/

namespace Machine

variable {m m' : Machine α σ} {f : Frame α} {others pushed : List (Frame α)} {lo hi : Nat}
  {data : List α} {memory : Memory} {result : Except SortError (Option Event)}

/-- What a split of the frame `f` puts on the stack, the frames `pushed`, if `v` was the data before
and `w` is the data after it. -/
structure Split (less : α → α → Bool) (threshold : Nat) (v w : List α) (f : Frame α)
    (pushed : List (Frame α)) : Prop where
  /-- Nothing is known about the frames. -/
  fresh : ∀ g ∈ pushed, g.role = .main ∧ g.phase = .simpleCases
  /-- They keep inside the frame. -/
  inside : ∀ g ∈ pushed, f.start ≤ g.start ∧ g.stop ≤ f.stop
  /-- They are too long to be sorted directly, but shorter than the frame. -/
  lengths : ∀ g ∈ pushed, threshold < g.length ∧ g.length < f.length
  /-- From the top of the stack down they stand one after the other. -/
  ascending : pushed.Pairwise fun g g' => g.stop ≤ g'.start
  /-- No class of ties occurs in two of them. -/
  untied : pushed.Pairwise fun g g' => ∀ x ∈ window w g.start g.stop,
    ∀ y ∈ window w g'.start g'.stop, tied less x y = false
  /-- Each has fewer classes of ties than the frame had. -/
  fewer : ∀ g ∈ pushed,
    classes less (window w g.start g.stop) < classes less (window v f.start f.stop)

variable [IndexSource σ]

/-- The machine, which has the frame `f` on top of its stack and `others` below, takes the turn `t`
of this frame, and the turn is sound. -/
structure Takes (less : α → α → Bool) (memory : Memory) (m : Machine α σ) (f : Frame α)
    (others : List (Frame α)) (t : Turn α σ) : Prop where
  /-- The machine is not poisoned. -/
  unpoisoned : m.poisoned = false
  /-- The frame is the first one. -/
  stack : m.stack = f :: others
  /-- This is its turn. -/
  turn : f.phase.turn less m.config m.strategy memory m.source
    (window m.data.toList f.start f.stop) = .ok t
  /-- It permutes the window. -/
  perm : t.window.Perm (window m.data.toList f.start f.stop)
  /-- Its transition is sound. -/
  sound : t.transition.Sound less m.config.threshold memory f.phase
    (window m.data.toList f.start f.stop) t.window

/-- The first frame is one of the frames. -/
lemma Takes.mem {t : Turn α σ} (h : m.Takes less memory f others t) : f ∈ m.stack := by
  simp [h.stack]

/-- A step does nothing, or else it is a sound turn of the first frame. -/
theorem Inv.turn_of_step (hless : StrictWeak less) (h : m.Inv less data lo hi)
    (hstep : m.step less memory = .ok (result, m')) :
    (m' = m ∧ eventsOf result = []) ∨
      ∃ (f : Frame α) (others : List (Frame α)) (t : Turn α σ), m.Takes less memory f others t ∧
        result = answer f others t ∧ m' = m.after f others t := by
  rcases Machine.turn_of_step hstep with
    hsame | ⟨f, others, v, t, hpoisoned, hstack, hread, hturn, hanswer, hafter⟩
  · exact Or.inl hsame
  · have hf : f ∈ m.stack := by simp [hstack]
    obtain rfl := Except.ok.inj ((h.readWindow hf).symm.trans hread)
    obtain ⟨t', hturn', hperm, hsound⟩ := Phase.exists_turn hless h.valid (h.holds f hf)
      m.strategy memory m.source
    obtain rfl := Except.ok.inj (hturn'.symm.trans hturn)
    exact Or.inr ⟨f, others, t', ⟨hpoisoned, hstack, hturn, hperm, hsound⟩, hanswer, hafter⟩

/-- A part of the window of the first frame, after a turn. -/
lemma Inv.window_after (h : m.Inv less data lo hi) {t : Turn α σ}
    (htakes : m.Takes less memory f others t) {a b : Nat} (hb : b ≤ t.window.length) :
    window (m.after f others t).data.toList (f.start + a) (f.start + b) = window t.window a b := by
  obtain ⟨-, hle, hstop⟩ := h.stacked.bounds htakes.mem
  have hhi := h.le_length
  have hlength : t.window.length = f.stop - f.start :=
    htakes.perm.length_eq.trans (h.length_of_mem htakes.mem)
  rw [h.toList_after htakes.stack htakes.perm, window_splice_add (by omega) hb]

/-- A split of the first frame makes progress.

**Proof sketch.** The transition is sound, so the windows that are left ascend, lie inside of the
window of the frame, and are shorter than it and longer than the threshold. That no two of them
share a class and that each has fewer is a property of the turn, `Phase.divides_of_turn`, which is
about the elements that the turn yields. These are what the machine has in place of the frame
afterwards, so it carries over to the elements of the machine. -/
theorem Inv.split_of_turn (hless : StrictWeak less) (h : m.Inv less data lo hi) {t : Turn α σ}
    (htakes : m.Takes less memory f others t) {ws : List (Nat × Nat)}
    (hsplit : t.transition = .split ws) :
    Split less m.config.threshold m.data.toList (m.after f others t).data.toList f
      (f.successors t.transition) := by
  have hf := htakes.mem
  have hle := (h.stacked.bounds hf).2.1
  have hlength : t.window.length = f.stop - f.start :=
    htakes.perm.length_eq.trans (h.length_of_mem hf)
  have hdivides := Phase.divides_of_turn hless (h.holds f hf) htakes.turn hsplit
  have hsound := htakes.sound
  rw [hsplit] at hsound ⊢
  cases hsound with
  | split _ hsortedBut hlengths =>
    rw [h.length_of_mem hf] at hlengths
    have hbounds := fun p (hp : p ∈ ws) => hsortedBut.ascending.bounds hp
    have hwindow : ∀ p ∈ ws, window (m.after f others t).data.toList (f.start + p.1)
        (f.start + p.2) = window t.window p.1 p.2 :=
      fun p hp => h.window_after htakes (hbounds p hp).2.2
    constructor
    · intro g hg
      obtain ⟨p, -, rfl⟩ := List.mem_map.1 hg
      exact ⟨rfl, rfl⟩
    · intro g hg
      obtain ⟨p, hp, rfl⟩ := List.mem_map.1 hg
      have := hbounds p hp
      simp only [Frame.fresh]
      omega
    · intro g hg
      obtain ⟨p, hp, rfl⟩ := List.mem_map.1 hg
      have := hlengths p hp
      simp only [Frame.length, Frame.fresh] at this ⊢
      omega
    · refine List.pairwise_map.2 ((hsortedBut.ascending.pairwise).imp ?_)
      intro p q hpq
      exact Nat.add_le_add_left hpq f.start
    · refine List.pairwise_map.2 (hdivides.untied.imp_of_mem ?_)
      intro p q hp hq hpq
      simp only [Frame.fresh]
      rw [hwindow p hp, hwindow q hq]
      exact hpq
    · intro g hg
      obtain ⟨p, hp, rfl⟩ := List.mem_map.1 hg
      simp only [Frame.fresh]
      rw [hwindow p hp]
      exact hdivides.fewer p hp

/-- A split of a reachable machine makes progress. With memory it succeeds; and what a successful
step in the last phase puts on the stack are frames about which nothing is known, which stand one
after the other inside the frame that is split, longer than the threshold and shorter than that
frame, of which no two share a class of ties, and each of which has fewer classes than the frame
had. A bucket is peeled only if there is a single splitter, and this is a minimum of the window;
then the elements tied with it, of which there are some, are peeled off.

**Proof sketch.** A turn in the last phase splits or is refused memory. It is not refused any if
there is some, and `Inv.split_of_turn` says what a split does. For the peeling, the phase knows that
its window is made up of buckets, and the two bounds are those of the `b`-th. -/
theorem Reachable.split_progress (hless : StrictWeak less) {data : Array α}
    (h : Reachable less data lo hi m) (hstack : m.stack = f :: others)
    (hstage : f.stage = .recursion) :
    (m.poisoned = false → ∃ event m', m.step less .available = .ok (.ok (some event), m')) ∧
    (∀ memory event m', m.step less memory = .ok (.ok (some event), m') →
      ∃ pushed, m'.stack = pushed ++ others ∧
        Split less m.config.threshold m.data.toList m'.data.toList f pushed) ∧
    (∀ b start stop, f.phase.starts[b]? = some start → f.phase.starts[b + 1]? = some stop →
      ∃ bucket equal rest,
        slice? (window m.data.toList f.start f.stop) start stop = .ok bucket ∧
        peelBucket less f.phase.splitters f.length b bucket = .ok (equal, rest) ∧
        Peeled less f.phase.splitters (window m.data.toList f.start f.stop) b bucket equal
          rest) := by
  have hinv := h.inv hless
  have hf : f ∈ m.stack := by simp [hstack]
  refine ⟨?_, ?_, ?_⟩
  · intro hpoisoned
    obtain ⟨t, hstep, -, hsound⟩ := hinv.exists_turn hless hstack hpoisoned .available
    rcases hsound.error_cases with hnone | ⟨-, hexhausted, -⟩
    · rw [answer, hnone] at hstep
      exact ⟨_, _, hstep⟩
    · cases hexhausted
  · intro memory event m' hstep
    rcases hinv.turn_of_step hless hstep with
      ⟨-, hnone⟩ | ⟨g, others', t, htakes, hanswer, rfl⟩
    · cases hnone
    · obtain ⟨rfl, rfl⟩ := List.cons.inj (hstack.symm.trans htakes.stack)
      rcases Phase.split_or_refuse hstage htakes.turn with ⟨ws, hsplit⟩ | ⟨what, hrefuse⟩
      · exact ⟨_, rfl, hinv.split_of_turn hless htakes hsplit⟩
      · simp [answer, hrefuse, Frame.error?] at hanswer
  · intro b start stop hstart hstop
    obtain ⟨plan, counts, buckets, -, hsplits, hbucketed, hstarts⟩ :=
      (hinv.holds f hf).exists_bucketed hstage
    obtain ⟨hle, hlength, hbucket⟩ := hbucketed.getElem?_of_offsets hstarts hstart hstop
    obtain ⟨equal, rest, hpeel, hpeeled⟩ :=
      hbucketed.exists_peeled hless hsplits.ascending hsplits.mem hbucket
    refine ⟨_, equal, rest, slice?_eq_window hle hlength, ?_, hpeeled⟩
    rwa [hinv.length_of_mem hf] at hpeel

/-- Five numbers of which the splitter is the least: the second bucket is the whole window. -/
theorem Reachable.split_progress_of_five :
    ∃ (m m' : Machine Nat WordCycle) (f : Frame Nat) (event : Event) (pushed : List (Frame Nat)),
      Reachable (fun a b => decide (a < b)) #[3, 1, 1, 2, 1] 0 5 m ∧ m.stack = [f] ∧
      f.phase.splitters = [1] ∧ f.phase.starts = [0, 0, 5] ∧
      m.step (fun a b => decide (a < b)) .available = .ok (.ok (some event), m') ∧
      m'.stack = pushed ++ [] ∧
      Split (fun a b => decide (a < b)) m.config.threshold m.data.toList m'.data.toList f
        pushed ∧
      ∃ bucket equal rest,
        slice? (window m.data.toList f.start f.stop) 0 5 = .ok bucket ∧
        peelBucket (fun a b => decide (a < b)) f.phase.splitters f.length 1 bucket =
          .ok (equal, rest) ∧
        Peeled (fun a b => decide (a < b)) f.phase.splitters
          (window m.data.toList f.start f.stop) 1 bucket equal rest := by
  let less := fun a b : Nat => decide (a < b)
  let m₀ : Machine Nat WordCycle := .ofArray (.ofList [0x80000000]) #[3, 1, 1, 2, 1]
  let m₁ : Machine Nat WordCycle := { m₀ with config := ⟨1, 1, 1, 0⟩ }
  have hconfig : m₀.withConfig? ⟨1, 1, 1, 0⟩ = .ok m₁ := rfl
  let observe := fun m : Machine Nat WordCycle =>
    (m.poisoned, m.stack.map fun f => (f.stage, f.phase.splitters, f.phase.starts))
  have hrun : (m₁.runFor less 7).map (fun r => observe r.machine) =
      .ok (false, [(.recursion, [1], [0, 0, 5])]) := by decide +kernel
  obtain ⟨m, hreachable, hobserved⟩ := Started.exists_reachable (.whole _) hconfig observe hrun
  obtain ⟨hpoisoned, hframes⟩ := Prod.mk.inj hobserved
  obtain ⟨f, hstack, hf⟩ := List.map_eq_singleton_iff.1 hframes
  obtain ⟨hstage, hf⟩ := Prod.mk.inj hf
  obtain ⟨hsplitters, hstarts⟩ := Prod.mk.inj hf
  obtain ⟨hsucceeds, hsplits, hpeels⟩ :=
    Reachable.split_progress .natural hreachable hstack hstage
  obtain ⟨event, m', hstep⟩ := hsucceeds hpoisoned
  obtain ⟨pushed, hpushed, hsplit⟩ := hsplits _ _ _ hstep
  exact ⟨m, m', f, event, pushed, hreachable, hstack, hsplitters, hstarts, hstep, hpushed, hsplit,
    hpeels 1 0 5 (by rw [hstarts]; rfl) (by rw [hstarts]; rfl)⟩

end Machine

end SampleSort
