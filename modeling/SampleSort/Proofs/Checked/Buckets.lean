import SampleSort.Bucket.Labelling
import SampleSort.Partition.Strategy
import SampleSort.Proofs.Checked.Small
import SampleSort.Proofs.Transition

set_option relaxedAutoImplicit false
set_option autoImplicit false

/-!
# Labelling and partitioning in place

Elements are counted in a table of fixed size and labelled with single bytes. Then they are brought
together by buckets: their sizes add up to where the buckets begin, and either every head moves on
through a table of positions, or one pass after the other separates what is left of the window.

## Main definitions

* `SampleSort.Checked.labelWindow` — labels and counts.
* `SampleSort.Checked.relabelWindow` — the same, where an earlier labelling stands.
* `SampleSort.Checked.placeByLabels` — placement by labels.
* `SampleSort.Checked.cutBySplitters` — one pass for every splitter.
* `SampleSort.Checked.partition` — either of them.

## Main results

* `SampleSort.Checked.labelWindow_eq`, `SampleSort.Checked.partition_eq` — nothing is stopped, and
  the outcomes are those of the definitions that do not check.
* `SampleSort.Checked.partition_sequential_eq` — the passes are not stopped, whatever the predicate.
-/

namespace SampleSort.Checked

variable {α : Type} {less : α → α → Bool} {v : List α}

/-! ### Labels -/

/-- One more element in a bucket. -/
def increment (h : Histogram) (bucket : Nat) : Except Panic Histogram :=
  if hb : bucket < maxBuckets then do
    let count ← add h.table[bucket] 1
    return { h with table := h.table.set bucket count }
  else .error .outOfBounds

/-- One more element is counted and labelled. -/
def labelNext (less : α → α → Bool) (splitters : List α) (labelling : Labelling) (x : α) :
    Except Panic Labelling := do
  let bucket := (bucketOf less splitters x).value
  let counts ← increment labelling.counts bucket
  let label ← byte bucket
  return ⟨counts, labelling.labels ++ [label]⟩

/-- The buckets of all elements of `v`, recorded on top of `counts`. -/
def labelWindow (less : α → α → Bool) (splitters : List α) (counts : Histogram) (v : List α) :
    Except Panic Labelling := do
  ensure (splitters.length < maxBuckets) .assertion ()
  ensure (counts.size = splitters.length + 1) .assertion ()
  v.foldlM (labelNext less splitters) ⟨counts, []⟩

/-- The labelling of the window `v` where an earlier one stands: its labels are dropped, and its
histogram counts on. -/
def relabelWindow (less : α → α → Bool) (splitters : List α) (before : Labelling) (v : List α) :
    Except Panic Labelling := do
  ensure (splitters.length < maxBuckets) .assertion ()
  ensure (before.counts.size = splitters.length + 1) .assertion ()
  v.foldlM (labelNext less splitters) { before with labels := clear before.labels }

/-- Labels that stand there make no difference. -/
lemma relabelWindow_eq (less : α → α → Bool) (splitters : List α) (before : Labelling)
    (v : List α) :
    relabelWindow less splitters before v = labelWindow less splitters before.counts v :=
  rfl

/-- Every count in use has room for `n` more elements. -/
def HasRoom (n : Nat) (h : Histogram) : Prop :=
  ∀ b (_ : b < maxBuckets), b < h.size → h.table[b] + n < wordBound

/-- A histogram of zeros has room for as many elements as there are words. -/
lemma hasRoom_of_zeros {h : Histogram} {size n : Nat} (hzeros : h.toList = List.replicate size 0)
    (hn : n < wordBound) : HasRoom n h := by
  intro b hb hused
  have hmem : h.table[b] ∈ h.toList := by
    refine List.mem_of_getElem? (i := b) ?_
    rw [Histogram.toList, List.getElem?_take, if_pos hused]
    simp [hb]
  rw [hzeros] at hmem
  rw [List.eq_of_mem_replicate hmem, Nat.zero_add]
  exact hn

/-- Counting one element where there is room for it. -/
lemma increment_eq {h h' : Histogram} {bucket n : Nat} (hroom : HasRoom (n + 1) h)
    (hb : bucket < h.size) (hcounted : h.increment bucket = .ok h') :
    increment h bucket = .ok h' ∧ HasRoom n h' ∧ h'.size = h.size := by
  have hb' : bucket < maxBuckets := Nat.lt_of_lt_of_le hb h.size_le
  have hcount := hroom bucket hb' hb
  rw [Histogram.increment, dif_pos hb'] at hcounted
  obtain rfl := Except.ok.inj hcounted
  refine ⟨?_, ?_, rfl⟩
  · rw [increment, dif_pos hb', add_eq (by omega)]
    rfl
  · intro c hc hused
    have hold := hroom c hc hused
    simp only [Vector.getElem_set]
    split
    · omega
    · omega

/-- Labelling the elements one after the other. -/
lemma foldlM_labelNext {splitters : List α} {counts counts' : Histogram} (labels : List UInt8)
    (hsize : splitters.length < counts.size) (hroom : HasRoom v.length counts)
    (h : counts.record (v.map fun x => (bucketOf less splitters x).value) = .ok counts') :
    v.foldlM (labelNext less splitters) ⟨counts, labels⟩ =
      .ok ⟨counts', labels ++ v.map fun x => (bucketOf less splitters x).value.toUInt8⟩ := by
  induction v generalizing counts labels with
  | nil =>
    obtain rfl := Except.ok.inj h
    simp [pure, Except.pure]
  | cons x v ih =>
    obtain ⟨counts₁, hcounted, h⟩ := exists_ok_of_bind h
    have hle := bucketOf_le less splitters x
    have hb : (bucketOf less splitters x).value < counts.size := by omega
    obtain ⟨hincrement, hroom₁, hsize₁⟩ := increment_eq hroom hb hcounted
    have hbyte : (bucketOf less splitters x).value < 256 :=
      Nat.lt_of_lt_of_le hb counts.size_le
    rw [List.foldlM_cons, labelNext]
    simp only [hincrement, ok_bind, byte_eq hbyte]
    have hrest := ih (labels ++ [(bucketOf less splitters x).value.toUInt8]) (by omega) hroom₁ h
    simpa using hrest

/-- Labelling in place. -/
theorem labelWindow_eq {splitters : List α} {counts : Histogram} {labelling : Labelling}
    (hsize : counts.size = splitters.length + 1) (hroom : HasRoom v.length counts)
    (h : (SampleSort.labelWindow less splitters counts v).value = .ok labelling) :
    labelWindow less splitters counts v = .ok labelling := by
  rw [SampleSort.labelWindow, Counted.value_bind, Counted.value_pure, Counted.value_mapM] at h
  cases hrecord : counts.record (v.map fun x => (bucketOf less splitters x).value) with
  | error fault =>
    rw [hrecord] at h
    cases h
  | ok counts' =>
    rw [hrecord] at h
    obtain rfl := Except.ok.inj h
    have hle := counts.size_le
    rw [labelWindow, ensure_eq (by omega), ok_bind, ensure_eq hsize, ok_bind,
      foldlM_labelNext [] (by omega) hroom hrecord]
    simp

/-! ### Sizes and positions -/

/-- The first window begins at the start. -/
lemma cons_tail_offsetsFrom (start : Nat) (sizes : List Nat) :
    start :: (offsetsFrom start sizes).tail = offsetsFrom start sizes := by
  cases sizes <;> rfl

/-- The positions at which consecutive windows of the given sizes end when the first begins at
`start`, written behind what stands in `starts`. -/
def pushStops (start : Nat) : (sizes starts : List Nat) → Except Panic (List Nat)
  | [], starts => return starts
  | size :: sizes, starts => do
    let stop ← add start size
    pushStops stop sizes (starts ++ [stop])

/-- The sums of sizes of windows that end at a word. -/
lemma pushStops_eq {sizes : List Nat} {start : Nat} (starts : List Nat)
    (h : start + sizes.sum < wordBound) :
    pushStops start sizes starts = .ok (starts ++ (offsetsFrom start sizes).tail) := by
  induction sizes generalizing start starts with
  | nil => simp [pushStops, offsetsFrom, pure, Except.pure]
  | cons size sizes ih =>
    rw [List.sum_cons] at h
    have hstop : start + size + sizes.sum < wordBound := by omega
    have hrest := ih (starts ++ [start + size]) hstop
    rw [pushStops, add_eq (by omega), ok_bind, hrest, List.append_assoc, List.singleton_append,
      cons_tail_offsetsFrom]
    rfl

/-- The last window ends where all of them do. -/
lemma getLast?_offsets (sizes : List Nat) : (offsets sizes).getLast? = some sizes.sum := by
  rw [List.getLast?_eq_getElem?, length_offsets, Nat.add_sub_cancel,
    getElem?_offsets (Nat.le_refl _), bucketStart_length]

/-! ### Placement -/

/-- The element at the head of bucket `b` is settled there, or changes places with the one at the
head of the bucket it belongs to. -/
def move (p : Placement α) (b : Fin maxBuckets) : Except Panic (Placement α) :=
  let position := getElem p.heads b b.isLt
  if hposition : position < p.slots.size then
    let target := bucketOfLabel p.slots[position].1
    if target = b then do
      let next ← add position 1
      return { p with heads := p.heads.set b next b.isLt, moves := p.moves + 1 }
    else
      let destination := getElem p.heads target target.isLt
      if hdestination : destination < p.slots.size then do
        let next ← add destination 1
        return {
          slots := p.slots.swap position destination
          heads := p.heads.set target next target.isLt
          moves := p.moves + 1 }
      else .error .outOfBounds
  else .error .outOfBounds

/-- A move that is not stopped is a move. -/
lemma move?_of_move {p q : Placement α} {b : Fin maxBuckets} (h : move p b = .ok q) :
    p.move? b = some q := by
  unfold move at h
  dsimp only at h
  split at h
  · next hposition =>
    split at h
    · next htarget =>
      obtain ⟨next, hadd, h⟩ := exists_ok_of_bind h
      obtain rfl := eq_of_add hadd
      obtain rfl := Except.ok.inj h
      simp only [Placement.move?, dif_pos hposition, if_pos htarget]
    · next htarget =>
      split at h
      · next hdestination =>
        obtain ⟨next, hadd, h⟩ := exists_ok_of_bind h
        obtain rfl := eq_of_add hadd
        obtain rfl := Except.ok.inj h
        simp only [Placement.move?, dif_pos hposition, if_neg htarget, dif_pos hdestination]
      · cases h
  · cases h

/-- A move is not stopped if positions are words, and it keeps their number. -/
lemma move_eq {p q : Placement α} {b : Fin maxBuckets} (h : p.move? b = some q)
    (hsize : p.slots.size < wordBound) : move p b = .ok q ∧ q.slots.size = p.slots.size := by
  unfold Placement.move? at h
  dsimp only at h
  split at h
  · next hposition =>
    split at h
    · next htarget =>
      obtain rfl := Option.some.inj h
      refine ⟨?_, rfl⟩
      simp only [move, dif_pos hposition, if_pos htarget]
      rw [add_eq (by omega), ok_bind]
      rfl
    · next htarget =>
      split at h
      · next hdestination =>
        obtain rfl := Option.some.inj h
        refine ⟨?_, Array.size_swap ..⟩
        simp only [move, dif_pos hposition, if_neg htarget, dif_pos hdestination]
        rw [add_eq (by omega), ok_bind]
        rfl
      · cases h
  · cases h

/-- A move that would lead out of the window is stopped. -/
lemma move_eq_error {p : Placement α} {b : Fin maxBuckets} (h : p.move? b = none) :
    move p b = .error .outOfBounds := by
  unfold Placement.move? at h
  dsimp only at h
  split at h
  · next hposition =>
    split at h
    · cases h
    · next htarget =>
      split at h
      · cases h
      · next hdestination =>
        simp only [move, dif_pos hposition, if_neg htarget, dif_neg hdestination]
  · next hposition => simp only [move, dif_neg hposition]

/-- The moves that bring the head of bucket `b` to the end `stop` of its window. -/
def fill (b : Fin maxBuckets) (stop : Nat) (p : Placement α) : Except Panic (Placement α) :=
  if getElem p.heads b b.isLt < stop then
    match _hmove : move p b with
    | .error panic => .error panic
    | .ok q => fill b stop q
  else return p
termination_by p.room
decreasing_by exact Placement.room_lt_of_move? (move?_of_move ‹_›)

/-- The moves that fill one bucket, the end of which is looked up. -/
def fillNext (starts : List Nat) (p : Placement α) (b : Fin maxBuckets) :
    Except Panic (Placement α) := do
  let next ← add b 1
  let stop ← get starts next
  fill b stop p

/-- The elements of `v` moved into their buckets, which have the sizes `counts`. The bounds of these
are written where `starts` stands, the entries of which are dropped. -/
def placeByLabels (counts : List Nat) (labels : List UInt8) (v : List α) (starts : List Nat) :
    Except Panic (Partitioned α) := do
  ensure (labels.length = v.length) .assertion ()
  let starts ← pushStops 0 counts (clear starts ++ [0])
  ensure (starts.getLast? = some v.length) .assertion ()
  ensure (counts.length ≤ maxBuckets ∧ counts.length ≤ starts.length) .outOfBounds ()
  let p ← ((List.finRange maxBuckets).take counts.length).foldlM (fillNext starts)
    (Placement.start counts labels v)
  return ⟨p.slots.toList.map Prod.snd, p.slots.toList.map Prod.fst, starts⟩

/-- Filling a bucket comes to what it comes to for those who do not check, if positions are
words.

**Proof sketch.** Induction along the moves. A move that is made keeps the number of slots, and one
that is not made is an access out of bounds. -/
lemma fill_eq {p : Placement α} (b : Fin maxBuckets) (stop : Nat)
    (hsize : p.slots.size < wordBound) :
    fill b stop p = (p.fill b stop).mapError (fun _ => .outOfBounds) ∧
      ∀ q, p.fill b stop = .ok q → q.slots.size = p.slots.size := by
  fun_induction Placement.fill b stop p with
  | case1 p hlt next hmove ih =>
    obtain ⟨hchecked, hsame⟩ := move_eq hmove hsize
    obtain ⟨hfill, hsame'⟩ := ih (by omega)
    refine ⟨?_, fun q hq => (hsame' q hq).trans hsame⟩
    rw [fill, if_pos hlt]
    split
    · next panic hpanic =>
      rw [hchecked] at hpanic
      cases hpanic
    · next r hr =>
      obtain rfl := Except.ok.inj (hchecked.symm.trans hr)
      exact hfill
  | case2 p hlt hmove =>
    have hchecked := move_eq_error hmove
    refine ⟨?_, fun q hq => by cases hq⟩
    rw [fill, if_pos hlt]
    split
    · next panic hpanic =>
      rw [hchecked] at hpanic
      obtain rfl := Except.error.inj hpanic
      rfl
    · next r hr =>
      rw [hchecked] at hr
      cases hr
  | case3 p hfull =>
    refine ⟨?_, fun q hq => by rw [Except.ok.inj hq]⟩
    rw [fill, if_neg hfull]
    rfl

/-- Filling several buckets whose ends are looked up. -/
lemma foldlM_fillNext {starts : List Nat} {windows : List (Fin maxBuckets × Nat)}
    {p : Placement α} (hstarts : ∀ w ∈ windows, starts[w.1.val + 1]? = some w.2)
    (hsize : p.slots.size < wordBound) :
    (windows.map Prod.fst).foldlM (fillNext starts) p =
      (windows.foldlM (fun (p : Placement α) w => p.fill w.1 w.2) p).mapError
        (fun _ => .outOfBounds) := by
  induction windows generalizing p with
  | nil => rfl
  | cons w windows ih =>
    obtain ⟨hchecked, hsame⟩ := fill_eq w.1 w.2 hsize
    have hnext : w.1.val + 1 < wordBound := Nat.lt_of_le_of_lt w.1.isLt (by decide)
    rw [List.map_cons, List.foldlM_cons, List.foldlM_cons, fillNext, add_eq hnext, ok_bind,
      get_eq (hstarts w (by simp)), ok_bind, hchecked]
    cases hfill : p.fill w.1 w.2 with
    | error q => rfl
    | ok q =>
      have hsize' : q.slots.size < wordBound := by rw [hsame q hfill]; exact hsize
      exact ih (fun w hw => hstarts w (by simp [hw])) hsize'

/-- Placement by labels in place comes to what it comes to for those who do not check, whatever the
labels are. -/
lemma placeByLabels_eq_mapError {counts : List Nat} {labels : List UInt8}
    (hcounts : counts.length ≤ maxBuckets) (hlabels : labels.length = v.length)
    (hsum : counts.sum = v.length) (hlength : v.length < wordBound) (starts : List Nat) :
    placeByLabels counts labels v starts =
      ((SampleSort.placeByLabels counts labels v).mapError (fun _ => .outOfBounds)).map fun p =>
        ⟨p.slots.toList.map Prod.snd, p.slots.toList.map Prod.fst, offsets counts⟩ := by
  have hoffsets : pushStops 0 counts (clear starts ++ [0]) = .ok (offsets counts) := by
    rw [pushStops_eq _ (by omega), clear, List.nil_append, List.singleton_append,
      cons_tail_offsetsFrom, offsets]
  have hlast : (offsets counts).getLast? = some v.length := by rw [getLast?_offsets, hsum]
  -- the buckets in use are those that are paired with the end of their window
  have htake : (List.finRange maxBuckets).take counts.length =
      ((List.finRange maxBuckets).zip (offsets counts).tail).map Prod.fst := by
    have hmin : min (List.finRange maxBuckets).length (offsets counts).tail.length =
        counts.length := by simpa using hcounts
    rw [List.zip_eq_zip_take_min, hmin, List.map_fst_zip (by simp)]
  have hstarts : ∀ w ∈ (List.finRange maxBuckets).zip (offsets counts).tail,
      (offsets counts)[w.1.val + 1]? = some w.2 := by
    intro w hw
    obtain ⟨hb, hstop⟩ := mem_windows.1 hw
    rw [hstop, getElem?_offsets hb]
  have hslots : (Placement.start counts labels v).slots.size < wordBound := by
    simp [Placement.start, hlabels, hlength]
  rw [placeByLabels, ensure_eq hlabels, ok_bind, hoffsets, ok_bind, ensure_eq hlast, ok_bind,
    ensure_eq ⟨hcounts, by rw [length_offsets]; omega⟩, ok_bind, htake,
    foldlM_fillNext hstarts hslots]
  rfl

/-- Placement by labels in place. -/
lemma placeByLabels_eq {counts : List Nat} {labels : List UInt8} {p : Placement α}
    (hcounts : counts.length ≤ maxBuckets) (hlabels : labels.length = v.length)
    (hsum : counts.sum = v.length) (hlength : v.length < wordBound)
    (h : SampleSort.placeByLabels counts labels v = .ok p) (starts : List Nat) :
    placeByLabels counts labels v starts =
      .ok ⟨p.slots.toList.map Prod.snd, p.slots.toList.map Prod.fst, offsets counts⟩ := by
  rw [placeByLabels_eq_mapError hcounts hlabels hsum hlength, h]
  rfl

/-! ### Passes -/

/-- The window with the part from `boundary` on brought together by buckets. Where these end is
written behind what stands in `starts`. -/
def cutBySplitters (less : α → α → Bool) :
    (splitters : List α) → (boundary : Nat) → (v : List α) → (starts : List Nat) →
      Except Panic (List α × List Nat)
  | [], _, v, starts => return (v, starts ++ [v.length])
  | s :: splitters, boundary, v, starts => do
    let part ← slice v boundary v.length
    let (below, part) ← separate (fun x => less x s) part
    let next ← add boundary below
    cutBySplitters less splitters next (splice v boundary part) (starts ++ [next])

/-- Passes over what stands behind a front part.

**Proof sketch.** Induction along the splitters. What a pass brings together at the front of the
rest belongs to the front part of the next pass, and its length is what the bound moves by. -/
lemma cutBySplitters_eq (less : α → α → Bool) (splitters front rest : List α) (starts : List Nat)
    (hlength : (front ++ rest).length < wordBound) :
    cutBySplitters less splitters front.length (front ++ rest) starts =
      .ok (front ++ (SampleSort.cutBySplitters less splitters rest).value.flatten,
        starts ++ (offsetsFrom front.length
          ((SampleSort.cutBySplitters less splitters rest).value.map List.length)).tail) := by
  induction splitters generalizing front rest starts with
  | nil => simp [cutBySplitters, SampleSort.cutBySplitters, offsetsFrom, pure, Except.pure]
  | cons s splitters ih =>
    have hperm := separate_perm (fun x => Counted.ask less x s) rest
    have hseparate := separate_eq (v := rest) (fun x => Counted.ask less x s) (by
      rw [List.length_append] at hlength
      omega)
    simp only [Counted.value_ask] at hseparate
    rw [cutBySplitters, SampleSort.cutBySplitters, Counted.value_bind]
    generalize (SampleSort.separate (fun x => Counted.ask less x s) rest).value = parts
      at hperm hseparate
    obtain ⟨below, others⟩ := parts
    have hcount := hperm.length_eq
    simp only [List.length_append] at hcount hlength
    have hslice : slice (front ++ rest) front.length (front ++ rest).length = .ok rest := by
      simpa using slice_append front rest []
    have hsplice : splice (front ++ rest) front.length (below ++ others) =
        front ++ below ++ others := by
      simpa using splice_append front rest [] (w := below ++ others) (by simpa using hcount)
    have hnext : add front.length below.length = .ok (front ++ below).length := by
      rw [add_eq (by omega), List.length_append]
    have hrest := ih (front ++ below) others (starts ++ [(front ++ below).length]) (by
      simp only [List.length_append]
      omega)
    rw [hslice, ok_bind, hseparate, ok_bind]
    simp only [hnext, ok_bind, hsplice, hrest]
    rw [List.append_assoc starts, List.singleton_append, cons_tail_offsetsFrom, List.length_append]
    simp [offsetsFrom]

/-! ### Either way -/

/-- The window `v` brought together by buckets, the bounds of which are written where `starts`
stands. -/
def partition (less : α → α → Bool) (strategy : Strategy) (splitters : List α)
    (counts : List Nat) (labels : List UInt8) (v : List α) (starts : List Nat) :
    Except Panic (Partitioned α) :=
  match strategy with
  | .placement => placeByLabels counts labels v starts
  | .sequential => do
    ensure (counts.length = splitters.length + 1) .assertion ()
    let (window, starts) ← cutBySplitters less splitters 0 v (clear starts ++ [0])
    return ⟨window, labels, starts⟩

/-- Partitioning by one pass for every splitter in place. -/
theorem partition_sequential_eq (less : α → α → Bool) {splitters : List α} {counts : List Nat}
    (labels : List UInt8) (hcounts : counts.length = splitters.length + 1)
    (hlength : v.length < wordBound) (starts : List Nat) :
    partition less .sequential splitters counts labels v starts =
      .ok ⟨(SampleSort.cutBySplitters less splitters v).value.flatten, labels,
        offsets ((SampleSort.cutBySplitters less splitters v).value.map List.length)⟩ := by
  have hcut := cutBySplitters_eq less splitters [] v (clear starts ++ [0]) hlength
  rw [List.nil_append, List.length_nil] at hcut
  rw [partition, ensure_eq hcounts, ok_bind, hcut, ok_bind]
  simp only [clear, List.nil_append, List.singleton_append, cons_tail_offsetsFrom]
  rfl

/-- Partitioning in place. -/
theorem partition_eq {strategy : Strategy} {splitters : List α} {counts : List Nat}
    {labels : List UInt8} {partitioned : Partitioned α}
    (hcounts : counts.length = splitters.length + 1) (hbuckets : counts.length ≤ maxBuckets)
    (hlabels : labels.length = v.length) (hsum : counts.sum = v.length)
    (hlength : v.length < wordBound)
    (h : (strategy.partition less splitters counts labels v).value = .ok partitioned)
    (starts : List Nat) :
    partition less strategy splitters counts labels v starts = .ok partitioned := by
  cases strategy with
  | placement =>
    rw [Strategy.partition, Counted.value_pure, if_neg (by omega), if_neg (by simpa using hlabels)]
      at h
    cases hplaced : SampleSort.placeByLabels counts labels v with
    | error p =>
      rw [hplaced] at h
      cases h
    | ok p =>
      rw [hplaced] at h
      obtain rfl := Except.ok.inj h
      exact placeByLabels_eq hbuckets hlabels hsum hlength hplaced starts
  | sequential =>
    obtain rfl := Except.ok.inj h
    exact partition_sequential_eq less labels hcounts hlength starts

end SampleSort.Checked
