import SampleSort.Proofs.Checked.Step
import SampleSort.Proofs.Labels

set_option relaxedAutoImplicit false
set_option autoImplicit false

/-!
# A histogram counts from its last reset on

One histogram serves many windows, with more or fewer buckets in use from one to the next. Resetting
it goes only over the counts that have been in use, which leaves zeros everywhere because nothing is
ever counted beyond them. So a bucket that comes into use again does not bring back what it has
counted before.

## Main definitions

* `SampleSort.Histogram.Call`, `SampleSort.Histogram.Call.perform` — what is done to a histogram.
* `SampleSort.Histogram.Log` — the ranks of the elements labelled since the last reset.
* `SampleSort.Histogram.Log.Allows` — calls that agree with the buckets in use.
* `SampleSort.Histogram.Records` — the histogram counts what is in the log, and nothing else.

## Main results

* `SampleSort.Histogram.Records.exists_perform` — a call keeps histogram and log together.
* `SampleSort.Histogram.Records.exists_performs` — so do any number of calls.
* `SampleSort.Histogram.calls_recorded` — after every call the counts are those of the log.
-/

namespace SampleSort

namespace Histogram

/-- What is done to a histogram. The windows that are labelled on top of it need not have elements
of one type. -/
inductive Call : Type 1 where
  /-- The histogram without buckets takes its place. -/
  | renew
  /-- It is reset, with the given number of buckets in use. -/
  | reset (size : Nat)
  /-- The elements of the window `v` are labelled, and counted by their labels. -/
  | label {α : Type} (less : α → α → Bool) (splitters v : List α)

/-- The histogram after a call. -/
def Call.perform (h : Histogram) : Call → Except Fault Histogram
  | .renew => return .empty
  | .reset size => h.reset size
  | .label less splitters v => (labelWindow less splitters h v).value.map Labelling.counts

/-- What a histogram should count. -/
structure Log where
  /-- The number of buckets in use. -/
  size : Nat
  /-- The ranks of all elements that have been labelled since these buckets were taken into use. -/
  ranks : List Nat
  deriving DecidableEq, Repr

namespace Log

/-- There are no buckets, and nothing has been labelled. -/
def empty : Log :=
  ⟨0, []⟩

/-- The log after a call. -/
def next (log : Log) : Call → Log
  | .renew => .empty
  | .reset size => ⟨size, []⟩
  | .label less splitters v => ⟨log.size, log.ranks ++ v.map (rank less splitters)⟩

/-- The log after several calls. -/
def after (log : Log) (calls : List Call) : Log :=
  calls.foldl next log

/-- A call agrees with the buckets in use: no more are taken into use than the table holds, and
elements are labelled by splitters that do not descend and are one fewer than the buckets. -/
def AllowsCall (log : Log) : Call → Prop
  | .renew => True
  | .reset size => size ≤ maxBuckets
  | .label less splitters _ =>
    StrictWeak less ∧ (splitters.Pairwise fun s t => less t s = false) ∧
      splitters.length ≤ 255 ∧ splitters.length + 1 = log.size

/-- Each of several calls agrees with the buckets that are in use when its turn comes. -/
def Allows (log : Log) : List Call → Prop
  | [] => True
  | call :: calls => log.AllowsCall call ∧ (log.next call).Allows calls

/-- What holds of several calls holds of the first ones. -/
lemma Allows.take {log : Log} {calls : List Call} (h : log.Allows calls) (n : Nat) :
    log.Allows (calls.take n) := by
  induction n generalizing log calls with
  | zero => trivial
  | succ n ih =>
    cases calls with
    | nil => trivial
    | cons call calls => exact ⟨h.1, ih h.2⟩

end Log

/-- The histogram counts what is in the log, and nothing else. -/
structure Records (log : Log) (h : Histogram) : Prop where
  /-- The buckets in use are those of the log. -/
  size_eq : h.size = log.size
  /-- There is a count for each of them. -/
  length_eq : h.toList.length = log.size
  /-- It is the number of elements with that rank. -/
  count_eq : ∀ b < log.size, h.toList[b]? = some (log.ranks.count b)
  /-- The total is the number of all elements. -/
  total_eq : h.total = log.ranks.length
  /-- The rest of the table is zeros. -/
  unused_eq : ∀ b (hb : b < maxBuckets), log.size ≤ b → h.table[b] = 0

namespace Records

variable {α : Type} {less : α → α → Bool} {splitters : List α} {log : Log} {h h' : Histogram}
  {numbers : List Nat}

/-- A table of zeros is the record of nothing. -/
lemma of_zeros (htable : h.table = Vector.replicate maxBuckets 0) : h.Records ⟨h.size, []⟩ := by
  have hzeros := toList_of_table_eq htable
  refine ⟨rfl, h.length_toList, fun b hb => ?_, ?_, fun b hb _ => ?_⟩
  · rw [hzeros, List.getElem?_replicate, if_pos hb, List.count_nil]
  · have hsum : (List.replicate h.size 0).sum = 0 := by simp
    rw [total, hzeros]
    exact hsum
  · rw [htable, Vector.getElem_replicate]

/-- At first nothing is counted. -/
lemma of_empty : empty.Records .empty :=
  show empty.Records ⟨empty.size, []⟩ from of_zeros rfl

/-- Counting numbers of buckets in use adds them to the record. Beyond these buckets nothing is
counted. -/
lemma grow (hr : h.Records log) (hg : h.Grows numbers h') (hused : ∀ n ∈ numbers, n < log.size) :
    h'.Records ⟨log.size, log.ranks ++ numbers⟩ := by
  have hsize : h'.size = log.size := hg.size_eq.trans hr.size_eq
  refine ⟨hsize, h'.length_toList.trans hsize, fun b hb => ?_, ?_, fun b hb hunused => ?_⟩
  · rw [hg.getElem?_toList, hr.count_eq b hb, List.count_append, Option.map_some]
  · have hused' : ∀ n ∈ numbers, n < h.size := by
      rw [hr.size_eq]
      exact hused
    rw [hg.total_eq hused', hr.total_eq, List.length_append]
  · have hnone : numbers.count b = 0 :=
      List.count_eq_zero.2 fun hmem => Nat.not_lt_of_le hunused (hused b hmem)
    have hentry := hg.getElem?_table b
    rw [hnone] at hentry
    simpa [hb, hr.unused_eq b hb hunused] using hentry

/-- A count is at most the number of elements that have been labelled. -/
lemma hasRoom (hr : h.Records log) {n : Nat} (hn : log.ranks.length + n < wordBound) :
    Checked.HasRoom n h := by
  intro b hb hused
  have hcount := hr.count_eq b (hr.size_eq ▸ hused)
  rw [toList, List.getElem?_take, if_pos hused] at hcount
  have hentry : h.table[b] = log.ranks.count b := by simpa [hb] using hcount
  have hle : log.ranks.count b ≤ log.ranks.length := List.count_le_length
  omega

end Records

end Histogram

/-- A call in place. -/
def Checked.performCall (h : Histogram) : Histogram.Call → Except Panic Histogram
  | .renew => return .empty
  | .reset size => reset h size
  | .label less splitters v => do
    let labelling ← labelWindow less splitters h v
    return labelling.counts

namespace Histogram.Records

variable {log : Log} {h : Histogram} {call : Call} {calls : List Call}

/-- Labelling a window adds the ranks of its elements to the record. -/
lemma exists_label {α : Type} {less : α → α → Bool} {splitters : List α} (hr : h.Records log)
    (hless : StrictWeak less) (hs : splitters.Pairwise fun s t => less t s = false)
    (hsize : splitters.length + 1 = log.size) (v : List α) :
    ∃ labelling, (labelWindow less splitters h v).value = .ok labelling ∧
      labelling.counts.Records (log.next (.label less splitters v)) ∧
      ((log.next (.label less splitters v)).ranks.length < wordBound →
        Checked.labelWindow less splitters h v = .ok labelling) := by
  have hused : h.size = splitters.length + 1 := hr.size_eq.trans hsize.symm
  have hroom : splitters.length < maxBuckets := by
    have := h.size_le
    omega
  obtain ⟨labelling, hvalue, -, hgrows⟩ := exists_labelWindow_grows less hroom h v
  have hranks : (v.map fun x => (bucketOf less splitters x).value) = v.map (rank less splitters) :=
    List.map_congr_left fun x _ => value_bucketOf hless hs x
  rw [hranks] at hgrows
  refine ⟨labelling, hvalue, hr.grow hgrows fun n hn => ?_, fun hlength => ?_⟩
  · obtain ⟨x, -, rfl⟩ := List.mem_map.1 hn
    rw [← hsize]
    exact Nat.lt_succ_of_le (rank_le_length less splitters x)
  · refine Checked.labelWindow_eq hused (hr.hasRoom ?_) hvalue
    simpa [Log.next] using hlength

/-- A call keeps histogram and log together. In place it is not stopped as long as the number of
elements in the log is a word. -/
theorem exists_perform (hr : h.Records log) (hcall : log.AllowsCall call) :
    ∃ h', call.perform h = .ok h' ∧ h'.Records (log.next call) ∧
      ((log.next call).ranks.length < wordBound → Checked.performCall h call = .ok h') := by
  cases call with
  | renew => exact ⟨.empty, rfl, .of_empty, fun _ => rfl⟩
  | reset size =>
    obtain ⟨h', hreset, rfl, htable⟩ :=
      h.exists_reset hcall (by simpa [hr.size_eq] using hr.unused_eq)
    refine ⟨h', hreset, .of_zeros htable, fun _ => ?_⟩
    rw [Checked.performCall, Checked.reset, hreset]
  | label less splitters v =>
    obtain ⟨hless, hs, -, hsize⟩ := hcall
    obtain ⟨labelling, hvalue, hrecords, hchecked⟩ := hr.exists_label hless hs hsize v
    refine ⟨labelling.counts, ?_, hrecords, fun hlength => ?_⟩
    · rw [Call.perform, hvalue]
      rfl
    · rw [Checked.performCall, hchecked hlength]
      rfl

/-- Any number of calls keep histogram and log together. -/
theorem exists_performs (hr : h.Records log) (hcalls : log.Allows calls) :
    ∃ h', calls.foldlM Call.perform h = .ok h' ∧ h'.Records (log.after calls) ∧
      ((∀ k ≤ calls.length, (log.after (calls.take k)).ranks.length < wordBound) →
        calls.foldlM Checked.performCall h = .ok h') := by
  induction calls generalizing h log with
  | nil => exact ⟨h, rfl, hr, fun _ => rfl⟩
  | cons call calls ih =>
    obtain ⟨h₁, hfirst, hr₁, hchecked₁⟩ := hr.exists_perform hcalls.1
    obtain ⟨h₂, hrest, hr₂, hchecked₂⟩ := ih hr₁ hcalls.2
    refine ⟨h₂, ?_, hr₂, fun hlength => ?_⟩
    · rw [List.foldlM_cons, hfirst]
      exact hrest
    · have hrest' := hchecked₂ fun k hk => hlength (k + 1) (Nat.succ_le_succ hk)
      rw [List.foldlM_cons, hchecked₁ (hlength 1 (Nat.succ_le_succ (Nat.zero_le _)))]
      exact hrest'

end Histogram.Records

/-- **A histogram counts from its last reset on.** Start without buckets, and let any calls follow
that agree with the buckets in use. After every one of them the counts in use are the numbers of
elements of each rank among those labelled since the last reset, their total is the number of these
elements, and the rest of the table is zeros. In place it is the same, and nothing is stopped as
long as no more elements are labelled between two resets than a word can count. -/
theorem Histogram.calls_recorded {calls : List Call} (hcalls : Log.empty.Allows calls) (n : Nat) :
    ∃ h, (calls.take n).foldlM Call.perform empty = .ok h ∧
      h.Records (Log.empty.after (calls.take n)) ∧
      ((∀ k ≤ n, (Log.empty.after (calls.take k)).ranks.length < wordBound) →
        (calls.take n).foldlM Checked.performCall empty = .ok h) := by
  obtain ⟨h, hperform, hrecords, hchecked⟩ := Records.of_empty.exists_performs (hcalls.take n)
  refine ⟨h, hperform, hrecords, fun hlength => hchecked fun k hk => ?_⟩
  rw [List.length_take] at hk
  rw [List.take_take, Nat.min_eq_left (by omega)]
  exact hlength k (by omega)

/-- Three numbers are counted in three buckets, then three pairs in two buckets. The third bucket
has come out of use, and its count is gone. -/
theorem Histogram.calls_recorded_of_four :
    ∃ h, [Call.reset 3, .label (fun a b => decide (a < b)) [4, 7] [7, 3, 4], .reset 2,
        .label (fun a b : Nat × Nat => decide (a.1 < b.1)) [(5, 0)] [(9, 0), (1, 0), (5, 1)]].foldlM
          Checked.performCall empty = .ok h ∧
      h.toList = [1, 2] ∧ h.total = 3 ∧ h.table[2] = 0 := by
  have hpairs : StrictWeak fun a b : Nat × Nat => decide (a.1 < b.1) :=
    StrictWeak.natural.ofKey Prod.fst
  have hcalls : Log.empty.Allows [Call.reset 3, .label (fun a b => decide (a < b)) [4, 7] [7, 3, 4],
      .reset 2, .label (fun a b : Nat × Nat => decide (a.1 < b.1)) [(5, 0)]
        [(9, 0), (1, 0), (5, 1)]] :=
    ⟨(by decide : 3 ≤ maxBuckets), ⟨.natural, by decide, by decide, rfl⟩,
      (by decide : 2 ≤ maxBuckets), ⟨hpairs, by simp, by decide, rfl⟩, trivial⟩
  obtain ⟨h, -, hrecords, hchecked⟩ := Histogram.calls_recorded hcalls 4
  have hcounts : h.toList = [1, 2] := by
    apply List.ext_getElem hrecords.length_eq
    intro b hb hb'
    have hcount := hrecords.count_eq b (hrecords.length_eq ▸ hb)
    rw [List.getElem?_eq_getElem hb] at hcount
    match b, hb' with
    | 0, _ => exact Option.some.inj hcount
    | 1, _ => exact Option.some.inj hcount
  refine ⟨h, hchecked fun k hk => ?_, hcounts, hrecords.total_eq,
    hrecords.unused_eq 2 _ (by decide)⟩
  match k, hk with
  | 0, _ => decide
  | 1, _ => decide
  | 2, _ => decide
  | 3, _ => decide
  | 4, _ => decide

end SampleSort
