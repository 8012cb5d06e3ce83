import Mathlib.Tactic.Lemma
import SampleSort.Sample
import SampleSort.Small.Insertion
import SampleSort.Splitter.Choice

set_option relaxedAutoImplicit false
set_option autoImplicit false

/-!
# Small windows and samples, element by element

The sort moves elements and compares them, and does nothing else with them. If they are compared
by their keys, it therefore makes no difference whether keys are taken before it or after it. Here
this is proved for small windows and for samples: the same comparisons are made in both cases, and
the results correspond.

## Main definitions

* `SampleSort.byKey` — elements are compared by their keys.

## Main results

* `SampleSort.sortSmall_map` — sorting a small window and taking keys commute.
* `SampleSort.drawSample_map` — so do drawing a sample and taking keys,
* `SampleSort.chooseSplitters_map` — and choosing splitters from it and taking keys.
-/

namespace SampleSort

variable {α β σ : Type} {less : β → β → Bool} {key : α → β}

/-- Elements are compared by their keys. -/
def byKey (less : β → β → Bool) (key : α → β) (a b : α) : Bool :=
  less (key a) (key b)

/-- To ask for elements is to ask for their keys. -/
@[simp] lemma ask_byKey (a b : α) :
    Counted.ask (byKey less key) a b = Counted.ask less (key a) (key b) :=
  rfl

/-! ### Windows that are resolved at a glance -/

/-- Neighbours are asked about by their keys. -/
lemma allNeighbours_map (r : β → β → Counted Bool) (v : List α) :
    allNeighbours r (v.map key) = allNeighbours (fun a b => r (key a) (key b)) v := by
  match v with
  | [] => rfl
  | [a] => rfl
  | a :: b :: rest =>
    simp only [List.map_cons, allNeighbours]
    congr 1
    funext holds
    cases holds with
    | false => rfl
    | true => exact allNeighbours_map r (b :: rest)

namespace Shape

/-- A window has the shape of its keys. -/
@[simp] lemma detect_map (v : List α) : detect less (v.map key) = detect (byKey less key) v := by
  cases v with
  | nil => rfl
  | cons first rest =>
    have hlast : (rest.map key).getLastD (key first) = key (rest.getLastD first) := by
      rw [List.getLastD_eq_getLast?, List.getLastD_eq_getLast?, List.getLast?_map]
      cases rest.getLast? <;> rfl
    simp only [List.map_cons, detect, hlast, ask_byKey]
    simp only [← List.map_cons, allNeighbours_map]

/-- Putting a window in order does not depend on its elements. -/
@[simp] lemma arrange_map (shape : Shape) (v : List α) :
    shape.arrange (v.map key) = (shape.arrange v).map key := by
  cases shape <;> simp [arrange]

end Shape

/-! ### Sorting by insertion -/

/-- An element is put where its key is put. -/
@[simp] lemma insertBack_map (x : α) (ys : List α) :
    insertBack less (key x) (ys.map key) = List.map key <$> insertBack (byKey less key) x ys := by
  induction ys with
  | nil => rfl
  | cons y ys ih =>
    simp only [List.map_cons, insertBack, ask_byKey, map_bind]
    congr 1
    funext precedes
    cases precedes <;> simp [ih]

/-- Sorting by insertion and taking keys commute. -/
@[simp] lemma insertionSort_map (v : List α) :
    insertionSort less (v.map key) = List.map key <$> insertionSort (byKey less key) v := by
  have h : ∀ sorted : List α,
      (v.map key).foldlM (fun sorted x => insertBack less x sorted) (sorted.map key) =
        List.map key <$>
          v.foldlM (fun sorted x => insertBack (byKey less key) x sorted) sorted := by
    induction v with
    | nil => simp
    | cons x v ih => simp [ih]
  have h₀ := h []
  rw [List.map_nil] at h₀
  simp [insertionSort, h₀]

/-- Sorting a small window and taking keys commute. -/
@[simp] lemma sortSmall_map (v : List α) :
    sortSmall less (v.map key) = List.map key <$> sortSmall (byKey less key) v := by
  simp only [sortSmall, Shape.detect_map, map_bind]
  congr 1
  funext shape
  cases shape <;> simp

/-! ### Samples -/

/-- Two elements change places as their keys do. -/
@[simp] lemma exchangeHead_map (offset : Nat) (v : List α) :
    exchangeHead offset (v.map key) = (exchangeHead offset v).map key := by
  cases v with
  | nil => rfl
  | cons x rest =>
    cases offset with
    | zero => rfl
    | succ j =>
      simp only [List.map_cons, exchangeHead, List.getElem?_map]
      cases rest[j]? <;> simp [List.map_set]

/-- So do several of them. -/
@[simp] lemma exchangedFrom_map (i : Nat) (js : List Nat) (v : List α) :
    exchangedFrom i js (v.map key) = (exchangedFrom i js v).map key := by
  induction js generalizing i v with
  | nil => rfl
  | cons j js ih =>
    rw [exchangedFrom, exchangedFrom, exchangeHead_map]
    cases exchangeHead (j - i) v with
    | nil => rfl
    | cons y rest => simp [ih]

/-- Drawing a sample and taking keys commute. -/
lemma drawSample_map [IndexSource σ] (k : Nat) (v : List α) (source : σ) :
    drawSample k (v.map key) source =
      Prod.map (List.map key) id <$> drawSample k v source := by
  simp [drawSample, exchanged]

/-- The keys of the splitters are the splitters of the keys. -/
lemma spacedFrom_map (less : β → β → Bool) (key : α → β) (stride skip limit : Nat)
    (last : Option α) (sample : List α) :
    spacedFrom less stride skip limit (last.map key) (sample.map key) =
      List.map key <$> spacedFrom (byKey less key) stride skip limit last sample := by
  fun_induction spacedFrom (byKey less key) stride skip limit last sample with
  | case1 => simp [spacedFrom]
  | case2 _ _ _ _ _ ih => simpa [spacedFrom] using ih
  | case3 => simp [spacedFrom]
  | case4 limit x rest ih =>
    simp only [Option.map_some] at ih
    simp [spacedFrom, ih]
  | case5 limit last x rest ih₁ ih₂ =>
    simp only [Option.map_some] at ih₁ ih₂
    simp only [Option.map_some, List.map_cons, spacedFrom, ask_byKey, map_bind]
    congr 1
    funext greater
    cases greater <;> simp [ih₁, ih₂]

/-- Choosing splitters and taking keys commute. -/
@[simp] lemma chooseSplitters_map (stride limit : Nat) (sample : List α) :
    chooseSplitters less stride limit (sample.map key) =
      List.map key <$> chooseSplitters (byKey less key) stride limit sample := by
  have h := spacedFrom_map less key stride (stride - 1) limit none sample
  rw [Option.map_none] at h
  simp only [chooseSplitters, h, map_bind, bind_map_left]
  congr 1
  funext splitters
  cases splitters with
  | nil =>
    simp only [List.map_nil, List.getElem?_map, List.length_map, map_pure]
    cases sample[sample.length / 2]? <;> rfl
  | cons s splitters => simp

end SampleSort
