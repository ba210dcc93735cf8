import Mathlib.Data.List.Induction
import UltraOS.Common.LowerBound

/-!
# Sorting in place

`quick_sort` and `insertion_sort` of `Kernel/Common/Utilities.h`. The array is a list and a pointer into it
is an index, so a part that is sorted is given by the indices of its two ends.
-/

namespace UltraOS

open List

variable {α : Type} (less : α → α → Bool)

def swap (array : List α) (i j : Nat) : Run (List α) :=
  match array[i]?, array[j]? with
  | some x, some y => .ok ((array.set i y).set j x)
  | _, _ => .error .badPointer

/-- The loop of `do_partition`. The pivot is a reference, so it is read again each time, and `smallest` is
one more than `smallest_index`, which is negative at first. -/
def partitionLoop (last : Nat) : (remaining i smallest : Nat) → List α → Run (List α × Nat)
  | 0, _, smallest, array => .ok (array, smallest)
  | remaining + 1, i, smallest, array =>
    match array[i]?, array[last]? with
    | some x, some pivot =>
      if less x pivot then do
        let array ← swap array smallest i
        partitionLoop last remaining (i + 1) (smallest + 1) array
      else partitionLoop last remaining (i + 1) smallest array
    | _, _ => .error .badPointer

def doPartition (begin stop : Nat) (array : List α) : Run (List α × Nat) := do
  let last := stop - 1
  let (array, smallest) ← partitionLoop less last (last - begin) begin begin array
  let array ← swap array smallest last
  return (array, smallest)

def doQuickSort : (fuel begin stop : Nat) → List α → Run (List α)
  | 0, _, _, _ => .error .outOfFuel
  | fuel + 1, begin, stop, array =>
    if stop - begin < 2 then return array
    else do
      let (array, pivot) ← doPartition less begin stop array
      let array ← doQuickSort fuel begin pivot array
      doQuickSort fuel (pivot + 1) stop array

def quickSort (array : List α) : Run (List α) := doQuickSort less (array.length + 1) 0 array.length array

def sinkLoop : (j : Nat) → List α → Run (List α)
  | 0, array => .ok array
  | j + 1, array =>
    match array[j + 1]?, array[j]? with
    | some x, some y =>
      if less x y then do
        let array ← swap array (j + 1) j
        sinkLoop j array
      else .ok array
    | _, _ => .error .badPointer

def insertionLoop : (remaining i : Nat) → List α → Run (List α)
  | 0, _, array => .ok array
  | remaining + 1, i, array => do
    let array ← sinkLoop less i array
    insertionLoop remaining (i + 1) array

def insertionSort (array : List α) : Run (List α) :=
  if array.length < 2 then .ok array else insertionLoop less array.length 0 array

def Sorted (array : List α) : Prop := array.Pairwise fun x y => less y x = false

def equivalent (a x : α) : Bool := !less a x && !less x a

variable {less} {x pivot : α}

lemma sorted_of_length_lt {array : List α} (hshort : array.length < 2) : Sorted less array := by
  rcases array with _ | ⟨x, _ | ⟨y, ts⟩⟩
  · exact .nil
  · exact pairwise_singleton _ x
  · rw [length_cons, length_cons] at hshort
    omega

lemma swap_front (xs ys large : List α) (x : α) : ∃ large', large'.Perm large ∧
    swap (xs ++ large ++ x :: ys) xs.length (xs ++ large).length = .ok (xs ++ [x] ++ large' ++ ys) := by
  cases large with
  | nil => exact ⟨[], .refl _, by simp [swap]⟩
  | cons y large => exact ⟨large ++ [y], perm_append_singleton y large, by simp [swap]⟩

lemma partitionLoop_spec (xs ys ts small large : List α) (hsmall : ∀ x ∈ small, less x pivot = true)
    (hlarge : ∀ x ∈ large, less x pivot = false) : ∃ small' large',
    partitionLoop less (xs ++ small ++ large ++ ts).length ts.length (xs ++ small ++ large).length
      (xs ++ small).length (xs ++ small ++ large ++ ts ++ pivot :: ys) =
      .ok (xs ++ small' ++ large' ++ pivot :: ys, (xs ++ small').length) ∧
    (small' ++ large').Perm (small ++ large ++ ts) ∧ (∀ x ∈ small', less x pivot = true) ∧
    ∀ x ∈ large', less x pivot = false := by
  induction ts generalizing small large with
  | nil => exact ⟨small, large, by simp [partitionLoop], by simp, hsmall, hlarge⟩
  | cons x ts ih =>
    have hx : (xs ++ small ++ large ++ x :: ts ++ pivot :: ys)[(xs ++ small ++ large).length]? =
      some x := by simp
    have hpivot : (xs ++ small ++ large ++ x :: ts ++ pivot :: ys)[
      (xs ++ small ++ large ++ x :: ts).length]? = some pivot := by simp
    simp only [length_cons, partitionLoop, hx, hpivot]
    split
    · rename_i hless
      obtain ⟨large', hlarge', hswap⟩ := swap_front (xs ++ small) (ts ++ pivot :: ys) large x
      obtain ⟨small', large'', hrun, hperm, hdone⟩ := ih (small ++ [x]) large'
        (by simpa [or_imp, forall_and] using ⟨hsmall, hless⟩) fun y hy => hlarge y (hlarge'.mem_iff.mp hy)
      refine ⟨small', large'', ?_, hperm.trans ?_, hdone⟩
      · have hlen := hlarge'.length_eq
        simp only [append_assoc, cons_append, nil_append, length_append, length_cons, length_nil] at hswap hrun ⊢
        rw [hswap, ok_bind, ← hrun]
        congr 1 <;> omega
      · simpa using (hlarge'.append_right ts).cons x |>.trans perm_middle.symm |>.append_left small
    · rename_i hge
      obtain ⟨small', large', hrun, hperm, hdone⟩ := ih small (large ++ [x]) hsmall
        (by simpa [or_imp, forall_and] using ⟨hlarge, Bool.eq_false_iff.mpr hge⟩)
      exact ⟨small', large', by simpa [add_assoc, add_comm 1] using hrun, by simpa using hperm, hdone⟩

lemma doPartition_spec (xs ys part : List α) (hpart : 2 ≤ part.length) : ∃ small pivot large,
    doPartition less xs.length (xs.length + part.length) (xs ++ part ++ ys) =
    .ok (xs ++ small ++ pivot :: large ++ ys, xs.length + small.length) ∧
    (small ++ pivot :: large).Perm part ∧ (∀ x ∈ small, less x pivot = true) ∧ ∀ x ∈ large, less x pivot = false := by
  have hne : part ≠ [] := ne_nil_of_length_pos (by omega)
  obtain ⟨ts, pivot, rfl⟩ : ∃ ts pivot, part = ts ++ [pivot] := ⟨_, _, (dropLast_concat_getLast hne).symm⟩
  obtain ⟨small, large, hrun, hperm, hsmall, hlarge⟩ := partitionLoop_spec xs ys ts [] []
    (by simp : ∀ x ∈ [], less x pivot = true) (by simp)
  obtain ⟨large', hlarge', hswap⟩ := swap_front (xs ++ small) ys large pivot
  refine ⟨small, pivot, large', ?_, ?_, hsmall, fun x hx => hlarge x (hlarge'.mem_iff.mp hx)⟩
  · have hlen : ts.length = small.length + large.length := by simpa using hperm.length_eq.symm
    have hlast : xs.length + (ts ++ [pivot]).length - 1 = xs.length + ts.length := by simp
    simp only [append_nil, append_assoc, cons_append, nil_append, length_append, ← hlen] at hswap hrun
    simp only [doPartition, hlast, Nat.add_sub_cancel_left, append_assoc, cons_append, nil_append, hrun, ok_bind, hswap]
    rfl
  · exact (perm_middle.trans ((hlarge'.append_left small).trans hperm |>.cons pivot)).trans
      (perm_append_singleton pivot ts).symm

lemma doQuickSort_spec (h : StrictWeakOrder less) (n : Nat) (xs part ys : List α)
    (hn : part.length < n) : ∃ part', doQuickSort less n xs.length (xs.length + part.length)
      (xs ++ part ++ ys) = .ok (xs ++ part' ++ ys) ∧ part'.Perm part ∧ Sorted less part' := by
  induction n generalizing xs part ys with
  | zero => omega
  | succ n ih =>
    rw [doQuickSort]
    split
    · rename_i hshort
      exact ⟨part, rfl, .refl _, sorted_of_length_lt (by omega)⟩
    · rename_i hlong
      obtain ⟨small, pivot, large, hrun, hperm, hsmall, hlarge⟩ : ∃ _, _ := doPartition_spec xs ys part (by omega)
      have hlen := hperm.length_eq
      rw [length_append, length_cons] at hlen
      obtain ⟨small', hrun1, hperm1, hsorted1⟩ := ih xs small (pivot :: large ++ ys) (by omega)
      obtain ⟨large', hrun2, hperm2, hsorted2⟩ := ih (xs ++ small' ++ [pivot]) large ys (by omega)
      refine ⟨small' ++ pivot :: large', ?_, (hperm1.append (hperm2.cons pivot)).trans hperm, ?_⟩
      · have hlen1 := hperm1.length_eq
        simp only [append_assoc, cons_append, nil_append, length_append, length_cons, length_nil] at hrun hrun1 hrun2 ⊢
        rw [hrun, ok_bind]
        simp only [hrun1, ok_bind]
        rw [← hrun2, hlen1, ← hlen]
        congr 1
        omega
      · refine pairwise_append.mpr ⟨hsorted1, pairwise_cons.mpr ⟨fun x hx => ?_, hsorted2⟩, fun x hx y hy => ?_⟩
        · exact hlarge x (hperm2.mem_iff.mp hx)
        · have hx := hsmall x (hperm1.mem_iff.mp hx)
          rcases mem_cons.mp hy with rfl | hy
          · exact h.asymm hx
          · have hy := Bool.eq_false_iff.mp (hlarge y (hperm2.mem_iff.mp hy))
            exact Bool.eq_false_iff.mpr fun hlt => hy (h.trans y x pivot hlt hx)

lemma sinkLoop_spec (h : StrictWeakOrder less) (xs ys : List α) (x : α) (hsort : Sorted less xs) :
    ∃ low high, xs = low ++ high ∧ sinkLoop less xs.length (xs ++ x :: ys) =
    .ok (low ++ x :: high ++ ys) ∧ (∀ y ∈ low, less x y = false) ∧ ∀ y ∈ high, less x y = true := by
  induction xs using reverseRecOn generalizing ys with
  | nil => exact ⟨[], [], rfl, rfl, by simp, by simp⟩
  | append_singleton xs y ih =>
    obtain ⟨hfront, -, hle⟩ := pairwise_append.mp hsort
    have hx : (xs ++ [y] ++ x :: ys)[xs.length + 1]? = some x := by simp
    have hy : (xs ++ [y] ++ x :: ys)[xs.length]? = some y := by simp
    simp only [length_append, length_cons, length_nil, zero_add, sinkLoop, hx, hy]
    split
    · rename_i hless
      obtain ⟨low, high, hcut, hrun, hlow, hhigh⟩ := ih (y :: ys) hfront
      refine ⟨low, high ++ [y], by rw [hcut, append_assoc], ?_, hlow, ?_⟩
      · have hswap : swap (xs ++ [y] ++ x :: ys) (xs.length + 1) xs.length = .ok (xs ++ x :: y :: ys) := by simp [swap]
        rw [hswap, ok_bind, hrun]
        simp
      · simpa [or_imp, forall_and] using ⟨hhigh, hless⟩
    · rename_i hge
      refine ⟨xs ++ [y], [], by simp, by simp, fun z hz => ?_, by simp⟩
      rcases mem_append.mp hz with hz | hz
      · refine Bool.eq_false_iff.mpr fun hlt => ?_
        exact (h.split x y z hlt).elim hge (Bool.eq_false_iff.mp (hle z hz y (mem_singleton_self y)))
      · exact mem_singleton.mp hz ▸ Bool.eq_false_iff.mpr hge

/-- Sorted, with the same elements, and those that are equivalent in the same order. -/
structure SortsStably (less : α → α → Bool) (array result : List α) : Prop where
  perm : result.Perm array
  sorted : Sorted less result
  stable : ∀ a, result.filter (equivalent less a) = array.filter (equivalent less a)

lemma sinks (h : StrictWeakOrder less) {xs : List α} (hsort : Sorted less xs) (ys : List α) (x : α) : ∃ front',
    sinkLoop less xs.length (xs ++ x :: ys) = .ok (front' ++ ys) ∧ SortsStably less (xs ++ [x]) front' := by
  obtain ⟨low, high, rfl, hrun, hlow, hhigh⟩ := sinkLoop_spec h xs ys x hsort
  obtain ⟨hsorted1, hsorted2, hle⟩ := pairwise_append.mp hsort
  refine ⟨low ++ x :: high, hrun, ?_, ?_, fun a => ?_⟩
  · rw [append_assoc]
    exact (perm_append_singleton x high).symm.append_left low
  · refine pairwise_append.mpr ⟨hsorted1, pairwise_cons.mpr ⟨fun y hy => h.asymm (hhigh y hy), hsorted2⟩,
      fun y hy z hz => ?_⟩
    rcases mem_cons.mp hz with rfl | hz
    · exact hlow y hy
    · exact hle y hy z hz
  · simp only [filter_append, filter_cons, filter_nil, append_assoc]
    split
    · rename_i hequiv
      -- nothing it has passed is equivalent to it
      have hnil : high.filter (equivalent less a) = [] := by
        refine filter_eq_nil_iff.mpr fun y hy hother => ?_
        simp only [equivalent, Bool.and_eq_true, Bool.not_eq_true'] at hequiv hother
        exact (h.split x a y (hhigh y hy)).elim (Bool.eq_false_iff.mp hequiv.2) (Bool.eq_false_iff.mp hother.1)
      rw [hnil]
      rfl
    · rw [append_nil]

lemma insertionLoop_spec (h : StrictWeakOrder less) (ts xs : List α) (hsort : Sorted less xs) : ∃ res,
    insertionLoop less ts.length xs.length (xs ++ ts) = .ok res ∧ SortsStably less (xs ++ ts) res := by
  induction ts generalizing xs with
  | nil => exact ⟨xs ++ [], rfl, .refl _, by rwa [append_nil], fun _ => rfl⟩
  | cons x ts ih =>
    obtain ⟨front', hrun, hsorts⟩ := sinks h hsort ts x
    obtain ⟨res, hrest, hperm, hres, hstable⟩ := ih front' hsorts.sorted
    have hlen := hsorts.perm.length_eq
    rw [length_append, length_singleton] at hlen
    refine ⟨res, ?_, ?_, hres, fun a => ?_⟩
    · rw [length_cons, insertionLoop, hrun, ok_bind, ← hlen, hrest]
    · simpa using hperm.trans (hsorts.perm.append_right ts)
    · rw [hstable, filter_append, hsorts.stable, ← filter_append, append_assoc, singleton_append]

lemma insertionSort_spec (h : StrictWeakOrder less) (array : List α) :
    ∃ res, insertionSort less array = .ok res ∧ SortsStably less array res := by
  rw [insertionSort]
  split
  · rename_i hshort
    exact ⟨array, rfl, .refl _, sorted_of_length_lt hshort, fun _ => rfl⟩
  · exact insertionLoop_spec h array [] .nil

/-- Both sorts end with a sorted permutation, and insertion sort is stable. -/
theorem sorts (h : StrictWeakOrder less) (array : List α) : (∃ res, quickSort less array = .ok res ∧ res.Perm array ∧
    Sorted less res) ∧ ∃ res, insertionSort less array = .ok res ∧ SortsStably less array res := by
  constructor
  · obtain ⟨res, hrun, hperm, hsort⟩ := doQuickSort_spec h (array.length + 1) [] array [] (by omega)
    exact ⟨res, by simpa [quickSort] using hrun, hperm, hsort⟩
  · exact insertionSort_spec h array

theorem sorts_nat : (∃ res, quickSort (fun a b : Nat => decide (a < b)) [3, 1, 2] = .ok res ∧ res.Perm [3, 1, 2] ∧
    Sorted (fun a b => decide (a < b)) res) ∧ ∃ res, insertionSort (fun a b : Nat => decide (a < b)) [3, 1, 2] =
    .ok res ∧ SortsStably (fun a b => decide (a < b)) [3, 1, 2] res :=
  sorts ⟨by simp, by simp only [decide_eq_true_eq]; omega, by simp only [decide_eq_true_eq]; omega⟩ _

end UltraOS
