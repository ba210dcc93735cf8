import UltraOS.Base.Fault

/-!
# Binary search

`lower_bound` of `Kernel/Common/Utilities.h`. The array is a list, an iterator into it is an index,
and the iterator behind the last element is the length. The comparator comes as two functions, since
the key and the elements may be of different types.
-/

namespace UltraOS

variable {α κ : Type} (keyLess : κ → α → Bool) (lessKey : α → κ → Bool)

/-- The loop. `rightEnd` is one more than `right`, which is negative in front of the array. -/
def lowerBoundLoop (array : List α) (key : κ) : (fuel left rightEnd lowerBound : Nat) → Run Nat
  | 0, _, _, _ => .error .outOfFuel
  | fuel + 1, left, rightEnd, lowerBound =>
    if left < rightEnd then
      let pivot := left + (rightEnd - 1 - left) / 2
      match array[pivot]? with
      | none => .error .badPointer
      | some pivotValue =>
        if keyLess key pivotValue then lowerBoundLoop array key fuel left pivot pivot
        else if lessKey pivotValue key then
          lowerBoundLoop array key fuel (pivot + 1) rightEnd lowerBound
        else .ok pivot
    else .ok lowerBound

def lowerBound (array : List α) (key : κ) : Run Nat :=
  if array.length = 0 then .ok array.length
  else lowerBoundLoop keyLess lessKey array key (array.length + 1) 0 array.length array.length

/-- The key splits the array: first come smaller elements, then equal ones, then greater ones. -/
structure Splits (array : List α) (key : κ) : Prop where
  less : ∀ (i j : Nat) (x y : α), i < j → array[i]? = some x → array[j]? = some y →
    lessKey y key = true → lessKey x key = true
  greater : ∀ (i j : Nat) (x y : α), i < j → array[i]? = some x → array[j]? = some y →
    keyLess key x = true → keyLess key y = true

/-- Where the search may stop: at an element that equals the key, or between the smaller and the
greater elements if there is none. -/
def Bounds (array : List α) (key : κ) (index : Nat) : Prop :=
  (∃ x, array[index]? = some x ∧ keyLess key x = false ∧ lessKey x key = false) ∨
    (∀ (i : Nat) (x : α), i < index → array[i]? = some x → lessKey x key = true) ∧
      ∀ (i : Nat) (x : α), index ≤ i → array[i]? = some x → keyLess key x = true

variable {keyLess lessKey} {array : List α} {key : κ}

lemma splits_of_pairwise (h : array.Pairwise fun x y => (lessKey y key = true → lessKey x key = true) ∧
    (keyLess key x = true → keyLess key y = true)) : Splits keyLess lessKey array key := by
  rw [List.pairwise_iff_getElem] at h
  refine ⟨fun i j x y hij hx hy => ?_, fun i j x y hij hx hy => ?_⟩
  all_goals
    obtain ⟨hi, rfl⟩ := List.getElem?_eq_some_iff.mp hx
    obtain ⟨hj, rfl⟩ := List.getElem?_eq_some_iff.mp hy
  · exact (h i j hi hj hij).1
  · exact (h i j hi hj hij).2

/-- What the comparators of the kernel have to be. -/
structure StrictWeakOrder {α : Type} (less : α → α → Bool) : Prop where
  irrefl : ∀ a, less a a = false
  trans : ∀ a b c, less a b = true → less b c = true → less a c = true
  split : ∀ a b c, less a c = true → less a b = true ∨ less b c = true

lemma StrictWeakOrder.asymm {less : α → α → Bool} (h : StrictWeakOrder less) {x y : α}
    (hlt : less x y = true) : less y x = false :=
  Bool.eq_false_iff.mpr fun hgt => Bool.eq_false_iff.mp (h.irrefl x) (h.trans x y x hlt hgt)

lemma StrictWeakOrder.splits {less : α → α → Bool} (h : StrictWeakOrder less) (key : α)
    (hsort : array.Pairwise fun x y => less y x = false) : Splits less less array key := by
  refine splits_of_pairwise (hsort.imp fun {x y} hle => ⟨fun hlt => ?_, fun hlt => ?_⟩)
  · exact (h.split y x key hlt).resolve_left (Bool.eq_false_iff.mp hle)
  · exact (h.split key y x hlt).resolve_right (Bool.eq_false_iff.mp hle)

lemma lowerBoundLoop_spec (h : Splits keyLess lessKey array key) (n left right : Nat) (hn : right < left + n)
    (hle : left ≤ right) (hright : right ≤ array.length) (hleft : ∀ (i : Nat) (x : α), i < left → array[i]? = some x →
    lessKey x key = true) (hgreater : ∀ (i : Nat) (x : α), right ≤ i → array[i]? = some x → keyLess key x = true) : ∃ j,
    lowerBoundLoop keyLess lessKey array key n left right right = .ok j ∧ j ≤ array.length ∧
    Bounds keyLess lessKey array key j := by
  induction n generalizing left right with
  | zero => omega
  | succ n ih =>
    rw [lowerBoundLoop]
    by_cases hlt : left < right
    · have hlow : left ≤ left + (right - 1 - left) / 2 := by omega
      have hpivot : left + (right - 1 - left) / 2 < right := by omega
      rw [if_pos hlt]
      generalize left + (right - 1 - left) / 2 = pivot at hlow hpivot ⊢
      have hlen : pivot < array.length := by omega
      have hget : array[pivot]? = some array[pivot] := List.getElem?_eq_getElem hlen
      generalize array[pivot] = v at hget
      simp only [hget]
      by_cases hkey : keyLess key v = true
      · rw [if_pos hkey]
        refine ih left pivot (by omega) hlow (by omega) hleft ?_
        intro i x hi hx
        rcases lt_or_eq_of_le hi with hi | rfl
        · exact h.greater pivot i v x hi hget hx hkey
        · rwa [← Option.some.inj (hget.symm.trans hx)]
      · rw [if_neg hkey]
        by_cases hv : lessKey v key = true
        · rw [if_pos hv]
          refine ih (pivot + 1) right (by omega) hpivot hright ?_ hgreater
          intro i x hi hx
          rcases lt_or_eq_of_le (Nat.le_of_lt_succ hi) with hi | rfl
          · exact h.less i pivot x v hi hx hget hv
          · rwa [← Option.some.inj (hget.symm.trans hx)]
        · rw [if_neg hv]
          exact ⟨pivot, rfl, by omega, Or.inl ⟨v, hget, eq_false_of_ne_true hkey, eq_false_of_ne_true hv⟩⟩
    · have heq : left = right := by omega
      rw [if_neg hlt]
      refine ⟨right, rfl, hright, Or.inr ⟨?_, hgreater⟩⟩
      rwa [← heq]

lemma lowerBound_spec (h : Splits keyLess lessKey array key) : ∃ j, lowerBound keyLess lessKey array key =
    .ok j ∧ j ≤ array.length ∧ Bounds keyLess lessKey array key j := by
  unfold lowerBound
  split
  · rename_i hempty
    refine ⟨array.length, rfl, le_rfl, Or.inr ⟨?_, ?_⟩⟩
    · intro i x hi
      omega
    · intro i x hi hx
      rw [List.getElem?_eq_none hi] at hx
      cases hx
  · refine lowerBoundLoop_spec h _ _ _ (by omega) zero_le le_rfl ?_ ?_
    · intro i x hi
      omega
    · intro i x hi hx
      rw [List.getElem?_eq_none hi] at hx
      cases hx

end UltraOS
