import UltraOS.Library.CellMemory

/-!
# Rings

A ring is a memory whose addresses are taken modulo its capacity. A window is the list of the cells from a
position on. Blocks that do not cross the end of the memory are stored behind a window, which gets longer
by them and otherwise stays as it is.
-/

namespace Ring

open List CellMemory

variable {α : Type}

def window (cells : Nat → α) (capacity start count : Nat) : List α :=
  (range count).map fun i => cells ((start + i) % capacity)

variable {cells : Nat → α} {capacity start n o : Nat}

@[simp]
lemma length_window : (window cells capacity start n).length = n := by simp [window]

lemma window_add (m n : Nat) : window cells capacity start (m + n) =
    window cells capacity start m ++ window cells capacity ((start + m) % capacity) n := by
  unfold window
  rw [range_add, map_append, map_map]
  congr 1
  apply map_congr_left
  intro i _
  rw [Function.comp_apply, Nat.mod_add_mod, add_assoc]

lemma load_eq_window (h : start + n ≤ capacity) : load cells start n = window cells capacity start n := by
  apply map_congr_left
  intro i hi
  have hlt := mem_range.mp hi
  rw [Nat.mod_eq_of_lt (by omega)]

lemma add_mod_ne {i j : Nat} (hij : i < j) (hj : j < capacity + i) :
    (start + i) % capacity ≠ (start + j) % capacity := by
  intro heq
  have hdvd : (start + j - (start + i)) % capacity = 0 := Nat.sub_mod_eq_zero_of_mod_eq heq.symm
  rw [Nat.add_sub_add_left, Nat.mod_eq_of_lt (by omega)] at hdvd
  omega

variable {data : List α}

lemma window_store {behind : Nat} (hn : n ≤ behind) (hcap : behind + data.length ≤ capacity) :
    window (store cells ((start + behind) % capacity) data) capacity start n = window cells capacity start n := by
  apply map_congr_left
  intro i hi
  have hlt := mem_range.mp hi
  apply store_outside
  by_contra hin
  have hle : (start + behind) % capacity ≤ (start + i) % capacity := by omega
  have hless : (start + i) % capacity - (start + behind) % capacity < data.length := by omega
  -- The address would be the one of a cell of the block.
  have hmod : (start + (behind + ((start + i) % capacity - (start + behind) % capacity))) % capacity =
      (start + i) % capacity := by
    rw [← add_assoc, ← Nat.mod_add_mod, Nat.add_sub_cancel' hle, Nat.mod_mod]
  exact add_mod_ne (by omega) (by omega) hmod.symm

lemma window_store_self (hfits : o + data.length ≤ capacity) :
    window (store cells o data) capacity o data.length = data := by
  rw [← load_eq_window hfits]
  apply ext_getElem?
  intro i
  by_cases hi : i < data.length
  · rw [getElem?_load hi, store, if_pos le_self_add, Nat.add_sub_cancel_left, getElem?_eq_getElem hi, Option.getD_some]
  · rw [getElem?_eq_none (by simpa using hi), getElem?_eq_none (by omega)]

end Ring
