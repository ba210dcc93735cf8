import Mathlib.Algebra.Order.Ring.Nat
import Mathlib.Data.List.Basic

/-!
# A flat memory of cells

A memory gives every address a cell. Blocks of cells are loaded and stored as lists, and a block can be
copied between two memories that agree up to a shift of the addresses.
-/

namespace CellMemory

open List

variable {α : Type}

def load (memory : Nat → α) (address count : Nat) : List α := (range count).map fun i => memory (address + i)

def store (memory : Nat → α) (address : Nat) (cells : List α) : Nat → α := fun a =>
  if address ≤ a then cells[a - address]?.getD (memory a) else memory a

variable {memory u : Nat → α} {addr a n i x y o : Nat} {cells : List α}

@[simp]
lemma length_load : (load memory addr n).length = n := by simp [load]

lemma getElem?_load (h : i < n) : (load memory addr n)[i]? = some (memory (addr + i)) := by simp [load, h]

lemma load_add (m n : Nat) : load memory addr (m + n) = load memory addr m ++ load memory (addr + m) n := by
  unfold load
  rw [range_add, map_append, map_map]
  congr 1
  apply map_congr_left
  intro i _
  rw [Function.comp_apply, add_assoc]

lemma load_congr (h : ∀ i < n, memory (x + i) = u (y + i)) : load memory x n = load u y n := by
  apply map_congr_left
  intro i hi
  exact h i (mem_range.mp hi)

lemma store_outside (h : a < addr ∨ addr + cells.length ≤ a) : store memory addr cells a = memory a := by
  unfold store
  rcases h with h | h
  · rw [if_neg (by omega)]
  · rw [if_pos (by omega), getElem?_eq_none (by omega), Option.getD_none]

lemma store_load (h : i < n) : store memory x (load u y n) (x + i) = u (y + i) := by
  rw [store, if_pos (Nat.le_add_right x i), Nat.add_sub_cancel_left, getElem?_load h, Option.getD_some]

lemma store_shift (h : memory (x + i) = u (y + i)) :
    store memory (x + o) cells (x + i) = store u (y + o) cells (y + i) := by
  unfold store
  by_cases hle : o ≤ i
  · rw [if_pos (by omega), if_pos (by omega), Nat.add_sub_add_left, Nat.add_sub_add_left, h]
  · rw [if_neg (by omega), if_neg (by omega), h]

lemma load_store (memory : Nat → α) (addr : Nat) (cells : List α) : load (store memory addr cells) addr cells.length = cells := by
  apply ext_getElem?
  intro i
  grind [load, store]

lemma store_load_self (memory : Nat → α) (addr n : Nat) : store memory addr (load memory addr n) = memory := by
  funext a
  grind [load, store]

lemma store_append (xs ys : List α) :
    store (store memory (addr + xs.length) ys) addr xs = store memory addr (xs ++ ys) := by
  funext a
  grind [store]

end CellMemory
