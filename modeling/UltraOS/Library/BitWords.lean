import Mathlib.Algebra.Order.Ring.Nat
import Mathlib.Data.List.Basic

/-!
# Bits in an array of machine words

The words of a bitmap seen as one row of bits, the lowest bit of the first word first. A bit is written by
an operation on the word that holds it.
-/

namespace BitWords

open BitVec

variable {w : Nat}

def bit (words : List (BitVec w)) (k : Nat) : Bool := (words.getD (k / w) 0#w).getLsbD (k % w)

def writeBit (word : BitVec w) (b : Nat) (value : Bool) : BitVec w :=
  if value then word ||| 1#w <<< b else word &&& ~~~(1#w <<< b)

def Clear (words : List (BitVec w)) (first last : Nat) : Prop := ∀ k, first ≤ k → k < last → bit words k = false

variable {words : List (BitVec w)} {word : BitVec w} {b i j k first last : Nat} {v : Bool}

lemma getLsbD_writeBit (hj : j < w) : (writeBit word b v).getLsbD j = if j = b then v else word.getLsbD j := by
  have hmask : (1#w <<< b).getLsbD j = decide (j = b) := by
    rw [getLsbD_shiftLeft, getLsbD_one, Bool.eq_iff_iff]
    simp only [Bool.and_eq_true, Bool.not_eq_true', decide_eq_true_iff, decide_eq_false_iff_not]
    omega
  cases v with
  | true =>
    rw [writeBit, if_pos rfl, getLsbD_or, hmask]
    split
    · rename_i heq
      rw [decide_eq_true heq, Bool.or_true]
    · rename_i hne
      rw [decide_eq_false hne, Bool.or_false]
  | false =>
    rw [writeBit, if_neg (by simp), getLsbD_and, getLsbD_not, hmask, decide_eq_true hj, Bool.true_and]
    split
    · rename_i heq
      rw [decide_eq_true heq, Bool.not_true, Bool.and_false]
    · rename_i hne
      rw [decide_eq_false hne, Bool.not_false, Bool.and_true]

lemma bit_of_getElem? (hword : words[i]? = some word) (hb : b < w) : bit words (w * i + b) = word.getLsbD b := by
  have hw : 0 < w := lt_of_le_of_lt (Nat.zero_le b) hb
  rw [bit, Nat.mul_add_div hw, Nat.div_eq_of_lt hb, add_zero, Nat.mul_add_mod, Nat.mod_eq_of_lt hb,
    List.getD_eq_getElem?_getD, hword, Option.getD_some]

lemma bit_set (hword : words[i]? = some word) (hb : b < w) (k : Nat) :
    bit (words.set i (writeBit word b v)) k = if k = w * i + b then v else bit words k := by
  have hw : 0 < w := lt_of_le_of_lt (Nat.zero_le b) hb
  have hi : i < words.length := (List.getElem?_eq_some_iff.mp hword).1
  have hk := Nat.div_add_mod k w
  have hlt := Nat.mod_lt k hw
  by_cases heq : k / w = i
  · have hset : (words.set i (writeBit word b v))[i]? = some (writeBit word b v) := by rw [List.getElem?_set_self hi]
    rw [← hk, heq, bit_of_getElem? hset hlt, bit_of_getElem? hword hlt, getLsbD_writeBit hlt]
    simp only [Nat.add_left_cancel_iff]
  · rw [bit, List.getD_eq_getElem?_getD, List.getElem?_set_ne (Ne.symm heq), ← List.getD_eq_getElem?_getD, if_neg]
    · rfl
    · intro heq'
      rw [heq', Nat.mul_add_div hw, Nat.div_eq_of_lt hb] at heq
      exact heq rfl

lemma bit_replicate (n k : Nat) : bit (List.replicate n 0#w) k = false := by
  have hzero : (List.replicate n 0#w).getD (k / w) 0#w = 0#w := by
    rw [List.getD_eq_getElem?_getD, List.getElem?_replicate]
    split
    · rfl
    · rfl
  rw [bit, hzero, getLsbD_zero]

lemma getLsbD_of_clz_le (hj : w - word.clz.toNat ≤ j) : word.getLsbD j = false := by
  rw [getLsbD]
  exact Nat.testBit_lt_two_pow (toNat_lt_two_pow_sub_clz.trans_le (Nat.pow_le_pow_right (by decide) hj))

lemma clz_lt (h : word ≠ 0#w) : word.clz.toNat < w := by
  have hlt := clz_lt_iff_ne_zero.mpr h
  have hw : w < 2 ^ w := Nat.lt_two_pow_self
  rwa [lt_def, natCast_eq_ofNat, toNat_ofNat, Nat.mod_eq_of_lt hw] at hlt

end BitWords
