import Mathlib.Data.Nat.Digits.Defs
import UltraOS.Base.Fault

/-!
# Integers as text

`to_string` of `Kernel/Common/Conversions.h`. The buffer is a list of characters, of which `max_size` is the
length, and a store behind its end is a fault. A value is an integer that its type holds, and the negation
is the only step whose result the type may not hold.
-/

namespace UltraOS.Conversions

open List Nat

structure IntegralType where
  signed : Bool
  width : Nat

variable (type : IntegralType)

def IntegralType.half : Nat := 1 <<< (type.width - 1)

def IntegralType.Holds (value : Int) : Prop :=
  if type.signed then -type.half ≤ value ∧ value < type.half else 0 ≤ value ∧ value < 2 * type.half

instance (value : Int) : Decidable (type.Holds value) := by
  unfold IntegralType.Holds
  infer_instance

def IntegralType.negate (value : Int) : Int := (-value).bmod (2 * type.half)

def store (string : List Char) (i : Nat) (c : Char) : Run (List Char) :=
  if i < string.length then .ok (string.set i c) else .error .badPointer

def storeIf (condition : Bool) (string : List Char) (i : Nat) (c : Char) : Run (List Char) :=
  if condition then store string i c else .ok string

def nul : Char := Char.ofNat 0

def sizeLoop : (fuel : Nat) → (copy : Int) → (requiredSize : Nat) → Run Nat
  | 0, _, _ => .error .outOfFuel
  | fuel + 1, copy, requiredSize =>
    if copy = 0 then .ok requiredSize else sizeLoop fuel (copy.tdiv 10) (requiredSize + 1)

def digitLoop (requiredSize : Nat) : (remaining divisor : Nat) → (number : Int) → List Char → Run (List Char)
  | 0, _, _, string => .ok string
  | remaining + 1, divisor, number, string => do
    let string ← store string (requiredSize - (divisor + 1)) (Char.ofNat (number.tmod 10 + 48).toNat)
    digitLoop requiredSize remaining (divisor + 1) (number.tdiv 10) string

/-- The text that is left in the buffer and the value that is returned. -/
def toString (number : Int) (string : List Char) (nullTerminate : Bool) : Run (List Char × Nat) :=
  if number = 0 then
    if string.length ≥ (if nullTerminate then 2 else 1) then do
      let string ← store string 0 '0'
      let string ← storeIf nullTerminate string 1 nul
      return (string, if nullTerminate then 2 else 1)
    else return (string, 0)
  else do
    let isNegative : Bool := number < 0
    let number := if isNegative then type.negate number else number
    let requiredSize ← sizeLoop (number.natAbs + 1) number isNegative.toNat
    if requiredSize + nullTerminate.toNat > string.length then return (string, 0)
    let string ← digitLoop requiredSize (requiredSize - isNegative.toNat) 0 number string
    let string ← storeIf isNegative string 0 '-'
    let string ← storeIf nullTerminate string requiredSize nul
    return (string, requiredSize)

def only (condition : Bool) (c : Char) : List Char := if condition then [c] else []

def decimal (number : Int) : List Char := only (number < 0) '-' ++ toDigits 10 number.natAbs

def terminated (number : Int) (nullTerminate : Bool) : List Char := decimal number ++ only nullTerminate nul

/-- The text stands at the start of the buffer if it fits, and nothing happens if it does not. -/
def Converts (number : Int) (string : List Char) (nullTerminate : Bool) : Prop :=
  toString type number string nullTerminate = if (terminated number nullTerminate).length ≤ string.length then
      .ok (terminated number nullTerminate ++ string.drop (terminated number nullTerminate).length,
        (decimal number).length)
    else .ok (string, 0)

section

variable (negative : Bool) (a : Nat)

def withSign : Int := if negative then -(a : Int) else a

/-- The digits that the loops see, which are none for a zero. -/
def digitsOf : List Char := if a = 0 then [] else toDigits 10 a

variable {negative a}

lemma withSign_tdiv : (withSign negative a).tdiv 10 = withSign negative (a / 10) := by
  cases negative
  · rfl
  · exact Int.neg_tdiv ..

lemma withSign_tmod : (withSign negative a).tmod 10 = withSign negative (a % 10) := by
  cases negative
  · rfl
  · exact Int.neg_tmod ..

lemma withSign_eq_zero : withSign negative a = 0 ↔ a = 0 := by cases negative <;> simp [withSign]

lemma digitsOf_eq (ha : a ≠ 0) : digitsOf a = digitsOf (a / 10) ++ [digitChar (a % 10)] := by
  rw [digitsOf, digitsOf, if_neg ha, toDigits_eq_if (by decide)]
  by_cases hlt : a < 10
  · rw [if_pos hlt, if_pos (by omega), Nat.mod_eq_of_lt hlt]
    rfl
  · rw [if_neg hlt, if_neg (by omega)]

lemma sizeLoop_eq (n size : Nat) (hn : a < n) :
    sizeLoop n (withSign negative a) size = .ok (size + (digitsOf a).length) := by
  induction n generalizing a size with
  | zero => omega
  | succ n ih =>
    simp only [sizeLoop, withSign_eq_zero, withSign_tdiv]
    split
    · rename_i hzero
      rw [hzero]
      rfl
    · rename_i hne
      rw [ih _ (by omega), digitsOf_eq hne, length_append, length_singleton, add_assoc, add_comm 1]

lemma store_eq (xs ys : List Char) (old c : Char) : store (xs ++ old :: ys) xs.length c = .ok (xs ++ c :: ys) := by
  simp [store]

variable {shape : Char → Char} (hshape : ∀ d < 10, Char.ofNat (withSign negative d + 48).toNat = shape (digitChar d))

include hshape in
lemma digitLoop_eq (xs old ys : List Char) (size divisor : Nat) (hold : old.length = (digitsOf a).length)
    (hsize : size = xs.length + old.length + divisor) : digitLoop size old.length divisor (withSign negative a)
    (xs ++ old ++ ys) = .ok (xs ++ (digitsOf a).map shape ++ ys) := by
  induction a using Nat.strongRecOn generalizing old ys divisor with
  | ind a ih =>
    by_cases ha : a = 0
    · rw [ha] at hold
      rw [length_eq_zero_iff.mp hold, ha]
      rfl
    rw [digitsOf_eq ha, length_append, length_singleton] at hold
    have hne : old ≠ [] := ne_nil_of_length_pos (by omega)
    obtain ⟨ts, c, rfl⟩ : ∃ ts c, old = ts ++ [c] := ⟨_, _, (dropLast_concat_getLast hne).symm⟩
    rw [length_append, length_singleton] at hold hsize
    have hindex : size - (divisor + 1) = (xs ++ ts).length := by
      rw [length_append]
      omega
    have hstore := store_eq (xs ++ ts) ys c (shape (digitChar (a % 10)))
    rw [length_append, length_singleton, digitLoop, withSign_tmod, withSign_tdiv, hindex,
      hshape _ (Nat.mod_lt _ (by decide)), ← append_assoc, append_assoc _ [c], singleton_append, hstore, ok_bind,
      ih (a / 10) (by omega) ts _ _ (by omega) (by omega), digitsOf_eq ha]
    simp

end

variable {type} {number : Int} {string : List Char} {nt : Bool}

lemma natAbs_withSign (negative : Bool) (a : Nat) : (withSign negative a).natAbs = a := by
  cases negative <;> simp [withSign]

lemma exists_split (string : List Char) {m n : Nat} (h : m + n ≤ string.length) :
    ∃ xs old ys, string = xs ++ old ++ ys ∧ xs.length = m ∧ old.length = n := by
  refine ⟨string.take m, (string.drop m).take n, (string.drop m).drop n, ?_, ?_, ?_⟩
  · rw [append_assoc, take_append_drop, take_append_drop]
  · rw [length_take]
    omega
  · rw [length_take, length_drop]
    omega

lemma length_only (p : Bool) (c : Char) : (only p c).length = p.toNat := by cases p <;> rfl

lemma storeIf_eq (xs ys : List Char) {old : List Char} {p : Bool} (c : Char) (hold : old.length = p.toNat) :
    storeIf p (xs ++ old ++ ys) xs.length c = .ok (xs ++ only p c ++ ys) := by
  cases p with
  | false =>
    rw [length_eq_zero_iff.mp hold]
    rfl
  | true =>
    obtain ⟨o, rfl⟩ := length_eq_one_iff.mp hold
    rw [storeIf, if_pos rfl, append_assoc, singleton_append, store_eq, only, if_pos rfl, append_assoc, singleton_append]

lemma toString_of_ne_zero (hne : number ≠ 0) {negative : Bool} (shape : Char → Char)
    (hshape : ∀ d < 10, Char.ofNat (withSign negative d + 48).toNat = shape (digitChar d))
    (hnum : (if number < 0 then type.negate number else number) = withSign negative number.natAbs) :
    toString type number string nt = if (terminated number nt).length ≤ string.length then
        .ok (only (number < 0) '-' ++ (toDigits 10 number.natAbs).map shape ++ only nt nul ++
          string.drop (terminated number nt).length, (decimal number).length) else .ok (string, 0) := by
  have hdigits : digitsOf number.natAbs = toDigits 10 number.natAbs := if_neg (Int.natAbs_ne_zero.mpr hne)
  have hsize : (decimal number).length = (decide (number < 0)).toNat + (digitsOf number.natAbs).length := by
    rw [decimal, length_append, length_only, hdigits]
  simp only [toString, if_neg hne, decide_eq_true_eq, hnum, natAbs_withSign, ok_bind, ← hsize,
    sizeLoop_eq _ _ (lt_add_one _), terminated, length_append, length_only]
  by_cases hfit : (decimal number).length + nt.toNat ≤ string.length
  · rw [if_neg (by omega), if_pos hfit]
    obtain ⟨xs, old, ts, rfl, hfront, hold⟩ :=
      exists_split string (m := (decide (number < 0)).toNat) (n := (digitsOf number.natAbs).length) (by omega)
    obtain ⟨last, ys, rfl, hlast⟩ : ∃ last ys, ts = last ++ ys ∧ last.length = nt.toNat := by
      refine ⟨_, _, (take_append_drop nt.toNat ts).symm, ?_⟩
      rw [length_take]
      rw [length_append, length_append] at hfit
      omega
    have hrun := digitLoop_eq hshape xs old (last ++ ys) (decimal number).length 0 hold (by omega)
    have hminus := storeIf_eq [] ((digitsOf number.natAbs).map shape ++ (last ++ ys)) '-' hfront
    have hnul := storeIf_eq (only (number < 0) '-' ++ (digitsOf number.natAbs).map shape) ys nul hlast
    rw [length_append, length_only, length_map, ← hsize] at hnul
    have hdrop : (xs ++ old ++ (last ++ ys)).drop ((decimal number).length + nt.toNat) = ys := by
      rw [← append_assoc, drop_left' (by simp only [length_append]; omega)]
    rw [hdrop]
    simp only [nil_append, append_assoc, length_nil] at hminus hnul hrun ⊢
    rw [show (decimal number).length - (decide (number < 0)).toNat = old.length by omega, hrun, ok_bind, hminus,
      ok_bind, hnul, hdigits, ok_bind]
    rfl
  · rw [if_pos (by omega), if_neg hfit]
    rfl

/-- The loops work on the minimum of a type as it is, and so each digit is taken from the other side of '0'. -/
def mirror (c : Char) : Char := Char.ofNat (96 - c.toNat)

lemma half_mod_ten (type : IntegralType) : type.half % 10 ≠ 0 := by
  have h (n : Nat) : (1 <<< n) % 5 ≠ 0 := by
    induction n with
    | zero => decide
    | succ n ih =>
      rw [Nat.shiftLeft_succ]
      omega
  have := h (type.width - 1)
  rw [IntegralType.half]
  omega

lemma map_mirror_ne {a : Nat} (ha : a % 10 ≠ 0) : (toDigits 10 a).map mirror ≠ toDigits 10 a := by
  have hdigits : toDigits 10 a = digitsOf a := (if_neg (by omega)).symm
  have hmirror : ∀ d < 10, d ≠ 0 → mirror (digitChar d) ≠ digitChar d := by decide
  intro heq
  rw [hdigits, digitsOf_eq (by omega), map_append, map_singleton] at heq
  exact hmirror _ (Nat.mod_lt _ (by decide)) ha (cons.inj (append_inj' heq rfl).2).1

lemma negate_eq (h : type.Holds number) (hneg : number < 0) :
    type.signed = true ∧ type.negate number = withSign (number = -type.half) number.natAbs := by
  rw [IntegralType.Holds] at h
  split at h
  · refine ⟨‹_›, ?_⟩
    rw [IntegralType.negate, Int.bmod, Int.emod_eq_of_lt (by omega) (by omega), withSign]
    simp only [decide_eq_true_eq]
    split <;> split <;> omega
  · omega

lemma converts_of_ne (h : type.Holds number) (hne : number ≠ 0) (hmin : number ≠ -type.half) :
    Converts type number string nt := by
  have hnum : (if number < 0 then type.negate number else number) = withSign false number.natAbs := by
    split
    · rename_i hneg
      rw [(negate_eq h hneg).2, decide_eq_false hmin]
    · exact (Int.natAbs_of_nonneg (by omega)).symm
  rw [Converts, toString_of_ne_zero hne id (by decide) hnum, map_id, terminated, decimal]

lemma converts_min_iff (h : type.Holds number) (hmin : number = -type.half) (hneg : number < 0) :
    Converts type number string nt ↔ ¬(terminated number nt).length ≤ string.length := by
  have hnum : (if number < 0 then type.negate number else number) = withSign true number.natAbs := by
    rw [if_pos hneg, (negate_eq h hneg).2, decide_eq_true hmin]
  have hdigits : number.natAbs % 10 ≠ 0 := by
    have := half_mod_ten type
    omega
  rw [Converts, toString_of_ne_zero (by omega) mirror (by decide) hnum]
  split
  · rename_i hfit
    refine iff_of_false (fun heq => ?_) (not_not_intro hfit)
    have htext := append_cancel_right (Prod.mk.inj (Except.ok.inj heq)).1
    rw [terminated, decimal] at htext
    exact map_mirror_ne hdigits (append_cancel_left (append_cancel_right htext))
  · rename_i hfit
    exact iff_of_true rfl hfit

lemma converts_zero_iff : Converts type 0 string nt ↔ ((terminated 0 nt).length ≤ string.length → nt = false) := by
  have htext : terminated 0 nt = '0' :: only nt nul := rfl
  have hlen : (terminated 0 nt).length = if nt then 2 else 1 := by cases nt <;> rfl
  rw [Converts, toString, if_pos rfl]
  simp only [ge_iff_le, ← hlen]
  split
  · rename_i hfit
    obtain ⟨xs, old, ys, rfl, hfront, hold⟩ := exists_split string (m := 1) (n := nt.toNat) (by cases nt <;> simp_all)
    obtain ⟨c, rfl⟩ := length_eq_one_iff.mp hfront
    have hzero : store ([c] ++ old ++ ys) 0 '0' = .ok (['0'] ++ old ++ ys) := store_eq [] (old ++ ys) c '0'
    have hnul : storeIf nt (['0'] ++ old ++ ys) 1 nul = .ok (['0'] ++ only nt nul ++ ys) := storeIf_eq ['0'] ys nul hold
    have hdrop : ([c] ++ old ++ ys).drop (terminated 0 nt).length = ys :=
      drop_left' (by rw [length_append, hold, hfront, htext, length_cons, length_only, add_comm])
    rw [hzero, ok_bind, hnul, ok_bind, hdrop, htext]
    cases nt with
    | false => exact iff_of_true rfl fun _ => rfl
    | true => exact iff_of_false (fun heq => absurd (Prod.mk.inj (Except.ok.inj heq)).2 (by decide)) fun h =>
        absurd (h hfit) (by decide)
  · rename_i hfit
    exact iff_of_true rfl fun h => absurd h hfit

/-- A type holds its minimum, which has no negation in it, and a terminated zero is counted with its
terminator. -/
theorem converts_iff (h : type.Holds number) : Converts type number string nt ↔
    ((terminated number nt).length ≤ string.length →
      ¬(number = 0 ∧ nt = true) ∧ ¬(type.signed = true ∧ number = -type.half)) := by
  by_cases hzero : number = 0
  · subst hzero
    have hpos : type.half ≠ 0 := fun heq => half_mod_ten type (by rw [heq])
    rw [converts_zero_iff]
    refine forall_congr' fun _ => ?_
    rw [and_iff_left (by omega), Bool.eq_false_iff]
    simp
  by_cases hmin : number = -type.half
  · have hneg : number < 0 := by omega
    rw [converts_min_iff h hmin hneg]
    exact forall_congr' fun _ => iff_of_false not_false fun hok => hok.2 ⟨(negate_eq h hneg).1, hmin⟩
  · exact iff_of_true (converts_of_ne h hzero hmin) fun _ => ⟨fun hok => hzero hok.1, fun hok => hmin hok.2⟩

theorem converts_small : Converts ⟨true, 32⟩ (-42) ['a', 'b', 'c', 'd'] true :=
  (converts_iff (by decide)).mpr fun _ => ⟨by decide, by decide⟩

/-- The text of -2147483648 is "-./,),(-*,(", and 2 is returned for a terminated zero. -/
theorem not_converts_min_zero : IntegralType.Holds ⟨true, 32⟩ (-2147483648) ∧ ¬Converts ⟨true, 32⟩ (-2147483648)
    (replicate 12 nul) true ∧ IntegralType.Holds ⟨true, 32⟩ 0 ∧ ¬Converts ⟨true, 32⟩ 0 (replicate 12 nul) true := by
  have hmin : toString ⟨true, 32⟩ (-2147483648) (replicate 12 nul) true = .ok ("-./,),(-*,(".toList ++ [nul], 11) := rfl
  have hzero : toString ⟨true, 32⟩ 0 (replicate 12 nul) true = .ok ('0' :: replicate 11 nul, 2) := rfl
  refine ⟨by decide, fun h => ?_, by decide, fun h => ?_⟩
  · have heq := Except.ok.inj (hmin.symm.trans (h.trans (if_pos (by decide))))
    exact absurd (Prod.mk.inj heq).1 (by decide)
  · have heq := Except.ok.inj (hzero.symm.trans (h.trans (if_pos (by decide))))
    exact absurd (Prod.mk.inj heq).2 (by decide)

end UltraOS.Conversions
