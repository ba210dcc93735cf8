import UltraOS.Base.Fault

/-!
# The search for a part of a string

`find` and `find_last` of `Kernel/Common/String.h`, and `strstr` of `Userland/LibC/string.c`, which is the
first of them on strings that end with a zero. Each loop counts the rounds that remain. The loops of
`find_last` count down with a `size_t`, and it is the wrap at zero that ends them.
-/

namespace UltraOS.Substring

open List

variable (lhs rhs : List UInt8)

def matchLoop : (remaining j k : Nat) → Run Nat
  | 0, _, k => .ok k
  | remaining + 1, j, k =>
    match lhs[j]?, rhs[k]? with
    | some x, some y => if x ≠ y then .ok k else matchLoop remaining (j + 1) (k + 1)
    | _, _ => .error .badPointer

def searchLoop (rhsSize : Nat) : (remaining i : Nat) → Run (Option Nat)
  | 0, _ => .ok none
  | remaining + 1, i =>
    match lhs[i]?, rhs[0]? with
    | some x, some y =>
      if x ≠ y then searchLoop rhsSize remaining (i + 1)
      else do
        let k ← matchLoop lhs rhs rhsSize i 0
        if k = rhsSize then return some i else searchLoop rhsSize remaining (i + 1)
    | _, _ => .error .badPointer

def search (lhsSize rhsSize : Nat) : Run (Option Nat) :=
  if rhsSize > lhsSize then .ok none
  else if rhsSize = 0 then .ok (some 0)
  else searchLoop lhs rhs rhsSize (lhsSize - rhsSize + 1) 0

def find : Run (Option Nat) := search lhs rhs lhs.length rhs.length

def strlen : List UInt8 → Run Nat
  | [] => .error .badPointer
  | c :: rest => if c = 0 then .ok 0 else (strlen rest).map (· + 1)

def strstr (str substr : List UInt8) : Run (Option Nat) := do
  let srcLen ← strlen str
  let substrLen ← strlen substr
  search str substr srcLen substrLen

def sizeMax : Nat := 0xffffffffffffffff

def decrement (i : Nat) : Nat := if i = 0 then sizeMax else i - 1

def matchBackLoop : (fuel j k : Nat) → Run Nat
  | 0, _, _ => .error .outOfFuel
  | fuel + 1, j, k =>
    if k < rhs.length then
      match lhs[j]?, rhs[k]? with
      | some x, some y => if x ≠ y then .ok k else matchBackLoop fuel (decrement j) (decrement k)
      | _, _ => .error .badPointer
    else .ok k

def findLastLoop : (fuel i : Nat) → Run (Option Nat)
  | 0, _ => .error .outOfFuel
  | fuel + 1, i =>
    if i ≥ rhs.length - 1 then
      if i > lhs.length then .ok none
      else
        match lhs[i]?, rhs[rhs.length - 1]? with
        | some x, some y =>
          if x ≠ y then findLastLoop fuel (decrement i)
          else do
            let k ← matchBackLoop lhs rhs (rhs.length + 1) i (rhs.length - 1)
            if k > rhs.length then return some (i - (rhs.length - 1)) else findLastLoop fuel (decrement i)
        | _, _ => .error .badPointer
    else .ok none

def findLast : Run (Option Nat) :=
  if rhs.length > lhs.length then .ok none
  else if rhs.length = 0 then .ok (some lhs.length)
  else findLastLoop lhs rhs (lhs.length + 2) (lhs.length - 1)

def Occurs (i : Nat) : Prop := ∃ front back, lhs = front ++ rhs ++ back ∧ front.length = i

def IsFirst : Option Nat → Prop
  | some i => Occurs lhs rhs i ∧ ∀ j < i, ¬Occurs lhs rhs j
  | none => ∀ i, ¬Occurs lhs rhs i

def IsLast : Option Nat → Prop
  | some i => Occurs lhs rhs i ∧ ∀ j > i, ¬Occurs lhs rhs j
  | none => ∀ i, ¬Occurs lhs rhs i

variable {lhs rhs} {a b x y xs : List UInt8} {c d : UInt8}

lemma Occurs.le {i : Nat} (h : Occurs lhs rhs i) : i + rhs.length ≤ lhs.length := by
  obtain ⟨xs, ys, rfl, rfl⟩ := h
  simp only [length_append]
  omega

lemma occurs_append_iff : Occurs (xs ++ a) b xs.length ↔ b <+: a := by
  constructor
  · rintro ⟨front', ys, heq, hlen⟩
    rw [append_assoc] at heq
    exact ⟨ys, (append_inj heq hlen.symm).2.symm⟩
  · rintro ⟨ys, rfl⟩
    exact ⟨xs, ys, (append_assoc ..).symm, rfl⟩

lemma matchLoop_spec (f g a b : List UInt8) (h : b.length ≤ a.length) : ∃ k,
    matchLoop (f ++ (a ++ x)) (g ++ (b ++ y)) b.length f.length g.length = .ok k ∧
    (k = g.length + b.length ↔ b <+: a) := by
  induction b generalizing f g a with
  | nil => exact ⟨g.length, rfl, by simp⟩
  | cons d b ih =>
    obtain ⟨c, a, rfl⟩ := exists_cons_of_length_pos (lt_of_lt_of_le (Nat.succ_pos _) h)
    rw [length_cons, length_cons, Nat.add_le_add_iff_right] at h
    have hc : (f ++ (c :: a ++ x))[f.length]? = some c := by simp
    have hd : (g ++ (d :: b ++ y))[g.length]? = some d := by simp
    simp only [length_cons, matchLoop, hc, hd, cons_prefix_cons]
    split
    · rename_i hne
      exact ⟨_, rfl, iff_of_false (by omega) fun heq => hne heq.1.symm⟩
    · rename_i heq
      obtain rfl := not_not.mp heq
      obtain ⟨k, hrun, hiff⟩ := ih (f ++ [c]) (g ++ [c]) a h
      simp only [append_assoc, singleton_append, length_append, length_singleton] at hrun hiff
      refine ⟨k, hrun, ?_⟩
      rw [and_iff_right rfl, ← hiff]
      omega

lemma searchLoop_spec {n : List UInt8} (hn : 0 < n.length) (m : Nat) (f a : List UInt8)
    (hsum : m + n.length = a.length + 1) (hbef : ∀ j < f.length, ¬Occurs (f ++ a) n j) : ∃ r,
    searchLoop (f ++ (a ++ x)) (n ++ y) n.length m f.length = .ok r ∧ IsFirst (f ++ a) n r := by
  induction m generalizing f a with
  | zero =>
    refine ⟨none, rfl, fun i hi => hbef i ?_ hi⟩
    have hle := hi.le
    rw [length_append] at hle
    omega
  | succ m ih =>
    obtain ⟨c, a, rfl⟩ := exists_cons_of_length_pos (l := a) (by omega)
    obtain ⟨d, n, rfl⟩ := exists_cons_of_length_pos hn
    have hc : (f ++ (c :: a ++ x))[f.length]? = some c := by simp
    have hd : (d :: n ++ y)[0]? = some d := rfl
    have hle : (d :: n).length ≤ (c :: a).length := by omega
    have hnext (hnot : ¬d :: n <+: c :: a) : ∃ r, searchLoop (f ++ (c :: a ++ x)) (d :: n ++ y) (d :: n).length
        m (f.length + 1) = .ok r ∧ IsFirst (f ++ c :: a) (d :: n) r := by
      have hstep := ih (f ++ [c]) a (by simp only [length_cons] at hsum ⊢; omega) fun j hj hoccurs => ?_
      · simpa using hstep
      · rw [append_assoc, singleton_append] at hoccurs
        rw [length_append, length_singleton] at hj
        rcases lt_or_eq_of_le (Nat.le_of_lt_succ hj) with hlt | rfl
        · exact hbef j hlt hoccurs
        · exact hnot (occurs_append_iff.mp hoccurs)
    simp only [searchLoop, hc, hd]
    split
    · rename_i hne
      exact hnext fun h => hne (cons_prefix_cons.mp h).1.symm
    · obtain ⟨k, hrun, hiff⟩ : ∃ k, matchLoop (f ++ (c :: a ++ x)) (d :: n ++ y) _ _ 0 = _ ∧ _ :=
        matchLoop_spec f [] (c :: a) (d :: n) hle
      rw [hrun, ok_bind]
      rw [length_nil, zero_add] at hiff
      split
      · rename_i heq
        exact ⟨_, rfl, occurs_append_iff.mpr (hiff.mp heq), hbef⟩
      · rename_i hne
        exact hnext fun h => hne (hiff.mpr h)

lemma search_spec (h n x y : List UInt8) : ∃ r, search (h ++ x) (n ++ y) h.length n.length = .ok r ∧ IsFirst h n r := by
  unfold search
  split
  · exact ⟨none, rfl, fun i hi => absurd hi.le (by omega)⟩
  split
  · rename_i hzero
    rw [length_eq_zero_iff.mp hzero]
    exact ⟨some 0, rfl, ⟨[], h, rfl, rfl⟩, fun j hj => absurd hj (Nat.not_lt_zero j)⟩
  · exact searchLoop_spec (by omega) _ [] h (by omega) fun j hj => absurd hj (Nat.not_lt_zero j)

lemma strlen_eq (h x : List UInt8) (hzero : ∀ c ∈ h, c ≠ 0) : strlen (h ++ 0 :: x) = .ok h.length := by
  induction h with
  | nil => rfl
  | cons c h ih =>
    rw [forall_mem_cons] at hzero
    rw [cons_append, strlen, if_neg hzero.1, ih hzero.2]
    rfl

lemma occurs_reverse_iff (h : b.length ≤ a.length) :
    Occurs (a.reverse ++ x) b.reverse (a.length - b.length) ↔ b <+: a := by
  constructor
  · rintro ⟨xs, ys, heq, hlen⟩
    have hfront : a.reverse = xs ++ b.reverse := by
      refine (append_inj heq ?_).1
      rw [length_append, length_reverse, length_reverse]
      omega
    refine ⟨xs.reverse, ?_⟩
    rw [← reverse_reverse a, hfront, reverse_append, reverse_reverse]
  · rintro ⟨t, rfl⟩
    exact ⟨t.reverse, x, by rw [reverse_append], by rw [length_reverse, length_append, Nat.add_sub_cancel_left]⟩

lemma decrement_succ (i : Nat) : decrement (i + 1) = i := rfl

lemma getElem?_reverse_append : ((c :: a).reverse ++ x)[a.length]? = some c := by simp

lemma matchBackLoop_spec (a b x y : List UInt8) (h : b.length ≤ a.length) (fuel : Nat) (hfuel : b.length < fuel)
    (hmax : (b.reverse ++ y).length < sizeMax) : ∃ k, matchBackLoop (a.reverse ++ x) (b.reverse ++ y) fuel
      (decrement a.length) (decrement b.length) = .ok k ∧ (k > (b.reverse ++ y).length ↔ b <+: a) := by
  obtain ⟨fuel, rfl⟩ : ∃ n, fuel = n + 1 := ⟨fuel - 1, by omega⟩
  induction b generalizing a x y fuel with
  | nil =>
    refine ⟨sizeMax, ?_, iff_of_true hmax nil_prefix⟩
    rw [matchBackLoop]
    exact if_neg (Nat.not_lt_of_lt hmax)
  | cons d b ih =>
    obtain ⟨c, a, rfl⟩ := exists_cons_of_length_pos (lt_of_lt_of_le (Nat.succ_pos _) h)
    have hlt : b.length < ((d :: b).reverse ++ y).length := by simp
    simp only [length_cons, Nat.add_le_add_iff_right, Nat.add_lt_add_iff_right] at h hfuel
    simp only [length_cons, decrement_succ, matchBackLoop, if_pos hlt, getElem?_reverse_append, cons_prefix_cons]
    split
    · rename_i hne
      exact ⟨_, rfl, iff_of_false (by omega) fun heq => hne heq.1.symm⟩
    · rename_i heq
      obtain rfl := not_not.mp heq
      obtain ⟨fuel, rfl⟩ : ∃ n, fuel = n + 1 := ⟨fuel - 1, by omega⟩
      rw [reverse_cons, append_assoc, singleton_append] at hmax
      have hstep := ih a (c :: x) (c :: y) h hmax fuel hfuel
      rwa [reverse_cons, reverse_cons, append_assoc, append_assoc, singleton_append, singleton_append, and_iff_right rfl]

lemma findLastLoop_spec {b : List UInt8} (hb : 0 < b.length) (a x : List UInt8) (fuel : Nat) (hfuel : a.length < fuel)
    (hle : b.length ≤ (a.reverse ++ x).length) (hmax : (a.reverse ++ x).length < sizeMax)
    (hafter : ∀ j, a.length < j + b.length → ¬Occurs (a.reverse ++ x) b.reverse j) : ∃ r, findLastLoop (a.reverse ++ x)
    b.reverse fuel (decrement a.length) = .ok r ∧ IsLast (a.reverse ++ x) b.reverse r := by
  induction a generalizing x fuel with
  | nil =>
    obtain ⟨fuel, rfl⟩ : ∃ n, fuel = n + 1 := ⟨fuel - 1, by omega⟩
    refine ⟨none, ?_, fun j => hafter j (hb.trans_le (Nat.le_add_left ..))⟩
    have hstart : sizeMax ≥ b.reverse.length - 1 := by
      rw [length_reverse]
      omega
    exact (if_pos hstart).trans (if_pos hmax)
  | cons c a ih =>
    obtain ⟨fuel, rfl⟩ : ∃ n, fuel = n + 1 := ⟨fuel - 1, by omega⟩
    obtain ⟨d, b, rfl⟩ := exists_cons_of_length_pos hb
    have hd : (d :: b).reverse[(d :: b).reverse.length - 1]? = some d := by simp
    have hlen : a.length ≤ ((c :: a).reverse ++ x).length := by
      rw [length_append, length_reverse, length_cons]
      omega
    have hshift : a.reverse ++ c :: x = (c :: a).reverse ++ x := by rw [reverse_cons, append_assoc, singleton_append]
    rw [length_cons, decrement_succ, findLastLoop]
    split
    · rename_i hroom
      rw [length_reverse, length_cons, Nat.add_sub_cancel] at hroom
      have hwide : (d :: b).length ≤ (c :: a).length := Nat.succ_le_succ hroom
      have hnext (hnot : ¬d :: b <+: c :: a) : ∃ r, findLastLoop ((c :: a).reverse ++ x) (d :: b).reverse fuel
          (decrement a.length) = .ok r ∧ IsLast ((c :: a).reverse ++ x) (d :: b).reverse r := by
        have hstep := ih (c :: x) fuel (Nat.lt_of_succ_lt_succ hfuel) (hshift ▸ hle) (hshift ▸ hmax) fun j hj hoccurs => ?_
        · rwa [hshift] at hstep
        · rw [hshift] at hoccurs
          rcases lt_or_eq_of_le (Nat.succ_le_of_lt hj) with hlt | heq
          · exact hafter j hlt hoccurs
          · obtain rfl : j = (c :: a).length - (d :: b).length := Nat.eq_sub_of_add_eq heq.symm
            exact hnot ((occurs_reverse_iff hwide).mp hoccurs)
      rw [if_neg (by omega), getElem?_reverse_append, hd]
      dsimp only
      split
      · rename_i hne
        exact hnext fun h => hne (cons_prefix_cons.mp h).1.symm
      · obtain ⟨k, hrun, hiff⟩ : ∃ k, matchBackLoop _ _ ((d :: b).length + 1) a.length b.length = .ok k ∧ _ :=
          matchBackLoop_spec (c :: a) (d :: b) x [] hwide _ (lt_add_one _) (by simpa using hle.trans_lt hmax)
        rw [append_nil] at hrun hiff
        rw [length_reverse] at hiff ⊢
        rw [length_cons, Nat.add_sub_cancel, ← length_cons (a := d), hrun, ok_bind]
        split
        · rename_i hfound
          have hstart : a.length - b.length = (c :: a).length - (d :: b).length := (Nat.add_sub_add_right ..).symm
          refine ⟨_, rfl, hstart ▸ (occurs_reverse_iff hwide).mpr (hiff.mp hfound), fun j hj => hafter j ?_⟩
          rw [length_cons, length_cons]
          omega
        · rename_i hmissed
          exact hnext fun h => hmissed (hiff.mpr h)
    · rename_i hroom
      rw [length_reverse, length_cons] at hroom
      refine ⟨none, rfl, fun j => hafter j ?_⟩
      rw [length_cons, length_cons]
      omega

/-- The searches for the first match agree, and `findLast` finds the last one. -/
theorem substrings : (∀ h n, ∃ r, find h n = .ok r ∧ IsFirst h n r) ∧ (∀ h n x y : List UInt8, (∀ c ∈ h, c ≠ 0) →
    (∀ c ∈ n, c ≠ 0) → ∃ r, strstr (h ++ 0 :: x) (n ++ 0 :: y) = .ok r ∧ IsFirst h n r) ∧ ∀ h n, h.length < sizeMax →
    ∃ r, findLast h n = .ok r ∧ IsLast h n r := by
  refine ⟨fun h n => ?_, fun h n x y hh hn => ?_, fun h n hmax => ?_⟩
  · have hspec := search_spec h n [] []
    rwa [append_nil, append_nil] at hspec
  · rw [strstr, strlen_eq h x hh, ok_bind, strlen_eq n y hn, ok_bind]
    exact search_spec h n (0 :: x) (0 :: y)
  · unfold findLast
    split
    · exact ⟨none, rfl, fun i hi => absurd hi.le (by omega)⟩
    split
    · rename_i hzero
      rw [length_eq_zero_iff.mp hzero]
      exact ⟨_, rfl, ⟨h, [], by simp, rfl⟩, fun j hj hoccurs => absurd hoccurs.le (by rw [length_nil]; omega)⟩
    · have hspec := findLastLoop_spec (b := n.reverse) (by rw [length_reverse]; omega) h.reverse [] (h.length + 2)
        (by rw [length_reverse]; omega) (by simp; omega) (by simpa using hmax) fun j hj hoccurs => ?_
      · have hstart : decrement h.length = h.length - 1 := if_neg (by omega)
        simpa only [length_reverse, reverse_reverse, append_nil, hstart] using hspec
      · have hle := hoccurs.le
        simp only [length_reverse, reverse_reverse, append_nil] at hj hle
        omega

theorem substrings_sample : (∃ r, strstr ([1, 2, 1] ++ 0 :: []) ([1] ++ 0 :: []) = .ok r ∧ IsFirst [1, 2, 1] [1] r) ∧
    ∃ r, findLast [1, 2, 1] [1] = .ok r ∧ IsLast [1, 2, 1] [1] r :=
  ⟨substrings.2.1 _ _ [] [] (by simp) (by simp), substrings.2.2 _ _ (by decide)⟩

end UltraOS.Substring
