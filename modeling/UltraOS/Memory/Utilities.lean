import Mathlib.Data.List.TakeWhile
import UltraOS.Common.RedBlackTree.Run
import UltraOS.Memory.Range

/-!
# Finding a range by an address

`find_address_in_range_tree` of `Kernel/Memory/Utilities.h`, on the trees of `Common/RedBlackTree.h`. The
comparator is transparent: it compares the begins of the ranges with an address.
-/

namespace UltraOS

open List RedBlackTree RedBlackTree.State

variable {V : Type} (extractRange : V → Range)

def rangeTraits : Traits Nat V := byNumber (fun v => (extractRange v).mBegin) false

/-- `range_itr == tree.end() || extract_range(*range_itr).begin() != address`. -/
def isNoBegin (tree : State V) (address : Nat) (rangeItr : NodePtr) : Run Bool :=
  if rangeItr = .superRoot then .ok true
  else do return (extractRange (← tree.value rangeItr)).mBegin != address

/-- The part of the lookup for a lower bound that does not begin at the address. -/
def findInPrevious (tree : State V) (address : Nat) (rangeItr : NodePtr) : Run (Option NodePtr) :=
  if rangeItr = tree.leftMostNode then .ok none
  else do
    let rangeItr ← tree.decrement rangeItr
    return if (extractRange (← tree.value rangeItr)).contains address then some rangeItr else none

def findAddressInRangeTree (tree : State V) (address : Nat) : Run (Option NodePtr) := do
  let rangeItr ← tree.lowerBoundNode (rangeTraits extractRange) address
  if ← isNoBegin extractRange tree address rangeItr then findInPrevious extractRange tree address rangeItr
  else return some rangeItr

variable {extractRange} {s : State V} {t : ColoredTree.CTree (Item V)} {xs ys : List (Item V)} {address : Nat}
  (h : Shape (rangeTraits extractRange) s t) (hends : EndsCached s t.inorder)

include h hends in
lemma findInPrevious_eq (hsplit : t.inorder = xs ++ ys) : findInPrevious extractRange s address (neighborPtr ys.head?) =
    .ok ((xs.getLast?.filter fun x => (extractRange x.value).contains address).map fun x => .node x.address) := by
  have hfirst : s.leftMostNode = neighborPtr t.inorder.head? := by
    rw [leftMostNode, h.size, hends.left]
    cases t.inorder <;> rfl
  rcases xs.eq_nil_or_concat with rfl | ⟨before, x, rfl⟩
  · rw [findInPrevious, hfirst, hsplit, nil_append, if_pos rfl]
    rfl
  · rw [concat_eq_append, append_assoc, singleton_append] at hsplit
    have hne : s.leftMostNode ≠ neighborPtr ys.head? := by
      have hnodup : (t.inorder.map Item.address).Nodup := h.represents.nodup
      rw [hsplit] at hnodup
      rw [hfirst, hsplit]
      cases before <;> cases ys <;> simp_all [neighborPtr]
    rw [findInPrevious, if_neg hne.symm, decrement_spec h hends hsplit, ok_bind,
      h.represents.value_of_mem (by simp [hsplit]), ok_bind, concat_eq_append, getLast?_concat, Option.filter_some]
    split <;> rfl

include h hends in
lemma findAddressInRangeTree_eq (hsplit : t.inorder = xs ++ ys)
    (hfront : ∀ x ∈ xs, (extractRange x.value).mBegin < address)
    (hback : ∀ y ∈ ys.head?, address ≤ (extractRange y.value).mBegin) :
    findAddressInRangeTree extractRange s address = .ok
      (((ys.head?.filter fun y => (extractRange y.value).mBegin == address).or
        (xs.getLast?.filter fun x => (extractRange x.value).contains address)).map fun x => .node x.address) := by
  have hbound : s.lowerBoundNode (rangeTraits extractRange) address = .ok (neighborPtr ys.head?) := by
    rw [lowerBoundNode_spec address h.represents h.sorted h.size, hsplit, find?_append,
      find?_eq_none.mpr (by simpa [rangeTraits, byNumber] using hfront), Option.none_or]
    cases ys with
    | nil => rfl
    | cons y ys => rw [find?_cons_of_pos (by simpa [rangeTraits, byNumber] using hback)]; rfl
  have hprev : findInPrevious extractRange s address _ = _ := findInPrevious_eq h hends hsplit
  rw [findAddressInRangeTree, hbound, ok_bind]
  cases ys with
  | nil => exact hprev
  | cons y ys =>
    have hv := h.represents.value_of_mem (x := y) (by simp [hsplit])
    by_cases hy : (extractRange y.value).mBegin = address
    · simp [neighborPtr, isNoBegin, hv, hy, pure_eq_ok, Option.filter_some]
    · simpa [neighborPtr, isNoBegin, hv, hy, pure_eq_ok, Option.filter_some] using hprev

/-- Of ranges that end in front of the next one, at most the lower bound or the one before it holds the address. -/
lemma hit_iff (hfront : ∀ x ∈ xs, (extractRange x.value).mBegin < address)
    (hback : ∀ y ∈ ys.head?, address ≤ (extractRange y.value).mBegin)
    (hproper : ∀ x ∈ xs ++ ys, (extractRange x.value).mBegin < (extractRange x.value).mEnd)
    (hdisjoint : (xs ++ ys).Pairwise fun l r => (extractRange l.value).mEnd ≤ (extractRange r.value).mBegin) {x : Item V} :
    (ys.head?.filter fun y => (extractRange y.value).mBegin == address).or
        (xs.getLast?.filter fun x => (extractRange x.value).contains address) = some x ↔
      x ∈ xs ++ ys ∧ (extractRange x.value).contains address = true := by
  obtain ⟨hpairsFront, hpairsBack, hcross⟩ := pairwise_append.mp hdisjoint
  have hlast : (xs.getLast?.filter fun v => (extractRange v.value).contains address) = some x ↔
      x ∈ xs ∧ (extractRange x.value).contains address = true := by
    rcases xs.eq_nil_or_concat with rfl | ⟨f, p, rfl⟩
    · simp
    · rw [concat_eq_append] at *
      have hp := hfront p (by simp)
      have hf (u) (hu : u ∈ f) := (pairwise_append.mp hpairsFront).2.2 u hu p (by simp)
      rw [getLast?_concat, Option.filter_some]
      grind [Range.contains_iff]
  cases ys with
  | nil => simpa using hlast
  | cons b ys =>
    have hb := hproper b (by simp)
    have hbeh := (pairwise_cons.mp hpairsBack).1
    simp only [head?_cons, Option.mem_some_iff, forall_eq'] at hback
    clear hdisjoint hpairsBack hpairsFront
    by_cases hbegin : (extractRange b.value).mBegin = address
    · rw [head?_cons, Option.filter_some, if_pos (beq_iff_eq.mpr hbegin), Option.some_or]
      grind [Range.contains_iff]
    · rw [head?_cons, Option.filter_some, if_neg (mt beq_iff_eq.mp hbegin), Option.none_or, hlast]
      grind [Range.contains_iff]

/-- In a tree of disjoint ranges that are not empty, however it was built, the lookup finds the node whose range
holds the address, and nothing if there is none. -/
theorem findAddressInRangeTree_run (extractRange : V → Range) (ops : List (Op Nat V)) {s : State V}
    (hops : (machine (rangeTraits extractRange)).Admissible (empty V) ops)
    (hrun : (machine (rangeTraits extractRange)).run (empty V) ops = .ok s) (hproper : ∀ a n, s.nodes a = some n →
    (extractRange n.value).mBegin < (extractRange n.value).mEnd) (hdisjoint : ∀ a b n m, s.nodes a = some n →
    s.nodes b = some m → (extractRange n.value).mBegin < (extractRange m.value).mBegin →
    (extractRange n.value).mEnd ≤ (extractRange m.value).mBegin) (address : Nat) : ∃ found : Option Nat,
    findAddressInRangeTree extractRange s address = .ok (found.map .node) ∧ ∀ a, found = some a ↔ ∃ n, s.nodes a =
    some n ∧ (extractRange n.value).contains address = true := by
  obtain ⟨s', t, hrun', h⟩ := exists_uniqueKeys_run rfl hops
  cases hrun.symm.trans hrun'
  have hitem (x) (hx : x ∈ t.inorder) := h.shape.represents.exists_cell hx
  have hsplit := t.inorder.takeWhile_append_dropWhile (p := fun x => decide ((extractRange x.value).mBegin < address))
  have hfront (x) (hx : x ∈ t.inorder.takeWhile fun x => decide ((extractRange x.value).mBegin < address)) :
      (extractRange x.value).mBegin < address := by simpa using mem_takeWhile_imp hx
  have hback (y) (hy : y ∈ (t.inorder.dropWhile fun x => decide ((extractRange x.value).mBegin < address)).head?) :
      address ≤ (extractRange y.value).mBegin := by
    have := head?_dropWhile_not (fun x => decide ((extractRange x.value).mBegin < address)) t.inorder
    simp_all
  have hit {x : Item V} := hit_iff (x := x) hfront hback (by
      intro x hx
      obtain ⟨n, hn, hv⟩ := hitem x (hsplit ▸ hx)
      exact hv ▸ hproper _ n hn)
    (hsplit.symm ▸ h.strict.imp_of_mem fun {l r} hl hr hlt => by
      obtain ⟨n, hn, hvn⟩ := hitem l hl
      obtain ⟨m, hm, hvm⟩ := hitem r hr
      exact hvn ▸ hvm ▸ hdisjoint _ _ n m hn hm (by simpa [hvn, hvm, Traits.valueLess, rangeTraits, byNumber] using hlt))
  refine ⟨_, (findAddressInRangeTree_eq h.shape h.ends hsplit.symm hfront hback).trans
    (congrArg Except.ok (Option.map_map ..).symm), fun a => ?_⟩
  simp only [Option.map_eq_some_iff, hit, hsplit]
  constructor
  · rintro ⟨x, ⟨hx, hc⟩, rfl⟩
    obtain ⟨n, hn, hv⟩ := hitem x hx
    exact ⟨n, hn, hv ▸ hc⟩
  · rintro ⟨n, hn, hc⟩
    exact ⟨_, ⟨h.shape.represents.exists_item hn, hc⟩, rfl⟩

/-- Two regions are stored, and an address in the second one is looked up. -/
theorem findAddressInRangeTree_sample : ∃ s, (machine (rangeTraits id)).run (empty Range)
    [.emplace 0 ⟨0x2000, 0x4000⟩, .emplace 1 ⟨0x1000, 0x2000⟩] = .ok s ∧
    ∃ found : Option Nat, findAddressInRangeTree id s 0x3000 = .ok (found.map .node) ∧
      ∀ a, found = some a ↔ ∃ n, s.nodes a = some n ∧ n.value.contains 0x3000 = true := by
  refine ⟨_, rfl, findAddressInRangeTree_run id [.emplace 0 ⟨0x2000, 0x4000⟩, .emplace 1 ⟨0x1000, 0x2000⟩]
    (by decide) rfl ?_ ?_ 0x3000⟩
  · rintro (_ | _ | a) n hn
    · cases hn
      decide
    · cases hn
      decide
    · cases hn
  · rintro (_ | _ | a) (_ | _ | b) n m hn hm hlt <;> cases hn <;> cases hm <;> revert hlt <;> decide

end UltraOS
