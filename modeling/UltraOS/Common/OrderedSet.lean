import Mathlib.Data.List.Sort
import UltraOS.Common.RedBlackTree.Run

/-!
# The sets of `Common/Set.h`, seen from outside

A `Set` keeps its elements in ascending order and at most one of equivalent ones. Its users see a
list and iterators into it. An iterator is the element it points at, and `none` is `end()`: an
element is the only one of its key, and it stays where it is when others come and go. `Shows`
connects the list with the red-black tree that the set is.
-/

namespace UltraOS.OrderedSet

open List

variable {V : Type} (less : V → V → Bool)

def emplace (value : V) : List V → List V
  | [] => [value]
  | x :: elements =>
    if less value x then value :: x :: elements
    else if less x value then x :: emplace value elements
    else x :: elements

def remove (value : V) (elements : List V) : List V := elements.filter fun x => less x value || less value x

/-- `lower_bound`, for a key that `below` tells to be greater than an element. -/
def lowerBound (below : V → Bool) (elements : List V) : Option V := elements.find? fun x => !below x

def next (value : V) (elements : List V) : Option V := elements.find? fun x => less value x

def prev (iterator : Option V) (elements : List V) : Option V :=
  match iterator with
  | none => elements.getLast?
  | some value => (elements.filter fun x => less x value).getLast?

variable {less} {xs ys : List V} {v : V}

lemma emplace_behind (hfront : ∀ x ∈ xs, less x v = true ∧ less v x = false) :
    emplace less v (xs ++ ys) = xs ++ emplace less v ys := by
  induction xs with
  | nil => rfl
  | cons x xs ih =>
    obtain ⟨hlt, hge⟩ := hfront x (by simp)
    rw [cons_append, emplace, if_neg (by simp [hge]), if_pos hlt, ih fun y hy => hfront y (by simp [hy]), cons_append]

lemma emplace_append (hfront : ∀ x ∈ xs, less x v = true ∧ less v x = false)
    (hback : ∀ x ∈ ys, less v x = true) : emplace less v (xs ++ ys) = xs ++ v :: ys := by
  rw [emplace_behind hfront]
  cases ys with
  | nil => rfl
  | cons x ys => rw [emplace, if_pos (hback x (by simp))]

variable {elements : List V}

lemma mem_emplace (h : ∀ x ∈ elements, less v x = true ∨ less x v = true) {y : V} :
    y ∈ emplace less v elements ↔ y = v ∨ y ∈ elements := by
  induction elements with
  | nil => simp [emplace]
  | cons x elements ih =>
    have ih := ih fun y hy => h y (mem_cons_of_mem x hy)
    rw [emplace]
    split
    · exact mem_cons
    · rename_i hge
      rw [if_pos ((h x mem_cons_self).resolve_left hge), mem_cons, ih, mem_cons]
      exact or_left_comm

lemma pairwise_emplace (htrans : ∀ a b c, less a b = true → less b c = true → less a c = true)
    (h : ∀ x ∈ elements, less v x = true ∨ less x v = true) (hordered : elements.Pairwise fun l r => less l r = true) :
    (emplace less v elements).Pairwise fun l r => less l r = true := by
  induction elements with
  | nil => exact pairwise_singleton _ v
  | cons x elements ih =>
    obtain ⟨hx, hrest⟩ := pairwise_cons.mp hordered
    have hrestv := fun y hy => h y (mem_cons_of_mem x hy)
    rw [emplace]
    split
    · rename_i hlt
      refine pairwise_cons.mpr ⟨fun y hy => ?_, hordered⟩
      rcases mem_cons.mp hy with rfl | hy
      · exact hlt
      · exact htrans v x y hlt (hx y hy)
    · rename_i hge
      have hlt := (h x mem_cons_self).resolve_left hge
      rw [if_pos hlt]
      refine pairwise_cons.mpr ⟨fun y hy => ?_, ih hrestv hrest⟩
      rcases (mem_emplace hrestv).mp hy with rfl | hy
      · exact hlt
      · exact hx y hy

lemma remove_append (hself : less v v = false) (hfront : ∀ x ∈ xs, less x v = true)
    (hback : ∀ x ∈ ys, less v x = true) : remove less v (xs ++ v :: ys) = xs ++ ys := by
  have hkeepFront : xs.filter (fun x => less x v || less v x) = xs :=
    filter_eq_self.mpr fun x hx => by simp [hfront x hx]
  have hkeepBack : ys.filter (fun x => less x v || less v x) = ys := filter_eq_self.mpr fun x hx => by simp [hback x hx]
  rw [remove, filter_append, filter_cons_of_neg (by simp [hself]), hkeepFront, hkeepBack]

lemma lowerBound_append {below : V → Bool} (hfront : ∀ x ∈ xs, below x = true)
    (hback : ∀ x ∈ ys, below x = false) : lowerBound below (xs ++ ys) = ys.head? := by
  have hnone : xs.find? (fun x => !below x) = none := List.find?_eq_none.mpr fun x hx => by simp [hfront x hx]
  rw [lowerBound, List.find?_append, hnone, Option.none_or]
  cases ys with
  | nil => rfl
  | cons x ys => simp [hback x (by simp)]

lemma next_append (hfront : ∀ x ∈ xs, less v x = false) (hself : less v v = false)
    (hback : ∀ x ∈ ys, less v x = true) : next less v (xs ++ v :: ys) = ys.head? := by
  have hnone : (xs ++ [v]).find? (fun x => less v x) = none :=
    List.find?_eq_none.mpr fun x hx => by
      rcases mem_append.mp hx with hx | hx
      · simp [hfront x hx]
      · simp [mem_singleton.mp hx, hself]
  rw [next, ← singleton_append, ← append_assoc, List.find?_append, hnone, Option.none_or]
  cases ys with
  | nil => rfl
  | cons x ys => simp [hback x (by simp)]

lemma prev_append (hback : ∀ x ∈ ys.head?, (∀ y ∈ xs, less y x = true) ∧
    ∀ y ∈ ys, less y x = false) : prev less ys.head? (xs ++ ys) = xs.getLast? := by
  cases ys with
  | nil => simp [prev]
  | cons x ys =>
    obtain ⟨hbef, hbeh⟩ := hback x (by simp)
    have hkeepFront : xs.filter (fun y => less y x) = xs := filter_eq_self.mpr hbef
    have hkeepBack : (x :: ys).filter (fun y => less y x) = [] := filter_eq_nil_iff.mpr fun y hy => by simp [hbeh y hy]
    rw [List.head?_cons, prev, filter_append, hkeepFront, hkeepBack, append_nil]

section

open RedBlackTree State

variable {K : Type} {tr : Traits K V} {s : State V} {a : Nat}

/-- A sound tree with unique keys whose nodes hold the elements in this order. -/
def Shows (tr : Traits K V) (s : State V) (elements : List V) : Prop :=
  ∃ t, Shape tr s t ∧ StrictlyAscending tr t.inorder ∧ EndsCached s t.inorder ∧ t.inorder.map Item.value = elements

lemma Shows.emplace (huniq : tr.allowDuplicates = false) (h : Shows tr s elements) (hfresh : s.nodes a = none)
    (v : V) : ∃ s', step tr s (.emplace a v : Op K V) = .ok s' ∧ Shows tr s' (emplace tr.valueLess v elements) := by
  obtain ⟨t, hshape, hstrict, hends, rfl⟩ := h
  obtain ⟨p, hfind, hfound⟩ := findNode_spec (tr.extractKey v) hshape.represents hshape.sorted hshape.size
  rcases hfound with ⟨rfl, hnone⟩ | ⟨y, hy, rfl, heq⟩
  · obtain ⟨s', t', before, after, hrun, hshape', hpl, hleft, hright⟩ := emplaceNew_spec v hshape hends hfresh
    have hlast : ∀ y ∈ t.inorder.getLast?, ¬ tr.Equivalent (tr.extractKey y.value) (tr.extractKey v) :=
      fun y hy => hnone y (mem_of_getLast? hy)
    have hstrict' := hpl.strictlyAscending hstrict hnone
    refine ⟨s', by simp [step, State.emplace, huniq, hfind, hrun], t', hshape', hstrict', ⟨hleft, hright.mpr hlast⟩, ?_⟩
    rw [hpl.new, StrictlyAscending, pairwise_append, pairwise_cons] at hstrict'
    rw [hpl.new, hpl.old, map_append, map_append, map_cons, emplace_append]
    · simpa using fun y hy => ⟨hpl.below y hy, tr.less_asymm (hpl.below y hy)⟩
    · simpa using hstrict'.2.1.1
  · refine ⟨s, by simp [step, State.emplace, huniq, hfind], t, hshape, hstrict, hends, ?_⟩
    obtain ⟨before, after, hsplit⟩ := append_of_mem hy
    rw [hsplit, StrictlyAscending, pairwise_append] at hstrict
    have hbefore : ∀ x ∈ before, tr.valueLess x.value v = true := fun x hx =>
      tr.less_of_less_of_not_less (hstrict.2.2 x hx y mem_cons_self) heq.2
    rw [hsplit, map_append, map_cons, emplace_behind, OrderedSet.emplace, if_neg, if_neg]
    · simp [Traits.valueLess, heq.1]
    · simp [Traits.valueLess, heq.2]
    · simpa using fun x hx => ⟨hbefore x hx, tr.less_asymm (hbefore x hx)⟩

lemma Shows.remove {n : ValueNode V} (h : Shows tr s elements) (hlive : s.nodes a = some n) :
    ∃ s', s.removeIterator (.node a) = .ok s' ∧ Shows tr s' (remove tr.valueLess n.value elements) := by
  obtain ⟨t, hshape, hstrict, hends, rfl⟩ := h
  obtain ⟨before, after, hsplit⟩ := append_of_mem (hshape.represents.exists_item hlive)
  obtain ⟨s', t', hrun, hshape', hends', horder⟩ := removeIterator_spec hshape hends hsplit
  rw [hsplit, StrictlyAscending] at hstrict
  refine ⟨s', hrun, t', hshape', ?_, hends', ?_⟩
  · rw [horder]
    exact hstrict.sublist ((sublist_cons_self _ after).append_left before)
  · have hself : tr.valueLess n.value n.value = false := tr.less_irrefl _
    rw [pairwise_append, pairwise_cons] at hstrict
    rw [horder, hsplit, map_append, map_append, map_cons, remove_append hself]
    · simpa using fun y hy => hstrict.2.2 y hy _ mem_cons_self
    · simpa using hstrict.2.1.1

lemma Shows.lowerBound (h : Shows tr s elements) (key : K) : ∃ found : Option (Item V),
    s.lowerBoundNode tr key = .ok (neighborPtr found) ∧ (∀ x ∈ found, s.value (.node x.address) = .ok x.value) ∧
    found.map Item.value = lowerBound (fun v => tr.less (tr.extractKey v) key) elements := by
  obtain ⟨t, hshape, -, -, rfl⟩ := h
  refine ⟨_, lowerBoundNode_spec key hshape.represents hshape.sorted hshape.size,
    fun x hx => hshape.represents.value_of_mem (mem_of_find?_eq_some hx), ?_⟩
  rw [OrderedSet.lowerBound, find?_map]
  rfl

end

end UltraOS.OrderedSet
