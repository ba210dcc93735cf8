import UltraOS.Common.RedBlackTree.Run

/-!
# Moves

A tree object holds its end node by value, and the move operations hand over only the root, the size
and the comparator. The nodes that arrive still refer to the end node of the object they came from.
-/

namespace UltraOS.RedBlackTree

open ColoredTree State List State

variable {K V : Type}

/-- A tree at an address. In the links of its nodes `.superRoot` is the end node of the object at
`home`. -/
structure Object (V : Type) where
  address : Nat
  home : Nat
  state : State V

/-- The move constructor: the new object, whose end node is a fresh one, and what is left of `other`. -/
def moveConstruct (address : Nat) (other : Object V) : Object V × Object V :=
  (⟨address, other.home, { other.state with superLeft := .null, superRight := .null }⟩,
    ⟨other.address, other.home, { other.state with nodes := fun _ => none, root := .null, size := 0 }⟩)

def moveAssign (this other : Object V) : Object V × Object V :=
  if this.address = other.address then (this, other)
  else
    (⟨this.address, other.home,
        { other.state with superLeft := this.state.superLeft, superRight := this.state.superRight }⟩,
      ⟨other.address, this.home,
        { this.state with superLeft := other.state.superLeft, superRight := other.state.superRight }⟩)

/-- The nodes an iterator meets in `count` increments, and where it is then. -/
def visitForwards (s : State V) : Nat → NodePtr → Run (List NodePtr × NodePtr)
  | 0, node => .ok ([], node)
  | count + 1, node => do
    let (rest, last) ← visitForwards s count (← s.increment node)
    pure (node :: rest, last)

/-- The object is a tree of these items: an iterator meets all of them between `begin()` and the object's
own end node. -/
structure Serves (traits : Traits K V) (o : Object V) (items : List (Item V)) : Prop where
  forwards : visitForwards o.state items.length o.state.leftMostNode =
    .ok (items.map fun x => .node x.address, .superRoot)
  stops : items ≠ [] → o.home = o.address
  greatest : ∀ x ∈ items.getLast?, o.state.decrement .superRoot = .ok (.node x.address)
  invariant : ∃ t, Shape traits o.state t ∧ t.inorder = items ∧ EndsCached o.state items

variable {tr : Traits K V} {s : State V} {t : CTree (Item V)} {o this u : Object V} {items others : List (Item V)}

variable {before after : List (Item V)} {x : Item V}

lemma Represents.increment_eq (h : Represents s t) (hlen : t.inorder.length ≤ s.fuel)
    (hsplit : t.inorder = before ++ x :: after) : s.increment (.node x.address) = .ok (neighborPtr after.head?) := by
  have hnull := h.isNull_of_mem (x := x) (by simp [hsplit])
  simp [increment, hnull, inorderSuccessorOf_spec h hlen hsplit]

lemma visitForwards_from (h : Represents s t) (hsize : s.size = t.inorder.length)
    (hsplit : t.inorder = before ++ x :: after) : visitForwards s (after.length + 1) (.node x.address) =
    .ok ((x :: after).map fun x => .node x.address, .superRoot) := by
  have hlen : t.inorder.length ≤ s.fuel := by
    rw [fuel, hsize]
    omega
  induction after generalizing x before with
  | nil => simp [visitForwards, h.increment_eq hlen hsplit, neighborPtr]
  | cons y after ih =>
    have hrest := ih (by simpa using hsplit : t.inorder = (before ++ [x]) ++ y :: after)
    rw [length_cons, visitForwards, h.increment_eq hlen hsplit, head?_cons, neighborPtr, ok_bind, hrest]
    rfl

lemma Shape.serves (h : Shape tr o.state t) (hends : EndsCached o.state t.inorder)
    (hhome : t.inorder ≠ [] → o.home = o.address) : Serves tr o t.inorder := by
  refine ⟨?_, hhome, fun x hx => ?_, t, h, rfl, hends⟩
  · cases hitems : t.inorder with
    | nil => simp [visitForwards, leftMostNode, h.size, hitems]
    | cons x after =>
      have hleft := hends.left
      rw [hitems] at hleft
      rw [length_cons, leftMostNode, if_neg (by simp [h.size, hitems]), hleft]
      exact visitForwards_from h.represents h.size (hitems.trans (nil_append _).symm)
  · exact decrement_superRoot (by rw [hends.right, hx]; rfl)

lemma serves_empty (a home : Nat) : Serves tr ⟨a, home, empty V⟩ [] :=
  Shape.serves (o := ⟨a, home, empty V⟩) (shape_empty tr) ⟨rfl, rfl⟩ (absurd rfl)

lemma Serves.state_eq (h : Serves tr o []) : o.state = empty V := by
  obtain ⟨t, hshape, hnil, hleft, hright⟩ := h.invariant
  have hsize := hshape.size
  rw [hnil] at hsize
  cases t with
  | node c l x r => simp at hnil
  | nil =>
    have hnodes : o.state.nodes = fun _ => none := funext fun a =>
      by_contra fun hlive => by simpa using hshape.represents.live a hlive
    have hroot := hshape.represents.root
    cases hstate : o.state
    simp_all [empty, itemPtr]

/-- A move leaves two trees behind exactly when no node has to change its end node. -/
theorem moves_serve_iff (traits : Traits K V) (address : Nat) (hthis : Serves traits this items)
    (hother : Serves traits u others) (hfresh : address ≠ u.address) (hsame : this.address = u.address → this = u) :
    (Serves traits (moveConstruct address u).1 others ∧ Serves traits (moveConstruct address u).2 [] ↔ others = []) ∧
    (Serves traits (moveAssign this u).1 others ∧ Serves traits (moveAssign this u).2 items ↔
      this.address = u.address ∨ items = [] ∧ others = []) := by
  constructor
  · constructor
    · rintro ⟨hnew, -⟩
      by_contra hne
      exact hfresh ((hnew.stops hne).symm.trans (hother.stops hne))
    · rintro rfl
      rw [moveConstruct, hother.state_eq]
      exact ⟨serves_empty .., serves_empty ..⟩
  · by_cases hself : this.address = u.address
    · obtain rfl := hsame hself
      simp [moveAssign, hthis, hother]
    · rw [moveAssign, if_neg hself, or_iff_right hself]
      constructor
      · rintro ⟨hnew, hold⟩
        refine ⟨by_contra fun hne => hself ?_, by_contra fun hne => hself ?_⟩
        · exact (hthis.stops hne).symm.trans (hold.stops hne)
        · exact (hnew.stops hne).symm.trans (hother.stops hne)
      · rintro ⟨rfl, rfl⟩
        rw [hthis.state_eq, hother.state_eq]
        exact ⟨serves_empty .., serves_empty ..⟩

def single : Object Nat where
  address := 0
  home := 0
  state :=
    { nodes := fun a => if a = 0 then some { parent := .superRoot, color := .black, value := 5 } else none
      root := .node 0, superLeft := .node 0, superRight := .node 0, size := 1 }

lemma serves_single : Serves natSet single [⟨0, 5⟩] := by
  have hrep : Represents single.state (.node .black .nil ⟨0, 5⟩ .nil) :=
    ⟨⟨rfl, trivial, trivial⟩, rfl, by decide, fun a ha => by simpa [single, addresses] using ha⟩
  exact Shape.serves (t := .node .black .nil ⟨0, 5⟩ .nil)
    ⟨hrep, ⟨rfl, 1, (.black .nil .nil)⟩, pairwise_singleton .., rfl⟩ ⟨rfl, rfl⟩ fun _ => rfl

theorem moves_serve_iff_single :
    (Serves natSet (moveConstruct 2 single).1 [⟨0, 5⟩] ∧ Serves natSet (moveConstruct 2 single).2 [] ↔
      [(⟨0, 5⟩ : Item Nat)] = []) ∧ (Serves natSet (moveAssign ⟨1, 1, empty Nat⟩ single).1 [⟨0, 5⟩] ∧
        Serves natSet (moveAssign ⟨1, 1, empty Nat⟩ single).2 [] ↔
      1 = 0 ∨ ([] : List (Item Nat)) = [] ∧ [(⟨0, 5⟩ : Item Nat)] = []) :=
  moves_serve_iff natSet 2 (serves_empty 1 1) serves_single (by decide) (fun h => absurd h (by decide))

/-- Moving the tree of one value: `begin()` of the new tree is a null pointer. -/
theorem not_serves_moveConstruct : Serves natSet single [⟨0, 5⟩] ∧
    (moveConstruct 2 single).1.state.leftMostNode = .null ∧ ¬ Serves natSet (moveConstruct 2 single).1 [⟨0, 5⟩] := by
  refine ⟨serves_single, rfl, fun h => ?_⟩
  exact absurd (h.stops (by simp)) (by decide)

end UltraOS.RedBlackTree
