import UltraOS.Common.RedBlackTree.Layout

/-!
# Reading and writing one node

What each access of the model returns on a node whose cell is known, and what the source reads at a
zipper.
-/

namespace UltraOS.RedBlackTree

open ColoredTree

variable {V : Type}

namespace State

variable {s : State V} {a : Nat} {n : ValueNode V}

@[simp] lemma node_bne_null (a : Nat) : (NodePtr.node a != .null) = true := rfl

lemma isNull_superRoot : s.isNull .superRoot = .ok true := by simp [isNull, parent]

def put (s : State V) (a : Nat) (n : ValueNode V) : State V := { s with nodes := Function.update s.nodes a (some n) }

lemma put_self (s : State V) (a : Nat) (n : ValueNode V) : (s.put a n).nodes a = some n := by simp [put]

lemma put_of_ne {b : Nat} (s : State V) (n : ValueNode V) (h : b ≠ a) : (s.put a n).nodes b = s.nodes b := by
  simp [put, h]

variable (h : s.nodes a = some n)

include h

lemma read_eq : s.read (.node a) = .ok n := by simp [read, h]

lemma parent_eq : s.parent (.node a) = .ok n.parent := by simp [parent, read_eq h]

lemma child_eq (d : Side) : s.child d (.node a) = .ok (n.child d) := by simp [child, read_eq h]

lemma color_eq : s.color (.node a) = .ok n.color := by simp [color, read_eq h]

lemma value_eq : s.value (.node a) = .ok n.value := by simp [value, read_eq h]

lemma isNull_eq (hparent : n.parent ≠ .null) : s.isNull (.node a) = .ok false := by simp [isNull, parent_eq h, hparent]

lemma write_eq (m : ValueNode V) : s.write (.node a) m = .ok (s.put a m) := by simp [write, h, put]

lemma setParent_eq (p : NodePtr) : s.setParent (.node a) p = .ok (s.put a { n with parent := p }) := by
  simp [setParent, read_eq h, write_eq h]

lemma setChild_eq (d : Side) (p : NodePtr) : s.setChild d (.node a) p = .ok (s.put a (n.setChild d p)) := by
  simp [setChild, read_eq h, write_eq h]

lemma setColor_eq (c : Color) : s.setColor (.node a) c = .ok (s.put a { n with color := c }) := by
  simp [setColor, read_eq h, write_eq h]

end State

open State

/-- Whether a hole is a left child, as `is_left_child()` answers: the root counts as one. -/
def onLeft : Context (Item V) → Bool
  | [] => true
  | frame :: _ => frame.side == .left

@[simp] lemma onLeft_nil : onLeft ([] : Context (Item V)) = true := rfl

@[simp] lemma onLeft_cons (frame : Frame (Item V)) (ts : Context (Item V)) :
    onLeft (frame :: ts) = (frame.side == .left) := rfl

lemma ptr_ne_of_notMem {t : CTree (Item V)} {a : Nat} (h : a ∉ addresses t) : ptr t ≠ .node a := by
  by_cases hnil : t = .nil
  · simp [hnil]
  · obtain ⟨near, x, far, ht⟩ := CTree.exists_nodeOn .left hnil
    rw [ht] at h ⊢
    intro heq
    simp only [ptr_nodeOn, NodePtr.node.injEq] at heq
    exact h (by simp [heq])

variable {s : State V}

lemma isLeftChild_eq {ctx : Context (Item V)} {a : Nat} {n : ValueNode V} (hcell : s.nodes a = some n)
    (hparent : n.parent = above ctx) (hctx : HoldsHole s.nodes .superRoot ctx (.node a))
    (hapart : a ∉ contextAddresses ctx) : s.isLeftChild (.node a) = .ok (onLeft ctx) := by
  cases ctx with
  | nil => simp [isLeftChild, parent_eq hcell, hparent, isNull_superRoot]
  | cons frame ts =>
    obtain ⟨d, c, x, sib⟩ := frame
    have hx : s.nodes x.address = some (cellOn d (above ts) (.node a) (ptr sib) c x.value) := hctx.1
    have hne : ptr sib ≠ .node a := ptr_ne_of_notMem fun hmem => hapart (by simp [hmem])
    cases d with
    | left => simp [isLeftChild, parent_eq hcell, hparent, isNull_eq hx, left, child_eq hx]
    | right =>
      have hleft := cellOn_child_other .right (above ts) (.node a) (ptr sib) c x.value
      simp only [Side.other_right] at hleft
      simp [isLeftChild, parent_eq hcell, hparent, isNull_eq hx, left, child_eq hx, hleft, hne]

/-! ### Reading at a focus -/

lemma Represents.flip {ctx : Context (Item V)} {d : Side} {c : Color}
    {near far : CTree (Item V)} {x : Item V} (h : Represents s (ctx.plug (.nodeOn d c near x far))) :
    Represents s (ctx.plug (.nodeOn d.other c far x near)) := by
  rwa [CTree.nodeOn_other]

lemma Represents.toFar {ctx : Context (Item V)} {d : Side} {c : Color}
    {near far : CTree (Item V)} {x : Item V} (h : Represents s (ctx.plug (.nodeOn d c near x far))) :
    Represents s (Context.plug (⟨d.other, c, x, near⟩ :: ctx) far) :=
  h.flip

lemma Represents.toSibling {ts : Context (Item V)} {d : Side} {c : Color}
    {t sib : CTree (Item V)} {x : Item V} (h : Represents s (Context.plug (⟨d, c, x, sib⟩ :: ts) t)) :
    Represents s (Context.plug (⟨d.other, c, x, t⟩ :: ts) sib) :=
  Represents.flip h

lemma Represents.colorOf {ctx : Context (Item V)} {t : CTree (Item V)}
    (h : Represents s (ctx.plug t)) : s.colorOf (ptr t) = .ok t.color := by
  by_cases hnil : t = .nil
  · rw [hnil]
    rfl
  · obtain ⟨near, x, far, ht⟩ := CTree.exists_nodeOn .left hnil
    rw [ht] at h
    rw [ht, ptr_nodeOn, State.colorOf, color_eq h.cell, cellOn_color, CTree.color_nodeOn]
    exact fun heq => nomatch heq

namespace Represents

variable {s : State V} {ctx : Context (Item V)} {d : Side} {c : Color} {near far : CTree (Item V)}
  {x : Item V} (h : Represents s (ctx.plug (.nodeOn d c near x far)))
include h

lemma parent : s.parent (.node x.address) = .ok (above ctx) := by rw [parent_eq h.cell, cellOn_parent]

lemma isNull : s.isNull (.node x.address) = .ok false := isNull_eq h.cell (by simp)

lemma child : s.child d (.node x.address) = .ok (ptr near) := by rw [child_eq h.cell, cellOn_child]

lemma child_other : s.child d.other (.node x.address) = .ok (ptr far) := by rw [child_eq h.cell, cellOn_child_other]

lemma color : s.color (.node x.address) = .ok c := by rw [color_eq h.cell, cellOn_color]

lemma value : s.value (.node x.address) = .ok x.value := by rw [value_eq h.cell, cellOn_value]

lemma isLeftChild : s.isLeftChild (.node x.address) = .ok (onLeft ctx) := by
  have hctx := h.split.2
  rw [ptr_nodeOn] at hctx
  exact isLeftChild_eq h.cell (cellOn_parent ..) hctx (h.apart (by simp))

lemma childColor : s.colorOf (ptr near) = .ok near.color := @Represents.colorOf _ s (⟨d, c, x, far⟩ :: ctx) near h

end Represents

end UltraOS.RedBlackTree
