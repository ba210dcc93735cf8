import UltraOS.Common.RedBlackTree.Rotate

/-!
# `swap_node_with_successor`

Before a node with two children is removed, the source exchanges it with its in-order successor, the right child
or a node further down, by rewriting the links of both and around them. The two labels trade places in the tree
and nothing else changes. The third arm of the source, for a node below its own successor, is never taken.
-/

namespace UltraOS.RedBlackTree

open ColoredTree State Context

variable {V : Type} {s s' : State V} {ctx inner : Context (Item V)} {c c' : Color} {L R : CTree (Item V)} {x y : Item V}

lemma swapAdjacent_spec (h : Represents s (ctx.plug (.nodeOn .left c L x (.nodeOn .left c' .nil y R)))) :
    ∃ s', s.swapAdjacent (.node x.address) (.node y.address) = .ok s' ∧ Owns s s' s.root
      [.tree (above ctx) (.nodeOn .left c L y (.nodeOn .left c' .nil x R)), .hole .superRoot ctx (.node y.address)] := by
  obtain ⟨hsub, hctx⟩ := h.split
  obtain ⟨hx, hL, hsub⟩ := holds_nodeOn.mp hsub
  obtain ⟨hy, -, hR⟩ := holds_nodeOn.mp hsub
  rw [ptr_nodeOn] at hx hctx
  have h0 : Owns s s _ [.cell x.address _, .cell y.address _, .tree _ L, .tree _ R, .hole .superRoot ctx _] :=
    h.owns.regroup ⟨hx, hy, hL, hR, hctx, trivial⟩ fun a => by
      simp [uses, Piece.addresses]
      omega
  rw [← h.root] at h0
  -- both nodes take over each other's links
  obtain ⟨s1, hset1, h1⟩ := h0.write (i := 0) rfl ⟨.node y.address, .null, ptr R, c', x.value⟩
  obtain ⟨s2, hset2, h2⟩ := h1.write (i := 1) rfl ⟨above ctx, ptr L, .node x.address, c, y.value⟩
  -- the children follow
  obtain ⟨s3, hset3, h3⟩ := h2.setParentIfAny (i := 3) rfl (.node x.address)
  obtain ⟨s4, hset4, h4⟩ := h3.reattach (i := 4) rfl h.root_eq (.node y.address)
  obtain ⟨s5, hset5, h5⟩ := h4.setParentIfAny (i := 2) rfl (.node y.address)
  have hrun : s.swapAdjacent (.node x.address) (.node y.address) = .ok s5 := by
    simp only [swapAdjacent, h.parent, right, left, child_eq hx, child_eq hy, color_eq hx, color_eq hy, h.isLeftChild,
      h.toFar.isLeftChild, read_eq hx, read_eq (h1.holds.get (i := 1) rfl), ok_bind, cellOn, ValueNode.child,
      onLeft_cons, ptr_nil, Side.other, show (Side.right == Side.left) = false from rfl, Bool.false_eq_true, if_false,
      hset1, hset2, hset3, hset4, hset5]
  obtain ⟨hx5, hy5, hL5, hR5, hctx5, -⟩ := h5.holds
  refine ⟨s5, hrun, h5.regroup ⟨holds_nodeOn.mpr ⟨?_, hL5, holds_nodeOn.mpr ⟨hx5, trivial, hR5⟩⟩, hctx5, trivial⟩
    fun a => ?_⟩
  · rwa [ptr_nodeOn]
  · simp [uses, Piece.addresses]
    omega

lemma swapDistant_spec {cz : Color} {z : Item V} {Z : CTree (Item V)} (h : Represents s (ctx.plug (.nodeOn .left c L x
      (plug (⟨.left, cz, z, Z⟩ :: inner) (.nodeOn .left c' .nil y R))))) :
    ∃ s', s.swapDistant (.node x.address) (.node y.address) = .ok s' ∧ Owns s s' s.root
      [.tree (above ctx) (.nodeOn .left c L y (plug (⟨.left, cz, z, Z⟩ :: inner) (.nodeOn .left c' .nil x R))),
        .hole .superRoot ctx (.node y.address)] := by
  set F : Context (Item V) := ⟨.left, cz, z, Z⟩ :: inner with hF
  have hfocus : Represents s (plug (F ++ ⟨.right, c, x, L⟩ :: ctx) (.nodeOn .left c' .nil y R)) := by
    rw [plug_append]
    exact h.toFar
  have hparent : s.parent (.node y.address) = .ok (.node z.address) := hfocus.parent
  have hside : s.isLeftChild (.node y.address) = .ok true := hfocus.isLeftChild
  have hptr : ptr (F.plug (.nodeOn .left c' .nil x R)) = ptr (F.plug (.nodeOn .left c' .nil y R)) :=
    ptr_plug_cons _ inner _ _
  obtain ⟨hsub, hctx⟩ := h.split
  obtain ⟨hx, hL, hQ⟩ := holds_nodeOn.mp hsub
  obtain ⟨hsub, hhole⟩ := holds_plug.mp hQ
  obtain ⟨hy, -, hR⟩ := holds_nodeOn.mp hsub
  rw [ptr_nodeOn] at hctx hhole
  have h0 : Owns s s _ [.cell x.address _, .cell y.address _, .tree _ L, .tree _ R, .hole _ F _, .hole .superRoot ctx _] :=
    h.owns.regroup ⟨hx, hy, hL, hR, hhole, hctx, trivial⟩ fun a => by
      simp [uses, Piece.addresses]
      omega
  rw [← h.root] at h0
  -- both nodes take over each other's links
  obtain ⟨s1, hset1, h1⟩ := h0.write (i := 0) rfl ⟨.node z.address, .null, ptr R, c', x.value⟩
  obtain ⟨s2, hset2, h2⟩ :=
    h1.write (i := 1) rfl ⟨above ctx, ptr L, ptr (F.plug (.nodeOn .left c' .nil y R)), c, y.value⟩
  -- the child of the successor, and the pointer from above it
  obtain ⟨s3, hset3, h3⟩ := h2.setParentIfAny (i := 3) rfl (.node x.address)
  obtain ⟨s4, hset4, h4⟩ := h3.setHole (i := 4) rfl (.node x.address)
  -- the right subtree is whole again
  obtain ⟨hx4, hy4, hL4, hR4, hhole4, hctx4, -⟩ := h4.holds
  have hQ4 : Holds s4.nodes (.node x.address) (F.plug (.nodeOn .left c' .nil x R)) :=
    holds_plug.mpr ⟨holds_nodeOn.mpr ⟨hx4, trivial, hR4⟩, by rwa [ptr_nodeOn]⟩
  have hjoined : Owns s s4 _ [.cell y.address _, .tree _ L, .tree _ (F.plug (.nodeOn .left c' .nil x R)),
      .hole .superRoot ctx _] :=
    h4.regroup ⟨hy4, hL4, hQ4, hctx4, trivial⟩ fun a => by
      simp [uses, Piece.addresses, hF]
      omega
  -- the children of the node, and the pointer from above it
  obtain ⟨s5, hset5, h5⟩ := hjoined.setParentIfAny (i := 2) rfl (.node y.address)
  obtain ⟨s6, hset6, h6⟩ := h5.setParentIfAny (i := 1) rfl (.node y.address)
  obtain ⟨s7, hset7, h7⟩ := h6.reattach (i := 3) rfl h.root_eq (.node y.address)
  rw [hptr] at hset5
  have hrun : s.swapDistant (.node x.address) (.node y.address) = .ok s7 := by
    simp only [swapDistant, h.parent, hparent, right, left, setLeft, child_eq hx, child_eq hy, color_eq hx,
      color_eq hy, h.isLeftChild, hside, read_eq hx, read_eq (h1.holds.get (i := 1) rfl), ok_bind, cellOn,
      ValueNode.child, ptr_nil, if_true, hset1, hset2, hset3, hset4, hset5, hset6]
    exact hset7
  obtain ⟨hy7, hL7, hQ7, hctx7, -⟩ := h7.holds
  refine ⟨s7, hrun, h7.regroup ⟨holds_nodeOn.mpr ⟨?_, hL7, hQ7⟩, hctx7, trivial⟩ fun a => ?_⟩
  · rwa [hptr]
  · simp [uses, Piece.addresses]
    omega

variable (h : Represents s (ctx.plug (.nodeOn .left c L x (inner.plug (.nodeOn .left c' .nil y R)))))

include h in
lemma Owns.exchanged
    (h' : Owns s s' s.root [.tree (above ctx) (.nodeOn .left c L y (inner.plug (.nodeOn .left c' .nil x R))),
      .hole .superRoot ctx (.node y.address)]) :
    Represents (if .node x.address = s'.root then { s' with root := .node y.address } else s')
      (ctx.plug (.nodeOn .left c L y (inner.plug (.nodeOn .left c' .nil x R)))) ∧
    SameEnds s (if .node x.address = s'.root then { s' with root := .node y.address } else s') := by
  have hjoined : Owns s s' s.root [.tree .superRoot (ctx.plug (.nodeOn .left c L y (inner.plug (.nodeOn .left c' .nil x R))))] :=
    h'.regroup ⟨holds_plug.mpr ⟨h'.holds.1, by rw [ptr_nodeOn]; exact h'.holds.2.1⟩, trivial⟩ fun a => by
      simp [uses, Piece.addresses]
  have hroot : (if ctx = [] then _ else ptr (ctx.plug (.nodeOn .left c L x (inner.plug (.nodeOn .left c' .nil y R))))) = _ :=
    ptr_plug (ptr_nodeOn .left c L y (inner.plug (.nodeOn .left c' .nil x R)))
  by_cases hnil : ctx = []
  · rw [if_pos (h'.root_eq ▸ h.root_eq.mpr hnil)]
    rw [if_pos hnil] at hroot
    exact (hjoined.setRoot _).represents hroot
  · rw [if_neg (h'.root_eq ▸ mt h.root_eq.mp hnil)]
    rw [if_neg hnil] at hroot
    exact hjoined.represents (h.root.trans hroot)

include h in
lemma swapNodeWithSuccessor_spec (hedge : inner.before = []) : ∃ s',
    s.swapNodeWithSuccessor (.node x.address) (.node y.address) = .ok s' ∧
    Represents s' (ctx.plug (.nodeOn .left c L y (inner.plug (.nodeOn .left c' .nil x R)))) ∧ SameEnds s s' := by
  have hfocus : Represents s (plug (inner ++ ⟨.right, c, x, L⟩ :: ctx) (.nodeOn .left c' .nil y R)) := by
    rw [plug_append]
    exact h.toFar
  -- the arm the source takes, and what it leaves
  have harm : ∃ s1, (if above (inner ++ ⟨.right, c, x, L⟩ :: ctx) = .node x.address then
        s.swapAdjacent (.node x.address) (.node y.address)
      else if above ctx = .node y.address then s.swapReversed (.node x.address) (.node y.address)
      else s.swapDistant (.node x.address) (.node y.address)) = .ok s1 ∧ Owns s s1 s.root
        [.tree (above ctx) (.nodeOn .left c L y (inner.plug (.nodeOn .left c' .nil x R))),
          .hole .superRoot ctx (.node y.address)] := by
    cases inner with
    | nil =>
      rw [List.nil_append, above_cons, if_pos rfl]
      exact swapAdjacent_spec h
    | cons frame inner =>
      obtain ⟨d, cz, z, Z⟩ := frame
      obtain rfl : d = .left := by
        cases d with
        | left => rfl
        | right => simp at hedge
      have hzx : z.address ≠ x.address := fun heq =>
        h.toFar.apart (a := x.address) (mem_addresses_plug.mpr (.inr (by simp [heq]))) (by simp)
      have habove : above ctx ≠ .node y.address := by
        cases ctx with
        | nil => simp
        | cons top ts =>
          intro heq
          simp only [above_cons, NodePtr.node.injEq] at heq
          exact h.apart (a := y.address) (by simp [mem_addresses_plug]) (by simp [heq])
      rw [List.cons_append, above_cons, if_neg (by simpa using hzx), if_neg habove]
      exact swapDistant_spec h
  obtain ⟨s1, hrun, hex⟩ := harm
  refine ⟨_, ?_, hex.exchanged h⟩
  simp only [swapNodeWithSuccessor, node_bne_null, assert_true, ok_bind, h.isNull, hfocus.isNull,
    Bool.not_false, h.parent, hfocus.parent, hrun]
  rfl

end UltraOS.RedBlackTree
