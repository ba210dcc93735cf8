import UltraOS.Common.RedBlackTree.Pieces

/-!
# Rotations and recolouring

On the abstract tree a rotation is the textbook one, at any zipper; a recolouring changes one
colour. Both leave the in-order sequence alone, so later modules move between zippers and never look
at the heap again.
-/

namespace UltraOS.RedBlackTree

open ColoredTree State CTree

variable {V : Type} {s : State V} {ctx : Context (Item V)} {C : CTree (Item V)}

lemma rotate_spec {d : Side} {c c' : Color} {A B : CTree (Item V)} {x y : Item V}
    (h : Represents s (ctx.plug (.nodeOn d c A x (.nodeOn d c' B y C)))) : ∃ s', s.rotate d (.node x.address) = .ok s' ∧
    Represents s' (ctx.plug (.nodeOn d c' (.nodeOn d c A x B) y C)) ∧ SameEnds s s' := by
  obtain ⟨hsub, hctx⟩ := h.split
  obtain ⟨hx, hA, hsub⟩ := holds_nodeOn.mp hsub
  obtain ⟨hy, hB, hC⟩ := holds_nodeOn.mp hsub
  rw [ptr_nodeOn] at hx hctx
  have h0 : Owns s s _ [.cell x.address _, .cell y.address _, .tree _ A, .tree _ B, .tree _ C, .hole .superRoot ctx _] :=
    h.owns.regroup ⟨hx, hy, hA, hB, hC, hctx, trivial⟩ fun a => by
      simp [uses, Piece.addresses]
      omega
  -- the inner subtree moves below `x`
  obtain ⟨s1, hset1, h1⟩ := h0.setChild (i := 0) rfl d.other (ptr B)
  obtain ⟨s2, hset2, h2⟩ := h1.setParentIfAny (i := 3) rfl (.node x.address)
  -- `y` moves up
  obtain ⟨s3, hset3, h3⟩ := h2.setParent (i := 1) rfl (above ctx)
  rw [cellOn_setChild_other] at h1 h3
  obtain ⟨s4, hset4, h4⟩ := h3.relink (i := 5) (j := 0) rfl rfl (cellOn_parent ..) (h.apart (by simp)) (.node y.address)
  -- `x` moves down
  obtain ⟨s5, hset5, h5⟩ := h4.setChild (i := 1) rfl d (.node x.address)
  obtain ⟨s6, hset6, h6⟩ := h5.setParent (i := 0) rfl (.node y.address)
  rw [cellOn_setParent, cellOn_setParent, cellOn_setChild] at h6
  have hrun : s.rotate d (.node x.address) = .ok s6 := by
    simp [rotate, isNull_eq hx (by simp), parent_eq hx, child_eq hx, child_eq hy,
        child_eq (h1.holds.get (i := 0) rfl), hset1, hset2, hset3, hset4, hset5, hset6]
  obtain ⟨hx6, hy6, hA6, hB6, hC6, hctx6, -⟩ := h6.holds
  have hsub6 : Holds s6.nodes (above ctx) (.nodeOn d c' (.nodeOn d c A x B) y C) :=
    holds_nodeOn.mpr ⟨by rwa [ptr_nodeOn], holds_nodeOn.mpr ⟨hx6, hA6, hB6⟩, hC6⟩
  refine ⟨s6, hrun, Owns.represents (h6.regroup ⟨holds_plug.mpr ⟨hsub6, by rwa [ptr_nodeOn]⟩, trivial⟩ fun a => ?_)
    (ptr_plug (ptr_nodeOn ..))⟩
  simp [uses, Piece.addresses]
  omega

lemma rotate_other_spec {d : Side} {c c' : Color} {A B : CTree (Item V)} {x y : Item V}
    (h : Represents s (ctx.plug (.nodeOn d c (.nodeOn d c' A y B) x C))) : ∃ s', s.rotate d.other (.node x.address) =
    .ok s' ∧ Represents s' (ctx.plug (.nodeOn d c' A y (.nodeOn d c B x C))) ∧ SameEnds s s' := by
  rw [← nodeOn_other d c, ← nodeOn_other d c'] at h
  obtain ⟨s', hrun, h', hsame⟩ := rotate_spec h
  rw [nodeOn_other, nodeOn_other] at h'
  exact ⟨s', hrun, h', hsame⟩

lemma setColor_spec {d : Side} {c : Color} {near far : CTree (Item V)} {x : Item V}
    (h : Represents s (ctx.plug (.nodeOn d c near x far))) (c' : Color) : ∃ s',
    s.setColor (.node x.address) c' = .ok s' ∧ Represents s' (ctx.plug (.nodeOn d c' near x far)) ∧ SameEnds s s' := by
  obtain ⟨hsub, hctx⟩ := h.split
  obtain ⟨hx, hnear, hfar⟩ := holds_nodeOn.mp hsub
  have h0 : Owns s s _ [.cell x.address _, .tree _ near, .tree _ far, .hole .superRoot ctx _] :=
    h.owns.regroup ⟨hx, hnear, hfar, hctx, trivial⟩ fun a => by
      simp [uses, Piece.addresses]
      omega
  obtain ⟨s', hset, h'⟩ := h0.setColor (i := 0) rfl c'
  rw [cellOn_setColor] at h'
  obtain ⟨hx', hnear', hfar', hctx', -⟩ := h'.holds
  rw [ptr_nodeOn] at hctx'
  have hsub' := holds_nodeOn.mpr ⟨hx', hnear', hfar'⟩
  refine ⟨s', hset, Owns.represents (h'.regroup ⟨holds_plug.mpr ⟨hsub', by rwa [ptr_nodeOn]⟩, trivial⟩ fun a => ?_) ?_⟩
  · simp [uses, Piece.addresses]
    omega
  · cases ctx with
    | nil => rw [Context.plug_nil, Context.plug_nil, ptr_nodeOn, ptr_nodeOn]
    | cons frame ts => exact ptr_plug_cons frame ts ..

variable {d e : Side} {c c' : Color} {near far A B : CTree (Item V)} {x y : Item V}

lemma setColor_near_spec (h : Represents s (ctx.plug (.nodeOn d c (.nodeOn e c' A y B) x far)))
    (c'' : Color) : ∃ s', s.setColor (.node y.address) c'' = .ok s' ∧
    Represents s' (ctx.plug (.nodeOn d c (.nodeOn e c'' A y B) x far)) ∧ SameEnds s s' :=
  @setColor_spec _ s (⟨d, c, x, far⟩ :: ctx) e c' A B y h c''

lemma setColor_far_spec (h : Represents s (ctx.plug (.nodeOn d c near x (.nodeOn e c' A y B))))
    (c'' : Color) : ∃ s', s.setColor (.node y.address) c'' = .ok s' ∧
    Represents s' (ctx.plug (.nodeOn d c near x (.nodeOn e c'' A y B))) ∧ SameEnds s s' := by
  obtain ⟨s', hset, h', hsame⟩ := setColor_near_spec h.flip c''
  rw [nodeOn_other] at h'
  exact ⟨s', hset, h', hsame⟩

lemma Represents.ofFar (h : Represents s (Context.plug (⟨d.other, c, x, near⟩ :: ctx) far)) :
    Represents s (ctx.plug (.nodeOn d c near x far)) := by
  rwa [← nodeOn_other]

end UltraOS.RedBlackTree
