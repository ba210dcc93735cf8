import UltraOS.Common.RedBlackTree.DoubleBlack
import UltraOS.Common.RedBlackTree.Neighbor
import UltraOS.Common.RedBlackTree.Swap

/-!
# Removing a node

A node with at most one child is unlinked where it stands; its colour decides whether the tree needs
repair, during which a removed leaf stays linked as a black null node. A node with two children
first trades places with its successor. Either way the in-order sequence loses exactly that item.
-/

namespace UltraOS.RedBlackTree

open ColoredTree State List Function Context CTree List

variable {V : Type} {s : State V} {a fuel : Nat} {n : ValueNode V} {frame : Frame (Item V)} {ts ctx : Context (Item V)}

lemma delete_eq (h : s.nodes a = some n) : s.delete (.node a) = .ok { s with nodes := update s.nodes a none } := by
  simp [delete, read_eq h]

lemma Owns.delete {s0 : State V} {r : NodePtr} {ps : List (Piece V)}
    (h : Owns s0 s r (.cell a n :: ps)) : Owns s0 { s with nodes := update s.nodes a none } r ps := by
  have hu : ∀ b, uses ps b ≠ 0 → b ≠ a := by
    rintro b hb rfl
    have := h.apart b
    simp only [uses, Piece.addresses, count_singleton_self] at this
    omega
  refine ⟨h.holds.2.congr fun b hb => update_of_ne (hu b hb) .., fun b => ?_, fun b hb => ?_, h.root_eq, ?_⟩
  · exact le_trans (Nat.le_add_left ..) (h.apart b)
  · have hba : b ≠ a := by
      rintro rfl
      exact hb (update_self ..)
    have := h.live b fun hnone => hb ((update_of_ne hba ..).trans hnone)
    simpa [uses, Piece.addresses, count_singleton, hba.symm] using this
  · exact ⟨h.ends.1, h.ends.2, h.ends.3⟩

lemma splice_spec {e : Side} {c : Color} {child : CTree (Item V)} {x : Item V}
    (h : Represents s (plug (frame :: ts) (.nodeOn e c child x .nil))) :
    ∃ s1 s2 s3, (if onLeft (frame :: ts) then s.setLeft (above (frame :: ts)) (ptr child)
        else s.setRight (above (frame :: ts)) (ptr child)) = .ok s1 ∧
      s1.setParentIfAny (ptr child) (above (frame :: ts)) = .ok s2 ∧
      s2.delete (.node x.address) = .ok s3 ∧ Represents s3 (plug (frame :: ts) child) ∧ SameEnds s s3 := by
  obtain ⟨hsub, hctx⟩ := h.split
  obtain ⟨hx, hchild, -⟩ := holds_nodeOn.mp hsub
  have h0 : Owns s s _ [.cell x.address _, .tree _ child, .hole .superRoot (frame :: ts) _] :=
    h.owns.regroup ⟨hx, hchild, hctx, trivial⟩ fun a => by
      simp [uses, Piece.addresses]
      omega
  obtain ⟨s1, hset1, h1⟩ := h0.setHole_side (i := 2) rfl (ptr child)
  obtain ⟨s2, hset2, h2⟩ := h1.setParentIfAny (i := 1) rfl (above (frame :: ts))
  have h3 := h2.delete
  refine ⟨s1, s2, _, hset1, hset2, delete_eq h2.holds.1, Owns.represents
    (h3.regroup ⟨holds_plug.mpr ⟨h3.holds.1, h3.holds.2.1⟩, trivial⟩ fun a => ?_) (ptr_plug_cons ..)⟩
  simp [uses, Piece.addresses]

/-- What a removal leaves behind: the tree of the remaining items, and the cached ends untouched. -/
structure Removed (s : State V) (items : List (Item V)) (s' : State V) (t' : CTree (Item V)) : Prop where
  represents : Represents s' t'
  redBlack : RedBlack t'
  inorder : t'.inorder = items
  size : s'.size = items.length
  superLeft : s'.superLeft = s.superLeft
  superRight : s'.superRight = s.superRight

/-! ### A node with at most one child -/

section

variable {e : Side} {c : Color} {child : CTree (Item V)} {x : Item V}

lemma shallow_cases {n : Nat} (h : Balanced (.nodeOn e c child x .nil) n) : (child = .nil ∧
    n = if c = .black then 1 else 0) ∨ ∃ y, child = .nodeOn .left .red .nil y .nil ∧ c = .black ∧ n = 1 := by
  cases c with
  | red =>
    obtain ⟨hcolor, -, hchild, hnil⟩ := balanced_red_iff.mp h
    cases hnil with
    | nil =>
      rcases hchild.zero_cases with rfl | ⟨y, rfl⟩
      · exact .inl ⟨rfl, rfl⟩
      · simp at hcolor
  | black =>
    obtain ⟨m, rfl, hchild, hnil⟩ := balanced_black_iff.mp h
    cases hnil with
    | nil =>
      rcases hchild.zero_cases with rfl | ⟨y, rfl⟩
      · exact .inl ⟨rfl, rfl⟩
      · exact .inr ⟨y, rfl, rfl, rfl⟩

lemma removeShallow_root (h : Represents s (plug [] (.nodeOn e c child x .nil)))
    (hrb : RedBlack (.nodeOn e c child x .nil)) : ∃ s' t',
    s.removeShallow (.node x.address) (ptr child) = .ok s' ∧ Removed s child.inorder s' t' := by
  have hroot : NodePtr.node x.address = s.root := h.root_eq.mpr rfl
  obtain ⟨hx, hchild, -⟩ := holds_nodeOn.mp h.split.1
  have h0 : Owns s s _ [.cell x.address _, .tree _ child] :=
    h.owns.regroup ⟨hx, hchild, trivial⟩ fun a => by simp [uses, Piece.addresses]
  obtain ⟨n, hbal⟩ := hrb.balanced
  rcases shallow_cases hbal with ⟨rfl, -⟩ | ⟨y, rfl, -, -⟩
  · have h1 : Owns s _ .null [.tree .superRoot .nil] :=
      (h0.delete.setRoot .null).regroup ⟨trivial, trivial⟩ fun _ => rfl
    obtain ⟨hrep, hsame⟩ := h1.represents rfl
    refine ⟨{ s with nodes := update s.nodes x.address none, root := .null, size := 0 }, .nil, ?_,
      ⟨hrep.congr rfl rfl, ⟨rfl, 0, .nil⟩, rfl, rfl, rfl, rfl⟩⟩
    simp only [removeShallow, if_pos hroot, delete_eq hx, ok_bind, ptr_nil, if_true]
    rfl
  · obtain ⟨s2, hset2, h2⟩ := (h0.delete.setRoot (.node y.address)).setParentIfAny (i := 0) rfl .superRoot
    rw [ptr_nodeOn, setParentIfAny, if_neg (by simp)] at hset2
    obtain ⟨hrep, hsame2⟩ := h2.represents (ptr_nodeOn ..).symm
    obtain ⟨s3, hset3, h3, hsame3⟩ := @setColor_spec _ s2 [] .left .red .nil .nil y hrep .black
    refine ⟨{ s3 with size := 1 }, _, ?_, ⟨h3.congr rfl rfl, ⟨color_nodeOn .., 1, ?_⟩, rfl, rfl, ?_, ?_⟩⟩
    · simp only [removeShallow, if_pos hroot, delete_eq hx, ok_bind, ptr_nodeOn, reduceCtorEq, if_false]
      rw [hset2, ok_bind, hset3, ok_bind]
      rfl
    · exact balanced_black_iff.mpr ⟨0, rfl, .nil, .nil⟩
    · exact hsame3.superLeft.trans hsame2.superLeft
    · exact hsame3.superRight.trans hsame2.superRight

lemma fixRemoval_leaf (h : Represents s (ctx.plug (.nodeOn e .black .nil x .nil)))
    (hfits : Fits ctx c (if c = .black then 1 else 0)) (hfuel : ctx.length + 3 ≤ s.fuel) :
    ∃ s', s.fixRemovalViolationsIfNeeded (.node x.address) c = .ok s' ∧
      Lowered s ctx (.nodeOn e .black .nil x .nil) 0 s' := by
  have hcolor := h.colorOf
  rw [ptr_nodeOn, color_nodeOn] at hcolor
  cases c with
  | red =>
    obtain ⟨s', hset, h', hsame⟩ := setColor_spec h .black
    refine ⟨s', ?_, ctx, h', hfits.black_of_any, rfl, rfl, hsame⟩
    simp [fixRemovalViolationsIfNeeded, hcolor, hset]
  | black =>
    obtain ⟨s', hrun, hlow⟩ := fixDoubleBlack_spec h hfits hfuel
    refine ⟨s', ?_, hlow⟩
    simp [fixRemovalViolationsIfNeeded, hcolor, hrun]

lemma removeShallow_leaf (h : Represents s (plug (frame :: ts) (.nodeOn e c .nil x .nil)))
    (hrb : RedBlack (plug (frame :: ts) (.nodeOn e c .nil x .nil)))
    (hsize : s.size = (plug (frame :: ts) (.nodeOn e c .nil x .nil)).inorder.length) : ∃ s' t',
    s.removeShallow (.node x.address) .null = .ok s' ∧
    Removed s (before (frame :: ts) ++ after (frame :: ts)) s' t' := by
  have hroot : NodePtr.node x.address ≠ s.root := mt h.root_eq.mp (cons_ne_nil _ _)
  have hm : s.size = (before (frame :: ts) ++ after (frame :: ts)).length + 1 := by
    rw [hsize, inorder_plug]
    cases e <;> simp [nodeOn] <;> omega
  obtain ⟨n, hbal, hfits⟩ := hrb.unplug
  rw [color_nodeOn] at hfits
  obtain rfl : n = if c = .black then 1 else 0 := by
    rcases shallow_cases hbal with ⟨-, hn⟩ | ⟨y, hy, -, -⟩
    · exact hn
    · exact absurd hy.symm (nodeOn_ne_nil _ _ _ _ _)
  obtain ⟨s1, hset1, h1, hsame1⟩ := setColor_spec h .black
  let s2 : State V := { s1 with size := s1.size - 1 }
  have h2 : Represents s2 (plug (frame :: ts) (.nodeOn e .black .nil x .nil)) := h1.congr rfl rfl
  have hsize2 : s2.size = (before (frame :: ts) ++ after (frame :: ts)).length := by
    change s1.size - 1 = _
    rw [hsame1.size, hm]
    rfl
  have hfuel : (frame :: ts).length + 3 ≤ s2.fuel := by
    have := length_le_length_before_add_after (frame :: ts)
    rw [fuel, hsize2, length_append]
    omega
  obtain ⟨s3, hfix, ctx', h3, hfits3, hbef, hafter, hsame3⟩ := fixRemoval_leaf h2 hfits hfuel
  -- the frames have been rebuilt, but there still are some
  obtain ⟨frame', rest', rfl⟩ : ∃ frame' rest', ctx' = frame' :: rest' := by
    cases ctx' with
    | cons frame' rest' => exact ⟨frame', rest', rfl⟩
    | nil =>
      have := length_le_length_before_add_after (frame :: ts)
      rw [← hbef, ← hafter] at this
      simp at this
  obtain ⟨s4, s5, s6, hset4, hset5, hdelete, h6, hsame6⟩ := splice_spec h3
  obtain rfl : s4 = s5 := by simpa [setParentIfAny] using hset5
  refine ⟨s6, _, ?_, ⟨h6, hfits3.plug rfl .nil, ?_, ?_, ?_, ?_⟩⟩
  · simp only [removeShallow, if_neg hroot, h.parent, h.color, h.isLeftChild, ok_bind, if_true, hset1]
    change (s2.fixRemovalViolationsIfNeeded (.node x.address) c >>= _) = _
    simp only [hfix, ok_bind, h3.parent, h3.isLeftChild]
    rw [ptr_nil] at hset4
    rw [hset4, ok_bind, hdelete]
  · rw [inorder_plug, hbef, hafter, inorder_nil, nil_append]
  · rw [hsame6.size, hsame3.size, hsize2]
  · rw [hsame6.superLeft, hsame3.superLeft, ← hsame1.superLeft]
  · rw [hsame6.superRight, hsame3.superRight, ← hsame1.superRight]

lemma removeShallow_child (hne : child ≠ .nil) (h : Represents s (plug (frame :: ts) (.nodeOn e c child x .nil)))
    (hrb : RedBlack (plug (frame :: ts) (.nodeOn e c child x .nil)))
    (hsize : s.size = (plug (frame :: ts) (.nodeOn e c child x .nil)).inorder.length) : ∃ s' t',
    s.removeShallow (.node x.address) (ptr child) = .ok s' ∧
    Removed s (before (frame :: ts) ++ (child.inorder ++ after (frame :: ts))) s' t' := by
  have hroot : NodePtr.node x.address ≠ s.root := mt h.root_eq.mp (cons_ne_nil _ _)
  obtain ⟨n, hbal, hfits⟩ := hrb.unplug
  rw [color_nodeOn] at hfits
  rcases shallow_cases hbal with ⟨hnil, -⟩ | ⟨y, rfl, rfl, rfl⟩
  · exact absurd hnil hne
  · have hm : s.size = (before (frame :: ts) ++ ((nodeOn .left .red .nil y .nil).inorder ++
        after (frame :: ts))).length + 1 := by
      rw [hsize, inorder_plug]
      cases e <;> simp [nodeOn] <;> omega
    obtain ⟨s1, s2, s3, hset1, hset2, hdelete, h3, hsame3⟩ := splice_spec h
    let s4 : State V := { s3 with size := s3.size - 1 }
    have h4 : Represents s4 (plug (frame :: ts) (.nodeOn .left .red .nil y .nil)) := h3.congr rfl rfl
    have hcolor := h4.colorOf
    rw [ptr_nodeOn, color_nodeOn] at hcolor
    obtain ⟨s5, hset5, h5, hsame5⟩ := setColor_spec h4 .black
    refine ⟨s5, _, ?_, ⟨h5, hfits.plug (color_nodeOn ..) ?_, ?_, ?_, ?_, ?_⟩⟩
    · rw [ptr_nodeOn, setParentIfAny, if_neg (by simp)] at hset2
      rw [ptr_nodeOn] at hset1
      simp only [removeShallow, if_neg hroot, h.parent, h.color, h.isLeftChild, ok_bind, ptr_nodeOn,
        reduceCtorEq, if_false]
      rw [hset1, ok_bind, hset2, ok_bind, hdelete, ok_bind]
      change s4.fixRemovalViolationsIfNeeded (.node y.address) .black = _
      simp [fixRemovalViolationsIfNeeded, hcolor, hset5]
    · exact balanced_black_iff.mpr ⟨0, rfl, .nil, .nil⟩
    · rw [inorder_plug]
      rfl
    · rw [hsame5.size]
      change s3.size - 1 = _
      rw [hsame3.size, hm]
      rfl
    · rw [hsame5.superLeft, ← hsame3.superLeft]
    · rw [hsame5.superRight, ← hsame3.superRight]

lemma removeShallow_spec (h : Represents s (ctx.plug (.nodeOn e c child x .nil)))
    (hrb : RedBlack (ctx.plug (.nodeOn e c child x .nil)))
    (hsize : s.size = (ctx.plug (.nodeOn e c child x .nil)).inorder.length) : ∃ s' t', s.removeShallow (.node x.address)
    (ptr child) = .ok s' ∧ Removed s (ctx.before ++ (child.inorder ++ ctx.after)) s' t' := by
  cases ctx with
  | nil =>
    simp only [before_nil, after_nil, append_nil, nil_append]
    exact removeShallow_root h hrb
  | cons frame ts =>
    by_cases hnil : child = .nil
    · subst hnil
      exact removeShallow_leaf h hrb hsize
    · exact removeShallow_child hnil h hrb hsize

end

/-! ### Any node -/

lemma RedBlack.exchange {inner : Context (Item V)} {c c' : Color} {L R : CTree (Item V)} {x y x' y' : Item V}
    (h : RedBlack (ctx.plug (.nodeOn .left c L x (inner.plug (.nodeOn .left c' .nil y R))))) :
    RedBlack (ctx.plug (.nodeOn .left c L x' (inner.plug (.nodeOn .left c' .nil y' R)))) := by
  have hinner := @Balanced.plug_congr _ (.nodeOn .left c' .nil y R) inner (.nodeOn .left c' .nil y' R)
    (by simp) fun n hn => hn.relabel rfl fun _ hR => hR
  have hnode : ∀ n, Balanced (.nodeOn .left c L x (inner.plug (.nodeOn .left c' .nil y R))) n →
      Balanced (.nodeOn .left c L x' (inner.plug (.nodeOn .left c' .nil y' R))) n :=
    fun n hn => hn.relabel hinner.1 hinner.2
  obtain ⟨hcolor, hbal⟩ := @Balanced.plug_congr _ _ ctx _ (by simp) hnode
  obtain ⟨n, hn⟩ := h.balanced
  exact ⟨hcolor.trans h.root, n, hbal n hn⟩

lemma removeNode_shallow {e : Side} {c : Color} {child : CTree (Item V)} {x : Item V}
    (h : Represents s (ctx.plug (.nodeOn e c child x .nil))) (hrb : RedBlack (ctx.plug (.nodeOn e c child x .nil)))
    (hsize : s.size = (ctx.plug (.nodeOn e c child x .nil)).inorder.length) : ∃ s' t', removeNode (fuel + 1)
    s (.node x.address) = .ok s' ∧ Removed s (ctx.before ++ (child.inorder ++ ctx.after)) s' t' := by
  obtain ⟨s', t', hrun, hrem⟩ := removeShallow_spec h hrb hsize
  refine ⟨s', t', ?_, hrem⟩
  have hchild := h.child
  have hu := h.child_other
  cases e with
  | left =>
    rw [Side.other_left] at hu
    simp only [removeNode, reduceCtorEq, if_false, h.isNull, ok_bind, Bool.not_false, assert_true,
      left, right, hchild, hu, ptr_nil, ne_eq, not_true, and_false]
    by_cases hnil : ptr child = .null
    · rw [if_pos hnil, ← hnil, hrun]
    · rw [if_neg hnil, hrun]
  | right =>
    rw [Side.other_right] at hu
    simp [removeNode, h.isNull, left, right, hchild, hu, hrun]

lemma removeNode_spec {t : CTree (Item V)} {x : Item V} {before after : List (Item V)} (h : Represents s t)
    (hrb : RedBlack t) (hsize : s.size = t.inorder.length) (hsplit : t.inorder = before ++ x :: after)
    (hfuel : 2 ≤ fuel) : ∃ s' t', removeNode fuel s (.node x.address) = .ok s' ∧ Removed s (before ++ after) s' t' := by
  obtain ⟨fuel, rfl⟩ : ∃ k, fuel = k + 2 := ⟨fuel - 2, by omega⟩
  obtain ⟨ctx, c, l, r, rfl, rfl, rfl⟩ := h.exists_focus hsplit
  by_cases hl : l = .nil
  · subst hl
    simpa using @removeNode_shallow _ s (fuel + 1) ctx .right c r x h hrb hsize
  · by_cases hr : r = .nil
    · subst hr
      simpa using @removeNode_shallow _ s (fuel + 1) ctx .left c l x h hrb hsize
    · obtain ⟨inner, c', y, R, rfl, hedge⟩ := exists_leftmost hr
      have hfocus : Represents s (ctx.plug (.nodeOn .left c l x (inner.plug (.nodeOn .left c' .nil y R)))) := h
      have hsucc : s.inorderSuccessorOf (.node x.address) = .ok (.node y.address) := by
        have hlen : (ctx.plug (.node c l x (inner.plug (.node c' .nil y R)))).inorder.length ≤ s.fuel := by
          rw [State.fuel, hsize]
          omega
        rw [inorderSuccessorOf_spec h hlen hsplit, inorder_plug, hedge]
        simp [neighborPtr]
      obtain ⟨s1, hswap, h1, hsame1⟩ := swapNodeWithSuccessor_spec hfocus hedge
      have hfocus1 : Represents s1 (plug (inner ++ ⟨.right, c, y, l⟩ :: ctx) (.nodeOn .right c' R x .nil)) := by
        rw [plug_append]
        exact h1.toFar
      have hrb1 : RedBlack (plug (inner ++ ⟨.right, c, y, l⟩ :: ctx) (.nodeOn .right c' R x .nil)) := by
        rw [plug_append]
        exact RedBlack.exchange hrb
      have hsize1 : s1.size = (plug (inner ++ ⟨.right, c, y, l⟩ :: ctx)
          (.nodeOn .right c' R x .nil)).inorder.length := by
        rw [hsame1.size, hsize, hsplit]
        simp [inorder_plug, before_append, after_append, hedge, nodeOn]
      obtain ⟨s', t', hrun, hrem⟩ := @removeNode_shallow _ s1 fuel _ _ _ _ _ hfocus1 hrb1 hsize1
      refine ⟨s', t', ?_, hrem.represents, hrem.redBlack, ?_, ?_, ?_, ?_⟩
      · have hleft : s.left (.node x.address) = .ok (ptr l) := hfocus.child
        have hright : s.right (.node x.address) =
            .ok (ptr (inner.plug (.nodeOn .left c' .nil y R))) := hfocus.child_other
        have hl' : ptr l ≠ .null := mt ptr_eq_null.mp hl
        have hr' : ptr (inner.plug (.nodeOn .left c' .nil y R)) ≠ .null := mt ptr_eq_null.mp hr
        rw [removeNode, if_neg (by simp)]
        simp [hfocus.isNull, hleft, hright, hsucc, hswap, hrun, hl', hr']
      · rw [hrem.inorder]
        simp [inorder_plug, before_append, after_append, hedge]
      · rw [hrem.size]
        simp [inorder_plug, before_append, after_append, hedge]
      · rw [hrem.superLeft, hsame1.superLeft]
      · rw [hrem.superRight, hsame1.superRight]

/-! ### The cached ends -/

section

variable {t : CTree (Item V)} {x : Item V} {before after : List (Item V)}

lemma itemPtr_eq_node_iff {items : List (Item V)} (hnodup : (items.map Item.address).Nodup) (hmem : x ∈ items)
    {o : Option (Item V)} (ho : ∀ y ∈ o, y ∈ items) : NodePtr.node x.address = itemPtr o ↔ o = some x := by
  cases o with
  | none => simp [itemPtr]
  | some y =>
    simp only [itemPtr, NodePtr.node.injEq, Option.some.injEq]
    exact ⟨fun heq => (inj_on_of_nodup_map hnodup hmem (ho y rfl) heq).symm, fun heq => heq ▸ rfl⟩

lemma root_of_singleton (h : Represents s t) (hsingle : t.inorder = [x]) : s.root = .node x.address := by
  rw [h.root]
  cases t with
  | nil => simp at hsingle
  | node c l y r =>
    rw [inorder_node, append_eq_cons_iff] at hsingle
    rcases hsingle with ⟨-, hy⟩ | ⟨l', -, hl'⟩
    · rw [ptr_node, (cons.inj hy).1]
    · simp at hl'

lemma retractEnds_spec (h : Represents s t) (hsize : s.size = t.inorder.length)
    (hends : EndsCached s t.inorder) (hsplit : t.inorder = before ++ x :: after) : ∃ l r,
    s.retractEnds (.node x.address) = .ok { s with superLeft := l, superRight := r } ∧ l =
    itemPtr (before ++ after).head? ∧ r = itemPtr (before ++ after).getLast? := by
  have hlen : t.inorder.length ≤ s.fuel := by
    rw [fuel, hsize]
    omega
  have hm : s.size = before.length + after.length + 1 := by
    rw [hsize, hsplit]
    simp
    omega
  have hmem : x ∈ t.inorder := by simp [hsplit]
  by_cases hone : s.size = 1
  · have hbef : before = [] := length_eq_zero_iff.mp (by omega)
    have hafter : after = [] := length_eq_zero_iff.mp (by omega)
    subst hbef hafter
    have hroot := root_of_singleton h hsplit
    exact ⟨.null, .null, by simp [retractEnds, hroot, hone], rfl, rfl⟩
  · have hzero : s.size ≠ 0 := by omega
    have hnodup : (before ++ x :: after).Nodup := hsplit ▸ h.nodup.of_map _
    rw [nodup_middle, nodup_cons, mem_append, not_or] at hnodup
    have hleft : .node x.address = s.leftMostNode ↔ before = [] := by
      rw [leftMostNode, if_neg hzero, hends.left, itemPtr_eq_node_iff h.nodup hmem fun y hy => mem_of_head? hy, hsplit]
      cases before with
      | nil => simp
      | cons y before =>
        simp only [cons_append, head?_cons, Option.some.injEq, reduceCtorEq, iff_false]
        rintro rfl
        exact hnodup.1.1 (by simp)
    have hright : .node x.address = s.rightMostNode ↔ after = [] := by
      rw [rightMostNode, if_neg hzero, hends.right,
        itemPtr_eq_node_iff h.nodup hmem fun y hy => mem_of_getLast? hy, hsplit]
      constructor
      · intro hlast
        by_contra hne
        obtain ⟨y, ts, rfl⟩ := exists_cons_of_ne_nil hne
        rw [getLast?_append_of_ne_nil _ (cons_ne_nil _ _), getLast?_cons_cons] at hlast
        exact hnodup.1.2 (mem_of_getLast? hlast)
      · rintro rfl
        simp
    have hneither : ¬ (NodePtr.node x.address = s.root ∧ s.size = 1) := fun hand => hone hand.2
    by_cases hbef : before = []
    · subst hbef
      have hafter : after ≠ [] := by
        rintro rfl
        simp at hm
        omega
      obtain ⟨y, ts, rfl⟩ := exists_cons_of_ne_nil hafter
      refine ⟨itemPtr (y :: ts).head?, s.superRight, ?_, rfl, ?_⟩
      · simp only [retractEnds, if_neg hneither, if_pos (hleft.mpr rfl), inorderSuccessorOf_spec h hlen hsplit, ok_bind]
        rfl
      · rw [hends.right, hsplit, nil_append, nil_append, getLast?_cons_cons]
    · have hnotLeft : ¬ NodePtr.node x.address = s.leftMostNode := mt hleft.mp hbef
      obtain ⟨y, ts, rfl⟩ := exists_cons_of_ne_nil hbef
      by_cases hafter : after = []
      · subst hafter
        refine ⟨s.superLeft, itemPtr (y :: ts).getLast?, ?_, ?_, by rw [append_nil]⟩
        · simp only [retractEnds, if_neg hneither, if_neg hnotLeft, if_pos (hright.mpr rfl),
            inorderPredecessorOf_spec h hlen hsplit, ok_bind]
          rw [getLast?_eq_some_getLast (cons_ne_nil _ _)]
          rfl
        · rw [hends.left, hsplit]
          rfl
      · refine ⟨s.superLeft, s.superRight, ?_, ?_, ?_⟩
        · simp only [retractEnds, if_neg hneither, if_neg hnotLeft, if_neg (mt hright.mp hafter)]
          rfl
        · rw [hends.left, hsplit]
          rfl
        · rw [hends.right, hsplit, getLast?_append_of_ne_nil _ (cons_ne_nil _ _), getLast?_append_of_ne_nil _ hafter]
          obtain ⟨z, rest', rfl⟩ := exists_cons_of_ne_nil hafter
          rw [getLast?_cons_cons]

end

/-! ### The operations -/

variable {K : Type} {tr : Traits K V}

lemma removeIterator_spec {t : CTree (Item V)} {x : Item V} {before after : List (Item V)}
    (h : Shape tr s t) (hends : EndsCached s t.inorder)
    (hsplit : t.inorder = before ++ x :: after) : ∃ s' t', s.removeIterator (.node x.address) =
    .ok s' ∧ Shape tr s' t' ∧ EndsCached s' t'.inorder ∧ t'.inorder = before ++ after := by
  obtain ⟨l, r, hretract, hl, hr⟩ := retractEnds_spec h.represents h.size hends hsplit
  let s1 : State V := { s with superLeft := l, superRight := r }
  have h1 : Represents s1 t := h.represents.congr rfl rfl
  obtain ⟨s', t', hrun, hrem⟩ := removeNode_spec h1 h.redBlack h.size hsplit (by rw [fuel]; omega : 2 ≤ s1.fuel)
  refine ⟨s', t', ?_, ⟨hrem.represents, hrem.redBlack, ?_, ?_⟩, ⟨?_, ?_⟩, hrem.inorder⟩
  · rwa [removeIterator, hretract, node_bne_null]
  · have hsort := hsplit ▸ h.sorted
    rw [hrem.inorder]
    exact List.Pairwise.sublist ((sublist_cons_self x after).append_left before) hsort
  · rw [hrem.size, hrem.inorder]
  · rwa [hrem.superLeft, hrem.inorder]
  · rwa [hrem.superRight, hrem.inorder]

end UltraOS.RedBlackTree
