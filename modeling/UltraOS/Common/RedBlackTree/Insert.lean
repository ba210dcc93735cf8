import UltraOS.Common.RedBlackTree.Rotate

/-!
# Repairing the tree after an insertion

`fix_insertion_violations_if_needed` starts at a red node in a hole that only takes a black one. A
red aunt moves the same situation two frames up; a black aunt ends it with one or two rotations. The
in-order sequence never changes.
-/

namespace UltraOS.RedBlackTree

open ColoredTree State Context CTree

variable {V : Type} {s : State V}

/-- The position of a node on side `inner` of a parent on side `outer`. -/
def positionOf : (outer inner : Side) → Position
  | .left, .left => .leftLeft
  | .left, .right => .leftRight
  | .right, .left => .rightLeft
  | .right, .right => .rightRight

section

/-! ### The grandparent and the aunt of a focus -/

variable {d e f : Side} {c c' c'' : Color} {A B C D : CTree (Item V)} {x p g : Item V} {ts : Context (Item V)}
  (h : Represents s (plug (⟨f, c', p, C⟩ :: ⟨e, c'', g, D⟩ :: ts) (.nodeOn d c A x B)))
include h

lemma grandparent_eq : s.grandparent (.node x.address) = .ok (.node g.address) := by
  have hp : Represents s (plug (⟨e, c'', g, D⟩ :: ts) (.nodeOn f c' (.nodeOn d c A x B) p C)) := h
  simp [State.grandparent, h.parent, hp.parent, hp.isNull]

lemma aunt_eq : s.aunt (.node x.address) = .ok (ptr D) := by
  have hp : Represents s (plug (⟨e, c'', g, D⟩ :: ts) (.nodeOn f c' (.nodeOn d c A x B) p C)) := h
  have hg : Represents s (plug ts (.nodeOn e c'' (.nodeOn f c' (.nodeOn d c A x B) p C) g D)) := h
  have hD := hg.child_other
  cases e with
  | left => simpa [aunt, grandparent_eq h, h.parent, hp.isLeftChild, right] using hD
  | right => simpa [aunt, grandparent_eq h, h.parent, hp.isLeftChild, left] using hD

lemma isAuntRed_eq : s.isAuntRed (.node x.address) = .ok (D.color == .red) := by
  have hp : Represents s (plug (⟨e, c'', g, D⟩ :: ts) (.nodeOn f c' (.nodeOn d c A x B) p C)) := h
  simp [isAuntRed, aunt_eq h, hp.toSibling.colorOf]

lemma position_eq : s.positionWithRespectToGrandparent (.node x.address) = .ok (positionOf e f) := by
  have hp : Represents s (plug (⟨e, c'', g, D⟩ :: ts) (.nodeOn f c' (.nodeOn d c A x B) p C)) := h
  cases e <;> cases f <;>
    simp [positionWithRespectToGrandparent, h.isLeftChild, h.parent, hp.isLeftChild, positionOf]

end

/-! ### A black aunt -/

section

variable {d e : Side} {A B C D : CTree (Item V)} {x p g : Item V} {ts : Context (Item V)}

lemma fixOuter_spec {c c' c'' : Color}
    (h : Represents s (ts.plug (.nodeOn d c'' (.nodeOn d c' (.nodeOn e c A x B) p C) g D))) :
    ∃ s', s.fixOuter (.node x.address) (.node g.address) = .ok s' ∧
    Represents s' (ts.plug (.nodeOn d .red (.nodeOn d .black (.nodeOn e .red A x B) p C) g D)) ∧ SameEnds s s' := by
  obtain ⟨s1, hset1, h1, hsame1⟩ := setColor_spec h .red
  have hp : Represents s1 (plug (⟨d, .red, g, D⟩ :: ts) (.nodeOn d c' (.nodeOn e c A x B) p C)) := h1
  have hx : Represents s1 (plug (⟨d, c', p, C⟩ :: ⟨d, .red, g, D⟩ :: ts) (.nodeOn e c A x B)) := h1
  obtain ⟨s2, hset2, h2, hsame2⟩ := setColor_spec hp .black
  have hx2 : Represents s2 (plug (⟨d, .black, p, C⟩ :: ⟨d, .red, g, D⟩ :: ts) (.nodeOn e c A x B)) := h2
  obtain ⟨s3, hset3, h3, hsame3⟩ := setColor_spec hx2 .red
  refine ⟨s3, ?_, h3, (hsame1.trans hsame2).trans hsame3⟩
  simp [fixOuter, hset1, hx.parent, hset2, hset3]

variable {node grandparent : NodePtr}

lemma fixBlackAunt_outer_eq (hpos : s.positionWithRespectToGrandparent node = .ok (positionOf d d)) :
    s.fixBlackAunt node grandparent = s.fixOuter node grandparent >>= fun t => t.rotate d.other grandparent := by
  cases d <;> simp only [fixBlackAunt, hpos, ok_bind, positionOf] <;> rfl

lemma fixBlackAunt_inner_eq (hpos : s.positionWithRespectToGrandparent node = .ok (positionOf d d.other)) :
    s.fixBlackAunt node grandparent = (do
      let t ← s.rotate d (← s.parent node)
      let node ← t.child d node
      let t ← t.fixOuter node grandparent
      t.rotate d.other grandparent) := by
  cases d <;> simp only [fixBlackAunt, hpos, ok_bind, positionOf, Side.other] <;> rfl

lemma fixBlackAunt_outer_spec {c c' c'' : Color}
    (h : Represents s (plug (⟨d, c', p, C⟩ :: ⟨d, c'', g, D⟩ :: ts) (.nodeOn e c A x B))) : ∃ s',
    s.fixBlackAunt (.node x.address) (.node g.address) = .ok s' ∧
    Represents s' (ts.plug (.nodeOn d .black (.nodeOn e .red A x B) p (.nodeOn d .red C g D))) ∧ SameEnds s s' := by
  obtain ⟨s1, hrun1, h1, hsame1⟩ := fixOuter_spec h
  obtain ⟨s2, hrun2, h2, hsame2⟩ := rotate_other_spec h1
  refine ⟨s2, ?_, h2, hsame1.trans hsame2⟩
  rw [fixBlackAunt_outer_eq (position_eq h), hrun1, ok_bind, hrun2]

lemma fixBlackAunt_inner_spec {c c' c'' : Color}
    (h : Represents s (plug (⟨d.other, c', p, C⟩ :: ⟨d, c'', g, D⟩ :: ts) (.nodeOn d c A x B))) : ∃ s',
    s.fixBlackAunt (.node x.address) (.node g.address) = .ok s' ∧
    Represents s' (ts.plug (.nodeOn d .black (.nodeOn d .red C p A) x (.nodeOn d .red B g D))) ∧ SameEnds s s' := by
  have hp : Represents s (plug (⟨d, c'', g, D⟩ :: ts) (.nodeOn d c' C p (.nodeOn d c A x B))) := by
    rwa [← nodeOn_other d c']
  obtain ⟨s1, hrun1, h1, hsame1⟩ := rotate_spec hp
  obtain ⟨s2, hrun2, h2, hsame2⟩ := fixOuter_spec h1
  obtain ⟨s3, hrun3, h3, hsame3⟩ := rotate_other_spec h2
  refine ⟨s3, ?_, h3, (hsame1.trans hsame2).trans hsame3⟩
  rw [fixBlackAunt_inner_eq (position_eq h), h.parent, ok_bind, above_cons, hrun1, ok_bind,
    h1.child, ptr_nodeOn, ok_bind, hrun2, ok_bind, hrun3]

end

variable {n : Nat} {A B C D : CTree (Item V)} {ts : Context (Item V)}

lemma fixBlackAunt_spec {d e : Side} {x p g : Item V}
    (h : Represents s (plug (⟨e, .red, p, C⟩ :: ⟨d, .black, g, D⟩ :: ts) (.nodeOn .left .red A x B)))
    (hx : Balanced (.nodeOn .left .red A x B) n) (hC : Balanced C n) (hCcolor : C.color = .black) (hD : Balanced D n)
    (hDcolor : D.color = .black) : ∃ s' y near C', s.fixBlackAunt (.node x.address) (.node g.address) = .ok s' ∧
    Represents s' (ts.plug (.nodeOn d .black near y (.nodeOn d .red C' g D))) ∧
    Balanced (.nodeOn d .black near y (.nodeOn d .red C' g D)) (n + 1) ∧
    (plug ts (.nodeOn d .black near y (.nodeOn d .red C' g D))).inorder =
    (plug (⟨e, .red, p, C⟩ :: ⟨d, .black, g, D⟩ :: ts) (.nodeOn .left .red A x B)).inorder ∧ SameEnds s s' := by
  by_cases hside : e = d
  · subst hside
    obtain ⟨s', hrun, h', hsame⟩ := fixBlackAunt_outer_spec h
    refine ⟨s', p, _, C, hrun, h', ?_, ?_, hsame⟩
    · exact balanced_black_iff.mpr ⟨n, rfl, hx, balanced_red_iff.mpr ⟨hCcolor, hDcolor, hC, hD⟩⟩
    · simp only [plug_cons, inorder_plug]
      cases e <;> simp [nodeOn]
  · have he : e = d.other := by cases d <;> cases e <;> simp_all
    subst he
    obtain ⟨near, y, far, hread⟩ := exists_nodeOn d (nodeOn_ne_nil .left .red A x B)
    rw [color_nodeOn] at hread
    have hxy : x.address = y.address := by
      have := congrArg ptr hread
      simpa using this
    rw [hread] at h hx ⊢
    obtain ⟨hnearc, hfarc, hnear, hfar⟩ := balanced_red_iff.mp hx
    obtain ⟨s', hrun, h', hsame⟩ := fixBlackAunt_inner_spec h
    rw [hxy]
    refine ⟨s', y, _, far, hrun, h', ?_, ?_, hsame⟩
    · exact balanced_black_iff.mpr ⟨n, rfl, balanced_red_iff.mpr ⟨hCcolor, hnearc, hC, hnear⟩,
        balanced_red_iff.mpr ⟨hfarc, hDcolor, hfar, hD⟩⟩
    · simp only [plug_cons, inorder_plug]
      cases d <;> simp [nodeOn]

/-! ### A red aunt -/

lemma fixRedAunt_spec {d e e' : Side} {c c' : Color} {p g q : Item V} (h : Represents s (ts.plug
      (.nodeOn d .black (.nodeOn e c A p B) g (.nodeOn e' c' C q D)))) : ∃ s', s.fixRedAunt (.node g.address) = .ok s' ∧
      Represents s' (ts.plug (.nodeOn d (if ts = [] then .black else .red)
        (.nodeOn e .black A p B) g (.nodeOn e' .black C q D))) ∧ SameEnds s s' := by
  have hpaint : ∃ s1, (if NodePtr.node g.address ≠ s.root then s.setColor (.node g.address) .red
      else pure s) = .ok s1 ∧ Represents s1 (ts.plug (.nodeOn d (if ts = [] then .black else .red)
        (.nodeOn e c A p B) g (.nodeOn e' c' C q D))) ∧ SameEnds s s1 := by
    by_cases hrest : ts = []
    · rw [if_neg (not_not.mpr (h.root_eq.mpr hrest)), if_pos hrest]
      exact ⟨s, rfl, h, .refl s⟩
    · rw [if_pos (mt h.root_eq.mp hrest), if_neg hrest]
      exact setColor_spec h .red
  obtain ⟨s1, hset1, h1, hsame1⟩ := hpaint
  generalize (if ts = [] then Color.black else Color.red) = cg at h1 ⊢
  -- the source paints the left child first, so the two sides are told apart here
  cases d with
  | left =>
    obtain ⟨s2, hset2, h2, hsame2⟩ :=
      @setColor_spec _ s1 (⟨.left, cg, g, .nodeOn e' c' C q D⟩ :: ts) e c A B p h1 .black
    have hright : Represents s2 (plug (⟨.right, cg, g, .nodeOn e .black A p B⟩ :: ts) (.nodeOn e' c' C q D)) := h2
    obtain ⟨s3, hset3, h3, hsame3⟩ := setColor_spec hright .black
    refine ⟨s3, ?_, h3, (hsame1.trans hsame2).trans hsame3⟩
    have hg2 : Represents s2 (ts.plug (.nodeOn .left cg (.nodeOn e .black A p B) g (.nodeOn e' c' C q D))) := h2
    have hchild := hg2.child_other
    rw [Side.other_left, ptr_nodeOn] at hchild
    simp only [fixRedAunt, node_bne_null, assert_true, ok_bind, hset1, left, h1.child, ptr_nodeOn,
      hset2, right, hchild, hset3]
  | right =>
    have hleft : Represents s1 (plug (⟨.left, cg, g, .nodeOn e c A p B⟩ :: ts) (.nodeOn e' c' C q D)) := h1
    obtain ⟨s2, hset2, h2, hsame2⟩ := setColor_spec hleft .black
    have hg2 : Represents s2 (ts.plug (.nodeOn .right cg (.nodeOn e c A p B) g (.nodeOn e' .black C q D))) := h2
    obtain ⟨s3, hset3, h3, hsame3⟩ :=
      @setColor_spec _ s2 (⟨.right, cg, g, .nodeOn e' .black C q D⟩ :: ts) e c A B p hg2 .black
    refine ⟨s3, ?_, h3, (hsame1.trans hsame2).trans hsame3⟩
    have hchild := h1.child_other
    rw [Side.other_right, ptr_nodeOn] at hchild
    simp only [fixRedAunt, node_bne_null, assert_true, ok_bind, hset1, left, hchild, hset2, right,
      hg2.child, ptr_nodeOn, hset3]

lemma fixRedAunt_balanced {d e : Side} {x p g : Item V}
    (h : Represents s (plug (⟨e, .red, p, C⟩ :: ⟨d, .black, g, D⟩ :: ts) (.nodeOn .left .red A x B)))
    (hx : Balanced (.nodeOn .left .red A x B) n) (hC : Balanced C n) (hD : Balanced D n) (hDcolor : D.color = .red) :
    ∃ s' t', s.fixRedAunt (.node g.address) = .ok s' ∧ Represents s' (ts.plug t') ∧ ptr t' = .node g.address ∧
    (ts.plug t').inorder = (plug (⟨e, .red, p, C⟩ :: ⟨d, .black, g, D⟩ :: ts) (.nodeOn .left .red A x B)).inorder ∧
    SameEnds s s' ∧ (ts = [] → RedBlack t') ∧ (ts ≠ [] → t'.color = .red ∧ Balanced t' (n + 1)) := by
  obtain ⟨D1, q, D2, hread⟩ := exists_nodeOn .left (ne_nil_of_red hDcolor)
  rw [hDcolor] at hread
  subst hread
  have hg : Represents s (ts.plug (.nodeOn d .black (.nodeOn e .red (.nodeOn .left .red A x B) p C) g
    (.nodeOn .left .red D1 q D2))) := h
  obtain ⟨s', hrun, h', hsame⟩ := fixRedAunt_spec hg
  obtain ⟨-, -, hD1, hD2⟩ := balanced_red_iff.mp hD
  have hparent : Balanced (.nodeOn e .black (.nodeOn .left .red A x B) p C) (n + 1) :=
    balanced_black_iff.mpr ⟨n, rfl, hx, hC⟩
  have haunt : Balanced (.nodeOn .left .black D1 q D2) (n + 1) := balanced_black_iff.mpr ⟨n, rfl, hD1, hD2⟩
  refine ⟨s', _, hrun, h', ptr_nodeOn .., ?_, hsame, fun hnil => ?_, fun hnil => ?_⟩
  · simp only [plug_cons, inorder_plug]
    cases d <;> cases e <;> rfl
  · rw [if_pos hnil]
    exact ⟨color_nodeOn .., n + 2, balanced_black_iff.mpr ⟨n + 1, rfl, hparent, haunt⟩⟩
  · rw [if_neg hnil]
    exact ⟨color_nodeOn .., balanced_red_iff.mpr ⟨color_nodeOn .., color_nodeOn .., hparent, haunt⟩⟩

/-! ### The loop -/

variable {t : CTree (Item V)}

section

variable {d e : Side} {c : Color} {A B C : CTree (Item V)} {x p : Item V} {ts : Context (Item V)}

lemma fixInsertionLoop_root (m : Nat) (h : Represents s t)
    (hne : t ≠ .nil) : fixInsertionLoop (m + 1) s (ptr t) = .ok s := by
  obtain ⟨A, x, B, hread⟩ := exists_nodeOn .left hne
  rw [hread] at h ⊢
  have hroot : Represents s (plug [] (.nodeOn .left t.color A x B)) := h
  simp [fixInsertionLoop, hroot.isNull, hroot.root_eq]

lemma fixInsertionLoop_black_parent (m : Nat) (h : Represents s (plug (⟨e, .black, p, C⟩ :: ts) (.nodeOn d c A x B))) :
    fixInsertionLoop (m + 1) s (.node x.address) = .ok s := by
  have hp : Represents s (ts.plug (.nodeOn e .black (.nodeOn d c A x B) p C)) := h
  simp [fixInsertionLoop, h.isNull, h.root_eq, h.parent, hp.color]

lemma fixInsertionLoop_red_parent (m : Nat) {f : Side} {c' : Color} {g : Item V}
    {D : CTree (Item V)} (h : Represents s (plug (⟨e, .red, p, C⟩ :: ⟨f, c', g, D⟩ :: ts) (.nodeOn d .red A x B))) :
    fixInsertionLoop (m + 1) s (.node x.address) = (if D.color = .red then s.fixRedAunt (.node g.address)
        else s.fixBlackAunt (.node x.address) (.node g.address)) >>=
        fun t => fixInsertionLoop m t (.node g.address) := by
  have hp : Represents s (plug (⟨f, c', g, D⟩ :: ts) (.nodeOn e .red (.nodeOn d .red A x B) p C)) := h
  simp [fixInsertionLoop, h.isNull, h.root_eq, h.parent, hp.color, h.color, grandparent_eq h, isAuntRed_eq h]

end

/-- What the repair of an insertion leaves behind. -/
structure Repaired (s : State V) (t : CTree (Item V)) (s' : State V) (t' : CTree (Item V)) : Prop where
  represents : Represents s' t'
  inorder : t'.inorder = t.inorder
  redBlack : RedBlack t'
  ends : SameEnds s s'

/-- A red node in a hole for a black one: the loop repairs the tree, climbing two frames at a time.
-/
lemma fixInsertionLoop_spec {m : Nat} {ctx : Context (Item V)} (h : Represents s (ctx.plug t)) (hred : t.color = .red)
    (hbal : Balanced t n) (hfits : Fits ctx .black n) (hctx : ctx ≠ []) (hn : ctx.length + 2 ≤ m) : ∃ s' t',
    fixInsertionLoop m s (ptr t) = .ok s' ∧ Repaired s (ctx.plug t) s' t' := by
  induction m generalizing s ctx t n with
  | zero => omega
  | succ m ih =>
    obtain ⟨A, x, B, hread⟩ := exists_nodeOn .left (ne_nil_of_red hred)
    rw [hred] at hread
    subst hread
    rw [ptr_nodeOn]
    cases hfits with
    | root => exact absurd rfl hctx
    | black hsib hrest =>
      refine ⟨s, _, fixInsertionLoop_black_parent m h, h, rfl, ?_, .refl s⟩
      exact (Fits.black hsib hrest).plug (color_nodeOn ..) hbal
    | @red e C p _ _ hCcolor hC hrest =>
      cases hrest with
      | @black d D g ts _ _ hD hrest =>
        rw [fixInsertionLoop_red_parent m h]
        simp only [List.length_cons] at hn
        by_cases hDcolor : D.color = .red
        · rw [if_pos hDcolor]
          obtain ⟨s1, t1, hrun1, h1, hptr, horder1, hsame1, hroot, hinner⟩ := fixRedAunt_balanced h hbal hC hD hDcolor
          rw [hrun1, ok_bind, ← hptr]
          by_cases hnil : ts = []
          · subst hnil
            obtain ⟨m, rfl⟩ : ∃ k, m = k + 1 := ⟨m - 1, by omega⟩
            have hne : t1 ≠ .nil := fun heq => by simp [heq] at hptr
            exact ⟨s1, t1, fixInsertionLoop_root m h1 hne, h1, horder1, hroot rfl, hsame1⟩
          · obtain ⟨hred1, hbal1⟩ := hinner hnil
            obtain ⟨s2, t2, hrun2, hrep⟩ := ih h1 hred1 hbal1 hrest hnil (by omega)
            exact ⟨s2, t2, hrun2, hrep.represents, hrep.inorder.trans horder1, hrep.redBlack, hsame1.trans hrep.ends⟩
        · rw [if_neg hDcolor]
          have hDblack : D.color = .black := by cases hc : D.color <;> simp_all
          obtain ⟨s1, y, near, C', hrun1, h1, hbal1, horder1, hsame1⟩ := fixBlackAunt_spec h hbal hC hCcolor hD hDblack
          rw [hrun1, ok_bind]
          obtain ⟨m, rfl⟩ : ∃ k, m = k + 1 := ⟨m - 1, by omega⟩
          refine ⟨s1, _, fixInsertionLoop_black_parent m (h1.flip), h1, horder1, ?_, hsame1⟩
          exact hrest.plug (color_nodeOn ..) hbal1

end UltraOS.RedBlackTree
