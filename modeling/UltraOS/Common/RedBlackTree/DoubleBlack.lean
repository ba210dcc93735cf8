import UltraOS.Common.RedBlackTree.Rotate

/-!
# `fix_double_black`

The subtree at a black node has lost one unit of black height and hangs in a hole made for height `n + 1`. The six
cases of the source rebuild the frames above it so that the hole takes height `n`. The closing assertion is
unreachable: the sibling of a hole of positive height cannot be red together with the parent.
-/

namespace UltraOS.RedBlackTree

open ColoredTree State CTree Context

variable {V : Type} {s : State V}

/-- The cases 2 to 6 of `fix_double_black` for a node on side `d`, whose sibling has children of
colour `inner` on the node's side and `outer` on the other. -/
def repair (fuel : Nat) (s : State V) (d : Side) (node parent sibling : NodePtr)
    (parentColor siblingColor inner outer : Color) : Run (State V) := do
  if parentColor = .black ∧ siblingColor = .red ∧ inner = .black ∧ outer = .black then
    let t ← s.setColor parent .red
    let t ← t.setColor sibling .black
    let t ← t.rotate d parent
    fixDoubleBlack fuel t node
  else if parentColor = .black ∧ siblingColor = .black ∧ inner = .black ∧ outer = .black then
    let t ← (if sibling = .null then pure s else s.setColor sibling .red)
    let t ← t.setColor node .black
    fixDoubleBlack fuel t parent
  else if parentColor = .red ∧ siblingColor = .black ∧ inner = .black ∧ outer = .black then
    let t ← s.setColor parent .black
    let t ← (if sibling = .null then pure t else t.setColor sibling .red)
    t.setColor node .black
  else if siblingColor = .black ∧ inner = .red ∧ outer = .black then
    let t ← s.setColor sibling .red
    let t ← t.setColor (← t.child d sibling) .black
    let t ← t.rotate d.other sibling
    fixDoubleBlack fuel t node
  else if siblingColor = .black ∧ outer = .red then
    let t ← s.setColor sibling (← s.color parent)
    let t ← t.setColor parent .black
    let t ← t.setColor (← t.child d.other sibling) .black
    let t ← t.setColor node .black
    t.rotate d parent
  else .error (.assertion "!\"Bug! Couldn't match a case for node :(\"")

section

variable {d e : Side} {c : Color} {A B sib : CTree (Item V)} {x p : Item V} {ts : Context (Item V)}

lemma childColor_eq (h : Represents s (ts.plug sib)) (d : Side) :
    (if ptr sib = .null then pure .black else s.child d (ptr sib) >>= s.colorOf) = Except.ok (childOn d sib).color := by
  by_cases hnil : sib = .nil
  · rw [hnil]
    simp
  · obtain ⟨near, y, far, hread⟩ := exists_nodeOn d hnil
    rw [hread] at h ⊢
    rw [ptr_nodeOn, if_neg (by simp), h.child, ok_bind, h.childColor, childOn_nodeOn]

lemma sibling_eq (h : Represents s (plug (⟨d, c, p, sib⟩ :: ts) (.nodeOn e .black A x B))) :
    s.sibling (.node x.address) = .ok (ptr sib) := by
  have hp : Represents s (ts.plug (.nodeOn d c (.nodeOn e .black A x B) p sib)) := h
  have hsib := hp.child_other
  cases d with
  | left => simpa [sibling, h.parent, h.isLeftChild, right] using hsib
  | right => simpa [sibling, h.parent, h.isLeftChild, left] using hsib

lemma fixDoubleBlack_eq (fuel : Nat) (h : Represents s (plug (⟨d, c, p, sib⟩ :: ts) (.nodeOn e .black A x B))) :
    fixDoubleBlack (fuel + 1) s (.node x.address) = repair fuel s d (.node x.address) (.node p.address) (ptr sib)
    c sib.color (childOn d sib).color (childOn d.other sib).color := by
  have hp : Represents s (ts.plug (.nodeOn d c (.nodeOn e .black A x B) p sib)) := h
  have hroot : NodePtr.node x.address ≠ s.root := mt h.root_eq.mp (List.cons_ne_nil _ _)
  have hleft := childColor_eq h.toSibling .left
  have hright := childColor_eq h.toSibling .right
  simp only [fixDoubleBlack, node_bne_null, assert_true, ok_bind, h.isNull, Bool.not_false,
    if_neg hroot, h.parent, above_cons, sibling_eq h, h.toSibling.colorOf, leftChildColor,
    rightChildColor, left, right, hleft, hright, hp.color, h.isLeftChild, onLeft_cons]
  cases d with
  | left => simp [repair, rotateLeft, rotateRight, hp.color]
  | right => simp [repair, rotateLeft, rotateRight, show (Side.right == Side.left) = false from rfl, hp.color, and_comm]

end

/-- The frames around `t` have been rebuilt into ones that take height `n`. -/
def Lowered (s : State V) (ctx : Context (Item V)) (t : CTree (Item V)) (n : Nat) (s' : State V) : Prop :=
  ∃ ctx', Represents s' (ctx'.plug t) ∧ Fits ctx' .black n ∧ ctx'.before = ctx.before ∧
    ctx'.after = ctx.after ∧ SameEnds s s'

lemma Lowered.after {s s1 s' : State V} {ctx ctx1 : Context (Item V)} {t : CTree (Item V)} {n : Nat}
    (h : Lowered s1 ctx1 t n s') (hbef : ctx1.before = ctx.before) (hafter : ctx1.after = ctx.after)
    (hsame : SameEnds s s1) : Lowered s ctx t n s' := by
  obtain ⟨ctx', hrep, hfits, hbefore', hafter', hsame'⟩ := h
  exact ⟨ctx', hrep, hfits, hbefore'.trans hbef, hafter'.trans hafter, hsame.trans hsame'⟩

section

variable {d e : Side} {c : Color} {A B S1 S2 : CTree (Item V)} {x p q : Item V} {ts : Context (Item V)} {n fuel : Nat}

lemma fixDoubleBlack_outer_red (fuel : Nat)
    (h : Represents s (plug (⟨d, c, p, .nodeOn d .black S1 q S2⟩ :: ts) (.nodeOn e .black A x B)))
    (hfits : Fits (⟨d, c, p, .nodeOn d .black S1 q S2⟩ :: ts) .black (n + 1))
    (hred : S2.color = .red) : ∃ s', fixDoubleBlack (fuel + 1) s (.node x.address) = .ok s' ∧
    Lowered s (⟨d, c, p, .nodeOn d .black S1 q S2⟩ :: ts) (.nodeOn e .black A x B) n s' := by
  obtain ⟨U, r, W, hread⟩ := exists_nodeOn d (ne_nil_of_red hred)
  rw [hred] at hread
  subst hread
  have hp : Represents s (ts.plug (.nodeOn d c (.nodeOn e .black A x B) p
    (.nodeOn d .black S1 q (.nodeOn d .red U r W)))) := h
  obtain ⟨s1, hset1, h1, hsame1⟩ := setColor_far_spec hp c
  obtain ⟨s2, hset2, h2, hsame2⟩ := setColor_spec h1 .black
  obtain ⟨s3, hset3, h3, hsame3⟩ := setColor_far_spec h2.toFar .black
  obtain ⟨s4, hset4, h4, hsame4⟩ := setColor_near_spec h3.ofFar .black
  obtain ⟨s5, hset5, h5, hsame5⟩ := rotate_spec h4
  have hchild := h2.toFar.child_other
  rw [ptr_nodeOn] at hchild
  refine ⟨s5, ?_, ⟨d, .black, p, S1⟩ :: ⟨d, c, q, .nodeOn d .black U r W⟩ :: ts, h5, ?_, ?_, ?_, ?_⟩
  · simp [fixDoubleBlack_eq fuel h, repair, hp.color, hset1, hset2, hchild, hset3, hset4, hset5]
  · obtain ⟨m, hm, hS1, hS2⟩ := balanced_black_iff.mp hfits.balanced_sibling
    obtain rfl : n = m := by omega
    obtain ⟨-, -, hU, hW⟩ := balanced_red_iff.mp hS2
    have houter : Balanced (.nodeOn d .black U r W) (n + 1) := balanced_black_iff.mpr ⟨n, rfl, hU, hW⟩
    exact .black hS1 (hfits.replace (color_nodeOn ..) houter)
  · cases d <;> simp [nodeOn]
  · cases d <;> simp [nodeOn]
  · exact (hsame1.trans hsame2).trans (hsame3.trans (hsame4.trans hsame5))

lemma fixDoubleBlack_inner_red (fuel : Nat)
    (h : Represents s (plug (⟨d, c, p, .nodeOn d .black S1 q S2⟩ :: ts) (.nodeOn e .black A x B)))
    (hfits : Fits (⟨d, c, p, .nodeOn d .black S1 q S2⟩ :: ts) .black (n + 1)) (hred : S1.color = .red)
    (hblack : S2.color = .black) : ∃ s', fixDoubleBlack (fuel + 2) s (.node x.address) = .ok s' ∧
    Lowered s (⟨d, c, p, .nodeOn d .black S1 q S2⟩ :: ts) (.nodeOn e .black A x B) n s' := by
  obtain ⟨U, r, W, hread⟩ := exists_nodeOn d (ne_nil_of_red hred)
  rw [hred] at hread
  subst hread
  have hp : Represents s (ts.plug (.nodeOn d c (.nodeOn e .black A x B) p
    (.nodeOn d .black (.nodeOn d .red U r W) q S2))) := h
  obtain ⟨s1, hset1, h1, hsame1⟩ := setColor_far_spec hp .red
  obtain ⟨s2, hset2, h2, hsame2⟩ := setColor_near_spec h1.toFar .black
  obtain ⟨s3, hset3, h3, hsame3⟩ := rotate_other_spec h2
  have hchild := h1.toFar.child
  rw [ptr_nodeOn] at hchild
  obtain ⟨m, hm, hS1, hS2⟩ := balanced_black_iff.mp hfits.balanced_sibling
  obtain rfl : n = m := by omega
  obtain ⟨-, hWcolor, hU, hW⟩ := balanced_red_iff.mp hS1
  have hsib : Balanced (.nodeOn d .black U r (.nodeOn d .red W q S2)) (n + 1) :=
    balanced_black_iff.mpr ⟨n, rfl, hU, balanced_red_iff.mpr ⟨hWcolor, hblack, hW, hS2⟩⟩
  obtain ⟨s', hrun, hlow⟩ := fixDoubleBlack_outer_red fuel h3.ofFar
    (hfits.replace (color_nodeOn ..) hsib) (color_nodeOn ..)
  refine ⟨s', ?_, hlow.after ?_ ?_ ((hsame1.trans hsame2).trans hsame3)⟩
  · simp [fixDoubleBlack_eq (fuel + 1) h, repair, hblack, hset1, hchild, hset2, hset3, hrun]
  · cases d <;> simp [nodeOn]
  · cases d <;> simp [nodeOn]

lemma fixDoubleBlack_red_parent (fuel : Nat)
    (h : Represents s (plug (⟨d, .red, p, .nodeOn d .black S1 q S2⟩ :: ts) (.nodeOn e .black A x B)))
    (hfits : Fits (⟨d, .red, p, .nodeOn d .black S1 q S2⟩ :: ts) .black (n + 1)) (hS1color : S1.color = .black)
    (hS2color : S2.color = .black) : ∃ s', fixDoubleBlack (fuel + 1) s (.node x.address) = .ok s' ∧
    Lowered s (⟨d, .red, p, .nodeOn d .black S1 q S2⟩ :: ts) (.nodeOn e .black A x B) n s' := by
  have hp : Represents s (ts.plug (.nodeOn d .red (.nodeOn e .black A x B) p (.nodeOn d .black S1 q S2))) := h
  obtain ⟨s1, hset1, h1, hsame1⟩ := setColor_spec hp .black
  obtain ⟨s2, hset2, h2, hsame2⟩ := setColor_far_spec h1 .red
  obtain ⟨s3, hset3, h3, hsame3⟩ := setColor_near_spec h2 .black
  refine ⟨s3, ?_, ⟨d, .black, p, .nodeOn d .red S1 q S2⟩ :: ts, h3, ?_, ?_, ?_, (hsame1.trans hsame2).trans hsame3⟩
  · simp [fixDoubleBlack_eq fuel h, repair, hS1color, hS2color, hset1, hset2, hset3]
  · obtain ⟨m, hm, hS1, hS2⟩ := balanced_black_iff.mp hfits.balanced_sibling
    obtain rfl : n = m := by omega
    cases hfits with
    | red _ _ hrest => exact .black (balanced_red_iff.mpr ⟨hS1color, hS2color, hS1, hS2⟩) hrest.black_of_any
  · cases d <;> simp [nodeOn]
  · cases d <;> simp [nodeOn]

lemma fixDoubleBlack_below_red {sib : CTree (Item V)} (hn : 2 ≤ fuel)
    (h : Represents s (plug (⟨d, .red, p, sib⟩ :: ts) (.nodeOn e .black A x B)))
    (hfits : Fits (⟨d, .red, p, sib⟩ :: ts) .black (n + 1)) : ∃ s', fixDoubleBlack fuel s (.node x.address) = .ok s' ∧
    Lowered s (⟨d, .red, p, sib⟩ :: ts) (.nodeOn e .black A x B) n s' := by
  obtain ⟨fuel, rfl⟩ : ∃ k, fuel = k + 2 := ⟨fuel - 2, by omega⟩
  have hblack : sib.color = .black := by
    cases hfits with
    | red hcolor _ _ => exact hcolor
  obtain ⟨S1, q, S2, rfl⟩ := hfits.balanced_sibling.exists_black d hblack
  cases hS2 : S2.color with
  | red => exact fixDoubleBlack_outer_red (fuel + 1) h hfits hS2
  | black =>
    cases hS1 : S1.color with
    | red => exact fixDoubleBlack_inner_red fuel h hfits hS1 hS2
    | black => exact fixDoubleBlack_red_parent (fuel + 1) h hfits hS1 hS2

/-- Case 2: a red sibling is rotated into the place of the parent, which turns red. -/
lemma fixDoubleBlack_red_sibling (hn : 3 ≤ fuel)
    (h : Represents s (plug (⟨d, .black, p, .nodeOn d .red S1 q S2⟩ :: ts) (.nodeOn e .black A x B)))
    (hfits : Fits (⟨d, .black, p, .nodeOn d .red S1 q S2⟩ :: ts) .black (n + 1)) : ∃ s',
    fixDoubleBlack fuel s (.node x.address) = .ok s' ∧
    Lowered s (⟨d, .black, p, .nodeOn d .red S1 q S2⟩ :: ts) (.nodeOn e .black A x B) n s' := by
  obtain ⟨fuel, rfl⟩ : ∃ k, fuel = k + 1 := ⟨fuel - 1, by omega⟩
  have hp : Represents s (ts.plug (.nodeOn d .black (.nodeOn e .black A x B) p (.nodeOn d .red S1 q S2))) := h
  obtain ⟨s1, hset1, h1, hsame1⟩ := setColor_spec hp .red
  obtain ⟨s2, hset2, h2, hsame2⟩ := setColor_far_spec h1 .black
  obtain ⟨s3, hset3, h3, hsame3⟩ := rotate_spec h2
  obtain ⟨hS1color, hS2color, hS1, hS2⟩ := balanced_red_iff.mp hfits.balanced_sibling
  have hfits3 : Fits (⟨d, .red, p, S1⟩ :: ⟨d, .black, q, S2⟩ :: ts) .black (n + 1) := by
    cases hfits with
    | black _ hrest => exact .red hS1color hS1 (.black hS2 hrest)
  have hx3 : Represents s3 (plug (⟨d, .red, p, S1⟩ :: ⟨d, .black, q, S2⟩ :: ts) (.nodeOn e .black A x B)) := h3
  obtain ⟨s', hrun, hlow⟩ := fixDoubleBlack_below_red (by omega : 2 ≤ fuel) hx3 hfits3
  refine ⟨s', ?_, hlow.after ?_ ?_ ((hsame1.trans hsame2).trans hsame3)⟩
  · simp [fixDoubleBlack_eq fuel h, repair, hS1color, hS2color, hset1, hset2, hset3, hrun]
  · cases d <;> simp [nodeOn]
  · cases d <;> simp [nodeOn]

end

lemma fixDoubleBlack_spec {ctx : Context (Item V)} {e : Side} {A B : CTree (Item V)} {x : Item V}
    {n fuel : Nat} (h : Represents s (ctx.plug (.nodeOn e .black A x B)))
    (hfits : Fits ctx .black (n + 1)) (hn : ctx.length + 3 ≤ fuel) :
    ∃ s', fixDoubleBlack fuel s (.node x.address) = .ok s' ∧ Lowered s ctx (.nodeOn e .black A x B) n s' := by
  induction ctx generalizing s e A B x n fuel with
  | nil =>
    obtain ⟨fuel, rfl⟩ : ∃ k, fuel = k + 1 := ⟨fuel - 1, by omega⟩
    obtain ⟨s', hset, h', hsame⟩ := setColor_spec h .black
    refine ⟨s', ?_, [], h', .root, rfl, rfl, hsame⟩
    simp [fixDoubleBlack, h.isNull, h.root_eq, hset]
  | cons frame ts ih =>
    obtain ⟨d, c, p, sib⟩ := frame
    simp only [List.length_cons] at hn
    cases c with
    | red => exact fixDoubleBlack_below_red (by omega) h hfits
    | black =>
      cases hcolor : sib.color with
      | red =>
        obtain ⟨S1, q, S2, hread⟩ := exists_nodeOn d (ne_nil_of_red hcolor)
        rw [hcolor] at hread
        subst hread
        exact fixDoubleBlack_red_sibling (by omega) h hfits
      | black =>
        obtain ⟨S1, q, S2, rfl⟩ := hfits.balanced_sibling.exists_black d hcolor
        obtain ⟨fuel, rfl⟩ : ∃ k, fuel = k + 2 := ⟨fuel - 2, by omega⟩
        cases hS2 : S2.color with
        | red => exact fixDoubleBlack_outer_red (fuel + 1) h hfits hS2
        | black =>
          cases hS1 : S1.color with
          | red => exact fixDoubleBlack_inner_red fuel h hfits hS1 hS2
          | black =>
            -- case 3: the whole subtree of the parent is now one short
            have hp : Represents s (plug ts (.nodeOn d .black
              (.nodeOn e .black A x B) p (.nodeOn d .black S1 q S2))) := h
            obtain ⟨s1, hset1, h1, hsame1⟩ := setColor_far_spec hp .red
            obtain ⟨s2, hset2, h2, hsame2⟩ := setColor_near_spec h1 .black
            obtain ⟨m, hm, hbal1, hbal2⟩ := balanced_black_iff.mp hfits.balanced_sibling
            obtain rfl : n = m := by omega
            have hrest : Fits ts .black (n + 1 + 1) := by
              cases hfits with
              | black _ hrest => exact hrest
            obtain ⟨s', hrun, ctx', h', hfits', hbef, hafter, hsame'⟩ :=
              ih h2 hrest (by omega : ts.length + 3 ≤ fuel + 1)
            refine ⟨s', ?_, ⟨d, .black, p, .nodeOn d .red S1 q S2⟩ :: ctx', h', ?_, ?_, ?_,
              (hsame1.trans hsame2).trans hsame'⟩
            · simp [fixDoubleBlack_eq (fuel + 1) h, repair, hS1, hS2, hset1, hset2, hrun]
            · exact .black (balanced_red_iff.mpr ⟨hS1, hS2, hbal1, hbal2⟩) hfits'
            · cases d <;> simp [nodeOn, hbef]
            · cases d <;> simp [nodeOn, hafter]

end UltraOS.RedBlackTree
