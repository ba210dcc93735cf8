import UltraOS.Common.RedBlackTree.Emplace

/-!
# In-order neighbours

The neighbour of a node is the near end of its child subtree on that side or, when there is none,
the first ancestor reached from the other side. Read off the in-order sequence, it is the item next
to the node's own, and the super root beyond either end.
-/

namespace UltraOS.RedBlackTree

open ColoredTree State CTree Context List

variable {K V : Type} {s : State V}

def neighborPtr : Option (Item V) → NodePtr
  | none => .superRoot
  | some x => .node x.address

variable {up : NodePtr} {d : Side} {c : Color} {near far : CTree (Item V)} {n : Nat}

/-! ### `lower_bound_node` -/

section

variable {tr : Traits K V} {t : CTree (Item V)}

/-- The search goes to the left end of what is not below the key, and keeps its result if there is none. -/
lemma lowerBoundLoop_spec (key : K) (hholds : Holds s.nodes up t) (hsort : Ascending tr t.inorder)
    (hn : t.inorder.length < n) (result : NodePtr) : s.lowerBoundLoop tr key n (ptr t) result =
    .ok ((t.inorder.find? fun x => !tr.less (tr.extractKey x.value) key).elim result fun x => .node x.address) := by
  induction t generalizing up n result with
  | nil =>
    obtain ⟨n, rfl⟩ : ∃ k, n = k + 1 := ⟨n - 1, by simp at hn; omega⟩
    simp [State.lowerBoundLoop]
  | node c l x r ihl ihr =>
    obtain ⟨n, rfl⟩ : ∃ k, n = k + 1 := ⟨n - 1, by omega⟩
    obtain ⟨hx, hl, hr⟩ := hholds
    rw [inorder_node, Ascending, pairwise_append, pairwise_cons] at hsort
    obtain ⟨hsl, ⟨-, hsr⟩, hlx⟩ := hsort
    rw [inorder_node, length_append, length_cons] at hn
    have hstep : s.lowerBoundLoop tr key (n + 1) (ptr (.node c l x r)) result =
        if tr.less (tr.extractKey x.value) key then s.lowerBoundLoop tr key n (ptr r) result
        else s.lowerBoundLoop tr key n (ptr l) (.node x.address) := by
      simp [State.lowerBoundLoop, value_eq hx, right, left, child_eq hx, ValueNode.child]
    rw [hstep, inorder_node, find?_append, find?_cons]
    by_cases hlt : tr.less (tr.extractKey x.value) key = true
    · have hfront : l.inorder.find? (fun y => !tr.less (tr.extractKey y.value) key) = none :=
        find?_eq_none.mpr fun y hy => by simp [tr.less_of_not_less_of_less (hlx y hy x (by simp)) hlt]
      rw [if_pos hlt, ihr hr hsr (by omega), hfront, hlt]
      rfl
    · rw [if_neg hlt, ihl hl hsl (by omega), Bool.eq_false_iff.mpr hlt]
      cases l.inorder.find? fun y => !tr.less (tr.extractKey y.value) key <;> rfl

lemma lowerBoundNode_spec (key : K) (h : Represents s t) (hsort : Ascending tr t.inorder)
    (hsize : s.size = t.inorder.length) : s.lowerBoundNode tr key =
    .ok (neighborPtr (t.inorder.find? fun x => !tr.less (tr.extractKey x.value) key)) := by
  rw [lowerBoundNode]
  split
  · rename_i hzero
    rw [length_eq_zero_iff.mp (hsize.symm.trans hzero)]
    rfl
  · rw [h.root, lowerBoundLoop_spec key h.holds hsort (by rw [fuel]; omega)]
    cases t.inorder.find? fun x => !tr.less (tr.extractKey x.value) key <;> rfl

end

lemma endFrom_spec {t : CTree (Item V)} (d : Side) (h : Holds s.nodes up t) (hne : t ≠ .nil)
    (hn : t.inorder.length ≤ n) : s.endFrom d n (ptr t) = .ok (neighborPtr (t.inorderFrom d).head?) := by
  induction n generalizing t up with
  | zero =>
    cases t with
    | nil => exact absurd rfl hne
    | node c l x r => simp at hn
  | succ n ih =>
    obtain ⟨near, x, far, hread⟩ := exists_nodeOn d hne
    rw [hread] at h hn ⊢
    rw [inorderFrom_nodeOn, ptr_nodeOn, endFrom, child_eq (holds_nodeOn.mp h).1, cellOn_child, ok_bind]
    by_cases hnil : near = .nil
    · subst hnil
      simp [neighborPtr]
    · have hlen : near.inorder.length ≤ n := by cases d <;> simp [nodeOn] at hn <;> omega
      rw [if_neg (mt ptr_eq_null.mp hnil), ih (holds_nodeOn.mp h).2.1 hnil hlen]
      have hhead : near.inorderFrom d ≠ [] := by
        obtain ⟨a, y, b, hnear⟩ := exists_nodeOn d hnil
        rw [hnear, inorderFrom_nodeOn]
        simp
      rw [head?_append_of_ne_nil _ hhead]

variable {ctx : Context (Item V)}

lemma climb_spec {e : Side} {A B : CTree (Item V)} {x : Item V} (d : Side)
    (h : Represents s (ctx.plug (.nodeOn e c A x B))) (hn : ctx.length < n) :
    s.climb d n (.node x.address) (above ctx) = .ok (neighborPtr (ctx.outward d).head?) := by
  induction n generalizing ctx e c A B x with
  | zero => omega
  | succ n ih =>
    cases ctx with
    | nil => simp [climb, isNull_superRoot, neighborPtr]
    | cons frame ts =>
      obtain ⟨f, c', p, sib⟩ := frame
      have hp : Represents s (plug ts (.nodeOn f c' (.nodeOn e c A x B) p sib)) := h
      have hside : s.isChildOn d (.node x.address) = .ok (f == d) := by
        have := h.isLeftChild
        cases d <;> cases f <;> simp_all [isChildOn, isRightChild]
      simp only [climb, above_cons, hp.isNull, ok_bind, hside, hp.parent]
      by_cases heq : f = d
      · subst heq
        rw [outward_same]
        simpa using ih hp (by simpa using hn)
      · obtain rfl : f = d.other := by cases d <;> cases f <;> simp_all
        have hne : (d.other == d) = false := by cases d <;> rfl
        rw [outward_other]
        simp [hne, neighborPtr]

lemma inorderNeighborOf_spec {x : Item V} (h : Represents s (ctx.plug (.nodeOn d c near x far)))
    (hsize : (ctx.plug (.nodeOn d c near x far)).inorder.length ≤ s.fuel) : s.inorderNeighborOf d (.node x.address) =
    .ok (neighborPtr (near.inorderFrom d.other ++ ctx.outward d).head?) := by
  have hlen := length_le_length_before_add_after ctx
  have hn : ctx.before.length + ctx.after.length + near.inorder.length < s.fuel := by
    rw [inorder_plug] at hsize
    cases d <;> simp [nodeOn] at hsize <;> omega
  simp only [inorderNeighborOf, node_bne_null, assert_true, ok_bind, h.isNull, Bool.not_false, h.child, h.parent]
  by_cases hnil : near = .nil
  · subst hnil
    rw [if_pos ptr_nil, inorderFrom_nil, nil_append]
    exact climb_spec d h (by omega)
  · rw [if_neg (mt ptr_eq_null.mp hnil)]
    have hholds := (holds_nodeOn.mp (holds_plug.mp h.holds).1).2.1
    rw [endFrom_spec d.other hholds hnil (by omega)]
    have hhead : near.inorderFrom d.other ≠ [] := by
      obtain ⟨a, y, b, hnear⟩ := exists_nodeOn d.other hnil
      rw [hnear, inorderFrom_nodeOn]
      simp
    rw [head?_append_of_ne_nil _ hhead]

/-! ### Neighbours in the sequence -/

variable {t : CTree (Item V)} {before after : List (Item V)} {x : Item V}
  (h : Represents s t) (hsize : t.inorder.length ≤ s.fuel)
  (hsplit : t.inorder = before ++ x :: after)

include h hsplit

lemma Represents.exists_focus : ∃ (ctx : Context (Item V)) (c : Color) (l r : CTree (Item V)),
    t = ctx.plug (.node c l x r) ∧ before = ctx.before ++ l.inorder ∧ after = r.inorder ++ ctx.after := by
  have hmem : x ∈ t.inorder := by simp [hsplit]
  obtain ⟨ctx, c, l, r, rfl⟩ := exists_plug_of_mem hmem
  have horder : (ctx.plug (.node c l x r)).inorder = (ctx.before ++ l.inorder) ++ x :: (r.inorder ++ ctx.after) := by
    simp [inorder_plug]
  have hnodup : (before ++ x :: after).Nodup := hsplit ▸ h.nodup.of_map _
  rw [nodup_middle, nodup_cons, mem_append, not_or] at hnodup
  obtain ⟨hbef, -, hafter⟩ := (append_cons_inj_of_notMem hnodup.1.1 hnodup.1.2).mp (hsplit.symm.trans horder)
  exact ⟨ctx, c, l, r, rfl, hbef, hafter⟩

include hsize

lemma inorderSuccessorOf_spec : s.inorderSuccessorOf (.node x.address) = .ok (neighborPtr after.head?) := by
  obtain ⟨ctx, c, l, r, rfl, -, rfl⟩ := h.exists_focus hsplit
  have hfocus : Represents s (ctx.plug (.nodeOn .right c r x l)) := h
  rw [inorderSuccessorOf, inorderNeighborOf_spec hfocus hsize]
  rfl

lemma inorderPredecessorOf_spec : s.inorderPredecessorOf (.node x.address) = .ok (neighborPtr before.getLast?) := by
  obtain ⟨ctx, c, l, r, rfl, rfl, -⟩ := h.exists_focus hsplit
  have hfocus : Represents s (ctx.plug (.nodeOn .left c l x r)) := h
  rw [inorderPredecessorOf, inorderNeighborOf_spec hfocus hsize, ← head?_reverse, reverse_append]
  rfl

end UltraOS.RedBlackTree
