import UltraOS.Common.RedBlackTree.Access

/-!
# The two descents from the root

`find_node` and the loop of `emplace` walk down the tree by the comparator. On a tree sorted by it,
the first finds a node with an equivalent key if there is one, and the second ends in the hole
behind all smaller values and in front of all others.
-/

namespace UltraOS.RedBlackTree

open ColoredTree State List CTree

variable {K V : Type} (traits tr : Traits K V)

def Traits.Equivalent (traits : Traits K V) (k l : K) : Prop := traits.less k l = false ∧ traits.less l k = false

instance (k l : K) : Decidable (traits.Equivalent k l) :=
  inferInstanceAs (Decidable (_ ∧ _))

def Ascending (items : List (Item V)) : Prop := items.Pairwise fun x y => traits.valueLess y.value x.value = false

def StrictlyAscending (items : List (Item V)) : Prop :=
  items.Pairwise fun x y => traits.valueLess x.value y.value = true

variable {traits tr} {k l m : K} {t : CTree (Item V)} {up : NodePtr} {fuel : Nat}

lemma Traits.less_asymm (h : tr.less k l = true) : tr.less l k = false := by
  by_contra hnot
  have := tr.less_trans k l k h (by simpa using hnot)
  rw [tr.less_irrefl] at this
  exact absurd this (by simp)

lemma Traits.less_of_not_less_of_less (hkl : tr.less k l = false) (hkm : tr.less k m = true) : tr.less l m = true := by
  rcases tr.less_split k l m hkm with h | h
  · rw [h] at hkl
    exact absurd hkl (by simp)
  · exact h

lemma Traits.less_of_less_of_not_less (hkm : tr.less k m = true) (hlm : tr.less l m = false) : tr.less k l = true := by
  rcases tr.less_split k l m hkm with h | h
  · exact h
  · rw [h] at hlm
    exact absurd hlm (by simp)

variable {s : State V}

lemma Represents.value_of_mem {x : Item V} (h : Represents s t)
    (hmem : x ∈ t.inorder) : s.value (.node x.address) = .ok x.value := by
  obtain ⟨ctx, c, l, r, rfl⟩ := Context.exists_plug_of_mem hmem
  exact @Represents.value _ s ctx .left c l r x h

/-! ### `find_node` -/

def Found (traits : Traits K V) (key : K) (items : List (Item V)) (p : NodePtr) : Prop :=
  (p = .superRoot ∧ ∀ x ∈ items, ¬ traits.Equivalent (traits.extractKey x.value) key) ∨
    ∃ x ∈ items, p = .node x.address ∧ traits.Equivalent (traits.extractKey x.value) key

lemma findLoop_node {l r : CTree (Item V)} {x : Item V} {c : Color} (key : K) (fuel : Nat)
    (hx : s.nodes x.address = some ⟨up, ptr l, ptr r, c, x.value⟩) : s.findLoop tr key (fuel + 1) (.node x.address) =
    if tr.less (tr.extractKey x.value) key then s.findLoop tr key fuel (ptr r)
    else if tr.less key (tr.extractKey x.value) then s.findLoop tr key fuel (ptr l) else pure (.node x.address) := by
  simp [findLoop, value_eq hx, right, left, child_eq hx, ValueNode.child]

/-- The search takes no more steps than the tree is high. -/
lemma findLoop_congr {n m : Nat} (key : K) (hholds : Holds s.nodes up t) (hn : t.height ≤ n) (hm : t.height ≤ m) :
    s.findLoop tr key (n + 1) (ptr t) = s.findLoop tr key (m + 1) (ptr t) := by
  induction t generalizing up n m with
  | nil => simp [findLoop]
  | node c l x r ihl ihr =>
    obtain ⟨hx, hl, hr⟩ := hholds
    rw [height] at hn hm
    obtain ⟨n, rfl⟩ : ∃ k, n = k + 1 := ⟨n - 1, by omega⟩
    obtain ⟨m, rfl⟩ : ∃ k, m = k + 1 := ⟨m - 1, by omega⟩
    rw [ptr_node, findLoop_node key _ hx, findLoop_node key _ hx, ihl (n := n) (m := m) hl (by omega) (by omega),
      ihr (n := n) (m := m) hr (by omega) (by omega)]

lemma findLoop_spec (key : K) (hholds : Holds s.nodes up t) (hsort : Ascending tr t.inorder)
    (hn : t.inorder.length < fuel) : ∃ p, s.findLoop tr key fuel (ptr t) = .ok p ∧ Found tr key t.inorder p := by
  induction t generalizing up fuel with
  | nil =>
    obtain ⟨fuel, rfl⟩ : ∃ k, fuel = k + 1 := ⟨fuel - 1, by simp at hn; omega⟩
    exact ⟨.superRoot, by simp [findLoop], .inl ⟨rfl, by simp⟩⟩
  | node c l x r ihl ihr =>
    obtain ⟨fuel, rfl⟩ : ∃ k, fuel = k + 1 := ⟨fuel - 1, by omega⟩
    obtain ⟨hx, hl, hr⟩ := hholds
    rw [inorder_node, Ascending, pairwise_append, pairwise_cons] at hsort
    obtain ⟨hsl, ⟨hxr, hsr⟩, hlx⟩ := hsort
    rw [inorder_node, length_append, length_cons] at hn
    rw [ptr_node, findLoop_node key fuel hx]
    by_cases hlt : tr.less (tr.extractKey x.value) key = true
    · rw [if_pos hlt]
      have hfuelR : r.inorder.length < fuel := by omega
      obtain ⟨p, hrun, hfound⟩ := ihr hr hsr hfuelR
      refine ⟨p, hrun, ?_⟩
      rcases hfound with ⟨rfl, hnone⟩ | ⟨y, hy, rfl, heq⟩
      · refine .inl ⟨rfl, fun y hy heq => ?_⟩
        rw [inorder_node, mem_append, mem_cons] at hy
        rcases hy with hy | rfl | hy
        · have hyx := hlx y hy x (by simp)
          exact absurd (tr.less_of_not_less_of_less hyx hlt) (by simp [heq.1])
        · rw [heq.1] at hlt
          exact absurd hlt (by simp)
        · exact hnone y hy heq
      · exact .inr ⟨y, by simp [hy], rfl, heq⟩
    · rw [if_neg hlt]
      by_cases hgt : tr.less key (tr.extractKey x.value) = true
      · rw [if_pos hgt]
        have hfuelL : l.inorder.length < fuel := by omega
        obtain ⟨p, hrun, hfound⟩ := ihl hl hsl hfuelL
        refine ⟨p, hrun, ?_⟩
        rcases hfound with ⟨rfl, hnone⟩ | ⟨y, hy, rfl, heq⟩
        · refine .inl ⟨rfl, fun y hy heq => ?_⟩
          rw [inorder_node, mem_append, mem_cons] at hy
          rcases hy with hy | rfl | hy
          · exact hnone y hy heq
          · rw [heq.2] at hgt
            exact absurd hgt (by simp)
          · exact absurd (tr.less_of_less_of_not_less hgt (hxr y hy)) (by simp [heq.2])
        · exact .inr ⟨y, by simp [hy], rfl, heq⟩
      · rw [if_neg hgt]
        exact ⟨_, rfl, .inr ⟨x, by simp, rfl, by simpa using hlt, by simpa using hgt⟩⟩

lemma findNode_spec (key : K) (h : Represents s t) (hsort : Ascending tr t.inorder)
    (hsize : s.size = t.inorder.length) : ∃ p, s.findNode tr key = .ok p ∧ Found tr key t.inorder p := by
  by_cases hzero : s.size = 0
  · have hnil : t.inorder = [] := length_eq_zero_iff.mp (hsize ▸ hzero)
    exact ⟨.superRoot, by simp [findNode, hzero], .inl ⟨rfl, by simp [hnil]⟩⟩
  · rw [findNode, if_neg hzero, h.root]
    exact findLoop_spec key h.holds hsort (by rw [fuel]; omega)

/-! ### The descent of `emplace` -/

def attach (s : State V) (frame : Frame (Item V)) (newNode : NodePtr) : Run (State V) := do
  let s ← s.setChild frame.side (.node frame.label.address) newNode
  s.setParent newNode (.node frame.label.address)

lemma attachLoop_eq {ctx : Context (Item V)} (newNode : NodePtr) (v : V) (hholds : Holds s.nodes up t) (hne : t ≠ .nil)
    (hn : t.inorder.length ≤ fuel) : ∃ frame ts, t.descend (fun x => tr.valueLess x.value v) ctx = frame :: ts ∧
    s.attachLoop tr newNode v fuel (ptr t) = attach s frame newNode := by
  induction t generalizing up fuel ctx with
  | nil => exact absurd rfl hne
  | node c l x r ihl ihr =>
    rw [inorder_node, length_append, length_cons] at hn
    obtain ⟨fuel, rfl⟩ : ∃ k, fuel = k + 1 := ⟨fuel - 1, by omega⟩
    obtain ⟨hx, hl, hr⟩ := hholds
    have hv := value_eq hx
    rw [descend, ptr_node]
    by_cases hlt : tr.valueLess x.value v = true
    · rw [if_pos hlt]
      have hright : s.right (.node x.address) = .ok (ptr r) := child_eq hx .right
      by_cases hnil : r = .nil
      · subst hnil
        refine ⟨_, _, rfl, ?_⟩
        simp [attachLoop, hv, hlt, hright, attach, setRight]
      · obtain ⟨frame, ts, hdescend, hrun⟩ := @ihr _ fuel (⟨.right, c, x, l⟩ :: ctx) hr hnil (by omega)
        refine ⟨frame, ts, hdescend, ?_⟩
        simp [attachLoop, hv, hlt, hright, ptr_eq_null, hnil, hrun]
    · rw [if_neg hlt]
      have hleft : s.left (.node x.address) = .ok (ptr l) := child_eq hx .left
      by_cases hnil : l = .nil
      · subst hnil
        refine ⟨_, _, rfl, ?_⟩
        simp [attachLoop, hv, hlt, hleft, attach, setLeft]
      · obtain ⟨frame, ts, hdescend, hrun⟩ := @ihl _ fuel (⟨.left, c, x, r⟩ :: ctx) hl hnil (by omega)
        refine ⟨frame, ts, hdescend, ?_⟩
        simp [attachLoop, hv, hlt, hleft, ptr_eq_null, hnil, hrun]

end UltraOS.RedBlackTree
