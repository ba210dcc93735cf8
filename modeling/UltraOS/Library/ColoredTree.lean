import Mathlib.Algebra.Order.Ring.Nat
import Mathlib.Data.List.Nodup

/-!
# Two-coloured binary trees and their zippers

A tree with parent pointers is walked in both directions, so one of its nodes is given by a zipper: the subtree at
the node, and the frames from its parent up to the root. Both have an in-order sequence and a red-black balance
condition. Left and right are a `Side`, so that each fact is proved once for both.
-/

namespace ColoredTree

inductive Color where
  | red
  | black
  deriving DecidableEq

inductive Side where
  | left
  | right
  deriving DecidableEq

def Side.other : Side → Side
  | left => right
  | right => left

@[simp] lemma Side.other_left : Side.left.other = .right := rfl

@[simp] lemma Side.other_right : Side.right.other = .left := rfl

variable (d : Side)

@[simp] lemma Side.other_other : d.other.other = d := by cases d <;> rfl

variable {α : Type}

inductive CTree (α : Type) where
  | nil
  | node (color : Color) (left : CTree α) (label : α) (right : CTree α)

/-- A node given by its children on a side and on the other. -/
def CTree.nodeOn (d : Side) (c : Color) (near : CTree α) (x : α) (far : CTree α) : CTree α :=
  match d with
  | .left => .node c near x far
  | .right => .node c far x near

/-- One step from a node up to its parent: on which side the node hangs, and what else the parent
holds. -/
structure Frame (α : Type) where
  side : Side
  color : Color
  label : α
  sibling : CTree α

/-- A tree with a hole, as the frames from the hole up to the root. -/
abbrev Context (α : Type) : Type := List (Frame α)

variable {t : CTree α}

namespace CTree

def color : CTree α → Color
  | nil => .black
  | node c _ _ _ => c

def inorder : CTree α → List α
  | nil => []
  | node _ l x r => l.inorder ++ x :: r.inorder

@[simp] lemma color_nil : (nil : CTree α).color = .black := rfl

@[simp] lemma inorder_nil : (nil : CTree α).inorder = [] := rfl

@[simp] lemma inorder_node (c : Color) (l : CTree α) (x : α) (r : CTree α) :
    (node c l x r).inorder = l.inorder ++ x :: r.inorder := rfl

variable (d : Side) (c : Color) (near : CTree α) (x : α) (far : CTree α)

@[simp] lemma color_nodeOn : (nodeOn d c near x far).color = c := by cases d <;> rfl

lemma nodeOn_ne_nil : nodeOn d c near x far ≠ nil := by cases d <;> simp [nodeOn]

lemma nodeOn_other : nodeOn d.other c near x far = nodeOn d c far x near := by cases d <;> rfl

lemma ne_nil_of_red (h : t.color = .red) : t ≠ nil := by
  rintro rfl
  simp at h

def childOn : Side → CTree α → CTree α
  | _, nil => nil
  | .left, node _ l _ _ => l
  | .right, node _ _ _ r => r

@[simp] lemma childOn_nil : childOn d (nil : CTree α) = nil := by cases d <;> rfl

@[simp] lemma childOn_nodeOn : childOn d (nodeOn d c near x far) = near := by cases d <;> rfl

@[simp] lemma childOn_other_nodeOn : childOn d.other (nodeOn d c near x far) = far := by cases d <;> rfl

lemma exists_nodeOn (h : t ≠ nil) : ∃ (near : CTree α) (x : α) (far : CTree α), t = nodeOn d t.color near x far := by
  cases t with
  | nil => exact absurd rfl h
  | node c l x r =>
    cases d with
    | left => exact ⟨l, x, r, rfl⟩
    | right => exact ⟨r, x, l, rfl⟩

end CTree

def Frame.fill (frame : Frame α) (t : CTree α) : CTree α := .nodeOn frame.side frame.color t frame.label frame.sibling

variable {x : α}

namespace Context

open CTree

def plug : Context α → CTree α → CTree α
  | [], t => t
  | frame :: rest, t => plug rest (frame.fill t)

def before : Context α → List α
  | [] => []
  | ⟨.left, _, _, _⟩ :: rest => before rest
  | ⟨.right, _, x, l⟩ :: rest => before rest ++ (l.inorder ++ [x])

def after : Context α → List α
  | [] => []
  | ⟨.left, _, x, r⟩ :: rest => x :: r.inorder ++ after rest
  | ⟨.right, _, _, _⟩ :: rest => after rest

@[simp] lemma plug_nil (t : CTree α) : plug [] t = t := rfl

variable (c : Color)

@[simp] lemma plug_cons (x : α) (sib : CTree α) (ts : Context α) (t : CTree α)
    : plug (⟨d, c, x, sib⟩ :: ts) t = plug ts (.nodeOn d c t x sib) := rfl

@[simp] lemma before_nil : before ([] : Context α) = [] := rfl

@[simp] lemma before_left (x : α) (r : CTree α) (ts : Context α) : before (⟨.left, c, x, r⟩ :: ts) = before ts := rfl

@[simp] lemma before_right (x : α) (l : CTree α) (ts : Context α) :
    before (⟨.right, c, x, l⟩ :: ts) = before ts ++ (l.inorder ++ [x]) := rfl

@[simp] lemma after_nil : after ([] : Context α) = [] := rfl

@[simp] lemma after_left (x : α) (r : CTree α) (ts : Context α) :
    after (⟨.left, c, x, r⟩ :: ts) = x :: r.inorder ++ after ts := rfl

@[simp] lemma after_right (x : α) (l : CTree α) (ts : Context α) : after (⟨.right, c, x, l⟩ :: ts) = after ts := rfl

lemma inorder_plug (ctx : Context α) (t : CTree α) : (plug ctx t).inorder = ctx.before ++ (t.inorder ++ ctx.after) := by
  induction ctx generalizing t with
  | nil => simp
  | cons frame ts ih =>
    obtain ⟨d, c, x, sib⟩ := frame
    cases d <;> simp [ih, nodeOn]

variable (inner outer : Context α)

lemma plug_append (t : CTree α) : plug (inner ++ outer) t = plug outer (plug inner t) := by
  induction inner generalizing t with
  | nil => rfl
  | cons frame ts ih => exact ih (frame.fill t)

lemma before_append : before (inner ++ outer) = before outer ++ before inner := by
  induction inner with
  | nil => simp
  | cons frame ts ih =>
    obtain ⟨d, c, x, sib⟩ := frame
    cases d <;> simp [ih]

lemma after_append : after (inner ++ outer) = after inner ++ after outer := by
  induction inner with
  | nil => simp
  | cons frame ts ih =>
    obtain ⟨d, c, x, sib⟩ := frame
    cases d <;> simp [ih]

lemma length_le_length_before_add_after (ctx : Context α) : ctx.length ≤ ctx.before.length + ctx.after.length := by
  induction ctx with
  | nil => simp
  | cons frame ts ih =>
    obtain ⟨d, c, x, sib⟩ := frame
    cases d <;> simp <;> omega

lemma exists_plug_of_mem (hmem : x ∈ t.inorder) :
    ∃ (ctx : Context α) (c : Color) (l r : CTree α), t = plug ctx (.node c l x r) := by
  induction t with
  | nil => simp at hmem
  | node c l y r ihl ihr =>
    simp only [inorder_node, List.mem_append, List.mem_cons] at hmem
    rcases hmem with hmem | rfl | hmem
    · obtain ⟨ctx, c', l', r', rfl⟩ := ihl hmem
      exact ⟨ctx ++ [⟨.left, c, y, r⟩], c', l', r', by simp [plug_append, nodeOn]⟩
    · exact ⟨[], c, l, r, rfl⟩
    · obtain ⟨ctx, c', l', r', rfl⟩ := ihr hmem
      exact ⟨ctx ++ [⟨.right, c, y, l⟩], c', l', r', by simp [plug_append, nodeOn]⟩

lemma exists_leftmost (hne : t ≠ .nil) : ∃ (ctx : Context α) (c : Color) (x : α)
    (r : CTree α), t = plug ctx (.node c .nil x r) ∧ ctx.before = [] := by
  induction t with
  | nil => exact absurd rfl hne
  | node c l x r ihl _ =>
    by_cases hl : l = .nil
    · exact ⟨[], c, x, r, by rw [hl]; rfl, rfl⟩
    · obtain ⟨ctx, c', y, r', rfl, hbef⟩ := ihl hl
      refine ⟨ctx ++ [⟨.left, c, x, r⟩], c', y, r', by simp [plug_append, nodeOn], ?_⟩
      rw [before_append, hbef]
      rfl

end Context

/-! ### Sequences read from a side -/

def CTree.inorderFrom (t : CTree α) : Side → List α
  | .left => t.inorder
  | .right => t.inorder.reverse

/-- The labels on one side of a hole, the nearest first. -/
def Context.outward (ctx : Context α) : Side → List α
  | .left => ctx.before.reverse
  | .right => ctx.after

@[simp] lemma CTree.inorderFrom_nil : (nil : CTree α).inorderFrom d = [] := by cases d <;> rfl

lemma CTree.inorderFrom_nodeOn (c : Color) (near : CTree α) (x : α) (far : CTree α) :
    (nodeOn d c near x far).inorderFrom d = near.inorderFrom d ++ x :: far.inorderFrom d := by
  cases d <;> simp [inorderFrom, nodeOn]

@[simp] lemma Context.outward_nil : outward ([] : Context α) d = [] := by cases d <;> rfl

lemma Context.outward_same (c : Color) (x : α) (sib : CTree α) (ts : Context α) :
    outward (⟨d, c, x, sib⟩ :: ts) d = outward ts d := by
  cases d <;> rfl

lemma Context.outward_other (c : Color) (x : α) (sib : CTree α) (ts : Context α) :
    outward (⟨d.other, c, x, sib⟩ :: ts) d = x :: sib.inorderFrom d.other ++ outward ts d := by
  cases d <;> simp [outward, CTree.inorderFrom]

/-! ### Descending to an empty subtree -/

/-- The hole where a descent ends that goes right exactly at the labels satisfying `goRight`. -/
def CTree.descend (goRight : α → Bool) : CTree α → Context α → Context α
  | nil, ctx => ctx
  | node c l x r, ctx =>
    if goRight x then r.descend goRight (⟨.right, c, x, l⟩ :: ctx)
    else l.descend goRight (⟨.left, c, x, r⟩ :: ctx)

variable {ctx : Context α}

section

open CTree

variable {goRight : α → Bool}

lemma plug_descend (t : CTree α) (ctx : Context α) : (t.descend goRight ctx).plug nil = ctx.plug t := by
  induction t generalizing ctx with
  | nil => rfl
  | node c l x r ihl ihr =>
    rw [descend]
    split
    · rw [ihr]
      rfl
    · rw [ihl]
      rfl

lemma descend_splits (hsort : t.inorder.Pairwise fun a b => goRight b = true → goRight a = true)
    (hbef : ∀ x ∈ ctx.before, goRight x = true) (hafter : ∀ x ∈ ctx.after, goRight x = false) :
    (∀ x ∈ (t.descend goRight ctx).before, goRight x = true) ∧ ∀ x ∈ (t.descend goRight ctx).after,
    goRight x = false := by
  induction t generalizing ctx with
  | nil => exact ⟨hbef, hafter⟩
  | node c l x r ihl ihr =>
    rw [inorder_node, List.pairwise_append, List.pairwise_cons] at hsort
    obtain ⟨hl, ⟨hxr, hr⟩, hlx⟩ := hsort
    rw [descend]
    split
    · rename_i hx
      refine ihr hr ?_ hafter
      simp only [Context.before_right, List.mem_append, List.mem_singleton]
      rintro y (hy | hy | rfl)
      · exact hbef y hy
      · exact hlx y hy x (by simp) hx
      · exact hx
    · rename_i hx
      refine ihl hl hbef ?_
      simp only [Context.after_left, List.cons_append, List.mem_cons, List.mem_append]
      rintro y (rfl | hy | hy)
      · simpa using hx
      · exact Bool.eq_false_iff.mpr fun hy' => hx (hxr y hy hy')
      · exact hafter y hy

end

/-! ### Red-black balance -/

open CTree

/-- `Balanced t n`: no red node of `t` has a red child, and every path from the root of `t` to an
empty subtree crosses `n` black nodes. -/
inductive Balanced : CTree α → Nat → Prop where
  | nil : Balanced .nil 0
  | red {l r : CTree α} {x : α} {n : Nat} : l.color = .black → r.color = .black → Balanced l n →
      Balanced r n → Balanced (.node .red l x r) n
  | black {l r : CTree α} {x : α} {n : Nat} : Balanced l n → Balanced r n → Balanced (.node .black l x r) (n + 1)

variable {d : Side} {near far : CTree α} {n : Nat}

lemma balanced_red_iff : Balanced (nodeOn d .red near x far) n ↔ near.color = .black ∧ far.color =
    .black ∧ Balanced near n ∧ Balanced far n := by
  constructor
  · intro h
    cases d with
    | left => cases h with | red hl hr hbl hbr => exact ⟨hl, hr, hbl, hbr⟩
    | right => cases h with | red hl hr hbl hbr => exact ⟨hr, hl, hbr, hbl⟩
  · rintro ⟨hn, hf, hbn, hbf⟩
    cases d with
    | left => exact .red hn hf hbn hbf
    | right => exact .red hf hn hbf hbn

lemma balanced_black_iff :
    Balanced (nodeOn d .black near x far) n ↔ ∃ m, n = m + 1 ∧ Balanced near m ∧ Balanced far m := by
  constructor
  · intro h
    cases d with
    | left => cases h with | black hbl hbr => exact ⟨_, rfl, hbl, hbr⟩
    | right => cases h with | black hbl hbr => exact ⟨_, rfl, hbr, hbl⟩
  · rintro ⟨m, rfl, hbn, hbf⟩
    cases d with
    | left => exact .black hbn hbf
    | right => exact .black hbf hbn

lemma Balanced.exists_black (h : Balanced t (n + 1)) (d : Side) (hcolor : t.color = .black) :
    ∃ (near : CTree α) (x : α) (far : CTree α), t = nodeOn d .black near x far := by
  have hne : t ≠ .nil := by
    rintro rfl
    cases h
  obtain ⟨near, x, far, hread⟩ := exists_nodeOn d hne
  exact ⟨near, x, far, hcolor ▸ hread⟩

lemma Balanced.zero_cases (h : Balanced t 0) : t = .nil ∨ ∃ x, t = nodeOn .left .red .nil x .nil := by
  cases h with
  | nil => exact .inl rfl
  | @red l r x _ hl hr hbl hbr =>
    have hempty : ∀ t : CTree α, t.color = .black → Balanced t 0 → t = .nil := by
      intro t hcolor hbal
      cases hbal with
      | nil => rfl
      | red => exact absurd hcolor (by simp [color])
    exact .inr ⟨x, by rw [hempty l hl hbl, hempty r hr hbr]; rfl⟩

variable {c : Color}

/-- A red-black tree: the root is black, no red node has a red child, and all paths to the empty
subtrees cross equally many black nodes. -/
structure RedBlack (t : CTree α) : Prop where
  root : t.color = .black
  balanced : ∃ n, Balanced t n

def CTree.height : CTree α → Nat
  | nil => 0
  | node _ l _ r => max l.height r.height + 1

lemma Balanced.bounds (h : Balanced t n) : t.height ≤ 2 * n + 1 ∧ (t.color = .black → t.height ≤ 2 * n) ∧
    1 <<< n ≤ t.inorder.length + 1 := by
  induction h with
  | nil => exact ⟨zero_le, fun _ => le_rfl, le_rfl⟩
  | red hl hr _ _ ihl ihr =>
    have hleft := ihl.2.1 hl
    have hright := ihr.2.1 hr
    rw [height, inorder_node, List.length_append, List.length_cons]
    exact ⟨by omega, nofun, by omega⟩
  | black _ _ ihl ihr =>
    rw [height, inorder_node, List.length_append, List.length_cons, Nat.shiftLeft_succ]
    exact ⟨by omega, fun _ => by omega, by omega⟩

lemma RedBlack.height_le (h : RedBlack t) : t.height ≤ 2 * Nat.log2 (t.inorder.length + 1) := by
  obtain ⟨n, hbal⟩ := h.balanced
  obtain ⟨-, hheight, hsize⟩ := hbal.bounds
  rw [Nat.one_shiftLeft, ← Nat.le_log2 (Nat.succ_ne_zero _)] at hsize
  exact le_trans (hheight h.root) (Nat.mul_le_mul_left 2 hsize)

/-- `Fits ctx c n`: filling the hole of `ctx` with a balanced tree of colour `c` and black height
`n` gives a balanced tree with a black root. -/
inductive Fits : Context α → Color → Nat → Prop where
  | root {n : Nat} : Fits [] .black n
  | red {d : Side} {sib : CTree α} {x : α} {rest : Context α} {n : Nat} : sib.color = .black →
      Balanced sib n → Fits rest .red n → Fits (⟨d, .red, x, sib⟩ :: rest) .black n
  | black {d : Side} {sib : CTree α} {x : α} {rest : Context α} {c : Color} {n : Nat} :
      Balanced sib n → Fits rest .black (n + 1) → Fits (⟨d, .black, x, sib⟩ :: rest) c n

lemma Fits.plug (hfits : Fits ctx c n) (hcolor : t.color = c) (hbal : Balanced t n) : RedBlack (ctx.plug t) := by
  induction hfits generalizing t with
  | root => exact ⟨hcolor, _, hbal⟩
  | red hc hsib _ ih => exact ih (color_nodeOn ..) (balanced_red_iff.mpr ⟨hcolor, hc, hbal, hsib⟩)
  | black hsib _ ih => exact ih (color_nodeOn ..) (balanced_black_iff.mpr ⟨_, rfl, hbal, hsib⟩)

lemma Fits.black_of_any (hfits : Fits ctx c n) : Fits ctx .black n := by
  cases hfits with
  | root => exact .root
  | red hc hsib hrest => exact .red hc hsib hrest
  | black hsib hrest => exact .black hsib hrest

variable {x' : α} {sib : CTree α} {rest ts : Context α}

lemma Fits.replace {d' : Side} {sib' : CTree α} (h : Fits (⟨d, c, x, sib⟩ :: ts) .black n) (hcolor : sib'.color = .black)
    (hbal : Balanced sib' n) : Fits (⟨d', c, x', sib'⟩ :: ts) .black n := by
  cases h with
  | red _ _ hrest => exact .red hcolor hbal hrest
  | black _ hrest => exact .black hbal hrest

lemma Fits.balanced_sibling {k : Color} (h : Fits (⟨d, c, x, sib⟩ :: ts) k n) : Balanced sib n := by
  cases h with
  | red _ hsib _ => exact hsib
  | black hsib _ => exact hsib

/-- A balanced tree opened at any zipper is a balanced subtree in a hole that takes it. -/
lemma RedBlack.unplug (h : RedBlack (ctx.plug t)) : ∃ n, Balanced t n ∧ Fits ctx t.color n := by
  induction ctx generalizing t with
  | nil =>
    obtain ⟨hcolor, n, hbal⟩ := h
    exact ⟨n, hbal, (show t.color = .black from hcolor) ▸ .root⟩
  | cons frame ts ih =>
    obtain ⟨d, c, x, sib⟩ := frame
    obtain ⟨n, hnode, hrest⟩ := ih (t := nodeOn d c t x sib) h
    rw [color_nodeOn] at hrest
    cases c with
    | red =>
      obtain ⟨htc, hsc, ht, hsib⟩ := balanced_red_iff.mp hnode
      exact ⟨n, ht, htc ▸ .red hsc hsib hrest⟩
    | black =>
      obtain ⟨k, rfl, ht, hsib⟩ := balanced_black_iff.mp hnode
      exact ⟨k, ht, .black hsib hrest⟩

lemma Balanced.plug_congr {t' : CTree α} (hcolor : t'.color = t.color) (hbal : ∀ n, Balanced t n → Balanced t' n) :
    (ctx.plug t').color = (ctx.plug t).color ∧ ∀ n, Balanced (ctx.plug t) n → Balanced (ctx.plug t') n := by
  induction ctx generalizing t t' with
  | nil => exact ⟨hcolor, hbal⟩
  | cons frame ts ih =>
    obtain ⟨d, c, x, sib⟩ := frame
    refine ih (t := nodeOn d c t x sib) (by simp [Frame.fill]) fun n hn => ?_
    cases c with
    | red =>
      obtain ⟨htc, hsc, ht, hsib⟩ := balanced_red_iff.mp hn
      exact balanced_red_iff.mpr ⟨hcolor.trans htc, hsc, hbal n ht, hsib⟩
    | black =>
      obtain ⟨m, rfl, ht, hsib⟩ := balanced_black_iff.mp hn
      exact balanced_black_iff.mpr ⟨m, rfl, hbal m ht, hsib⟩

lemma Balanced.relabel {far' : CTree α} (h : Balanced (nodeOn d c near x far) n) (hcolor : far'.color = far.color)
    (hbal : ∀ n, Balanced far n → Balanced far' n) : Balanced (nodeOn d c near x' far') n := by
  cases c with
  | red =>
    obtain ⟨hnc, hfc, hnear, hfar⟩ := balanced_red_iff.mp h
    exact balanced_red_iff.mpr ⟨hnc, hcolor.trans hfc, hnear, hbal n hfar⟩
  | black =>
    obtain ⟨m, rfl, hnear, hfar⟩ := balanced_black_iff.mp h
    exact balanced_black_iff.mpr ⟨m, rfl, hnear, hbal m hfar⟩

end ColoredTree
