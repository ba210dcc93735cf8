import UltraOS.Common.RedBlackTree.Model

/-!
# Which tree a heap of nodes spells

`Represents s t` says that the heap of `s` holds exactly the nodes of the abstract tree `t`, each with the links,
colour and value that its place gives it. At a zipper it splits into the subtree (`Holds`) and the frames above it
(`HoldsHole`), in which form an operation on one node reads and rewrites it.
-/

namespace UltraOS.RedBlackTree

open ColoredTree List Context

variable {V : Type}

/-- The label of a node of the abstract tree: where the node lives, and its value. -/
structure Item (V : Type) where
  address : Nat
  value : V

abbrev Heap (V : Type) : Type := Nat → Option (ValueNode V)

def ptr : CTree (Item V) → NodePtr
  | .nil => .null
  | .node _ _ x _ => .node x.address

@[simp] lemma ptr_nil : ptr (.nil : CTree (Item V)) = .null := rfl

@[simp] lemma ptr_node (c : Color) (l : CTree (Item V)) (x : Item V) (r : CTree (Item V)) :
    ptr (.node c l x r) = .node x.address := rfl

@[simp] lemma ptr_nodeOn (d : Side) (c : Color) (near : CTree (Item V)) (x : Item V)
    (far : CTree (Item V)) : ptr (.nodeOn d c near x far) = .node x.address := by
  cases d <;> rfl

variable {t : CTree (Item V)}

lemma ptr_eq_null : ptr t = .null ↔ t = .nil := by cases t <;> simp

def above : Context (Item V) → NodePtr
  | [] => .superRoot
  | frame :: _ => .node frame.label.address

@[simp] lemma above_nil : above ([] : Context (Item V)) = .superRoot := rfl

@[simp] lemma above_cons (frame : Frame (Item V)) (ts : Context (Item V)) :
    above (frame :: ts) = .node frame.label.address := rfl

@[simp] lemma above_ne_null (ctx : Context (Item V)) : above ctx ≠ .null := by cases ctx <;> simp

/-- The node above a hole of frames that hang off `up`. -/
def aboveFrom (up : NodePtr) : Context (Item V) → NodePtr
  | [] => up
  | frame :: _ => .node frame.label.address

def cellOn (d : Side) (up near far : NodePtr) (c : Color) (v : V) : ValueNode V :=
  match d with
  | .left => ⟨up, near, far, c, v⟩
  | .right => ⟨up, far, near, c, v⟩

section

variable (d : Side) (up near far p : NodePtr) (c c' : Color) (v : V)

@[simp] lemma cellOn_parent : (cellOn d up near far c v).parent = up := by cases d <;> rfl

@[simp] lemma cellOn_color : (cellOn d up near far c v).color = c := by cases d <;> rfl

@[simp] lemma cellOn_value : (cellOn d up near far c v).value = v := by cases d <;> rfl

@[simp] lemma cellOn_child : (cellOn d up near far c v).child d = near := by cases d <;> rfl

@[simp] lemma cellOn_child_other : (cellOn d up near far c v).child d.other = far := by cases d <;> rfl

lemma cellOn_setChild : (cellOn d up near far c v).setChild d p = cellOn d up p far c v := by cases d <;> rfl

lemma cellOn_setChild_other : (cellOn d up near far c v).setChild d.other p = cellOn d up near p c v := by
  cases d <;> rfl

lemma cellOn_setParent : { cellOn d up near far c v with parent := p } = cellOn d p near far c v := by cases d <;> rfl

lemma cellOn_setColor : { cellOn d up near far c v with color := c' } = cellOn d up near far c' v := by cases d <;> rfl

end

/-! ### Addresses -/

def addresses (t : CTree (Item V)) : List Nat := t.inorder.map Item.address

/-- The addresses of the frames around a hole and of the subtrees hanging off them. -/
def contextAddresses (ctx : Context (Item V)) : List Nat := (ctx.before ++ ctx.after).map Item.address

@[simp] lemma addresses_nil : addresses (.nil : CTree (Item V)) = [] := rfl

variable {a : Nat} {near far : CTree (Item V)}

@[simp] lemma mem_addresses_nodeOn {d : Side} {c : Color} {x : Item V}
    : a ∈ addresses (.nodeOn d c near x far) ↔ a = x.address ∨ a ∈ addresses near ∨ a ∈ addresses far := by
  cases d <;> simp only [addresses, CTree.nodeOn, CTree.inorder_node, map_append,
    map_cons, mem_append, mem_cons] <;> tauto

variable {frame : Frame (Item V)} {ts : Context (Item V)}

@[simp] lemma mem_contextAddresses_cons : a ∈ contextAddresses (frame :: ts) ↔ a = frame.label.address ∨
    a ∈ addresses frame.sibling ∨ a ∈ contextAddresses ts := by
  obtain ⟨d, c, x, sib⟩ := frame
  cases d <;> simp only [contextAddresses, addresses, before_left, after_left,
    before_right, after_right, map_append, map_cons, map_nil,
    mem_append, mem_cons, not_mem_nil] <;> tauto

variable {ctx : Context (Item V)}

lemma mem_addresses_plug : a ∈ addresses (ctx.plug t) ↔ a ∈ addresses t ∨ a ∈ contextAddresses ctx := by
  simp only [addresses, contextAddresses, inorder_plug, map_append, mem_append]
  tauto

@[simp] lemma count_nodeOn {d : Side} {c : Color} {x : Item V} : (addresses (.nodeOn d c near x far)).count a =
    [x.address].count a + (addresses near).count a + (addresses far).count a := by
  cases d <;> simp [addresses, CTree.nodeOn, count_cons] <;> omega

@[simp] lemma count_plug :
    (addresses (ctx.plug t)).count a = (addresses t).count a + (contextAddresses ctx).count a := by
  simp [addresses, contextAddresses, inorder_plug]
  omega

@[simp] lemma count_context_cons : (contextAddresses (frame :: ts)).count a =
    [frame.label.address].count a + (addresses frame.sibling).count a + (contextAddresses ts).count a := by
  obtain ⟨d, c, x, sib⟩ := frame
  have hplug : (addresses (plug (⟨d, c, x, sib⟩ :: ts) .nil)).count a = _ := count_plug
  rw [plug_cons, count_plug, count_nodeOn] at hplug
  simpa using hplug.symm

/-! ### The heap of a subtree and of the frames above it -/

/-- The nodes of `t` are in the heap, linked as `t` says, with `up` as the parent of the root. -/
def Holds (heap : Heap V) : NodePtr → CTree (Item V) → Prop
  | _, .nil => True
  | up, .node c l x r =>
    heap x.address = some ⟨up, ptr l, ptr r, c, x.value⟩ ∧
      Holds heap (.node x.address) l ∧ Holds heap (.node x.address) r

/-- The frames of `ctx` are in the heap, hanging off `up`, with `down` in the hole. -/
def HoldsHole (heap : Heap V) (up : NodePtr) : Context (Item V) → NodePtr → Prop
  | [], _ => True
  | frame :: rest, down =>
    heap frame.label.address = some (cellOn frame.side (aboveFrom up rest) down (ptr frame.sibling) frame.color
          frame.label.value) ∧
      Holds heap (.node frame.label.address) frame.sibling ∧
      HoldsHole heap up rest (.node frame.label.address)

variable {heap : Heap V}

lemma holds_nodeOn {up : NodePtr} {d : Side} {c : Color} {x : Item V}
    : Holds heap up (.nodeOn d c near x far) ↔ heap x.address = some (cellOn d up (ptr near) (ptr far) c x.value) ∧
        Holds heap (.node x.address) near ∧ Holds heap (.node x.address) far := by
  cases d with
  | left => rfl
  | right =>
    simp only [CTree.nodeOn, Holds, cellOn]
    tauto

lemma holds_plug {up : NodePtr} : Holds heap up (ctx.plug t) ↔
    Holds heap (aboveFrom up ctx) t ∧ HoldsHole heap up ctx (ptr t) := by
  induction ctx generalizing t with
  | nil => simp [HoldsHole, aboveFrom]
  | cons frame ts ih =>
    obtain ⟨d, c, x, sib⟩ := frame
    rw [plug_cons, ih, holds_nodeOn]
    simp only [HoldsHole, aboveFrom, ptr_nodeOn]
    tauto

variable {heap' : Heap V}

lemma Holds.congr {up : NodePtr} (hholds : Holds heap up t)
    (hagree : ∀ a ∈ addresses t, heap' a = heap a) : Holds heap' up t := by
  induction t generalizing up with
  | nil => trivial
  | node c l x r ihl ihr =>
    have hmem : ∀ a, a ∈ addresses (.node c l x r) ↔ a = x.address ∨ a ∈ addresses l ∨ a ∈ addresses r :=
      fun a => mem_addresses_nodeOn (d := .left)
    obtain ⟨hx, hl, hr⟩ := hholds
    refine ⟨?_, ihl hl fun a ha => hagree a ?_, ihr hr fun a ha => hagree a ?_⟩
    · rw [hagree x.address ((hmem _).mpr (.inl rfl)), hx]
    · exact (hmem _).mpr (.inr (.inl ha))
    · exact (hmem _).mpr (.inr (.inr ha))

lemma HoldsHole.congr {up down : NodePtr} (hholds : HoldsHole heap up ctx down)
    (hagree : ∀ a ∈ contextAddresses ctx, heap' a = heap a) : HoldsHole heap' up ctx down := by
  induction ctx generalizing down with
  | nil => trivial
  | cons frame ts ih =>
    obtain ⟨hx, hsib, hrest⟩ := hholds
    refine ⟨?_, hsib.congr fun a ha => hagree a ?_, ih hrest fun a ha => hagree a ?_⟩
    · rw [hagree frame.label.address (by simp), hx]
    · simp [ha]
    · simp [ha]

variable {t' : CTree (Item V)}

lemma Holds.unique {up up' : NodePtr} (h : Holds heap up t) (h' : Holds heap up' t')
    (hptr : ptr t = ptr t') : t = t' := by
  induction t generalizing up up' t' with
  | nil => exact (ptr_eq_null.mp hptr.symm).symm
  | node c l x r ihl ihr =>
    cases t' with
    | nil => simp at hptr
    | node c' l' x' r' =>
      obtain ⟨hx, hl, hr⟩ := h
      obtain ⟨hx', hl', hr'⟩ := h'
      have ha : x.address = x'.address := by simpa using hptr
      rw [← ha, hx] at hx'
      injection hx' with hcell
      injection hcell with _ hleft hright hcolor hv
      rw [ihl hl hl' hleft, ihr hr hr' hright, hcolor]
      cases x
      cases x'
      simp_all

/-! ### The whole tree -/

/-- The heap of `s` is exactly the abstract tree `t`, hanging off the super root. -/
structure Represents (s : State V) (t : CTree (Item V)) : Prop where
  holds : Holds s.nodes .superRoot t
  root : s.root = ptr t
  nodup : (addresses t).Nodup
  live : ∀ a, s.nodes a ≠ none → a ∈ addresses t

/-- What no operation on the links touches. -/
structure SameEnds (s s' : State V) : Prop where
  superLeft : s'.superLeft = s.superLeft
  superRight : s'.superRight = s.superRight
  size : s'.size = s.size

lemma SameEnds.refl (s : State V) : SameEnds s s := ⟨rfl, rfl, rfl⟩

variable {s' : State V}

lemma SameEnds.trans {s s'' : State V} (h : SameEnds s s') (h' : SameEnds s' s'') : SameEnds s s'' :=
  ⟨h'.superLeft.trans h.superLeft, h'.superRight.trans h.superRight, h'.size.trans h.size⟩

namespace Represents

variable {s : State V} {ctx : Context (Item V)} {d : Side} {c : Color} {near far : CTree (Item V)} {x : Item V}

lemma congr (h : Represents s t) (hnodes : s'.nodes = s.nodes) (hroot : s'.root = s.root) : Represents s' t :=
  ⟨hnodes ▸ h.holds, hroot ▸ h.root, h.nodup, hnodes ▸ h.live⟩

lemma unique (h : Represents s t) (h' : Represents s t') : t = t' := h.holds.unique h'.holds (h.root.symm.trans h'.root)

lemma apart (h : Represents s (ctx.plug t)) (hmem : a ∈ addresses t) : a ∉ contextAddresses ctx := by
  intro hctx
  have hle := nodup_iff_count_le_one.mp h.nodup a
  rw [count_plug] at hle
  have := count_pos_iff.mpr hmem
  have := count_pos_iff.mpr hctx
  omega

lemma split (h : Represents s (ctx.plug t)) : Holds s.nodes (above ctx) t ∧ HoldsHole s.nodes .superRoot ctx (ptr t) :=
  holds_plug.mp h.holds

lemma cell (h : Represents s (ctx.plug (.nodeOn d c near x far))) :
    s.nodes x.address = some (cellOn d (above ctx) (ptr near) (ptr far) c x.value) :=
  (holds_nodeOn.mp h.split.1).1

end Represents

lemma ptr_plug_cons (frame : Frame (Item V)) (ts : Context (Item V)) (t t' : CTree (Item V)) :
    ptr (plug (frame :: ts) t) = ptr (plug (frame :: ts) t') := by
  induction ts generalizing frame t t' with
  | nil => simp [plug, Frame.fill]
  | cons next ts ih => exact ih next (frame.fill t) (frame.fill t')

lemma ptr_plug {q : NodePtr} (hptr : ptr t' = q) : (if ctx = [] then q else ptr (ctx.plug t)) = ptr (ctx.plug t') := by
  cases ctx with
  | nil => exact hptr.symm
  | cons frame ts => exact ptr_plug_cons frame ts t t'

lemma exists_ptr_plug_cons (frame : Frame (Item V)) (ts : Context (Item V)) (t : CTree (Item V))
    : ∃ a ∈ contextAddresses (frame :: ts), ptr (plug (frame :: ts) t) = .node a := by
  induction ts generalizing frame t with
  | nil => exact ⟨frame.label.address, by simp, by simp [plug, Frame.fill]⟩
  | cons next ts ih =>
    obtain ⟨a, ha, hptr⟩ := ih next (frame.fill t)
    refine ⟨a, ?_, hptr⟩
    rw [mem_contextAddresses_cons]
    exact .inr (.inr ha)

lemma Represents.root_eq {s : State V} {d : Side} {c : Color} {x : Item V}
    (h : Represents s (ctx.plug (.nodeOn d c near x far))) : .node x.address = s.root ↔ ctx = [] := by
  rw [h.root]
  cases ctx with
  | nil => simp
  | cons frame ts =>
    obtain ⟨a, ha, hptr⟩ := exists_ptr_plug_cons frame ts (.nodeOn d c near x far)
    rw [hptr]
    simp only [NodePtr.node.injEq, reduceCtorEq, iff_false]
    rintro rfl
    exact h.apart (by simp) ha

end UltraOS.RedBlackTree
