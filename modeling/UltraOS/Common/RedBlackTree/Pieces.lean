import UltraOS.Common.RedBlackTree.Access

/-!
# The heap in pieces

An operation on the links takes the heap apart into nodes, subtrees and the frames around a hole, each
piece with addresses of its own. A write changes one piece and leaves the others alone, and in the end
the pieces are put together again. That they stay apart is a matter of counting addresses.
-/

namespace UltraOS.RedBlackTree

open ColoredTree State List

variable {V : Type} {heap heap' : Heap V}

inductive Piece (V : Type) where
  | cell (a : Nat) (n : ValueNode V)
  | tree (up : NodePtr) (t : CTree (Item V))
  | hole (up : NodePtr) (ctx : Context (Item V)) (down : NodePtr)

def Piece.addresses : Piece V → List Nat
  | .cell a _ => [a]
  | .tree _ t => RedBlackTree.addresses t
  | .hole _ ctx _ => contextAddresses ctx

def Piece.Holds (heap : Heap V) : Piece V → Prop
  | .cell a n => heap a = some n
  | .tree up t => RedBlackTree.Holds heap up t
  | .hole up ctx down => HoldsHole heap up ctx down

lemma Piece.Holds.congr {p : Piece V} (h : p.Holds heap) (hagree : ∀ a ∈ p.addresses, heap' a = heap a) :
    p.Holds heap' := by
  cases p with
  | cell a n => exact (hagree a (mem_singleton_self a)).trans h
  | tree up t => exact RedBlackTree.Holds.congr h hagree
  | hole up ctx down => exact HoldsHole.congr h hagree

def HoldAll (heap : Heap V) : List (Piece V) → Prop
  | [] => True
  | p :: ps => p.Holds heap ∧ HoldAll heap ps

def uses : List (Piece V) → Nat → Nat
  | [], _ => 0
  | p :: ps, a => p.addresses.count a + uses ps a

/-- The heap of `s` is exactly these pieces, side by side, and the cached ends are those of `s0`. -/
structure Owns (s0 s : State V) (root : NodePtr) (ps : List (Piece V)) : Prop where
  holds : HoldAll s.nodes ps
  apart : ∀ a, uses ps a ≤ 1
  live : ∀ a, s.nodes a ≠ none → uses ps a ≠ 0
  root_eq : s.root = root
  ends : SameEnds s0 s

variable {ps qs : List (Piece V)} {p p' : Piece V} {i j a : Nat}

lemma HoldAll.congr (h : HoldAll heap ps) (hagree : ∀ a, uses ps a ≠ 0 → heap' a = heap a) : HoldAll heap' ps := by
  induction ps with
  | nil => trivial
  | cons p ps ih =>
    refine ⟨h.1.congr fun a ha => hagree a ?_, ih h.2 fun a ha => hagree a ?_⟩
    · have := count_pos_iff.mpr ha
      rw [uses]
      omega
    · rw [uses]
      omega

lemma HoldAll.get (h : HoldAll heap ps) (hi : ps[i]? = some p) : p.Holds heap := by
  induction ps generalizing i with
  | nil => simp at hi
  | cons q ps ih =>
    cases i with
    | zero => exact Option.some.inj hi ▸ h.1
    | succ i => exact ih h.2 hi

lemma count_le_uses (hi : ps[i]? = some p) (a : Nat) : p.addresses.count a ≤ uses ps a := by
  induction ps generalizing i with
  | nil => simp at hi
  | cons q ps ih =>
    rw [uses]
    cases i with
    | zero => exact Option.some.inj hi ▸ Nat.le_add_right ..
    | succ i => exact Nat.le_add_left_of_le (ih hi)

lemma uses_set (hi : ps[i]? = some p) (haddr : p'.addresses = p.addresses) (a : Nat) :
    uses (ps.set i p') a = uses ps a := by
  induction ps generalizing i with
  | nil => rfl
  | cons q ps ih =>
    cases i with
    | zero => rw [set_cons_zero, uses, uses, haddr, Option.some.inj hi]
    | succ i => rw [set_cons_succ, uses, uses, ih hi]

lemma HoldAll.set (h : HoldAll heap ps) (hapart : ∀ a, uses ps a ≤ 1) (hi : ps[i]? = some p)
    (hp' : p'.Holds heap') (hagree : ∀ a ∉ p.addresses, heap' a = heap a) : HoldAll heap' (ps.set i p') := by
  induction ps generalizing i with
  | nil => simp at hi
  | cons q ps ih =>
    simp only [uses] at hapart
    cases i with
    | zero =>
      cases hi
      refine ⟨hp', h.2.congr fun a ha => hagree a fun hmem => ?_⟩
      have := count_pos_iff.mpr hmem
      have := hapart a
      omega
    | succ i =>
      refine ⟨h.1.congr fun a ha => hagree a fun hmem => ?_, ih h.2 (fun a => ?_) hi⟩
      · have := count_pos_iff.mpr ha
        have := count_pos_iff.mpr hmem
        have := count_le_uses (show ps[i]? = some p from hi) a
        have := hapart a
        omega
      · have := hapart a
        omega

variable {s0 s s' : State V} {r up down : NodePtr} {n : ValueNode V} {t : CTree (Item V)} {ctx : Context (Item V)}

lemma Holds.put (h : Holds s.nodes up t) (hnot : (addresses t).count a = 0) (n : ValueNode V) :
    Holds (s.put a n).nodes up t :=
  h.congr fun _ hb => put_of_ne s n fun heq => count_eq_zero.mp hnot (heq ▸ hb)

lemma Represents.owns (h : Represents s t) : Owns s s (ptr t) [.tree .superRoot t] :=
  ⟨⟨h.holds, trivial⟩, nodup_iff_count_le_one.mp h.nodup,
    fun a ha => ne_of_gt (count_pos_iff.mpr (h.live a ha)), h.root, .refl s⟩

namespace Owns

lemma represents (h : Owns s0 s r [.tree .superRoot t]) (hroot : r = ptr t) : Represents s t ∧ SameEnds s0 s :=
  ⟨⟨h.holds.1, h.root_eq.trans hroot, nodup_iff_count_le_one.mpr h.apart,
    fun a ha => count_pos_iff.mp (Nat.pos_of_ne_zero (h.live a ha))⟩, h.ends⟩

variable (h : Owns s0 s r ps) (hi : ps[i]? = some (.cell a n)) (m : ValueNode V)

lemma regroup (h : Owns s0 s r ps) (hholds : HoldAll s.nodes qs) (huses : ∀ a, uses qs a = uses ps a) :
    Owns s0 s r qs :=
  { h with holds := hholds, apart := fun a => huses a ▸ h.apart a, live := fun a ha => huses a ▸ h.live a ha }

lemma setRoot (h : Owns s0 s r ps) (q : NodePtr) : Owns s0 { s with root := q } q ps :=
  { h with root_eq := rfl, ends := ⟨h.ends.1, h.ends.2, h.ends.3⟩ }

lemma set (h : Owns s0 s r ps) (hi : ps[i]? = some p) (haddr : p'.addresses = p.addresses)
    (hsame : s' = { s with nodes := s'.nodes }) (hp' : p'.Holds s'.nodes)
    (hagree : ∀ a ∉ p.addresses, s'.nodes a = s.nodes a) : Owns s0 s' r (ps.set i p') := by
  refine ⟨h.holds.set h.apart hi hp' hagree, fun a => uses_set hi haddr a ▸ h.apart a, fun a ha => ?_,
    (congrArg State.root hsame).trans h.root_eq, h.ends.trans (hsame ▸ ⟨rfl, rfl, rfl⟩)⟩
  rw [uses_set hi haddr]
  by_cases hmem : a ∈ p.addresses
  · have := count_pos_iff.mpr hmem
    have := count_le_uses hi a
    omega
  · exact h.live a (hagree a hmem ▸ ha)

section

include h hi

include m in
lemma put : Owns s0 (s.put a m) r (ps.set i (.cell a m)) :=
  h.set hi rfl rfl (put_self ..) fun _ hb => put_of_ne _ _ fun heq => hb (heq ▸ mem_singleton_self a)

include m in
lemma write : ∃ s', s.write (.node a) m = .ok s' ∧ Owns s0 s' r (ps.set i (.cell a m)) :=
  ⟨_, write_eq (h.holds.get hi) m, h.put hi m⟩

lemma setChild (d : Side) (q : NodePtr) :
    ∃ s', s.setChild d (.node a) q = .ok s' ∧ Owns s0 s' r (ps.set i (.cell a (n.setChild d q))) :=
  ⟨_, setChild_eq (h.holds.get hi) d q, h.put hi _⟩

lemma setParent (q : NodePtr) :
    ∃ s', s.setParent (.node a) q = .ok s' ∧ Owns s0 s' r (ps.set i (.cell a { n with parent := q })) :=
  ⟨_, setParent_eq (h.holds.get hi) q, h.put hi _⟩

lemma setColor (c : Color) :
    ∃ s', s.setColor (.node a) c = .ok s' ∧ Owns s0 s' r (ps.set i (.cell a { n with color := c })) :=
  ⟨_, setColor_eq (h.holds.get hi) c, h.put hi _⟩

end

lemma count_le (h : Owns s0 s r ps) (hi : ps[i]? = some p) (a : Nat) : p.addresses.count a ≤ 1 :=
  le_trans (count_le_uses hi a) (h.apart a)

lemma setParentIfAny (h : Owns s0 s r ps) (hi : ps[i]? = some (.tree up t)) (q : NodePtr) :
    ∃ s', s.setParentIfAny (ptr t) q = .ok s' ∧ Owns s0 s' r (ps.set i (.tree q t)) := by
  by_cases hnil : t = .nil
  · subst hnil
    exact ⟨s, rfl, h.set hi rfl rfl trivial fun _ _ => rfl⟩
  · obtain ⟨near, x, far, ht⟩ := CTree.exists_nodeOn .left hnil
    rw [ht] at hi ⊢
    obtain ⟨hx, hnear, hfar⟩ := holds_nodeOn.mp (h.holds.get hi)
    have hle := h.count_le hi x.address
    rw [Piece.addresses, count_nodeOn, count_singleton_self] at hle
    refine ⟨_, by rw [ptr_nodeOn, State.setParentIfAny, if_neg (by simp), setParent_eq hx, cellOn_setParent], ?_⟩
    refine h.set hi rfl rfl (holds_nodeOn.mpr ⟨put_self .., hnear.put (by omega) _, hfar.put (by omega) _⟩)
      fun b hb => put_of_ne _ _ fun heq => hb ?_
    simp [Piece.addresses, heq]

section

variable {frame : Frame (Item V)} {ts : Context (Item V)}

lemma setHole (h : Owns s0 s r ps) (hi : ps[i]? = some (.hole up (frame :: ts) down))
    (q : NodePtr) : ∃ s', s.setChild frame.side (.node frame.label.address) q = .ok s' ∧
    Owns s0 s' r (ps.set i (.hole up (frame :: ts) q)) := by
  obtain ⟨hx, hsib, hrest⟩ : HoldsHole s.nodes up (frame :: ts) down := h.holds.get hi
  have hle := h.count_le hi frame.label.address
  rw [Piece.addresses, count_context_cons, count_singleton_self] at hle
  refine ⟨_, setChild_eq hx _ _, h.set hi rfl rfl ⟨?_, hsib.put (by omega) _, hrest.congr fun b hb => ?_⟩ fun b hb => ?_⟩
  · rw [put_self, cellOn_setChild]
  · exact put_of_ne _ _ fun heq => count_eq_zero.mp (by omega) (heq ▸ hb)
  · exact put_of_ne _ _ fun heq => hb (by simp [Piece.addresses, heq])

lemma setHole_side (h : Owns s0 s r ps) (hi : ps[i]? = some (.hole up (frame :: ts) down)) (q : NodePtr) :
    ∃ s', (if onLeft (frame :: ts) then s.setLeft (above (frame :: ts)) q
        else s.setRight (above (frame :: ts)) q) = .ok s' ∧ Owns s0 s' r (ps.set i (.hole up (frame :: ts) q)) := by
  obtain ⟨s', hset, h'⟩ := h.setHole hi q
  refine ⟨s', ?_, h'⟩
  cases hd : frame.side with
  | left => simp [setLeft, ← hset, hd]
  | right => simp [setRight, ← hset, hd]

end

lemma relink (h : Owns s0 s r ps) (hi : ps[i]? = some (.hole .superRoot ctx (.node a))) (hj : ps[j]? = some (.cell a n))
    (hparent : n.parent = above ctx) (hapart : a ∉ contextAddresses ctx) (q : NodePtr) : ∃ s', s.relink (above ctx)
    (.node a) q = .ok s' ∧ Owns s0 s' (if ctx = [] then q else r) (ps.set i (.hole .superRoot ctx q)) := by
  have hside := isLeftChild_eq (h.holds.get hj) hparent (h.holds.get hi) hapart
  cases ctx with
  | nil =>
    have h' : Owns s0 s r (ps.set i (.hole .superRoot [] q)) := h.set hi rfl rfl trivial fun _ _ => rfl
    exact ⟨_, rfl, h'.setRoot q⟩
  | cons frame ts =>
    obtain ⟨s', hset, h'⟩ := h.setHole_side hi q
    exact ⟨s', by rw [State.relink, if_pos (by simp), hside, ok_bind, hset], h'⟩

lemma reattach {node : NodePtr} (h : Owns s0 s r ps) (hi : ps[i]? = some (.hole .superRoot ctx down))
    (hroot : node = r ↔ ctx = []) (q : NodePtr) : ∃ s', (if node ≠ s.root then
        if onLeft ctx then s.setLeft (above ctx) q else s.setRight (above ctx) q
      else pure s) = .ok s' ∧ Owns s0 s' r (ps.set i (.hole .superRoot ctx q)) := by
  rw [← h.root_eq] at hroot
  cases ctx with
  | nil =>
    rw [if_neg (not_not.mpr (hroot.mpr rfl))]
    exact ⟨s, rfl, h.set hi rfl rfl trivial fun _ _ => rfl⟩
  | cons frame ts =>
    rw [if_pos (mt hroot.mp (cons_ne_nil _ _))]
    exact h.setHole_side hi q

end Owns

end UltraOS.RedBlackTree
