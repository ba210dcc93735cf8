import UltraOS.Common.RedBlackTree.Insert
import UltraOS.Common.RedBlackTree.Search

/-!
# `emplace`

An emplaced value goes behind all smaller values and in front of all others, and the tree stays
red-black. The cached left end is right afterwards; the cached right end is right exactly when the
value is not equivalent to the greatest one, because `emplace` then caches the new node on the right
while the descent puts it in front of its equals.
-/

namespace UltraOS.RedBlackTree

open ColoredTree State List Function Context

variable {K V : Type} {tr : Traits K V} {s : State V}

/-- Everything about a tree but its cached ends. -/
structure Shape (traits : Traits K V) (s : State V) (t : CTree (Item V)) : Prop where
  represents : Represents s t
  redBlack : RedBlack t
  sorted : Ascending traits t.inorder
  size : s.size = t.inorder.length

def itemPtr : Option (Item V) → NodePtr
  | none => .null
  | some x => .node x.address

/-- The super root caches the first and the last node in order, or nothing in an empty tree. -/
structure EndsCached (s : State V) (items : List (Item V)) : Prop where
  left : s.superLeft = itemPtr items.head?
  right : s.superRight = itemPtr items.getLast?

variable {t : CTree (Item V)} {a : Nat}

lemma Represents.mem_addresses (h : Represents s t) : a ∈ addresses t ↔ s.nodes a ≠ none := by
  refine ⟨fun hmem => ?_, h.live a⟩
  obtain ⟨x, hx, rfl⟩ := mem_map.mp hmem
  obtain ⟨ctx, c, l, r, rfl⟩ := exists_plug_of_mem hx
  rw [@Represents.cell _ s ctx .left c l r x h]
  simp

/-! ### Linking the new node -/

variable {v : V} {s1 : State V} (hends : (s.put a { value := v }).updateEnds tr (.node a) v = .ok s1)

lemma Represents.fresh {n : ValueNode V} (h : Represents s t) (hfresh : s.nodes a = none)
    (hnodes : s1.nodes = update s.nodes a (some n)) (hroot : s1.root = s.root) :
    Owns s1 s1 (ptr t) [.cell a n, .tree .superRoot t] := by
  have hnot : a ∉ addresses t := fun hmem => h.mem_addresses.mp hmem hfresh
  have hu : ∀ b, b ≠ a → s1.nodes b = s.nodes b := fun b hb => by rw [hnodes, update_of_ne hb]
  refine ⟨⟨by rw [hnodes]; exact update_self .., ?_, trivial⟩, fun b => ?_, fun b hb => ?_, hroot.trans h.root, .refl _⟩
  · exact h.holds.congr fun b hb => hu b fun heq => hnot (heq ▸ hb)
  · by_cases hba : b = a
    · simp [uses, Piece.addresses, hba, count_eq_zero.mpr hnot]
    · simpa [uses, Piece.addresses, count_singleton, Ne.symm hba] using nodup_iff_count_le_one.mp h.nodup b
  · by_cases hba : b = a
    · simp [uses, Piece.addresses, hba]
    · have := count_pos_iff.mpr (h.live b (hu b hba ▸ hb))
      simp only [uses, Piece.addresses]
      omega

lemma attach_spec {frame : Frame (Item V)} {ts : Context (Item V)}
    (h : Represents s (plug (frame :: ts) .nil)) (hfresh : s.nodes a = none)
    (hnodes : s1.nodes = update s.nodes a (some { value := v })) (hroot : s1.root = s.root) : ∃ s2,
    attach s1 frame (.node a) = .ok s2 ∧
    Represents s2 (plug (frame :: ts) (.nodeOn .left .red .nil ⟨a, v⟩ .nil)) ∧ SameEnds s1 s2 := by
  have h1 := h.fresh hfresh hnodes hroot
  have h1' : Owns s1 s1 _ [.cell a _, .hole .superRoot (frame :: ts) .null] :=
    h1.regroup ⟨h1.holds.1, (holds_plug.mp h1.holds.2.1).2, trivial⟩ fun b => by simp [uses, Piece.addresses]
  obtain ⟨s2, hset2, h2⟩ := h1'.setHole (i := 1) rfl (.node a)
  obtain ⟨s3, hset3, h3⟩ := h2.setParent (i := 0) rfl (.node frame.label.address)
  obtain ⟨ha, hctx, -⟩ := h3.holds
  have hsub : Holds s3.nodes (above (frame :: ts)) (.nodeOn .left .red .nil ⟨a, v⟩ .nil) :=
    holds_nodeOn.mpr ⟨ha, trivial, trivial⟩
  refine ⟨s3, by rw [attach, hset2, ok_bind, hset3], Owns.represents
    (h3.regroup ⟨holds_plug.mpr ⟨hsub, by rwa [ptr_nodeOn]⟩, trivial⟩ fun b => ?_) (ptr_plug_cons ..)⟩
  simp [uses, Piece.addresses]

/-! ### The cached ends -/

lemma updateEnds_nil (newNode : NodePtr) (v : V) (hleft : s.superLeft = .null) (hright : s.superRight = .null) :
    s.updateEnds tr newNode v = .ok { s with superLeft := newNode, superRight := newNode } := by
  simp [updateEnds, isSmallerThanLeft, isGreaterThanRight, hleft, hright]

lemma updateEnds_eq {p q newNode : NodePtr} {lo hi : V} (v : V) (hleft : s.superLeft = p)
    (hright : s.superRight = q) (hp : p ≠ .null) (hq : q ≠ .null) (hlo : s.value p = .ok lo)
    (hhi : s.value q = .ok hi) (hle : tr.valueLess hi lo = false) :
    s.updateEnds tr newNode v = .ok { s with
      superLeft := if tr.valueLess lo v then p else newNode
      superRight := if tr.valueLess v hi then q else newNode } := by
  subst hleft hright
  have hv (l r : NodePtr) (x : NodePtr) : State.value { s with superLeft := l, superRight := r } x = s.value x := by
    cases x <;> rfl
  have hsmaller : s.isSmallerThanLeft tr v = .ok (tr.valueLess v lo) := by simp [isSmallerThanLeft, hp, hlo]
  have hgreater (l : NodePtr) : State.isGreaterThanRight tr { s with superLeft := l } v = .ok (tr.valueLess hi v) := by
    simp [isGreaterThanRight, hq, hv l s.superRight, hhi]
  by_cases hvlo : tr.valueLess v lo = true
  · have h1 : tr.valueLess lo v = false := tr.less_asymm hvlo
    have h2 : tr.valueLess v hi = true := tr.less_of_less_of_not_less hvlo hle
    have h3 : tr.valueLess hi v = false := tr.less_asymm h2
    simp [updateEnds, hsmaller, hvlo, hgreater, h1, h2, h3]
  · rw [Bool.not_eq_true] at hvlo
    by_cases hhiv : tr.valueLess hi v = true
    · have h1 : tr.valueLess lo v = true := tr.less_of_not_less_of_less hle hhiv
      have h2 : tr.valueLess v hi = false := tr.less_asymm hhiv
      simp [updateEnds, hsmaller, hvlo, hgreater, hhiv, h1, h2]
    · rw [Bool.not_eq_true] at hhiv
      -- neither below the least value nor above the greatest: the two edge cases of the source
      have hhi' (l : NodePtr) : State.value { s with superLeft := l } s.superRight = .ok hi := by
        rw [← hhi]
        exact hv l s.superRight _
      by_cases h1 : tr.valueLess lo v = true <;> by_cases h2 : tr.valueLess v hi = true <;>
        simp [updateEnds, hsmaller, hvlo, hgreater, hhiv, hlo, hhi, hhi', h1, h2]

/-! ### The whole operation -/

variable {before after : List (Item V)}

lemma Ascending.split (h : Ascending tr (before ++ after)) (hbef : ∀ x ∈ before, tr.valueLess x.value v = true)
    (hafter : ∀ x ∈ after, tr.valueLess x.value v = false) : Ascending tr (before ++ ⟨a, v⟩ :: after) := by
  rw [Ascending, pairwise_append] at h ⊢
  obtain ⟨hb, ha, hba⟩ := h
  refine ⟨hb, pairwise_cons.mpr ⟨hafter, ha⟩, fun x hx y hy => ?_⟩
  rcases mem_cons.mp hy with rfl | hy
  · exact tr.less_asymm (hbef x hx)
  · exact hba x hx y hy

variable {items : List (Item V)}

lemma Ascending.below (h : Ascending tr items) (v : V) :
    items.Pairwise fun x y => tr.valueLess y.value v = true → tr.valueLess x.value v = true :=
  h.imp fun hle hlt => tr.less_of_not_less_of_less hle hlt

structure Placed (traits : Traits K V) (items : List (Item V)) (x : Item V) (items' : List (Item V))
    (before after : List (Item V)) : Prop where
  old : items = before ++ after
  new : items' = before ++ x :: after
  below : ∀ y ∈ before, traits.valueLess y.value x.value = true
  notBelow : ∀ y ∈ after, traits.valueLess y.value x.value = false

lemma attachLoop_spec (h : Shape tr s t) (hne : t ≠ .nil) (hfresh : s.nodes a = none)
    (hnodes : s1.nodes = update s.nodes a (some { value := v })) (hroot : s1.root = s.root)
    (hsize : s1.size = s.size) : ∃ s2 s3 t' before after, s1.attachLoop tr (.node a) v s1.fuel s1.root =
    .ok s2 ∧ s2.fixInsertionViolationsIfNeeded (.node a) = .ok s3 ∧ Represents s3 t' ∧ RedBlack t' ∧
    Placed tr t.inorder ⟨a, v⟩ t'.inorder before after ∧ SameEnds s1 s3 := by
  have hholds : Holds s1.nodes .superRoot t := by
    refine h.represents.holds.congr fun b hb => ?_
    rw [hnodes, update_of_ne]
    rintro rfl
    exact h.represents.mem_addresses.mp hb hfresh
  have hn : t.inorder.length ≤ s1.fuel := by
    rw [fuel, hsize, h.size]
    omega
  obtain ⟨frame, ts, hdescend, hrun1⟩ := @attachLoop_eq _ _ tr t .superRoot s1.fuel s1 [] (.node a) v hholds hne hn
  have hplug : plug (frame :: ts) .nil = t := by rw [← hdescend, plug_descend, plug_nil]
  have hsplits := @descend_splits _ t [] _ (h.sorted.below v) (by simp) (by simp)
  rw [hdescend] at hsplits
  obtain ⟨s2, hattach, h2, hsame2⟩ := attach_spec (hplug ▸ h.represents) hfresh hnodes hroot
  have hold : t.inorder = before (frame :: ts) ++ after (frame :: ts) := by
    rw [← hplug, inorder_plug, CTree.inorder_nil, nil_append]
  obtain ⟨n, hnil, hfits⟩ := RedBlack.unplug (hplug ▸ h.redBlack)
  cases hnil with
  | nil =>
    have hbal : Balanced (.nodeOn .left .red .nil (⟨a, v⟩ : Item V) .nil) 0 :=
      balanced_red_iff.mpr ⟨rfl, rfl, .nil, .nil⟩
    have hlen := length_le_length_before_add_after (frame :: ts)
    have hfuel2 : (frame :: ts).length + 2 ≤ s2.fuel := by
      rw [fuel, hsame2.size, hsize, h.size, hold, length_append]
      omega
    obtain ⟨s3, t', hfix, hrep⟩ := fixInsertionLoop_spec h2 (CTree.color_nodeOn ..) hbal hfits (cons_ne_nil _ _) hfuel2
    rw [ptr_nodeOn] at hfix
    refine ⟨s2, s3, t', _, _, ?_, ?_, hrep.represents, hrep.redBlack, ⟨hold, ?_, hsplits.1, hsplits.2⟩,
      hsame2.trans hrep.ends⟩
    · rw [hroot, h.represents.root, hrun1, hattach]
    · simp [fixInsertionViolationsIfNeeded, h2.isNull, hfix]
    · rw [hrep.inorder, inorder_plug]
      rfl

include hends in
lemma emplaceNew_of_root_null (hroot : s1.root = .null) : s.emplaceNew tr a v = (do
      let t ← State.setParent { s1 with root := .node a } (.node a) .superRoot
      let t ← t.setColor t.root .black
      pure { t with size := 1 }) := by
  change ((s.put a { value := v }).updateEnds tr (.node a) v >>= _) = _
  rw [hends, ok_bind, if_pos hroot]

include hends in
lemma emplaceNew_of_root_ne_null (hroot : s1.root ≠ .null) : s.emplaceNew tr a v = (do
      let t ← s1.attachLoop tr (.node a) v s1.fuel s1.root
      let t ← t.fixInsertionViolationsIfNeeded (.node a)
      pure { t with size := t.size + 1 }) := by
  change ((s.put a { value := v }).updateEnds tr (.node a) v >>= _) = _
  rw [hends, ok_bind, if_neg hroot]

lemma emplaceNew_nil (v : V) (h : Represents s .nil) (hends : EndsCached s []) : ∃ s',
    s.emplaceNew tr a v = .ok s' ∧ Represents s' (.nodeOn .left .black .nil ⟨a, v⟩ .nil) ∧
    s'.size = 1 ∧ s'.superLeft = .node a ∧ s'.superRight = .node a := by
  have hroot : s.root = .null := h.root
  have hleft : s.superLeft = .null := hends.left
  have hright : s.superRight = .null := hends.right
  have hnone : s.nodes a = none := by_contra fun ha => by simpa using h.live a ha
  let s1 : State V := { s.put a { value := v } with superLeft := .node a, superRight := .node a }
  have h0 : Owns s1 s1 _ [.cell a { value := v }, .tree .superRoot .nil] := h.fresh hnone rfl rfl
  have h1 := h0.setRoot (.node a)
  obtain ⟨s2, hset2, h2⟩ := h1.setParent (i := 0) rfl .superRoot
  obtain ⟨s3, hset3, h3⟩ := h2.setColor (i := 0) rfl .black
  have hrun : s.emplaceNew tr a v = .ok { s3 with size := 1 } := by
    rw [emplaceNew_of_root_null (updateEnds_nil _ v hleft hright) hroot]
    change (State.setParent { s1 with root := .node a } _ _ >>= _) = _
    rw [hset2, ok_bind, h2.root_eq, hset3, ok_bind]
    rfl
  have hsub : Holds s3.nodes .superRoot (.nodeOn .left .black .nil ⟨a, v⟩ .nil) :=
    holds_nodeOn.mpr ⟨h3.holds.1, trivial, trivial⟩
  have h4 : Owns s1 s3 _ [.tree .superRoot (.nodeOn .left .black .nil ⟨a, v⟩ .nil)] :=
    h3.regroup ⟨hsub, trivial⟩ fun b => by simp [uses, Piece.addresses]
  obtain ⟨hrep, hsame⟩ := h4.represents rfl
  exact ⟨_, hrun, hrep.congr rfl rfl, rfl, hsame.superLeft, hsame.superRight⟩

lemma exists_ends (hne : t ≠ .nil) :
    ∃ lo hi, t.inorder.head? = some lo ∧ t.inorder.getLast? = some hi ∧ lo ∈ t.inorder ∧ hi ∈ t.inorder := by
  have hnil : t.inorder ≠ [] := by
    cases t with
    | nil => exact absurd rfl hne
    | node c l x r => simp
  exact ⟨_, _, List.head?_eq_some_head hnil, List.getLast?_eq_some_getLast hnil, head_mem hnil, getLast_mem hnil⟩

variable {lo hi : Item V}

lemma Ascending.last_not_below_first (h : Ascending tr items) (hlo : items.head? = some lo)
    (hhi : items.getLast? = some hi) : tr.valueLess hi.value lo.value = false := by
  cases items with
  | nil => simp at hlo
  | cons x ts =>
    obtain rfl : x = lo := by simpa using hlo
    have hmem : hi ∈ x :: ts := mem_of_getLast? hhi
    rcases mem_cons.mp hmem with rfl | hmem
    · exact tr.less_irrefl _
    · exact (pairwise_cons.mp h).1 hi hmem

variable {items' : List (Item V)} {x : Item V} (h : Placed tr items x items' before after)

include h in
lemma Placed.head (hlo : items.head? = some lo) :
    items'.head? = if tr.valueLess lo.value x.value then some lo else some x := by
  cases before with
  | nil =>
    have hmem : lo ∈ after := by
      have := h.old ▸ hlo
      exact mem_of_head? this
    simp [h.new, h.notBelow lo hmem]
  | cons y before =>
    obtain rfl : y = lo := by
      have := h.old ▸ hlo
      simpa using this
    simp [h.new, h.below y (by simp)]

include h in
lemma Placed.last (hhi : items.getLast? = some hi) :
    items'.getLast? = if tr.valueLess hi.value x.value then some x else some hi := by
  by_cases hnil : after = []
  · subst hnil
    have hmem : hi ∈ before := by
      have := h.old ▸ hhi
      rw [append_nil] at this
      exact mem_of_getLast? this
    simp [h.new, h.below hi hmem]
  · have hlast : after.getLast? = some hi := by
      have := h.old ▸ hhi
      rwa [List.getLast?_append_of_ne_nil _ hnil] at this
    have hmem : hi ∈ after := mem_of_getLast? hlast
    obtain ⟨y, ts, rfl⟩ := exists_cons_of_ne_nil hnil
    rw [h.new, List.getLast?_append_of_ne_nil _ (cons_ne_nil _ _), List.getLast?_cons_cons, hlast, h.notBelow hi hmem]
    rfl

lemma emplaceNew_spec (v : V) (h : Shape tr s t) (hends : EndsCached s t.inorder) (hfresh : s.nodes a = none) :
    ∃ s' t' before after, s.emplaceNew tr a v = .ok s' ∧ Shape tr s' t' ∧
      Placed tr t.inorder ⟨a, v⟩ t'.inorder before after ∧ s'.superLeft = itemPtr t'.inorder.head? ∧
      (s'.superRight = itemPtr t'.inorder.getLast? ↔ ∀ y ∈ t.inorder.getLast?,
        ¬ tr.Equivalent (tr.extractKey y.value) (tr.extractKey v)) := by
  by_cases hne : t = .nil
  · subst hne
    obtain ⟨s', hrun, hrep, hsize, hleft, hright⟩ := @emplaceNew_nil _ _ tr s a v h.represents hends
    refine ⟨s', _, [], [], hrun, ⟨hrep, ⟨rfl, 1, ?_⟩, ?_, hsize⟩, ⟨rfl, rfl, by simp, by simp⟩, hleft, ?_⟩
    · exact balanced_black_iff.mpr ⟨0, rfl, .nil, .nil⟩
    · simp [Ascending, CTree.nodeOn]
    · simp [hright, CTree.nodeOn, itemPtr]
  · obtain ⟨lo, hi, hlo, hhi, hlomem, hhimem⟩ := exists_ends hne
    let s0 := s.put a { value := v }
    have hsame (x : Item V) (hx : x ∈ t.inorder) : s0.value (.node x.address) = .ok x.value := by
      rw [← h.represents.value_of_mem hx, State.value, State.value, State.read, State.read, put_of_ne]
      rintro heq
      exact h.represents.mem_addresses.mp (mem_map_of_mem hx) (heq ▸ hfresh)
    have hleft : s0.superLeft = .node lo.address := by
      rw [show s0.superLeft = s.superLeft from rfl, hends.left, hlo]
      rfl
    have hright : s0.superRight = .node hi.address := by
      rw [show s0.superRight = s.superRight from rfl, hends.right, hhi]
      rfl
    obtain ⟨s1, hends1, hs1⟩ : ∃ s1, s0.updateEnds tr (.node a) v = .ok s1 ∧ s1 = { s0 with
        superLeft := if tr.valueLess lo.value v then .node lo.address else .node a
        superRight := if tr.valueLess v hi.value then .node hi.address else .node a } :=
      ⟨_, updateEnds_eq v hleft hright (by simp) (by simp) (hsame lo hlomem) (hsame hi hhimem)
        (h.sorted.last_not_below_first hlo hhi), rfl⟩
    have hnodes : s1.nodes = update s.nodes a (some { value := v }) := by rw [hs1]; rfl
    have hroot : s1.root = s.root := by rw [hs1]; rfl
    have hsize : s1.size = s.size := by rw [hs1]; rfl
    obtain ⟨s2, s3, t', before, after, hattach, hfix, hrep, hrb, hpl, hsame3⟩ :=
      attachLoop_spec h hne hfresh hnodes hroot hsize
    have hrun : s.emplaceNew tr a v = .ok { s3 with size := s3.size + 1 } := by
      have hroot1 : s1.root ≠ .null := by
        rw [hroot, h.represents.root]
        exact mt ptr_eq_null.mp hne
      rw [emplaceNew_of_root_ne_null hends1 hroot1, hattach, ok_bind, hfix, ok_bind]
      rfl
    have hleft3 : s3.superLeft = if tr.valueLess lo.value v then .node lo.address else .node a := by
      rw [hsame3.superLeft, hs1]
    have hright3 : s3.superRight = if tr.valueLess v hi.value then .node hi.address else .node a := by
      rw [hsame3.superRight, hs1]
    have hhia : hi.address ≠ a := fun heq => h.represents.mem_addresses.mp (mem_map_of_mem hhimem) (heq ▸ hfresh)
    refine ⟨_, t', before, after, hrun, ⟨⟨hrep.holds, hrep.root, hrep.nodup, hrep.live⟩, hrb, ?_, ?_⟩, hpl, ?_, ?_⟩
    · rw [hpl.new]
      exact Ascending.split (hpl.old ▸ h.sorted) hpl.below hpl.notBelow
    · change s3.size + 1 = _
      rw [hsame3.size, hsize, h.size, hpl.new, hpl.old]
      simp only [length_append, length_cons]
      omega
    · change s3.superLeft = _
      rw [hleft3, hpl.head hlo]
      split <;> rfl
    · change s3.superRight = _ ↔ _
      rw [hright3, hpl.last hhi, hhi]
      simp only [Option.mem_some_iff, forall_eq']
      by_cases hbelow : tr.valueLess hi.value v = true
      · have habove : tr.valueLess v hi.value = false := tr.less_asymm hbelow
        have hequiv : ¬ tr.Equivalent (tr.extractKey hi.value) (tr.extractKey v) :=
          fun heq => absurd (hbelow.symm.trans heq.1) (by simp)
        simp [hbelow, habove, itemPtr, hequiv]
      · rw [Bool.not_eq_true] at hbelow
        have hequiv : tr.Equivalent (tr.extractKey hi.value) (tr.extractKey v) ↔
            tr.valueLess v hi.value = false := ⟨fun heq => heq.2, fun heq => ⟨hbelow, heq⟩⟩
        rw [hequiv]
        cases tr.valueLess v hi.value <;> simp [hbelow, itemPtr, hhia.symm]

end UltraOS.RedBlackTree
