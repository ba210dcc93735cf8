import UltraOS.Common.RedBlackTree.Remove
import UltraOS.Library.Machine
import Mathlib.Data.List.Induction
import Mathlib.Data.List.Pairwise
import Mathlib.Data.Set.Basic

/-!
# Whole runs

The operations of a tree as a machine, for both kinds of traits. With unique keys every run ends in
a red-black tree that holds what an abstract set holds after the same insertions and deletions. With
duplicates the cached ends stay right exactly as long as no emplaced value is equivalent to the
greatest one present.
-/

namespace UltraOS.RedBlackTree

open ColoredTree State List State

variable {K V : Type}

inductive Op (K V : Type) where
  | emplace (address : Nat) (value : V)
  | removeKey (key : K)
  | remove (address : Nat)

/-- `new` returns memory that no live node occupies, and an iterator refers to a live node. -/
def admits (s : State V) : Op K V → Prop
  | .emplace address _ => (s.nodes address).isNone = true
  | .removeKey _ => True
  | .remove address => (s.nodes address).isSome = true

def step (traits : Traits K V) (s : State V) : Op K V → Run (State V)
  | .emplace address value => do return (← s.emplace traits address value).1
  | .removeKey key => s.removeKey traits key
  | .remove address => s.removeIterator (.node address)

def machine (traits : Traits K V) : Machine (State V) (Op K V) Fault where
  step := step traits
  admits := admits

instance (traits : Traits K V) (s : State V) (o : Op K V) : Decidable ((machine traits).admits s o) := by
  cases o <;> dsimp only [machine, admits] <;> infer_instance

/-! ### Unique keys -/

/-- A set of items under the same operations: an item goes in unless an equivalent one is there. -/
def abstractStep (traits : Traits K V) (items : Set (Item V)) : Op K V → Set (Item V)
  | .emplace address value => {x | x ∈ items ∨ (x = ⟨address, value⟩ ∧ ∀ y ∈ items,
      ¬ traits.Equivalent (traits.extractKey y.value) (traits.extractKey value))}
  | .removeKey key => {x ∈ items | ¬ traits.Equivalent (traits.extractKey x.value) key}
  | .remove address => {x ∈ items | x.address ≠ address}

structure UniqueKeys (traits : Traits K V) (s : State V) (t : CTree (Item V)) (items : Set (Item V)) : Prop where
  shape : Shape traits s t
  strict : StrictlyAscending traits t.inorder
  ends : EndsCached s t.inorder
  contents : ∀ x, x ∈ t.inorder ↔ x ∈ items

variable {tr : Traits K V} {s : State V} {t : CTree (Item V)} {items : Set (Item V)} {k : K}

lemma Traits.not_less_of_equivalent {l m : K} (hk : tr.Equivalent k m) (hl : tr.Equivalent l m)
    : tr.less k l = false := by
  by_contra hlt
  rcases tr.less_split k m l (by simpa using hlt) with h | h
  · exact absurd (h.symm.trans hk.1) (by simp)
  · exact absurd (h.symm.trans hl.2) (by simp)

variable {x : Item V}

lemma StrictlyAscending.comparable {l : List (Item V)} {y : Item V} (h : StrictlyAscending tr l) (hx : x ∈ l)
    (hy : y ∈ l) (hne : x ≠ y) : tr.valueLess x.value y.value = true ∨ tr.valueLess y.value x.value = true := by
  have hsymm : Std.Symm fun x y : Item V =>
      tr.valueLess x.value y.value = true ∨ tr.valueLess y.value x.value = true :=
    ⟨fun _ _ => Or.symm⟩
  exact (h.imp .inl : l.Pairwise fun x y => tr.valueLess x.value y.value = true ∨
    tr.valueLess y.value x.value = true).forall hx hy hne

variable {a : Nat} {v : V}

/-- An item that is put where nothing is equivalent to it keeps the order strict. -/
lemma Placed.strictlyAscending {l l' before after : List (Item V)} (hpl : Placed tr l x l' before after)
    (hstrict : StrictlyAscending tr l)
    (hnone : ∀ y ∈ l, ¬ tr.Equivalent (tr.extractKey y.value) (tr.extractKey x.value)) : StrictlyAscending tr l' := by
  rw [hpl.old, StrictlyAscending, pairwise_append] at hstrict
  rw [hpl.new, StrictlyAscending, pairwise_append, pairwise_cons]
  refine ⟨hstrict.1, ⟨fun y hy => ?_, hstrict.2.1⟩, fun y hy z hz => ?_⟩
  · by_contra hnot
    refine hnone y (by simp [hpl.old, hy]) ⟨hpl.notBelow y hy, ?_⟩
    simpa [Traits.valueLess] using hnot
  · rcases mem_cons.mp hz with rfl | hz
    · exact hpl.below y hy
    · exact hstrict.2.2 y hy z hz

lemma emplace_unique (huniq : tr.allowDuplicates = false) (h : UniqueKeys tr s t items)
    (hfresh : s.nodes a = none) : ∃ s' t', step tr s (.emplace a v : Op K V) = .ok s' ∧
    UniqueKeys tr s' t' (abstractStep tr items (.emplace a v)) := by
  obtain ⟨p, hfind, hfound⟩ := findNode_spec (tr.extractKey v) h.shape.represents h.shape.sorted h.shape.size
  rcases hfound with ⟨rfl, hnone⟩ | ⟨y, hy, rfl, heq⟩
  · obtain ⟨s', t', before, after, hrun, hshape, hpl, hleft, hright⟩ := emplaceNew_spec v h.shape h.ends hfresh
    have hlast : ∀ y ∈ t.inorder.getLast?, ¬ tr.Equivalent (tr.extractKey y.value) (tr.extractKey v) :=
      fun y hy => hnone y (mem_of_getLast? hy)
    refine ⟨s', t', ?_, hshape, hpl.strictlyAscending h.strict hnone, ⟨hleft, hright.mpr hlast⟩, fun x => ?_⟩
    · simp [step, emplace, huniq, hfind, hrun]
    · have hitems : ∀ y ∈ items, ¬ tr.Equivalent (tr.extractKey y.value) (tr.extractKey v) :=
        fun y hy => hnone y ((h.contents y).mpr hy)
      rw [hpl.new, abstractStep, Set.mem_ofPred_eq, ← h.contents, hpl.old]
      simp only [mem_append, mem_cons]
      tauto
  · refine ⟨s, t, ?_, h.shape, h.strict, h.ends, fun x => ?_⟩
    · simp [step, emplace, huniq, hfind]
    · rw [abstractStep, Set.mem_ofPred_eq, h.contents]
      refine ⟨.inl, fun hx => hx.elim id fun hx => absurd heq (hx.2 y ((h.contents y).mp hy))⟩

lemma remove_unique (h : UniqueKeys tr s t items) (hlive : s.nodes a ≠ none) :
    ∃ s' t', s.removeIterator (.node a) = .ok s' ∧ UniqueKeys tr s' t' {x ∈ items | x.address ≠ a} := by
  obtain ⟨x, hx, rfl⟩ := mem_map.mp (h.shape.represents.mem_addresses.mpr hlive)
  obtain ⟨before, after, hsplit⟩ := append_of_mem hx
  obtain ⟨s', t', hrun, hshape, hends, horder⟩ := removeIterator_spec h.shape h.ends hsplit
  refine ⟨s', t', hrun, hshape, ?_, hends, fun y => ?_⟩
  · have hstrict := hsplit ▸ h.strict
    rw [horder]
    exact List.Pairwise.sublist ((sublist_cons_self x after).append_left before) hstrict
  · have hnodup : ((before ++ x :: after).map Item.address).Nodup := hsplit ▸ h.shape.represents.nodup
    have hinj : y ∈ t.inorder → (y.address = x.address ↔ y = x) := fun hy =>
      ⟨inj_on_of_nodup_map h.shape.represents.nodup hy hx, fun heq => heq ▸ rfl⟩
    have hnot : x ∉ before ++ after := by
      have := hnodup.of_map _
      rw [nodup_middle, nodup_cons] at this
      exact this.1
    rw [horder, Set.mem_ofPred_eq, ← h.contents]
    constructor
    · intro hy
      have hmem : y ∈ t.inorder := by
        rw [hsplit]
        exact ((sublist_cons_self x after).append_left before).mem hy
      refine ⟨hmem, fun heq => hnot ?_⟩
      rwa [← (hinj hmem).mp heq]
    · rintro ⟨hmem, hne⟩
      have hyx : y ≠ x := fun heq => hne (heq ▸ rfl)
      rw [hsplit] at hmem
      simpa [hyx] using hmem

lemma removeKey_unique (h : UniqueKeys tr s t items) :
    ∃ s' t', s.removeKey tr k = .ok s' ∧ UniqueKeys tr s' t' (abstractStep tr items (.removeKey k)) := by
  obtain ⟨p, hfind, hfound⟩ := findNode_spec k h.shape.represents h.shape.sorted h.shape.size
  rcases hfound with ⟨rfl, hnone⟩ | ⟨x, hx, rfl, heq⟩
  · refine ⟨s, t, ?_, h.shape, h.strict, h.ends, fun y => ?_⟩
    · simp [removeKey, hfind]
    · rw [abstractStep, Set.mem_ofPred_eq, ← h.contents]
      exact ⟨fun hy => ⟨hy, hnone y hy⟩, fun hy => hy.1⟩
  · have hlive := h.shape.represents.mem_addresses.mp (mem_map_of_mem hx)
    obtain ⟨s', t', hrun, hkeys⟩ := remove_unique h hlive
    refine ⟨s', t', ?_, hkeys.shape, hkeys.strict, hkeys.ends, fun y => ?_⟩
    · simp [removeKey, hfind, hrun]
    · rw [hkeys.contents, abstractStep, Set.mem_ofPred_eq, Set.mem_ofPred_eq]
      refine and_congr_right fun hy => not_congr ?_
      have hymem := (h.contents y).mpr hy
      constructor
      · intro ha
        rwa [inj_on_of_nodup_map h.shape.represents.nodup hymem hx ha]
      · intro hequiv
        -- two equivalent keys cannot both be in a strictly ascending sequence
        by_contra hne
        have hyx : y ≠ x := fun heq => hne (heq ▸ rfl)
        rcases h.strict.comparable hymem hx hyx with hlt | hlt
        · exact absurd (hlt.symm.trans (tr.not_less_of_equivalent hequiv heq)) (by simp)
        · exact absurd (hlt.symm.trans (tr.not_less_of_equivalent heq hequiv)) (by simp)

variable {o : Op K V}

lemma step_unique (huniq : tr.allowDuplicates = false) (h : ∃ t, UniqueKeys tr s t items)
    (hadm : (machine tr).admits s o) :
    ∃ s', (machine tr).step s o = .ok s' ∧ ∃ t, UniqueKeys tr s' t (abstractStep tr items o) := by
  obtain ⟨t, h⟩ := h
  cases o with
  | emplace a v =>
    obtain ⟨s', t', hrun, hkeys⟩ := emplace_unique huniq h (Option.isNone_iff_eq_none.mp hadm)
    exact ⟨s', hrun, t', hkeys⟩
  | removeKey k =>
    obtain ⟨s', t', hrun, hkeys⟩ := removeKey_unique h
    exact ⟨s', hrun, t', hkeys⟩
  | remove a =>
    have hlive : s.nodes a ≠ none := Option.isSome_iff_ne_none.mp hadm
    obtain ⟨s', t', hrun, hkeys⟩ := remove_unique h hlive
    exact ⟨s', hrun, t', hkeys⟩

lemma represents_empty : Represents (empty V) .nil := ⟨trivial, rfl, by simp, fun _ h => absurd rfl h⟩

lemma shape_empty (tr : Traits K V) : Shape tr (empty V) .nil :=
  ⟨represents_empty, ⟨rfl, 0, .nil⟩, by simp [Ascending], rfl⟩

lemma exists_uniqueKeys_run {ops : List (Op K V)} (huniq : tr.allowDuplicates = false)
    (hops : (machine tr).Admissible (empty V) ops) : ∃ s t, (machine tr).run (empty V) ops = .ok s ∧
    UniqueKeys tr s t (ops.foldl (abstractStep tr) ∅) := by
  have hinit : ∃ t, UniqueKeys tr (empty V) t ∅ :=
    ⟨.nil, shape_empty tr, by simp [StrictlyAscending], ⟨rfl, rfl⟩, by simp⟩
  obtain ⟨s, hrun, t, h⟩ := Machine.run_simulates (R := fun s items => ∃ t, UniqueKeys tr s t items)
    (fun _ _ _ => step_unique huniq) hinit hops
  exact ⟨s, t, hrun, h⟩

/-- Every run of a tree with unique keys succeeds and ends in a sorted red-black tree that holds exactly the
items of the abstract set. -/
theorem uniqueKeys_run (traits : Traits K V) (hunique : traits.allowDuplicates = false)
    (ops : List (Op K V)) (hops : (machine traits).Admissible (empty V) ops) : ∃ s t,
    (machine traits).run (empty V) ops = .ok s ∧ Represents s t ∧ StrictlyAscending traits t.inorder ∧
    RedBlack t ∧ s.size = t.inorder.length ∧ s.superLeft = itemPtr t.inorder.head? ∧ s.superRight =
    itemPtr t.inorder.getLast? ∧ ∀ x, x ∈ t.inorder ↔ x ∈ ops.foldl (abstractStep traits) ∅ := by
  obtain ⟨s, t, hrun, h⟩ := exists_uniqueKeys_run hunique hops
  exact ⟨s, t, hrun, h.shape.represents, h.strict, h.shape.redBlack, h.shape.size, h.ends.left,
    h.ends.right, h.contents⟩

/-- The traits of values that are ordered by a number. -/
def byNumber {V : Type} (number : V → Nat) (allowDuplicates : Bool) : Traits Nat V where
  less l r := decide (l < r)
  extractKey v := number v
  allowDuplicates := allowDuplicates
  less_irrefl := by simp
  less_trans := by simp; omega
  less_split := by simp; omega

def natSet : Traits Nat Nat := byNumber id false

theorem uniqueKeys_run_natSet : ∃ s t, (machine natSet).run (empty Nat)
    [.emplace 0 5, .emplace 1 3, .emplace 2 8, .emplace 3 5, .removeKey 3, .remove 0] = .ok s ∧ Represents s t ∧
    StrictlyAscending natSet t.inorder ∧ RedBlack t ∧ s.size = t.inorder.length ∧ s.superLeft =
    itemPtr t.inorder.head? ∧ s.superRight = itemPtr t.inorder.getLast? ∧ ∀ x, x ∈ t.inorder ↔ x ∈
    [.emplace 0 5, .emplace 1 3, .emplace 2 8, .emplace 3 5, .removeKey 3, .remove 0].foldl (abstractStep natSet) ∅ :=
  uniqueKeys_run natSet rfl _ (by decide)

/-- Wherever a run of a tree with unique keys gets to, a search makes at most twice as many steps as the binary
logarithm of the size, and finds what is there. -/
theorem findLoop_run (traits : Traits K V) (hunique : traits.allowDuplicates = false) (ops : List (Op K V))
    (hops : (machine traits).Admissible (empty V) ops) : ∃ s t, (machine traits).run (empty V) ops = .ok s ∧
    Represents s t ∧ ∀ key, ∃ p, s.findLoop traits key (2 * Nat.log2 (s.size + 1) + 1) s.root = .ok p ∧
    Found traits key t.inorder p := by
  obtain ⟨s, t, hrun, h⟩ := exists_uniqueKeys_run hunique hops
  refine ⟨s, t, hrun, h.shape.represents, fun key => ?_⟩
  rw [h.shape.represents.root, h.shape.size, findLoop_congr (m := t.height + t.inorder.length) key
    h.shape.represents.holds h.shape.redBlack.height_le (by omega)]
  exact findLoop_spec key h.shape.represents.holds h.shape.sorted (by omega)

theorem findLoop_run_natSet : ∃ s t, (machine natSet).run (empty Nat) [.emplace 0 5, .emplace 1 3, .remove 0] = .ok s ∧
    Represents s t ∧ ∀ key, ∃ p, s.findLoop natSet key (2 * Nat.log2 (s.size + 1) + 1) s.root = .ok p ∧
    Found natSet key t.inorder p :=
  findLoop_run natSet rfl _ (by decide)

/-! ### Duplicates -/

def visitBackwards (s : State V) : Nat → NodePtr → Run (List NodePtr)
  | 0, _ => .ok []
  | count + 1, node => do
    let previous ← s.decrement node
    let rest ← visitBackwards s count previous
    pure (previous :: rest)

/-- The cached ends are the first and the last live node, and going backwards from `end()` meets
every node, the last first. -/
def EndsRight (s : State V) : Prop :=
  ∃ t, Represents s t ∧ EndsCached s t.inorder ∧
    visitBackwards s s.size .superRoot = .ok (t.inorder.reverse.map fun x => .node x.address)

lemma Represents.isNull_of_mem (h : Represents s t) (hmem : x ∈ t.inorder) : s.isNull (.node x.address) = .ok false := by
  obtain ⟨ctx, c, l, r, rfl⟩ := Context.exists_plug_of_mem hmem
  exact @Represents.isNull _ s ctx .left c l r x h

lemma decrement_superRoot (hright : s.superRight = .node a) : s.decrement .superRoot = .ok (.node a) := by
  have hnull : (NodePtr.superRoot != .null) = true := rfl
  simp [decrement, hnull, isNull_superRoot, right, child, hright]

lemma increment_spec {before after : List (Item V)} (h : Shape tr s t) (hsplit : t.inorder = before ++ x :: after) :
    s.increment (.node x.address) = .ok (neighborPtr after.head?) := by
  have hlen : t.inorder.length ≤ s.fuel := by
    rw [fuel, h.size]
    omega
  have hnull := h.represents.isNull_of_mem (x := x) (by simp [hsplit])
  simp [increment, hnull, inorderSuccessorOf_spec h.represents hlen hsplit]

/-- Going back from the item behind one, or from `end()`, leads to it. -/
lemma decrement_spec {before after : List (Item V)} (h : Shape tr s t) (hends : EndsCached s t.inorder)
    (hsplit : t.inorder = before ++ x :: after) : s.decrement (neighborPtr after.head?) = .ok (.node x.address) := by
  have hlen : t.inorder.length ≤ s.fuel := by
    rw [fuel, h.size]
    omega
  cases after with
  | nil => exact decrement_superRoot (by simp [hends.right, hsplit, itemPtr])
  | cons y after =>
    have hsplit' : t.inorder = before ++ [x] ++ y :: after := by simp [hsplit]
    have hnull := h.represents.isNull_of_mem (x := y) (by simp [hsplit])
    simp [neighborPtr, decrement, hnull, inorderPredecessorOf_spec h.represents hlen hsplit']

lemma visitBackwards_spec {before after : List (Item V)} (h : Shape tr s t) (hends : EndsCached s t.inorder)
    (hsplit : t.inorder = before ++ after) : visitBackwards s before.length (neighborPtr after.head?) =
    .ok (before.reverse.map fun x => .node x.address) := by
  induction before using List.reverseRecOn generalizing after with
  | nil => rfl
  | append_singleton before y ih =>
    rw [append_assoc, singleton_append] at hsplit
    have hrest : visitBackwards s before.length (.node y.address) = _ := ih hsplit
    simp [visitBackwards, decrement_spec h hends hsplit, hrest]

lemma endsRight_of_shape (h : Shape tr s t) (hends : EndsCached s t.inorder) : EndsRight s :=
  ⟨t, h.represents, hends, h.size ▸ visitBackwards_spec h hends (append_nil _).symm⟩

/-- The value of an `emplace` is equivalent to no greatest value of the tree. -/
def NotGreatest (traits : Traits K V) (s : State V) : Op K V → Prop
  | .emplace _ value => ∀ a n, s.nodes a = some n →
      (∀ b m, s.nodes b = some m → traits.valueLess n.value m.value = false) →
      ¬ traits.Equivalent (traits.extractKey n.value) (traits.extractKey value)
  | _ => True

lemma Represents.exists_item {n : ValueNode V} (h : Represents s t) (hlive : s.nodes a = some n)
    : ⟨a, n.value⟩ ∈ t.inorder := by
  have hmem := h.mem_addresses.mpr (hlive ▸ Option.some_ne_none n : s.nodes a ≠ none)
  obtain ⟨x, hx, rfl⟩ := mem_map.mp hmem
  have hv := h.value_of_mem hx
  rw [value_eq hlive] at hv
  rwa [show n.value = x.value from Except.ok.inj hv]

lemma Represents.exists_cell (h : Represents s t) (hmem : x ∈ t.inorder) :
    ∃ n, s.nodes x.address = some n ∧ n.value = x.value := by
  obtain ⟨ctx, c, l, r, rfl⟩ := Context.exists_plug_of_mem hmem
  exact ⟨_, @Represents.cell _ s ctx .left c l r x h, rfl⟩

lemma notGreatest_iff (h : Shape tr s t) : NotGreatest tr s (.emplace a v : Op K V) ↔
    ∀ y ∈ t.inorder.getLast?, ¬ tr.Equivalent (tr.extractKey y.value) (tr.extractKey v) := by
  have hmax : ∀ y ∈ t.inorder.getLast?, ∀ x ∈ t.inorder, tr.valueLess y.value x.value = false := by
    intro y hy x hx
    obtain ⟨before, hsplit⟩ := List.getLast?_eq_some_iff.mp hy
    have hsort := hsplit ▸ h.sorted
    rw [Ascending, pairwise_append] at hsort
    rw [hsplit, mem_append, mem_singleton] at hx
    rcases hx with hx | rfl
    · exact hsort.2.2 x hx y (by simp)
    · exact tr.less_irrefl _
  constructor
  · intro hnot y hy
    obtain ⟨n, hn, hv⟩ := h.represents.exists_cell (mem_of_getLast? hy)
    have := hnot y.address n hn fun b m hm => hv ▸ hmax y hy _ (h.represents.exists_item hm)
    rwa [hv] at this
  · intro hnot b n hn hgreatest hequiv
    have hmem := h.represents.exists_item hn
    have hne : t.inorder ≠ [] := ne_nil_of_mem hmem
    have hy := List.getLast?_eq_some_getLast hne
    obtain ⟨m, hm, hv⟩ := h.represents.exists_cell (getLast_mem hne)
    have hbelow : tr.valueLess n.value (t.inorder.getLast hne).value = false := hv ▸ hgreatest _ m hm
    have habove := hmax _ hy _ hmem
    refine hnot _ hy ⟨?_, ?_⟩
    · exact tr.not_less_of_equivalent ⟨habove, hbelow⟩ ⟨hequiv.2, hequiv.1⟩
    · exact tr.not_less_of_equivalent ⟨hequiv.2, hequiv.1⟩ ⟨habove, hbelow⟩

lemma step_duplicates (hduplicates : tr.allowDuplicates = true) (h : ∃ t, Shape tr s t ∧ EndsCached s t.inorder)
    (hadm : (machine tr).admits s o) : ∃ s', (machine tr).step s o = .ok s' ∧ (NotGreatest tr s o → ∃ t, Shape tr s' t ∧
    EndsCached s' t.inorder) ∧ (¬ NotGreatest tr s o → ¬ EndsRight s') := by
  obtain ⟨t, hshape, hends⟩ := h
  have hremove : ∀ a, s.nodes a ≠ none → ∃ s', s.removeIterator (.node a) = .ok s' ∧
      ∃ t, Shape tr s' t ∧ EndsCached s' t.inorder := by
    intro a hlive
    obtain ⟨x, hx, rfl⟩ := mem_map.mp (hshape.represents.mem_addresses.mpr hlive)
    obtain ⟨before, after, hsplit⟩ := append_of_mem hx
    obtain ⟨s', t', hrun, hshape', hends', -⟩ := removeIterator_spec hshape hends hsplit
    exact ⟨s', hrun, t', hshape', hends'⟩
  cases o with
  | emplace a v =>
    obtain ⟨s', t', before, after, hrun, hshape', -, hleft, hright⟩ :=
      emplaceNew_spec v hshape hends (Option.isNone_iff_eq_none.mp hadm)
    rw [← notGreatest_iff (a := a) hshape] at hright
    refine ⟨s', ?_, fun hnot => ⟨t', hshape', hleft, hright.mpr hnot⟩, fun hgreatest hgood => ?_⟩
    · simp [machine, step, emplace, hduplicates, hrun]
    · obtain ⟨u, hrep, hcached, -⟩ := hgood
      obtain rfl := hrep.unique hshape'.represents
      exact hgreatest (hright.mp hcached.right)
  | removeKey k =>
    obtain ⟨p, hfind, hfound⟩ := findNode_spec k hshape.represents hshape.sorted hshape.size
    rcases hfound with ⟨rfl, -⟩ | ⟨x, hx, rfl, -⟩
    · refine ⟨s, ?_, fun _ => ⟨t, hshape, hends⟩, fun hnot => absurd trivial hnot⟩
      simp [machine, step, removeKey, hfind]
    · obtain ⟨s', hrun, hgood⟩ := hremove x.address (hshape.represents.mem_addresses.mp (mem_map_of_mem hx))
      refine ⟨s', ?_, fun _ => hgood, fun hnot => absurd trivial hnot⟩
      simp [machine, step, removeKey, hfind, hrun]
  | remove a =>
    obtain ⟨s', hrun, hgood⟩ := hremove a (Option.isSome_iff_ne_none.mp hadm)
    exact ⟨s', hrun, fun _ => hgood, fun hnot => absurd trivial hnot⟩

/-- With duplicates, no step fails and the cached ends stay right exactly when no `emplace` inserts a value
equivalent to the greatest one present. -/
theorem endsRight_iff_notGreatest (traits : Traits K V) (hduplicates : traits.allowDuplicates = true)
    (ops : List (Op K V)) (hops : (machine traits).Admissible (empty V) ops) :
    (machine traits).EveryState EndsRight (empty V) ops ↔
    (machine traits).EveryStep (NotGreatest traits) (empty V) ops := by
  have hinit : ∃ t, Shape traits (empty V) t ∧ EndsCached (empty V) t.inorder := ⟨.nil, shape_empty traits, ⟨rfl, rfl⟩⟩
  refine Machine.everyState_iff_everyStep (I := fun s => ∃ t, Shape traits s t ∧ EndsCached s t.inorder)
    (fun _ h => endsRight_of_shape h.choose_spec.1 h.choose_spec.2) ?_ ?_ hinit hops
  · intro s o h hadm hnot
    obtain ⟨s', hok, hgood, -⟩ := step_duplicates hduplicates h hadm
    exact ⟨s', hok, hgood hnot⟩
  · intro s o s' h hadm hgreatest hok
    obtain ⟨s'', hok', -, hbad⟩ := step_duplicates hduplicates h hadm
    rw [Except.ok.inj (hok.symm.trans hok')]
    exact hbad hgreatest

def natMultiSet : Traits Nat Nat := byNumber id true

theorem endsRight_iff_notGreatest_natMultiSet : (machine natMultiSet).EveryState EndsRight (empty Nat)
    [.emplace 0 5, .emplace 1 3, .emplace 2 3, .remove 1] ↔ (machine natMultiSet).EveryStep (NotGreatest natMultiSet)
    (empty Nat) [.emplace 0 5, .emplace 1 3, .emplace 2 3, .remove 1] :=
  endsRight_iff_notGreatest natMultiSet rfl _ (by decide)

/-- Two sleepers with the same wake-up time: once the second is removed, the cached right end is a
node that has been deleted. -/
theorem endsRight_fails_on_equal_greatest :
    (machine natMultiSet).Admissible (empty Nat) [.emplace 0 1, .emplace 1 1, .remove 1] ∧
      ((machine natMultiSet).run (empty Nat) [.emplace 0 1, .emplace 1 1, .remove 1]).map
        (fun s => (s.superRight, (s.nodes 1).isSome)) = .ok (.node 1, false) ∧
      ¬ (machine natMultiSet).EveryState EndsRight (empty Nat) [.emplace 0 1, .emplace 1 1, .remove 1] := by
  have hrun : ((machine natMultiSet).run (empty Nat)
      [.emplace 0 1, .emplace 1 1, .remove 1]).map (fun s => (s.superRight, (s.nodes 1).isSome)) =
      .ok (.node 1, false) := rfl
  refine ⟨by decide, hrun, fun h => ?_⟩
  obtain ⟨s, hok, t, hrep, hcached, -⟩ := h.last
  rw [hok] at hrun
  obtain ⟨hright, hdead⟩ := Prod.mk.inj (Except.ok.inj hrun)
  rw [hcached.right] at hright
  cases hlast : t.inorder.getLast? with
  | none => simp [hlast, itemPtr] at hright
  | some x =>
    have ha : x.address = 1 := by simpa [hlast, itemPtr] using hright
    have hlive := hrep.mem_addresses.mp (mem_map_of_mem (mem_of_getLast? hlast))
    rw [ha] at hlive
    exact hlive (by simpa using hdead)

end UltraOS.RedBlackTree
