import Mathlib.Logic.Function.Basic
import UltraOS.Library.Machine

/-!
# Address spaces

`Kernel/Memory/AddressSpace.cpp` and `GenericPagingEntry.h` for 64 bits. Physical pages are numbered, and every
page is an array of entries, whatever it holds. Unmapping only clears the present bit of the last entry, and
the lookup does not read that bit.
-/

namespace UltraOS

open List Function

/-- `GenericPagingEntry`, without the bits that nothing reads. -/
structure PagingEntry where
  mAttributes : BitVec 12 := 0
  mPhysicalAddress : Nat := 0

namespace PagingEntry

def isPresent (e : PagingEntry) : Bool := e.mAttributes.getLsbD 0

def clearPresent (e : PagingEntry) : PagingEntry := { e with mAttributes := e.mAttributes &&& 0xFFE }

/-- `make_supervisor_present` and `make_user_present`. -/
def makePresent (e : PagingEntry) (isSupervisor : Bool) : PagingEntry :=
  { e with mAttributes := if isSupervisor then 3 else 7 }

/-- The field has 40 bits. -/
def setPhysicalAddress (e : PagingEntry) (address : Nat) : PagingEntry :=
  { e with mPhysicalAddress := address / 4096 % 1099511627776 }

def physicalAddress (e : PagingEntry) : Nat := e.mPhysicalAddress * 4096

lemma isPresent_makePresent (e : PagingEntry) (isSupervisor : Bool) :
    (e.makePresent isSupervisor).isPresent = true := by
  cases isSupervisor <;> simp [makePresent, isPresent]

end PagingEntry

/-- An address space, the physical memory, and the pages that were written to. -/
structure AddressSpace where
  mMainPage : Nat
  mPhysicalPages : List Nat := []
  memory : Nat → Nat → PagingEntry := fun _ _ => {}
  written : List Nat := []

namespace AddressSpace

def indices (address : Nat) : Nat × Nat × Nat × Nat :=
  (address / 549755813888 % 512, address / 1073741824 % 512, address / 2097152 % 512, address / 4096 % 512)

def write (a : AddressSpace) (page index : Nat) (e : PagingEntry) : AddressSpace :=
  { a with
    memory := update a.memory page (update (a.memory page) index e)
    written := page :: a.written }

/-- The page that `pdpt_at`, `pdt_at` and `pt_at` lead to, present or not. The indices are listed from the
last table to the first. -/
def pageAt (a : AddressSpace) : List Nat → Nat
  | [] => a.mMainPage
  | index :: path => (a.memory (a.pageAt path) index).mPhysicalAddress

variable (supply : Nat → Nat)

/-- One of the tables on the way is allocated if it is not there. -/
def ensure (a : AddressSpace) (isSupervisor : Bool) (index : Nat) (path : List Nat) : AddressSpace :=
  let entry := a.memory (a.pageAt path) index
  if entry.isPresent then a
  else
    let page := supply a.mPhysicalPages.length
    { a with mPhysicalPages := a.mPhysicalPages ++ [page] }.write (a.pageAt path) index
      ((entry.setPhysicalAddress (page * 4096)).makePresent isSupervisor)

/-- `map_page`, where `supply` is what the calls of `allocate_page` return. -/
def mapPage (a : AddressSpace) (virtual physical : Nat) (isSupervisor : Bool) : AddressSpace :=
  let (first, second, third, fourth) := indices virtual
  let a := a.ensure supply isSupervisor first []
  let a := a.ensure supply isSupervisor second [first]
  let a := a.ensure supply isSupervisor third [second, first]
  let table := a.pageAt [third, second, first]
  a.write table fourth (((a.memory table fourth).setPhysicalAddress physical).makePresent isSupervisor)

def localUnmapPage (a : AddressSpace) (virtual : Nat) : AddressSpace :=
  let (first, second, third, fourth) := indices virtual
  let table := a.pageAt [third, second, first]
  a.write table fourth (a.memory table fourth).clearPresent

def tablePath (virtual : Nat) : List Nat := [(indices virtual).2.2.1, (indices virtual).2.1, (indices virtual).1]

def reaches (a : AddressSpace) : List Nat → Bool
  | [] => true
  | index :: path => a.reaches path && (a.memory (a.pageAt path) index).isPresent

def physicalAddressOf (a : AddressSpace) (virtual : Nat) : Nat :=
  let (first, second, third, fourth) := indices virtual
  if a.reaches [third, second, first] then (a.memory (a.pageAt [third, second, first]) fourth).physicalAddress
  else 0

inductive Call where
  | mapPage (virtual physical : Nat) (isSupervisor : Bool)
  | localUnmapPage (virtual : Nat)

/-- An address space and the translation that it should have, with null for a page that is not mapped. -/
structure Mapping where
  space : AddressSpace
  translation : Nat → Nat := fun _ => 0

def Mapping.step (m : Mapping) : Call → Mapping
  | .mapPage virtual physical isSupervisor => {
      space := m.space.mapPage supply virtual physical isSupervisor
      translation := update m.translation virtual physical }
  | .localUnmapPage virtual => {
      space := m.space.localUnmapPage virtual
      translation := update m.translation virtual 0 }

def Canonical (address : Nat) : Prop :=
  address % 4096 = 0 ∧ (address < 140737488355328 ∨ 18446603336221196288 ≤ address ∧ address < 18446744073709551616)

def Call.Aligned : Call → Prop
  | .mapPage virtual physical _ => Canonical virtual ∧ physical % 4096 = 0 ∧ physical < 4503599627370496
  | .localUnmapPage virtual => Canonical virtual

/-- The pages that a call may be given have addresses of 52 bits. -/
def mappings : Machine Mapping Call Empty where
  step m call := .ok (m.step supply call)
  admits m call := call.Aligned ∧ ∀ n < m.space.mPhysicalPages.length + 3, supply n < 1099511627776

instance (m : Mapping) (call : Call) : Decidable ((mappings supply).admits m call) := by
  cases call <;> dsimp only [mappings, Call.Aligned, Canonical] <;> infer_instance

def own (a : AddressSpace) : List Nat := a.mMainPage :: a.mPhysicalPages

/-- Every address is translated as it should, and only paging structures of the address space were written
to. -/
structure Mapping.Faithful (m : Mapping) : Prop where
  translation : ∀ virtual, Canonical virtual → m.space.physicalAddressOf virtual = m.translation virtual
  written : ∀ page ∈ m.space.written, page ∈ m.space.own

/-- Only pages that are not mapped are unmapped, and only where their tables exist. -/
def Mapping.UnmapsNothing (m : Mapping) : Call → Prop
  | .localUnmapPage virtual => m.translation virtual = 0 ∧ m.space.reaches (tablePath virtual) = true
  | _ => True

instance (m : Mapping) (call : Call) : Decidable (m.UnmapsNothing call) := by
  cases call <;> dsimp only [Mapping.UnmapsNothing] <;> infer_instance

section

variable {supply : Nat → Nat} {a a' : AddressSpace} {path q : List Nat} {index table : Nat} {e : PagingEntry}

def walk (a : AddressSpace) : List Nat → Option Nat
  | [] => some a.mMainPage
  | index :: path => (a.walk path).bind fun table =>
    if (a.memory table index).isPresent then some (a.memory table index).mPhysicalAddress else none

lemma walk_eq (a : AddressSpace) (path : List Nat) :
    a.walk path = if a.reaches path then some (a.pageAt path) else none := by
  induction path with
  | nil => rfl
  | cons index path ih =>
    rw [walk, ih, reaches]
    cases a.reaches path with
    | false | true => rfl

lemma pageAt_of_walk (h : a.walk path = some table) : a.pageAt path = table := by
  rw [walk_eq] at h
  exact Option.some.inj (Option.ite_none_right_eq_some.mp h).2

/-- The address in an entry of a last table, null if the table is missing. -/
def leaf (a : AddressSpace) (path : List Nat) (index : Nat) : Nat :=
  ((a.walk path).map fun table => (a.memory table index).mPhysicalAddress).getD 0

lemma memory_write_of_ne {u i : Nat} (e : PagingEntry) (h : ¬(u = table ∧ i = index)) :
    (a.write table index e).memory u i = a.memory u i := by
  by_cases hu : u = table
  · subst hu
    have hi : i ≠ index := fun hi => h ⟨rfl, hi⟩
    simp [write, hi]
  · simp [write, hu]

lemma memory_write_self (table : Nat) (e : PagingEntry) : (a.write table index e).memory table index = e := by
  simp [write]

/-- The tables are pages of their own, one for each path, and the pages to come are zeroed. -/
structure Sound (supply : Nat → Nat) (a : AddressSpace) : Prop where
  own : ∀ path table, path.length ≤ 3 → a.walk path = some table → table ∈ a.own
  injective : ∀ path q table, path.length ≤ 3 → q.length ≤ 3 → a.walk path = some table →
    a.walk q = some table → path = q
  written : ∀ table ∈ a.written, table ∈ a.own
  fresh : ∀ n, a.mPhysicalPages.length ≤ n → supply n ∉ a.own ∧ ∀ index, a.memory (supply n) index = {}

variable (h : a.Sound supply) (hpath : a.walk path = some table)

section

include h hpath

lemma Sound.walk_write (hlen : path.length ≤ 3)
    (hq : q.length ≤ 3) (hnot : ¬index :: path <:+ q) : (a.write table index e).walk q = a.walk q := by
  induction q with
  | nil => rfl
  | cons i q ih =>
    rw [length_cons] at hq
    rw [suffix_cons_iff, not_or] at hnot
    rw [walk, walk, ih (by omega) hnot.2]
    cases hu : a.walk q with
    | none => rfl
    | some u =>
      rw [Option.bind_some, Option.bind_some, memory_write_of_ne e]
      rintro ⟨rfl, rfl⟩
      exact hnot.1 (by rw [h.injective _ _ _ (by omega) hlen hu hpath])

lemma Sound.write (hlen : path.length = 3) (index : Nat) (e : PagingEntry) :
    (a.write table index e).Sound supply ∧ ∀ q i, q.length = 3 → (a.write table index e).leaf q i =
      if q = path ∧ i = index then e.mPhysicalAddress else a.leaf q i := by
  have hwalk (q : List Nat) (hq : q.length ≤ 3) : (a.write table index e).walk q = a.walk q := by
    refine h.walk_write hpath (by omega) hq fun hsuffix => ?_
    have hle := hsuffix.length_le
    rw [length_cons] at hle
    omega
  refine ⟨⟨fun q u hq hu => h.own q u hq (hwalk q hq ▸ hu),
    fun q r u hq hr hu hother' => h.injective q r u hq hr (hwalk q hq ▸ hu) (hwalk r hr ▸ hother'),
    fun u hu => ?_, fun n hn => ⟨(h.fresh n hn).1, fun i => ?_⟩⟩, fun q i hq => ?_⟩
  · rcases mem_cons.mp hu with rfl | hu
    · exact h.own path _ (by omega) hpath
    · exact h.written u hu
  · refine (memory_write_of_ne e ?_).trans ((h.fresh n hn).2 i)
    rintro ⟨rfl, -⟩
    exact (h.fresh n hn).1 (h.own path _ (by omega) hpath)
  · rw [leaf, leaf, hwalk q (by omega)]
    by_cases hsame : q = path ∧ i = index
    · rw [if_pos hsame, hsame.1, hsame.2, hpath, Option.map_some, memory_write_self]
      rfl
    · rw [if_neg hsame]
      cases hu : a.walk q with
      | none => rfl
      | some u =>
        rw [Option.map_some, Option.map_some, memory_write_of_ne e]
        rintro ⟨rfl, rfl⟩
        exact hsame ⟨h.injective _ _ _ (by omega) (by omega) hu hpath, rfl⟩

lemma Sound.walk_new (hlen : path.length ≤ 2) (habsent : (a.memory table index).isPresent = false)
    (hpresent : e.isPresent = true) (hpage : e.mPhysicalAddress = supply a.mPhysicalPages.length) (hq : q.length ≤ 3) :
    (a.write table index e).walk q = if q = index :: path then some (supply a.mPhysicalPages.length) else a.walk q := by
  obtain ⟨hfresh, hzero⟩ := h.fresh _ le_rfl
  by_cases hsuffix : index :: path <:+ q
  · obtain ⟨xs, rfl⟩ := hsuffix
    have hold : a.walk (index :: path) = none := by
      rw [walk, hpath, Option.bind_some, habsent]
      rfl
    have hnew : (a.write table index e).walk (index :: path) = some (supply a.mPhysicalPages.length) := by
      have hnot : ¬index :: path <:+ path := fun hle => absurd hle.length_le (by simp)
      rw [walk, h.walk_write hpath (by omega) (by omega) hnot, hpath, Option.bind_some, memory_write_self, hpresent,
        if_pos rfl, hpage]
    induction xs with
    | nil => exact hnew.trans (if_pos rfl).symm
    | cons i xs ih =>
      rw [cons_append, length_cons] at hq
      have hlonger : i :: (xs ++ index :: path) ≠ index :: path := fun heq =>
        absurd (congrArg length heq) (by simp; omega)
      have hnone : a.walk (xs ++ index :: path) = none := by
        clear ih hq hlonger
        induction xs with
        | nil => exact hold
        | cons j xs ih => rw [cons_append, walk, ih, Option.bind_none]
      rw [cons_append, if_neg hlonger, walk, walk, ih (by omega), hnone]
      split
      · rw [Option.bind_some, memory_write_of_ne e, hzero]
        · rfl
        · rintro ⟨rfl, -⟩
          exact hfresh (h.own path _ (by omega) hpath)
      · rfl
  · rw [h.walk_write hpath (by omega) hq hsuffix, if_neg]
    rintro rfl
    exact hsuffix (suffix_refl _)

end

structure Keeps (supply : Nat → Nat) (a a' : AddressSpace) : Prop where
  sound : a'.Sound supply
  leaf : ∀ q i, q.length = 3 → a'.leaf q i = a.leaf q i
  pages : a'.mPhysicalPages.length ≤ a.mPhysicalPages.length + 1

lemma Sound.ensure (hinjective : Function.Injective supply) (hbound : supply a.mPhysicalPages.length < 1099511627776)
    (h : a.Sound supply) (hpath : a.walk path = some table) (hlen : path.length ≤ 2) (isSupervisor : Bool)
    (index : Nat) : Keeps supply a (a.ensure supply isSupervisor index path) ∧
      ∃ table', (a.ensure supply isSupervisor index path).walk (index :: path) = some table' := by
  rw [AddressSpace.ensure, pageAt_of_walk hpath]
  cases habsent : (a.memory table index).isPresent with
  | true =>
    refine ⟨⟨h, fun _ _ _ => rfl, Nat.le_succ _⟩, (a.memory table index).mPhysicalAddress, ?_⟩
    change a.walk (index :: path) = _
    rw [walk, hpath, Option.bind_some, habsent, if_pos rfl]
  | false =>
    let page := supply a.mPhysicalPages.length
    let e := ((a.memory table index).setPhysicalAddress (page * 4096)).makePresent isSupervisor
    have hpresent : e.isPresent = true := PagingEntry.isPresent_makePresent _ _
    have hpage : e.mPhysicalAddress = page := by
      exact (congrArg (· % 1099511627776) (Nat.mul_div_cancel page (by decide))).trans (Nat.mod_eq_of_lt hbound)
    let new := { a with mPhysicalPages := a.mPhysicalPages ++ [page] }.write table index e
    have hsame {q : List Nat} : new.walk q = (a.write table index e).walk q := by
      induction q with
      | nil => rfl
      | cons i q ih =>
        rw [walk, walk, ih]
        rfl
    have hwalk {q : List Nat} (hq : q.length ≤ 3) : new.walk q = if q = index :: path then some page else a.walk q :=
      hsame.trans (h.walk_new hpath hlen habsent hpresent hpage hq)
    obtain ⟨hfresh, hzero⟩ := h.fresh _ (le_refl a.mPhysicalPages.length)
    have htable := h.own path _ (by omega) hpath
    have hown : new.own = a.own ++ [page] := rfl
    have hmemory {n : Nat} (hn : a.mPhysicalPages.length ≤ n) (i : Nat) : new.memory (supply n) i = {} := by
      refine (memory_write_of_ne e ?_).trans ((h.fresh n hn).2 i)
      rintro ⟨rfl, -⟩
      exact (h.fresh n hn).1 htable
    change Keeps supply a new ∧ ∃ table', new.walk (index :: path) = some table'
    refine ⟨⟨⟨fun q u hq hu => ?_, fun q r u hq hr hu hother' => ?_, fun u hu => ?_,
      fun n hn => ?_⟩, fun q i hq => ?_, length_append.le⟩, page, (hwalk (by rw [length_cons]; omega)).trans (if_pos rfl)⟩
    · rw [hwalk hq] at hu
      rw [hown, mem_append, mem_singleton]
      split at hu
      · exact .inr (Option.some.inj hu).symm
      · exact .inl (h.own q u hq hu)
    · rw [hwalk hq] at hu
      rw [hwalk hr] at hother'
      split at hu
      · split at hother'
        · rename_i hq hr
          rw [hq, hr]
        · cases hu
          exact absurd (h.own r _ hr hother') hfresh
      · split at hother'
        · cases hother'
          exact absurd (h.own q _ hq hu) hfresh
        · exact h.injective q r u hq hr hu hother'
    · rw [hown, mem_append]
      rcases mem_cons.mp hu with rfl | hu
      · exact .inl htable
      · exact .inl (h.written u hu)
    · replace hn : (a.mPhysicalPages ++ [page]).length ≤ n := hn
      rw [length_append, length_singleton] at hn
      rw [hown, mem_append, mem_singleton, not_or]
      exact ⟨⟨(h.fresh n (by omega)).1, fun heq => absurd (hinjective heq) (by omega)⟩, hmemory (by omega)⟩
    · rw [leaf, leaf, hwalk hq.le]
      by_cases hnew : q = index :: path
      · rw [if_pos hnew, hnew, walk, hpath, Option.bind_some, habsent, Option.map_some, hmemory le_rfl]
        rfl
      · rw [if_neg hnew]
        cases hu : a.walk q with
        | none => rfl
        | some u =>
          have he : new.memory u i = a.memory u i := by
            refine memory_write_of_ne e ?_
            rintro ⟨rfl, -⟩
            obtain rfl := h.injective _ _ _ (by omega) (by omega) hu hpath
            omega
          rw [Option.map_some, Option.map_some, he]

lemma Sound.mapPage (hinjective : Function.Injective supply)
    (hbound : ∀ n < a.mPhysicalPages.length + 3, supply n < 1099511627776) (h : a.Sound supply) (virtual physical : Nat) (isSupervisor : Bool) :
    (a.mapPage supply virtual physical isSupervisor).Sound supply ∧ ∀ q i, q.length = 3 →
      (a.mapPage supply virtual physical isSupervisor).leaf q i =
        if q = tablePath virtual ∧ i = (indices virtual).2.2.2 then physical / 4096 % 1099511627776 else a.leaf q i := by
  have hroot : a.walk [] = some a.mMainPage := rfl
  obtain ⟨hfirst, _, hwalk⟩ := h.ensure hinjective (hbound _ (by omega)) hroot (by decide) isSupervisor (indices virtual).1
  have hpages := hfirst.pages
  obtain ⟨hsec, _, hwalk⟩ := hfirst.sound.ensure hinjective (hbound _ (by omega)) hwalk (by simp) isSupervisor
    (indices virtual).2.1
  have hpages' := hsec.pages
  obtain ⟨hthird, _, hwalk⟩ := hsec.sound.ensure hinjective (hbound _ (by omega)) hwalk (by simp) isSupervisor
    (indices virtual).2.2.1
  have hwrite := hthird.sound.write hwalk rfl (indices virtual).2.2.2
  rw [← pageAt_of_walk hwalk] at hwrite
  refine ⟨(hwrite _).1, fun q i hq => ((hwrite _).2 q i hq).trans ?_⟩
  rw [hthird.leaf q i hq, hsec.leaf q i hq, hfirst.leaf q i hq]
  rfl

lemma physicalAddressOf_eq (a : AddressSpace) (virtual : Nat) :
    a.physicalAddressOf virtual = a.leaf (tablePath virtual) (indices virtual).2.2.2 * 4096 := by
  rw [leaf, walk_eq]
  change (if a.reaches (tablePath virtual) then _ else 0) = _
  cases a.reaches (tablePath virtual) with
  | false => exact (zero_mul 4096).symm
  | true => rfl

lemma eq_of_indices_eq {v v' : Nat} (h : Canonical v) (h' : Canonical v')
    (heq : tablePath v = tablePath v' ∧ (indices v).2.2.2 = (indices v').2.2.2) : v = v' := by
  simp only [tablePath, indices, cons.injEq, and_true] at heq
  unfold Canonical at h h'
  omega

end

variable {supply}

def Mapping.Sound (supply : Nat → Nat) (m : Mapping) : Prop :=
  m.space.Sound supply ∧ ∀ virtual, Canonical virtual → m.space.physicalAddressOf virtual = m.translation virtual

/-- One step: an entry of a last table gets the address that the translation gets. -/
lemma Mapping.Sound.of_leaf {m m' : Mapping} {virtual physical : Nat} (h : m.Sound supply)
    (hcanonical : Canonical virtual) (hsound : m'.space.Sound supply) (hleaf : ∀ q i, q.length = 3 → m'.space.leaf q i =
      if q = tablePath virtual ∧ i = (indices virtual).2.2.2 then physical / 4096 else m.space.leaf q i)
    (htranslation : m'.translation = update m.translation virtual physical)
    (hpage : physical % 4096 = 0) : m'.Sound supply := by
  refine ⟨hsound, fun u hu => ?_⟩
  rw [physicalAddressOf_eq, hleaf _ _ rfl, htranslation]
  by_cases heq : u = virtual
  · rw [heq, if_pos ⟨rfl, rfl⟩, update_self]
    omega
  · rw [if_neg (heq ∘ eq_of_indices_eq hu hcanonical), update_of_ne heq, ← h.2 u hu, physicalAddressOf_eq]

lemma Mapping.Sound.step {m : Mapping} (hinjective : Function.Injective supply) (h : m.Sound supply)
    {call : Call} (hcall : (mappings supply).admits m call) (hunmaps : m.UnmapsNothing call) : (m.step supply call).Sound supply := by
  obtain ⟨hal, hbound⟩ := hcall
  cases call with
  | mapPage virtual physical isSupervisor =>
    obtain ⟨hcanonical, hpage, hlt⟩ := hal
    obtain ⟨hsound, hleaf⟩ := h.1.mapPage hinjective hbound virtual physical isSupervisor
    rw [Nat.mod_eq_of_lt (by omega)] at hleaf
    exact h.of_leaf hcanonical hsound hleaf rfl hpage
  | localUnmapPage virtual =>
    obtain ⟨hnull, hreaches⟩ := hunmaps
    have hwalk : m.space.walk (tablePath virtual) = some (m.space.pageAt (tablePath virtual)) := by
      rw [walk_eq, if_pos hreaches]
    obtain ⟨hsound, hleaf⟩ := h.1.write hwalk rfl (indices virtual).2.2.2
      (m.space.memory (m.space.pageAt (tablePath virtual)) (indices virtual).2.2.2).clearPresent
    have he : (m.space.memory (m.space.pageAt (tablePath virtual)) (indices virtual).2.2.2).mPhysicalAddress = 0 := by
      rw [← h.2 virtual hal, physicalAddressOf_eq, leaf, hwalk] at hnull
      exact (Nat.mul_eq_zero.mp hnull).resolve_right (by decide)
    refine h.of_leaf hal hsound (fun q i hq => (hleaf q i hq).trans ?_) rfl rfl
    rw [PagingEntry.clearPresent, he]

lemma Sound.initial {main : Nat} {memory : Nat → Nat → PagingEntry} (hmain : ∀ n, supply n ≠ main)
    (hzero : ∀ index, memory main index = {}) (hfresh : ∀ n index, memory (supply n) index = {}) :
    Sound supply { mMainPage := main, memory := memory } ∧ ∀ index path,
    walk { mMainPage := main, memory := memory } (index :: path) = none := by
  have hwalk (index : Nat) (path : List Nat) : walk { mMainPage := main, memory := memory } (index :: path) = none := by
    induction path generalizing index with
    | nil =>
      simp only [walk, Option.bind_some, hzero]
      rfl
    | cons u path ih => rw [walk, ih, Option.bind_none]
  refine ⟨⟨fun path table _ hpath => ?_, fun path q table _ _ hpath hq => ?_, fun table htable => ?_,
    fun n _ => ⟨?_, hfresh n⟩⟩, hwalk⟩
  · cases path with
    | nil => exact mem_singleton.mpr (Option.some.inj hpath).symm
    | cons index path => cases (hwalk index path).symm.trans hpath
  · cases path with
    | nil =>
      cases q with
      | nil => rfl
      | cons index q => cases (hwalk index q).symm.trans hq
    | cons index path => cases (hwalk index path).symm.trans hpath
  · cases htable
  · exact hmain n ∘ mem_singleton.mp

/-- In every run from empty paging structures that unmaps only pages that are not mapped, every address is
translated as it should, and only paging structures of the address space are written to. -/
theorem faithful_run_of_unmapsNothing (hinjective : Function.Injective supply) (main : Nat)
    (hmain : ∀ n, supply n ≠ main) (memory : Nat → Nat → PagingEntry) (hzero : ∀ index, memory main index = {})
    (hfresh : ∀ n index, memory (supply n) index = {}) (calls : List Call)
    (hcalls : (mappings supply).Admissible { space := { mMainPage := main, memory := memory } } calls)
    (hunmaps : (mappings supply).EveryStep Mapping.UnmapsNothing
      { space := { mMainPage := main, memory := memory } } calls) :
    (mappings supply).EveryState Mapping.Faithful { space := { mMainPage := main, memory := memory } } calls := by
  obtain ⟨hsound, hwalk⟩ := Sound.initial hmain hzero hfresh
  refine Machine.everyState_of_everyStep (I := Mapping.Sound supply) (fun m h => ⟨h.2, h.1.written⟩)
    (fun m call h hal hcall => ⟨_, rfl, h.step hinjective hal hcall⟩)
    ⟨hsound, fun virtual _ => ?_⟩ hcalls hunmaps
  rw [physicalAddressOf_eq, leaf, tablePath, hwalk]
  exact zero_mul 4096

theorem faithful_run_of_unmapsNothing_sample : (mappings (· + 2)).EveryState Mapping.Faithful
    { space := { mMainPage := 1 } }
    [.mapPage 4096 40960 true, .mapPage 8192 45056 false, .mapPage 4096 49152 true, .localUnmapPage 12288] :=
  faithful_run_of_unmapsNothing (fun _ _ => Nat.add_right_cancel) 1 (by omega) _ (fun _ => rfl) (fun _ _ => rfl) _
    (by decide +kernel) (by decide +kernel)

/-- A page that was mapped and unmapped is still translated, and unmapping where there are no tables writes to
the physical page 0. -/
theorem unmapped_translated :
    ((({ mMainPage := 1 } : AddressSpace).mapPage (· + 2) 4096 40960 true).localUnmapPage 4096).physicalAddressOf
      4096 = 40960 ∧ (({ mMainPage := 1 } : AddressSpace).localUnmapPage 4096).written = [0] := by
  decide +kernel

end AddressSpace

end UltraOS
