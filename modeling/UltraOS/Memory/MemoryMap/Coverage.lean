import UltraOS.Library.Segments
import UltraOS.Memory.MemoryMap.Pieces

/-!
# The type of an address

What a list of entries says of one address (`typeAt`): the greatest type of a reserved entry that covers it, or free
if a free entry covers it and no reserved entry touches its page. Putting an entry behind a normal list, by
appending, merging or shattering it, changes the list as it changes `typeAt`.
-/

namespace UltraOS.MemoryMap

open PhysicalRange Page Range List

abbrev labelAt (entries : List PhysicalRange) (address : Nat) : Option Nat :=
  Segments.labelAt (fun r : PhysicalRange => r.mBegin) (fun r => r.mEnd) (fun r => r.type) entries address

/-- The entries ascend without overlap, and touching neighbours differ in type. -/
abbrev Normal (entries : List PhysicalRange) : Prop :=
  Segments.Normal (fun r : PhysicalRange => r.mBegin) (fun r => r.mEnd) (fun r => r.type) entries

def TouchesPage (r : PhysicalRange) (address : Nat) : Prop := r.mBegin < floor address + 4096 ∧ floor address < r.mEnd

instance (r : PhysicalRange) (address : Nat) : Decidable (TouchesPage r address) :=
  inferInstanceAs (Decidable (_ ∧ _))

/-- The greatest type of a reserved entry that covers the address, zero if there is none. -/
def reservedAt : List PhysicalRange → Nat → Nat
  | [], _ => 0
  | r :: entries, address => max (if r.type ≠ free ∧ r.contains address then r.type else 0) (reservedAt entries address)

def PageClear (entries : List PhysicalRange) (address : Nat) : Prop :=
  ∀ r ∈ entries, r.type ≠ free → ¬ TouchesPage r address

instance (entries : List PhysicalRange) (address : Nat) : Decidable (PageClear entries address) :=
  inferInstanceAs (Decidable (∀ r ∈ entries, _))

def typeAt (entries : List PhysicalRange) (address : Nat) : Option Nat :=
  if reservedAt entries address ≠ 0 then some (reservedAt entries address)
  else if (∃ r ∈ entries, r.type = free ∧ r.contains address) ∧ PageClear entries address then
    some free
  else none

lemma reservedAt_concat (es : List PhysicalRange) (y : PhysicalRange) (a : Nat) : reservedAt (es ++ [y]) a =
      max (reservedAt es a) (if y.type ≠ free ∧ y.contains a then y.type else 0) := by
  induction es with
  | nil => simp [reservedAt]
  | cons r es ih =>
    rw [cons_append, reservedAt, ih, reservedAt]
    omega

variable {entries es : List PhysicalRange} {r y : PhysicalRange} {a : Nat}

lemma le_reservedAt (hr : r ∈ es) (htype : r.type ≠ free) (ha : r.contains a = true) : r.type ≤ reservedAt es a := by
  induction es with
  | nil => cases hr
  | cons s es ih =>
    rw [reservedAt]
    rcases mem_cons.mp hr with rfl | hr
    · rw [if_pos ⟨htype, ha⟩]
      omega
    · have hle := ih hr
      omega

lemma exists_mem_of_reservedAt (h : reservedAt es a ≠ 0)
    : ∃ r ∈ es, r.type ≠ free ∧ r.contains a = true ∧ r.type = reservedAt es a := by
  induction es with
  | nil => exact absurd rfl h
  | cons s es ih =>
    rw [reservedAt] at h ⊢
    by_cases hs : s.type ≠ free ∧ s.contains a
    · simp only [if_pos hs] at h ⊢
      by_cases hle : reservedAt es a ≤ s.type
      · exact ⟨s, by simp, hs.1, hs.2, by omega⟩
      · obtain ⟨r, hr, htype, ha, heq⟩ := ih (by omega)
        exact ⟨r, by simp [hr], htype, ha, by omega⟩
    · simp only [if_neg hs] at h ⊢
      obtain ⟨r, hr, htype, ha, heq⟩ := ih (by omega)
      exact ⟨r, by simp [hr], htype, ha, by omega⟩

lemma free_lt_reservedAt (hes : ∀ r ∈ es, r.Whole) (h : reservedAt es a ≠ 0) : free < reservedAt es a := by
  obtain ⟨r, hr, htype, -, heq⟩ := exists_mem_of_reservedAt h
  have htyped := (hes r hr).typed
  omega

lemma touchesPage_of_contains (h : r.contains a = true) : TouchesPage r a := by
  have hfloor := floor_spec a
  obtain ⟨hbegin, hend⟩ := (contains_iff _ _).mp h
  exact ⟨by omega, by omega⟩

lemma reservedAt_of_pageClear (h : PageClear es a) : reservedAt es a = 0 := by
  by_contra hne
  obtain ⟨r, hr, htype, ha, -⟩ := exists_mem_of_reservedAt hne
  exact h r hr htype (touchesPage_of_contains ha)

lemma typeAt_eq_free (hes : ∀ r ∈ es, r.Whole)
    : typeAt es a = some free ↔ (∃ r ∈ es, r.type = free ∧ r.contains a) ∧ PageClear es a := by
  unfold typeAt
  by_cases hres : reservedAt es a = 0
  · rw [if_neg (by simpa using hres), Option.ite_none_right_eq_some, and_iff_left rfl]
  · have hlt := free_lt_reservedAt hes hres
    rw [if_pos hres]
    constructor
    · intro heq
      have := Option.some.inj heq
      omega
    · intro ⟨_, hclear⟩
      exact absurd (reservedAt_of_pageClear hclear) hres

lemma reservedAt_eq (hes : ∀ r ∈ es, r.Whole) (a : Nat) :
    reservedAt es a = ((typeAt es a).filter (· ≠ free)).getD 0 := by
  unfold typeAt
  by_cases hres : reservedAt es a = 0
  · rw [if_neg (by simpa using hres), hres]
    split <;> simp [Option.filter]
  · have hlt := free_lt_reservedAt hes hres
    rw [if_pos hres]
    simp [Option.filter, hlt.ne']

lemma pageClear_iff (hes : ∀ r ∈ es, r.Whole) (a : Nat) :
    PageClear es a ↔ ∀ b, floor b = floor a → reservedAt es b = 0 := by
  constructor
  · intro h b hb
    apply reservedAt_of_pageClear
    intro r hr htype htouch
    apply h r hr htype
    rwa [TouchesPage, hb] at htouch
  · intro h r hr htype ⟨hbegin, hend⟩
    have hprop := (hes r hr).proper
    have hfloor := floor_spec a
    -- the first address of the page that the entry covers
    have hb := floor_spec (max r.mBegin (floor a))
    have hle := le_reservedAt hr htype (a := max r.mBegin (floor a)) (by
      simp only [contains_iff]
      omega)
    have hzero := h (max r.mBegin (floor a)) (by omega)
    have htyped := (hes r hr).typed
    unfold free at htyped
    omega

lemma pageClear_concat (es : List PhysicalRange) (y : PhysicalRange) (a : Nat) :
    PageClear (es ++ [y]) a ↔ PageClear es a ∧ (y.type ≠ free → ¬ TouchesPage y a) := by
  simp [PageClear, or_imp, forall_and]

lemma exists_free_concat (es : List PhysicalRange) (y : PhysicalRange) (a : Nat) : (∃ r ∈ es ++ [y], r.type = free ∧
    r.contains a = true) ↔ (∃ r ∈ es, r.type = free ∧ r.contains a = true) ∨ (y.type = free ∧ y.contains a = true) := by
  simp [or_and_right, exists_or]

lemma typeAt_concat_reserved (hes : ∀ r ∈ es, r.Whole) (hy : y.Whole) (htype : y.type ≠ free) (a : Nat) :
    typeAt (es ++ [y]) a = if y.contains a then some (max (reservedAt es a) y.type)
      else if typeAt es a = some free ∧ TouchesPage y a then none else typeAt es a := by
  have htyped := hy.typed
  by_cases hin : y.contains a = true
  · have hmax : reservedAt (es ++ [y]) a = max (reservedAt es a) y.type := by
      rw [reservedAt_concat, if_pos ⟨htype, hin⟩]
    rw [if_pos hin, typeAt, hmax, if_pos (by unfold free at htyped; omega)]
  · have hsame : reservedAt (es ++ [y]) a = reservedAt es a := by
      rw [reservedAt_concat, if_neg (by simp [hin]), max_eq_left zero_le]
    simp only [if_neg hin, typeAt_eq_free hes]
    simp only [typeAt, hsame, exists_free_concat, pageClear_concat, htype, false_and, or_false,
      ne_eq, not_false_eq_true, true_implies]
    by_cases hres : reservedAt es a = 0
    · simp only [hres, not_true_eq_false, if_false]
      by_cases hcover : (∃ r ∈ es, r.type = free ∧ r.contains a = true) ∧ PageClear es a
      · by_cases htouch : TouchesPage y a
        · simp [htouch, hcover]
        · simp [htouch]
      · rw [if_neg fun h => hcover ⟨h.1, h.2.1⟩, if_neg fun h => hcover h.1, if_neg hcover]
    · have hclear : ¬ PageClear es a := fun h => hres (reservedAt_of_pageClear h)
      rw [if_pos hres, if_neg (fun h => hclear h.1.2), if_pos hres]

lemma typeAt_concat_free (es : List PhysicalRange) (htype : y.type = free) (a : Nat) : typeAt (es ++ [y]) a =
      if y.contains a ∧ PageClear es a then some free else typeAt es a := by
  have hsame : reservedAt (es ++ [y]) a = reservedAt es a := by
    rw [reservedAt_concat, if_neg (by simp [htype]), max_eq_left zero_le]
  simp only [typeAt, hsame, exists_free_concat, pageClear_concat, htype, true_and, ne_eq,
    not_true_eq_false, false_implies, and_true]
  by_cases hclear : PageClear es a
  · by_cases hin : y.contains a = true
    · simp [reservedAt_of_pageClear hclear, hin, hclear]
    · simp [hin]
  · simp only [hclear, and_false, if_false]

variable {x : PhysicalRange}

lemma typeAt_singleton (hx : x.Whole) (a : Nat) : typeAt [x] a = labelAt [x] a := by
  by_cases htype : x.type = free
  · have h := typeAt_concat_free [] htype a
    rw [nil_append] at h
    rw [h]
    simp [Segments.labelAt, PageClear, htype, typeAt, reservedAt]
  · have h := @typeAt_concat_reserved [] x (by simp) hx htype a
    rw [nil_append] at h
    rw [h]
    simp [Segments.labelAt, reservedAt, typeAt]

lemma labelAt_cons (x : PhysicalRange) (es : List PhysicalRange) (a : Nat) :
    labelAt (x :: es) a = if x.contains a then some x.type else labelAt es a := by
  simp [Segments.labelAt]

lemma labelAt_append (xs ys : List PhysicalRange) (a : Nat) : labelAt (xs ++ ys) a = (labelAt xs a).or (labelAt ys a) :=
  Segments.labelAt_append xs ys a

lemma labelAt_singleton (x : PhysicalRange) (a : Nat) : labelAt [x] a = if x.contains a then some x.type else none := by
  simp [Segments.labelAt]

lemma labelAt_kept (first last type a : Nat) : labelAt (kept first last type) a = if (type = free ∧ first ≤ floor a ∧
    floor a + 4096 ≤ last) ∨ (type ≠ free ∧ first ≤ a ∧ a < last) then some type else none := by
  have hfloor := floor_spec a
  have hfirst := ceil_spec first
  have hlast := floor_spec last
  by_cases htype : type = free
  · simp only [kept, htype, ne_eq, not_true_eq_false, false_and, or_false, true_and, if_true]
    by_cases hlt : ceil first < floor last
    · rw [if_pos hlt, labelAt_singleton]
      simp only [contains_iff]
      congr 1
      simp only [eq_iff_iff]
      omega
    · rw [if_neg hlt, if_neg (by omega)]
      rfl
  · simp only [kept, htype, ne_eq, not_false_eq_true, false_and, false_or, true_and, if_false]
    by_cases hlt : first < last
    · rw [if_pos hlt, labelAt_singleton]
      simp
    · rw [if_neg hlt, if_neg (by omega)]
      rfl

lemma typeAt_pair (hx : x.Whole) (hy : y.Whole) (a : Nat) : typeAt [x, y] a = if y.type = free then
        if y.contains a ∧ (x.type ≠ free → ¬ TouchesPage x a) then some free else labelAt [x] a
      else if y.contains a then some (max (if x.type ≠ free ∧ x.contains a then x.type else 0) y.type)
      else if labelAt [x] a = some free ∧ TouchesPage y a then none else labelAt [x] a := by
  have hwhole : ∀ r ∈ [x], r.Whole := by simpa using hx
  by_cases htype : y.type = free
  · have h := typeAt_concat_free [x] htype a
    rw [singleton_append] at h
    simp only [h, htype, if_true, PageClear, mem_singleton, forall_eq, typeAt_singleton hx]
  · have h := typeAt_concat_reserved hwhole hy htype a
    rw [singleton_append] at h
    rw [h, if_neg htype, typeAt_singleton hx]
    simp only [reservedAt, max_eq_left zero_le]

/-- Two overlapping ranges: shattering leaves every address its type. -/
lemma labelAt_overlay (hx : x.Whole) (hy : y.Whole) (hle : x.mBegin ≤ y.mBegin)
    (hlt : y.mBegin < x.mEnd) (a : Nat) : labelAt (overlay x y) a = typeAt [x, y] a := by
  have hfloor := floor_spec a
  have hyproper := hy.proper
  have hxpaged := hx.paged
  have hypaged := hy.paged
  have hxtyped := hx.typed
  have hytyped := hy.typed
  rw [typeAt_pair hx hy, labelAt_singleton]
  unfold overlay
  split
  · rw [labelAt_singleton]
    simp only [contains_iff, setEnd, TouchesPage]
    grind
  · split
    · rw [labelAt_cons, labelAt_kept]
      simp only [contains_iff, TouchesPage]
      grind
    · rw [labelAt_append, labelAt_cons, labelAt_kept, labelAt_kept]
      simp only [contains_iff, TouchesPage]
      grind

lemma labelAt_apart (hx : x.Whole) (hy : y.Whole) (hle : x.mEnd ≤ y.mBegin)
    (a : Nat) : labelAt [x, y] a = typeAt [x, y] a := by
  have hfloor := floor_spec a
  have hxproper := hx.proper
  have hxpaged := hx.paged
  have hypaged := hy.paged
  rw [typeAt_pair hx hy, labelAt_cons, labelAt_singleton, labelAt_singleton]
  simp only [contains_iff, TouchesPage]
  grind

lemma labelAt_merge (hx : x.Whole) (hy : y.Whole) (htouch : x.mEnd = y.mBegin)
    (htype : x.type = y.type) (a : Nat) : labelAt [x.setEnd y.mEnd] a = typeAt [x, y] a := by
  have hxproper := hx.proper
  have hyproper := hy.proper
  rw [typeAt_pair hx hy, labelAt_singleton, labelAt_singleton]
  simp only [contains_iff, setEnd]
  grind

/-- `entries` is the normal form of what `input` says of each address. -/
structure Describes (entries input : List PhysicalRange) : Prop where
  normal : Normal entries
  whole : ∀ r ∈ entries, r.Whole
  wholeInput : ∀ r ∈ input, r.Whole
  types : ∀ a, labelAt entries a = typeAt input a

namespace Describes

variable {xs input : List PhysicalRange} {x : PhysicalRange} (h : Describes (xs ++ [x]) input)

include h

lemma mEnd_le : ∀ r ∈ xs, r.mEnd ≤ x.mBegin := fun r hr => (pairwise_append.mp h.normal.ordered).2.2 r hr x (by simp)

lemma typeAt_eq (ha : ∀ r ∈ xs, a < r.mBegin ∨ r.mEnd ≤ a) : typeAt input a = typeAt [x] a := by
  rw [← h.types a, typeAt_singleton (h.whole x (by simp)), labelAt_append,
    show labelAt xs a = none from Segments.labelAt_eq_none ha, Option.none_or]

lemma pageClear_iff (ha : x.mBegin ≤ floor a) : PageClear input a ↔ PageClear [x] a := by
  have hx : ∀ r ∈ [x], r.Whole := by simpa using h.whole x (by simp)
  have hres : ∀ b, floor b = floor a → reservedAt input b = reservedAt [x] b := by
    intro b hb
    have hfloor := floor_spec b
    rw [reservedAt_eq h.wholeInput, reservedAt_eq hx, h.typeAt_eq]
    intro r hr
    have hend := h.mEnd_le r hr
    omega
  rw [MemoryMap.pageClear_iff h.wholeInput, MemoryMap.pageClear_iff hx]
  exact forall₂_congr fun b hb => by rw [hres b hb]

lemma types_concat (hy : y.Whole) (hle : x.mBegin ≤ y.mBegin)
    {joined : List PhysicalRange} (hjoined : ∀ a, labelAt joined a = typeAt [x, y] a) (a : Nat) :
    labelAt (xs ++ joined) a = typeAt (input ++ [y]) a := by
  have hx : ∀ r ∈ [x], r.Whole := by simpa using h.whole x (by simp)
  have hfloor := floor_spec a
  rw [labelAt_append, hjoined]
  by_cases hin : ∃ r ∈ xs, r.mBegin ≤ a ∧ a < r.mEnd
  · obtain ⟨r, hr, hbegin, hend⟩ := hin
    have hrx := h.mEnd_le r hr
    have hordered := (pairwise_append.mp h.normal.ordered).1
    have hlabel : labelAt xs a = some r.type := Segments.labelAt_of_mem hordered hr hbegin hend
    have htype : typeAt input a = some r.type := by rw [← h.types a, labelAt_append, hlabel, Option.some_or]
    have hout : ¬ y.contains a = true := by
      rw [contains_iff]
      omega
    rw [hlabel, Option.some_or]
    by_cases hfree : y.type = free
    · rw [typeAt_concat_free input hfree, if_neg fun hcover => hout hcover.1, htype]
    · have htouch : ¬ (typeAt input a = some free ∧ TouchesPage y a) := by
        intro ⟨hsome, hpage, _⟩
        have hpaged := (h.whole r (by simp [hr])).paged (Option.some.inj (htype.symm.trans hsome))
        omega
      rw [typeAt_concat_reserved h.wholeInput hy hfree, if_neg hout, if_neg htouch, htype]
  · have hfront : ∀ r ∈ xs, a < r.mBegin ∨ r.mEnd ≤ a := by
      intro r hr
      by_contra hcover
      exact hin ⟨r, hr, by omega, by omega⟩
    have hnone : labelAt xs a = none := Segments.labelAt_eq_none hfront
    have hsame := h.typeAt_eq hfront
    rw [hnone, Option.none_or, ← singleton_append]
    by_cases hfree : y.type = free
    · rw [typeAt_concat_free input hfree, typeAt_concat_free [x] hfree, hsame]
      by_cases hout : y.contains a = true
      · obtain ⟨hybegin, -⟩ := (contains_iff _ _).mp hout
        have hpaged := hy.paged hfree
        simp [hout, h.pageClear_iff (a := a) (by omega)]
      · simp [hout]
    · rw [typeAt_concat_reserved h.wholeInput hy hfree, typeAt_concat_reserved hx hy hfree, hsame,
        reservedAt_eq h.wholeInput, reservedAt_eq hx, hsame]

end Describes

end UltraOS.MemoryMap
