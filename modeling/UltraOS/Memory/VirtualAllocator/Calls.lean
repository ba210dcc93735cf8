import UltraOS.Memory.VirtualAllocator.Ranges

/-!
# The calls of the virtual allocator

What each function does to an allocator whose ranges are tidy. `allocate(length, alignment)` takes its range from a
gap. `allocate(range)` looks only at the two ranges around the begin of the request, and does not notice one that
the request encloses. `deallocate` cuts the given range out, and cuts a range in two where it is given an empty one.
-/

namespace UltraOS.VirtualAllocator

open List Page

structure Kept (s : VirtualAllocator) : Prop where
  pages : s.mBaseRange.mBegin % 4096 = 0 ∧ s.mBaseRange.mEnd % 4096 = 0
  bounded : s.mBaseRange.mEnd < addressSpace
  tidy : Tidy s.mBaseRange s.mAllocatedRanges

variable {s s' : VirtualAllocator} {r : Range}

lemma alignedTo_spec (a : Nat) : ∃ r', r.alignedTo a = .ok r' ∧
    (r'.empty = true ∨ (r.mBegin ≤ r'.mBegin ∧ r'.mBegin < r'.mEnd ∧ r'.mEnd = r.mEnd)) := by
  simp only [Range.alignedTo]
  generalize (if r.mBegin % a ≠ 0 then
    (r.mBegin + (a - r.mBegin % a)) % addressSpace else r.mBegin) = alignedBegin
  split
  · exact ⟨_, rfl, .inl rfl⟩
  · rename_i hin
    refine ⟨⟨alignedBegin, r.mEnd⟩, Range.fromTwoPointers_eq_ok (by omega), .inr ?_⟩
    exact ⟨by dsimp only; omega, by dsimp only; omega, rfl⟩

/-- A range for which there is room: it lies in the gap between two parts of the ranges. -/
structure Room (base : Range) (ranges : List Range) (before after : RangeIterator) (r : Range) : Prop where
  proper : r.mBegin < r.mEnd
  inside : base.mBegin ≤ r.mBegin ∧ r.mEnd ≤ base.mEnd
  gap : ∃ front back, ranges = front ++ back ∧ before = front.getLast? ∧ after = back.head? ∧
    (∀ l ∈ front, l.mEnd ≤ r.mBegin) ∧ ∀ l ∈ back, r.mEnd ≤ l.mBegin

variable {before after : RangeIterator} {rg : Range} {xs ys : List Range} {ranges : List Range}

lemma Room.not_covered {b r : Range} (h : Room b ranges before after r) {a : Nat}
    (ha : r.contains a = true) : ¬ Covered ranges a := by
  obtain ⟨xs, ys, rfl, -, -, hfront, hback⟩ := h.gap
  intro ⟨l, hl, hin⟩
  simp only [Range.contains_iff] at ha hin
  rcases mem_append.mp hl with hl | hl
  · have hle := hfront l hl
    omega
  · have hle := hback l hl
    omega

lemma Room.mergeAndEmplace {b r : Range} (h : Room b ranges before after r) (htidy : Tidy b ranges) :
    ∃ ranges', mergeAndEmplace ranges before after r = .ok ranges' ∧ Tidy b ranges' ∧ ∀ a,
    Covered ranges' a ↔ Covered ranges a ∨ r.contains a = true := by
  obtain ⟨xs, ys, rfl, rfl, rfl, hfront, hback⟩ := h.gap
  exact mergeAndEmplace_spec htidy h.proper h.inside hfront hback

/-- Ranges of the base in order that do not overlap. -/
structure Arranged (base : Range) (ranges : List Range) : Prop where
  proper : ∀ r ∈ ranges, r.mBegin < r.mEnd
  apart : ranges.Pairwise fun l r => l.mEnd ≤ r.mBegin
  inside : ∀ r ∈ ranges, base.mBegin ≤ r.mBegin ∧ r.mEnd ≤ base.mEnd

/-- An aligned address of the base at which a range of the length is disjoint from the given ones. -/
structure Fits (base : Range) (ranges : List Range) (alignment length first : Nat) : Prop where
  aligned : alignment ∣ first
  inside : base.mBegin ≤ first ∧ first + length ≤ base.mEnd
  free : ∀ r ∈ ranges, first + length ≤ r.mBegin ∨ r.mEnd ≤ first

lemma Tidy.arranged {b : Range} (h : Tidy b ranges) : Arranged b ranges := ⟨h.proper, h.apart.imp le_of_lt, h.inside⟩

def LeastFit (base : Range) (ranges : List Range) (alignment length first : Nat) : Prop :=
  Fits base ranges alignment length first ∧ ∀ other, Fits base ranges alignment length other → first ≤ other

variable {length gapBegin first last : Nat} {b r : Range} {ranges : List Range} {a : Nat}

lemma wide_cases {gap : Range} (hgap : gap.mEnd < addressSpace) (hlen : 0 < length) (a : Nat) : ∃ potential,
    gap.alignedTo a = .ok potential ∧ ((potential.empty = true ∨ potential.length < length) ∧ (0 < a ∧
    a < addressSpace → ∀ first, ¬Fits gap [] a length first) ∨ ¬(potential.empty = true ∨ potential.length < length) ∧
    ∃ first, potential.setLength length = ⟨first, first + length⟩ ∧ gap.mBegin ≤ first ∧ first + length ≤ gap.mEnd ∧
    (0 < a ∧ a < addressSpace → LeastFit gap [] a length first)) := by
  obtain ⟨potential, hpot, hshape⟩ := @alignedTo_spec gap a
  refine ⟨potential, hpot, ?_⟩
  have hceil : 0 < a ∧ a < addressSpace → potential =
      if ceilTo a gap.mBegin < gap.mEnd then ⟨ceilTo a gap.mBegin, gap.mEnd⟩ else {} := fun h =>
    Except.ok.inj (hpot.symm.trans (Range.alignedTo_eq hgap h.2))
  by_cases hsmall : potential.empty = true ∨ potential.length < length
  · refine .inl ⟨hsmall, fun ha u h => ?_⟩
    obtain ⟨-, -, hleast⟩ := @ceilTo_spec a gap.mBegin ha.1
    have hu := hleast u h.aligned h.inside.1
    have hend := h.inside.2
    rw [hceil ha, if_pos (by omega), Range.empty_iff, Range.length] at hsmall
    dsimp only at hsmall
    omega
  · rcases hshape with hempty | ⟨hbegin, hlt, hend⟩
    · exact absurd (.inl hempty) hsmall
    · have hfits : potential.mBegin + length ≤ gap.mEnd := by
        rw [not_or, Range.length] at hsmall
        omega
      refine .inr ⟨hsmall, potential.mBegin, ?_, hbegin, hfits, fun ha => ?_⟩
      · rw [Range.setLength, Nat.mod_eq_of_lt (by omega)]
      · obtain ⟨hdvd, -, hleast⟩ := @ceilTo_spec a gap.mBegin ha.1
        have heq : potential.mBegin = ceilTo a gap.mBegin := by
          have hv := hceil ha
          split at hv
          · rw [hv]
          · exact absurd (.inl (congrArg Range.empty hv)) hsmall
        rw [← heq] at hdvd hleast
        exact ⟨⟨hdvd, ⟨hbegin, hfits⟩, by simp⟩, fun u h => hleast u h.aligned h.inside.1⟩

lemma fits_cons_iff (hgap : gapBegin ≤ r.mBegin) (hprop : r.mBegin < r.mEnd)
    (hnarrow : ∀ first, ¬Fits ⟨gapBegin, r.mBegin⟩ [] a length first) :
    Fits ⟨gapBegin, last⟩ (r :: ranges) a length first ↔ Fits ⟨r.mEnd, last⟩ ranges a length first := by
  constructor
  · intro h
    obtain ⟨hr, hrs⟩ := forall_mem_cons.mp h.free
    rcases hr with hr | hr
    · exact absurd ⟨h.aligned, ⟨h.inside.1, hr⟩, by simp⟩ (hnarrow first)
    · exact ⟨h.aligned, ⟨hr, h.inside.2⟩, hrs⟩
  · intro h
    have hinside := h.inside
    dsimp only at hinside
    exact ⟨h.aligned, ⟨by dsimp only; omega, hinside.2⟩, forall_mem_cons.mpr ⟨.inr hinside.1, h.free⟩⟩

lemma LeastFit.cons (h : LeastFit ⟨gapBegin, r.mBegin⟩ [] a length first) (harranged : Arranged b (r :: ranges)) :
    LeastFit ⟨gapBegin, b.mEnd⟩ (r :: ranges) a length first := by
  obtain ⟨⟨hal, hinside, _⟩, hleast⟩ := h
  dsimp only at hinside
  have hprop := harranged.proper r mem_cons_self
  have hend := harranged.inside r mem_cons_self
  refine ⟨⟨hal, ⟨hinside.1, by dsimp only; omega⟩, forall_mem_cons.mpr ⟨.inl hinside.2, fun l hl => ?_⟩⟩, ?_⟩
  · have hlater := (pairwise_cons.mp harranged.apart).1 l hl
    omega
  · intro u hu
    by_cases hlow : u + length ≤ r.mBegin
    · exact hleast u ⟨hu.aligned, ⟨hu.inside.1, hlow⟩, by simp⟩
    · omega

lemma Arranged.tail (h : Arranged b (r :: ranges)) : Arranged b ranges :=
  ⟨fun l hl => h.proper l (mem_cons_of_mem r hl), h.apart.tail, fun l hl => h.inside l (mem_cons_of_mem r hl)⟩

lemma searchGap_cases (hlen : 0 < length) (hb : b.mEnd < addressSpace) (a : Nat)
    (ts xs : List Range) (h : Arranged b ts) (hgap : b.mBegin ≤ gapBegin ∧ gapBegin ≤ b.mEnd)
    (hfront : ∀ r ∈ xs, r.mEnd ≤ gapBegin) (hrest : ∀ r ∈ ts, gapBegin ≤ r.mBegin) : ∃ before after gapBegin' allocated,
      searchGap length a xs.getLast? gapBegin ts = .ok (before, after, gapBegin', allocated) ∧
      (allocated.empty = true ∧ after = none ∧ (b.mBegin ≤ gapBegin' ∧ gapBegin' ≤ b.mEnd) ∧
          (∀ r ∈ xs ++ ts, r.mEnd ≤ gapBegin') ∧ (0 < a ∧ a < addressSpace → ∀ first,
            Fits ⟨gapBegin, b.mEnd⟩ ts a length first ↔ Fits ⟨gapBegin', b.mEnd⟩ [] a length first) ∨
        ∃ first, allocated = ⟨first, first + length⟩ ∧ Room b (xs ++ ts) before after ⟨first, first + length⟩ ∧
          (0 < a ∧ a < addressSpace → LeastFit ⟨gapBegin, b.mEnd⟩ ts a length first)) := by
  induction ts generalizing xs gapBegin with
  | nil =>
    rw [append_nil]
    exact ⟨_, _, _, _, rfl, .inl ⟨rfl, rfl, hgap, hfront, fun _ _ => Iff.rfl⟩⟩
  | cons r ts ih =>
    have hr := hrest r mem_cons_self
    have hprop := h.proper r mem_cons_self
    have hinside := h.inside r mem_cons_self
    have hnext := (pairwise_cons.mp h.apart).1
    obtain ⟨potential, hpot, hcases⟩ := @wide_cases length ⟨gapBegin, r.mBegin⟩ (by dsimp only; omega) hlen a
    rw [searchGap, Range.fromTwoPointers_eq_ok hr, ok_bind, hpot, ok_bind]
    rcases hcases with ⟨hsmall, hnarrow⟩ | ⟨hwide, first, hfirst, hbegin, hend, hleast⟩
    · have hih := ih (xs ++ [r]) h.tail (by omega) (fun l hl => ?_) hnext
      · rw [getLast?_concat, append_assoc, singleton_append] at hih
        rw [if_pos hsmall]
        obtain ⟨before, after, gapBegin', allocated, hrun, hcases⟩ := hih
        refine ⟨before, after, gapBegin', allocated, hrun, ?_⟩
        rcases hcases with ⟨hempty, hafter, hgap', hends, hfits⟩ | ⟨first, heq, hroom, hleast⟩
        · refine .inl ⟨hempty, hafter, hgap', hends, fun ha first => ?_⟩
          rw [fits_cons_iff hr hprop (hnarrow ha)]
          exact hfits ha first
        · refine .inr ⟨first, heq, hroom, fun ha => ?_⟩
          simp only [LeastFit, fits_cons_iff hr hprop (hnarrow ha)]
          exact hleast ha
      · rcases mem_append.mp hl with hl | hl
        · have hle := hfront l hl
          omega
        · exact le_of_eq (congrArg Range.mEnd (mem_singleton.mp hl))
    · dsimp only at hbegin hend
      rw [if_neg hwide, hfirst]
      refine ⟨_, _, _, _, rfl, .inr ⟨first, rfl, ⟨Nat.lt_add_of_pos_right hlen, by dsimp only; omega, xs,
        r :: ts, rfl, rfl, rfl, fun l hl => le_trans (hfront l hl) hbegin, ?_⟩, fun ha =>
        (hleast ha).cons h⟩⟩
      exact forall_mem_cons.mpr ⟨hend, fun l hl => by have hle := hnext l hl; dsimp only; omega⟩

/-- `allocate(length, alignment)` takes room for the lowest fit, or panics because there is none. -/
lemma allocateRounded_cases (h : Arranged s.mBaseRange s.mAllocatedRanges) (hb : s.mBaseRange.mEnd < addressSpace)
    (hlen : 0 < length) (a : Nat) :
    (∃ before after first, Room s.mBaseRange s.mAllocatedRanges before after ⟨first, first + length⟩ ∧
        s.allocateRounded length a = (do
          let ranges ← mergeAndEmplace s.mAllocatedRanges before after ⟨first, first + length⟩
          return ({ s with mAllocatedRanges := ranges }, ⟨first, first + length⟩)) ∧
        (0 < a ∧ a < addressSpace → LeastFit s.mBaseRange s.mAllocatedRanges a length first)) ∨
      s.allocateRounded length a = failOnAllocation length a ∧ (0 < a ∧ a < addressSpace →
          ∀ first, ¬Fits s.mBaseRange s.mAllocatedRanges a length first) := by
  have hprop (first : Nat) : first < first + length := Nat.lt_add_of_pos_right hlen
  unfold allocateRounded
  split
  · rename_i hempty
    rw [isEmpty_iff.mp hempty]
    obtain ⟨potential, hpot, hcases⟩ := wide_cases hb hlen a
    rw [hpot, ok_bind]
    rcases hcases with ⟨hsmall, hnarrow⟩ | ⟨hwide, first, hfirst, hbegin, hend, hleast⟩
    · rw [if_pos hsmall]
      exact .inr ⟨rfl, hnarrow⟩
    · rw [if_neg hwide, hfirst]
      exact .inl ⟨none, none, first, ⟨hprop first, ⟨hbegin, hend⟩, [], [], rfl, rfl, rfl, by simp, by simp⟩, rfl,
        hleast⟩
  · rename_i hne
    obtain ⟨r, hr⟩ := exists_mem_of_ne_nil _ (isEmpty_iff.not.mp hne)
    have hrproper := h.proper r hr
    have hrinside := h.inside r hr
    obtain ⟨before, after, gapBegin, allocated, hsearch, hcases⟩ :=
      @searchGap_cases length s.mBaseRange.mBegin _ hlen hb a s.mAllocatedRanges [] h (by omega)
        (by simp) fun r hr => (h.inside r hr).1
    rw [getLast?_nil] at hsearch
    rw [nil_append] at hcases
    rw [hsearch, ok_bind]
    dsimp only
    rcases hcases with ⟨hempty, rfl, hgap, hends, hfits⟩ | ⟨first, rfl, hroom, hleast⟩
    · obtain ⟨potential, hpot, hcases⟩ := @wide_cases length ⟨gapBegin, s.mBaseRange.mEnd⟩ hb hlen a
      rw [if_pos hempty, Range.fromTwoPointers_eq_ok hgap.2, ok_bind, hpot, ok_bind]
      rcases hcases with ⟨hsmall, hnarrow⟩ | ⟨hwide, first, hfirst, hbegin, hend, hleast⟩
      · rw [if_pos hsmall]
        exact .inr ⟨rfl, fun ha first h => hnarrow ha first ((hfits ha first).mp h)⟩
      · rw [if_neg hwide, hfirst]
        dsimp only at hbegin hend
        refine .inl ⟨_, none, first, ⟨hprop first, ⟨by dsimp only; omega, hend⟩, s.mAllocatedRanges, [],
          (append_nil _).symm, rfl, rfl, fun l hl => le_trans (hends l hl) hbegin, by simp⟩, rfl, fun ha => ?_⟩
        simp only [LeastFit, hfits ha]
        exact hleast ha
    · rw [if_neg (by simp [hlen.ne'])]
      exact .inl ⟨before, after, first, hroom, rfl, hleast⟩

structure Taken (s s' : VirtualAllocator) (r : Range) : Prop where
  kept : Kept s'
  fresh : ∀ a, r.contains a = true → ¬ Covered s.mAllocatedRanges a
  covers : ∀ a, Covered s'.mAllocatedRanges a ↔ Covered s.mAllocatedRanges a ∨ r.contains a = true

lemma Room.taken (h : Kept s) (hroom : Room s.mBaseRange s.mAllocatedRanges before after r) : ∃ ranges,
    VirtualAllocator.mergeAndEmplace s.mAllocatedRanges before after r = .ok ranges ∧
    Taken s { s with mAllocatedRanges := ranges } r := by
  obtain ⟨ranges, hmerge, htidy, hcov⟩ := hroom.mergeAndEmplace h.tidy
  exact ⟨ranges, hmerge, ⟨h.pages, h.bounded, htidy⟩, fun a ha => hroom.not_covered ha, hcov⟩

lemma allocateRounded_spec (a : Nat) (h : Kept s) (hlen : 0 < length)
    (hrun : s.allocateRounded length a = .ok (s', r)) : Taken s s' r ∧ s'.mBaseRange = s.mBaseRange := by
  rcases allocateRounded_cases h.tidy.arranged h.bounded hlen a with
    ⟨before, after, first, hroom, heq, -⟩ | ⟨heq, -⟩
  · obtain ⟨ranges, hmerge, htaken⟩ := hroom.taken h
    rw [heq, hmerge] at hrun
    cases hrun
    exact ⟨htaken, rfl⟩
  · rw [heq] at hrun
    cases hrun

lemma allocate_spec {length a : Nat} (h : Kept s) (hrun : s.allocate length a = .ok (s', r)) : Taken s s' r := by
  simp only [allocate] at hrun
  obtain ⟨_, hlen, hrun⟩ := of_bind hrun
  have hpos : length ≠ 0 := by simpa using assert_eq_ok.mp hlen
  obtain ⟨_, -, hrun⟩ := of_bind hrun
  split at hrun
  · cases hrun
  · exact (allocateRounded_spec _ h (by omega) hrun).1

def pagesOf (range : Range) : Range := ⟨floor range.mBegin, ceil range.mEnd⟩

lemma lastOf_eq (hprop : rg.mBegin < rg.mEnd) (hbound : rg.mEnd < addressSpace) : lastOf rg = rg.mEnd - 1 := by
  unfold lastOf addressSpace at *
  omega

lemma contains_iff (hprop : rg.mBegin < rg.mEnd) (hbound : rg.mEnd < addressSpace) :
    s.contains rg = true ↔ s.mBaseRange.mBegin ≤ rg.mBegin ∧ rg.mEnd ≤ s.mBaseRange.mEnd := by
  simp only [contains, lastOf_eq hprop hbound, Bool.and_eq_true, Range.contains_iff]
  omega

/-- A request inside the base range is extended to its pages, and they lie inside it too. -/
lemma pagesOf_spec (h : Kept s) (hprop : rg.mBegin < rg.mEnd) (hbound : rg.mEnd < addressSpace)
    (hcon : s.contains rg = true) : Range.ofLength (roundDown rg.mBegin)
    (roundUp (rg.length + rg.mBegin - roundDown rg.mBegin)) = .ok (pagesOf rg) ∧ (pagesOf rg).mBegin <
    (pagesOf rg).mEnd ∧ s.mBaseRange.mBegin ≤ (pagesOf rg).mBegin ∧ (pagesOf rg).mEnd ≤ s.mBaseRange.mEnd := by
  obtain ⟨hbegin, hend⟩ := (contains_iff hprop hbound).mp hcon
  have hpages := h.pages
  have hb := h.bounded
  have hfloor := floor_spec rg.mBegin
  have hceil := ceil_spec rg.mEnd
  have hlen : roundUp (rg.length + rg.mBegin - floor rg.mBegin) =
      ceil rg.mEnd - floor rg.mBegin := by
    unfold roundUp Range.length pageSize addressSpace at *
    split
    · omega
    · split <;> omega
  have hsum : floor rg.mBegin + (ceil rg.mEnd - floor rg.mBegin) = ceil rg.mEnd := by omega
  refine ⟨?_, by dsimp only [pagesOf]; omega, by dsimp only [pagesOf]; omega, by dsimp only [pagesOf]; omega⟩
  rw [roundDown_eq_floor, hlen, Range.ofLength_eq_ok (by rw [hsum]; omega), hsum]
  rfl

/-- The request is accepted although it encloses an allocated range: its first page is free. -/
def Encloses (s : VirtualAllocator) (range : Range) : Prop :=
  range.empty = false ∧ s.contains range = true ∧
    (∀ r ∈ s.mAllocatedRanges, r.contains (pagesOf range).mBegin = false) ∧
    ∃ r ∈ s.mAllocatedRanges, (pagesOf range).mBegin < r.mBegin ∧ r.mEnd < (pagesOf range).mEnd

instance (s : VirtualAllocator) (range : Range) : Decidable (Encloses s range) :=
  inferInstanceAs (Decidable (_ ∧ _ ∧ (∀ r ∈ s.mAllocatedRanges, _) ∧ ∃ r ∈ s.mAllocatedRanges, _))

lemma allocateRange_eq (h : Kept s) (hprop : rg.mBegin < rg.mEnd)
    (hbound : rg.mEnd < addressSpace) (hcon : s.contains rg = true) :
    s.allocateRange rg = if s.mAllocatedRanges.isEmpty then
        .ok ({ s with mAllocatedRanges := OrderedSet.emplace less (pagesOf rg) s.mAllocatedRanges }, pagesOf rg)
      else
        let (it, rangeAfter) := around s.mAllocatedRanges (pagesOf rg).mBegin
        if rangeAfter.any fun r => r.contains (lastOf (pagesOf rg)) then failOnAllocatedRange (pagesOf rg)
        else if it.any fun r => r.mBegin == (pagesOf rg).mBegin || r.contains (pagesOf rg).mBegin then
          failOnAllocatedRange (pagesOf rg)
        else do
          let ranges ← mergeAndEmplace s.mAllocatedRanges it rangeAfter (pagesOf rg)
          return ({ s with mAllocatedRanges := ranges }, pagesOf rg) := by
  have hempty : rg.empty = false := by simpa [Range.empty] using hprop.ne
  obtain ⟨hpages, -⟩ := pagesOf_spec h hprop hbound hcon
  simp [allocateRange, hempty, hcon, hpages]

lemma allocateRange_of_contains (h : Kept s) (hprop : rg.mBegin < rg.mEnd)
    (hbound : rg.mEnd < addressSpace) (hcon : s.contains rg = true) (hr : r ∈ s.mAllocatedRanges)
    (hin : r.contains (pagesOf rg).mBegin = true) : s.allocateRange rg = failOnAllocatedRange (pagesOf rg) := by
  have hit := h.tidy.around_contains hr hin
  have hne : s.mAllocatedRanges.isEmpty = false := by simpa using ne_nil_of_mem hr
  rw [allocateRange_eq h hprop hbound hcon, hne, if_neg (by simp)]
  generalize around s.mAllocatedRanges (pagesOf rg).mBegin = found at hit
  obtain ⟨it, rangeAfter⟩ := found
  obtain rfl : it = some r := hit
  simp [hin]

/-- For a request whose first page is free, only the first range behind it is looked at. -/
lemma allocateRange_of_not_contains (h : Kept s) (hprop : rg.mBegin < rg.mEnd)
    (hbound : rg.mEnd < addressSpace) (hcon : s.contains rg = true)
    (hout : ∀ r ∈ s.mAllocatedRanges, r.contains (pagesOf rg).mBegin = false) :
    ∃ xs ys, s.mAllocatedRanges = xs ++ ys ∧ (∀ r ∈ xs, r.mEnd ≤ (pagesOf rg).mBegin) ∧
      (∀ r ∈ ys, (pagesOf rg).mBegin < r.mBegin) ∧
      s.allocateRange rg = if ys.head?.any fun r => r.contains ((pagesOf rg).mEnd - 1) then
          failOnAllocatedRange (pagesOf rg)
        else do
          let ranges ← mergeAndEmplace s.mAllocatedRanges xs.getLast? ys.head? (pagesOf rg)
          return ({ s with mAllocatedRanges := ranges }, pagesOf rg) := by
  obtain ⟨hpages, hlt, hinside⟩ := pagesOf_spec h hprop hbound hcon
  obtain ⟨xs, ys, heq, hends, hbegins, haround⟩ := h.tidy.around_free hout
  refine ⟨xs, ys, heq, hends, hbegins, ?_⟩
  rw [allocateRange_eq h hprop hbound hcon, haround, lastOf_eq hlt (hinside.2.trans_lt h.bounded)]
  split
  · rename_i hempty
    obtain ⟨rfl, rfl⟩ := append_eq_nil_iff.mp (heq.symm.trans (isEmpty_iff.mp hempty))
    rfl
  · have hit : (xs.getLast?.any fun r =>
        r.mBegin == (pagesOf rg).mBegin || r.contains (pagesOf rg).mBegin) = false := by
      rw [Bool.eq_false_iff, ne_eq, Option.any_eq_true]
      rintro ⟨r, hr, hin⟩
      have hmem : r ∈ xs := mem_of_getLast? hr
      have hend := hends r hmem
      have hrproper := h.tidy.proper r (heq ▸ mem_append_left _ hmem)
      simp only [Bool.or_eq_true, beq_iff_eq, Range.contains_iff] at hin
      omega
    dsimp only
    rw [hit, if_neg Bool.false_ne_true]

lemma accepted_of_allocateRange (horder : rg.mBegin ≤ rg.mEnd)
    (hrun : s.allocateRange rg = .ok (s', r)) : rg.mBegin < rg.mEnd ∧ s.contains rg = true := by
  simp only [allocateRange] at hrun
  obtain ⟨_, hne, hrun⟩ := of_bind hrun
  obtain ⟨_, hcon, -⟩ := of_bind hrun
  have hempty : ¬ rg.mBegin = rg.mEnd := by simpa [Range.empty] using assert_eq_ok.mp hne
  exact ⟨by omega, assert_eq_ok.mp hcon⟩

lemma allocateRange_spec (h : Kept s) (horder : rg.mBegin ≤ rg.mEnd) (hbound : rg.mEnd < addressSpace)
    (hfree : ¬ Encloses s rg) (hrun : s.allocateRange rg = .ok (s', r)) : r = pagesOf rg ∧ Taken s s' r := by
  obtain ⟨hprop, hcon⟩ := accepted_of_allocateRange horder hrun
  have hempty : rg.empty = false := by simpa [Range.empty] using hprop.ne
  obtain ⟨hpages, hlt, hinside⟩ := pagesOf_spec h hprop hbound hcon
  by_cases hbegin : ∃ r ∈ s.mAllocatedRanges, r.contains (pagesOf rg).mBegin = true
  · obtain ⟨l, hl, hin⟩ := hbegin
    rw [allocateRange_of_contains h hprop hbound hcon hl hin] at hrun
    cases hrun
  · have hout : ∀ r ∈ s.mAllocatedRanges, r.contains (pagesOf rg).mBegin = false :=
      fun r hr => eq_false_of_ne_true fun hin => hbegin ⟨r, hr, hin⟩
    obtain ⟨xs, ys, heq, hends, hbegins, hcall⟩ := allocateRange_of_not_contains h hprop hbound hcon hout
    rw [hcall] at hrun
    split at hrun
    · cases hrun
    · rename_i hafter
      have hlarge : ∀ l ∈ ys, ¬ l.mEnd < (pagesOf rg).mEnd := fun l hl hsmall =>
        hfree ⟨hempty, hcon, hout, l, by simp [heq, hl], hbegins l hl, hsmall⟩
      have hbeh : ∀ l ∈ ys, (pagesOf rg).mEnd ≤ l.mBegin := by
        cases ys with
        | nil => simp
        | cons x ys =>
          have hx : (pagesOf rg).mEnd ≤ x.mBegin := by
            have hge := hlarge x (by simp)
            simp only [List.head?_cons, Option.any_some, Range.contains_iff] at hafter
            omega
          refine forall_mem_cons.mpr ⟨hx, fun l hl => ?_⟩
          have htidy := (tidy_append.mp (heq ▸ h.tidy)).2.1
          have hxl := (@Tidy.begin_lt s.mBaseRange [x] ys htidy) x (by simp) l hl
          omega
      obtain ⟨ranges, hmerge, htaken⟩ := Room.taken h ⟨hlt, hinside, xs, ys, heq, rfl, rfl, hends, hbeh⟩
      rw [hmerge] at hrun
      cases hrun
      exact ⟨rfl, htaken⟩

lemma exists_mergeAndEmplace (hprop : ∀ l ∈ xs ++ ys, l.mBegin < l.mEnd) (hr : r.mBegin ≤ r.mEnd) :
    ∃ ranges', mergeAndEmplace (xs ++ ys) xs.getLast? ys.head? r = .ok ranges' := by
  refine ⟨_, mergeAndEmplace_eq rfl rfl (Nat.le_trans (m := r.mBegin) ?_ (Nat.le_trans hr ?_))⟩
  · cases hp : xs.getLast?.filter fun l => l.mEnd == r.mBegin with
    | none => exact Nat.le_refl _
    | some p =>
      obtain ⟨hmem, htouch⟩ := Option.filter_eq_some_iff.mp hp
      have hlt := hprop p (mem_append_left _ (mem_of_getLast? hmem))
      simp only [beq_iff_eq] at htouch
      dsimp only [Option.elim]
      omega
  · cases hq : ys.head?.filter fun l => l.mBegin == r.mEnd with
    | none => exact Nat.le_refl _
    | some q =>
      obtain ⟨hmem, htouch⟩ := Option.filter_eq_some_iff.mp hq
      have hlt := hprop q (mem_append_right _ (mem_of_mem_head? hmem))
      simp only [beq_iff_eq] at htouch
      dsimp only [Option.elim]
      omega

lemma Kept.exists_mergeAndEmplace (h : Kept s) (heq : s.mAllocatedRanges = xs ++ ys) (hr : r.mBegin ≤ r.mEnd) :
    ∃ ranges', mergeAndEmplace s.mAllocatedRanges xs.getLast? ys.head? r = .ok ranges' := by
  rw [heq]
  exact VirtualAllocator.exists_mergeAndEmplace (heq ▸ h.tidy.proper) hr

/-- The first range behind the begin of such a request lies inside it, so the last address of the
request is not in it. -/
lemma allocateRange_of_encloses (h : Kept s) (horder : rg.mBegin ≤ rg.mEnd) (hbound : rg.mEnd < addressSpace)
    (hencloses : Encloses s rg) : ∃ s', s.allocateRange rg = .ok (s', pagesOf rg) := by
  obtain ⟨hempty, hcon, hout, r, hr, hbegin, hend⟩ := hencloses
  have hprop : rg.mBegin < rg.mEnd := by
    have hne : ¬ rg.mBegin = rg.mEnd := by simpa [Range.empty] using hempty
    omega
  obtain ⟨hpages, hlt, hinside⟩ := pagesOf_spec h hprop hbound hcon
  obtain ⟨xs, ys, heq, hends, hbegins, hcall⟩ := allocateRange_of_not_contains h hprop hbound hcon hout
  have hafter : (ys.head?.any fun r => r.contains ((pagesOf rg).mEnd - 1)) = false := by
    have hrproper := h.tidy.proper r hr
    have hrback : r ∈ ys := by
      refine (mem_append.mp (heq ▸ hr)).resolve_left fun hr => ?_
      have hrend := hends r hr
      omega
    cases ys with
    | nil => cases hrback
    | cons x ys =>
      have hbackTidy := (tidy_append.mp (heq ▸ h.tidy)).2.1
      have hxend : x.mEnd < (pagesOf rg).mEnd := by
        rcases mem_cons.mp hrback with rfl | hrback
        · exact hend
        · have hxr := (pairwise_cons.mp hbackTidy.apart).1 r hrback
          omega
      simp only [List.head?_cons, Option.any_some, Range.contains]
      simp
      omega
  obtain ⟨ranges, hmerge⟩ := h.exists_mergeAndEmplace heq hlt.le
  rw [hcall, hafter, if_neg (by simp), hmerge]
  exact ⟨_, rfl⟩

def part (first last : Nat) : List Range := if first = last then [] else [⟨first, last⟩]

lemma covered_part (first last a : Nat) : Covered (part first last) a ↔ first ≤ a ∧ a < last := by
  unfold part
  split
  · simp only [covered_nil, false_iff]
    omega
  · simp [covered_cons, covered_nil]

lemma emplaceUnlessEmpty_eq {first last : Nat} (hbef : ∀ r ∈ xs, r.mBegin < first) (hbeh : ∀ r ∈ ys, first < r.mBegin) :
    emplaceUnlessEmpty ⟨first, last⟩ (xs ++ ys) = xs ++ part first last ++ ys := by
  unfold emplaceUnlessEmpty part
  by_cases hempty : first = last
  · simp [hempty, Range.empty]
  · rw [if_neg (by simpa using hempty), if_neg hempty, emplace_between hbef hbeh]
    simp

lemma mem_part {first last : Nat} (h : r ∈ part first last) : r = ⟨first, last⟩ ∧ first ≠ last := by
  unfold part at h
  split at h
  · cases h
  · rename_i hne
    exact ⟨mem_singleton.mp h, hne⟩

lemma tidy_part {b : Range} {first last : Nat} (hle : first ≤ last)
    (hfirst : b.mBegin ≤ first) (hlast : last ≤ b.mEnd) : Tidy b (part first last) := by
  refine ⟨fun r hr => ?_, ?_, fun r hr => ?_⟩
  · obtain ⟨rfl, hne⟩ := mem_part hr
    dsimp only
    omega
  · unfold part
    split <;> simp
  · obtain ⟨rfl, -⟩ := mem_part hr
    exact ⟨hfirst, hlast⟩

lemma deallocate_eq {it : Range} (h : Kept s) (heq : s.mAllocatedRanges = xs ++ it :: ys) (horder : rg.mBegin ≤ rg.mEnd)
    (hbegin : rg.mBegin % pageSize = 0) (hlen : rg.length % pageSize = 0)
    (hcon : s.contains rg = true) (hin : it.containsRange rg = true) :
    s.deallocate rg = .ok { s with mAllocatedRanges :=
      xs ++ (part it.mBegin rg.mBegin ++ part rg.mEnd it.mEnd) ++ ys } := by
  obtain ⟨hinBegin, hinEnd⟩ : it.contains rg.mBegin = true ∧ rg.mEnd ≤ it.mEnd := by
    simpa [Range.containsRange] using hin
  obtain ⟨hle, hlt⟩ := (Range.contains_iff _ _).mp hinBegin
  have htidy : Tidy s.mBaseRange (xs ++ it :: ys) := heq ▸ h.tidy
  have hitTidy : Tidy s.mBaseRange (xs ++ [it] ++ ys) := by simpa using htidy
  have hback := (tidy_append.mp hitTidy).2.2
  have haround := h.tidy.around_contains (show it ∈ s.mAllocatedRanges by simp [heq]) hinBegin
  have hclipEnd : it.clippedWithEnd rg.mBegin = .ok ⟨it.mBegin, rg.mBegin⟩ := by
    simp [Range.clippedWithEnd, hinBegin, Range.fromTwoPointers_eq_ok hle]
  have hclipBegin : it.clippedWithBegin rg.mEnd = .ok ⟨rg.mEnd, it.mEnd⟩ := by
    have has : (it.contains rg.mEnd || rg.mEnd == it.mEnd) = true := by
      simp
      omega
    simp [Range.clippedWithBegin, has, Range.fromTwoPointers_eq_ok hinEnd]
  have hbef : ∀ r ∈ xs, r.mBegin < it.mBegin := fun r hr => htidy.begin_lt r hr it (by simp)
  have hbeh : ∀ r ∈ ys, it.mEnd < r.mBegin := fun r hr => hback it (by simp) r hr
  have hfirst := @emplaceUnlessEmpty_eq xs ys it.mBegin rg.mBegin hbef fun r hr => by
    have hlt' := hbeh r hr
    omega
  have hsec := @emplaceUnlessEmpty_eq (xs ++ part it.mBegin rg.mBegin) ys rg.mEnd it.mEnd (fun r hr => by
      rcases mem_append.mp hr with hr | hr
      · have hlt' := hbef r hr
        omega
      · obtain ⟨rfl, hne⟩ := mem_part hr
        dsimp only
        omega)
    fun r hr => by
      have hlt' := hbeh r hr
      omega
  have hremove : OrderedSet.remove less it s.mAllocatedRanges = xs ++ ys := by rw [heq, htidy.remove_eq]
  have hne : s.mAllocatedRanges.isEmpty = false := by simp [heq]
  simp only [deallocate, hbegin, hlen, decide_true, assert_true, ok_bind, hcon, hne, haround,
    hin, Bool.not_true, Bool.false_eq_true, if_false, hclipEnd, hclipBegin, hremove, hfirst, hsec,
    pure_eq_ok]
  simp

lemma found_of_deallocate (h : Kept s) (hrun : s.deallocate rg = .ok s') : rg.mBegin % pageSize = 0 ∧
    rg.length % pageSize = 0 ∧ s.contains rg = true ∧ ∃ it ∈ s.mAllocatedRanges, it.containsRange rg = true := by
  simp only [deallocate] at hrun
  obtain ⟨_, hbegin, hrun⟩ := of_bind hrun
  obtain ⟨_, hlen, hrun⟩ := of_bind hrun
  refine ⟨by simpa using assert_eq_ok.mp hbegin, by simpa using assert_eq_ok.mp hlen, ?_⟩
  split at hrun
  · cases hrun
  · rename_i hcon
    refine ⟨by simpa using hcon, ?_⟩
    split at hrun
    · cases hrun
    · split at hrun
      · cases hrun
      · rename_i it haround
        split at hrun
        · cases hrun
        · rename_i hin
          have hin' : it.containsRange rg = true := by simpa using hin
          refine ⟨it, ?_, hin'⟩
          by_cases hcover : ∃ r ∈ s.mAllocatedRanges, r.contains rg.mBegin = true
          · obtain ⟨r, hr, hrin⟩ := hcover
            rw [h.tidy.around_contains hr hrin] at haround
            exact Option.some.inj haround ▸ hr
          · obtain ⟨xs, ys, heq, -, -, hfree⟩ := h.tidy.around_free fun r hr =>
              eq_false_of_ne_true fun hrin => hcover ⟨r, hr, hrin⟩
            rw [hfree] at haround
            exact heq ▸ mem_append_left _ (mem_of_getLast? haround)

/-- An empty range is given that lies strictly inside an allocated one. -/
def Cuts (s : VirtualAllocator) (range : Range) : Prop :=
  range.empty = true ∧ range.mBegin % pageSize = 0 ∧
    ∃ r ∈ s.mAllocatedRanges, r.mBegin < range.mBegin ∧ range.mBegin < r.mEnd

instance (s : VirtualAllocator) (range : Range) : Decidable (Cuts s range) :=
  inferInstanceAs (Decidable (_ ∧ _ ∧ ∃ r ∈ s.mAllocatedRanges, _))

structure Released (s s' : VirtualAllocator) (r : Range) : Prop where
  kept : Kept s'
  covers : ∀ a, Covered s'.mAllocatedRanges a ↔ Covered s.mAllocatedRanges a ∧ r.contains a = false

lemma deallocate_spec (h : Kept s) (horder : rg.mBegin ≤ rg.mEnd)
    (hwhole : ¬ Cuts s rg) (hrun : s.deallocate rg = .ok s') : Released s s' rg := by
  obtain ⟨hbegin, hlen, hcon, it, hit, hin⟩ := found_of_deallocate h hrun
  obtain ⟨hinBegin, hinEnd⟩ : it.contains rg.mBegin = true ∧ rg.mEnd ≤ it.mEnd := by
    simpa [Range.containsRange] using hin
  obtain ⟨hle, hlt⟩ := (Range.contains_iff _ _).mp hinBegin
  obtain ⟨xs, ys, heq⟩ := append_of_mem hit
  rw [deallocate_eq h heq horder hbegin hlen hcon hin] at hrun
  cases hrun
  have htidy : Tidy s.mBaseRange (xs ++ it :: ys) := heq ▸ h.tidy
  obtain ⟨hfront, hrest, hfrontCross⟩ := tidy_append.mp htidy
  obtain ⟨-, hback, hbackCross⟩ := (@tidy_append s.mBaseRange [it] ys).mp hrest
  have hitInside := htidy.inside it (by simp)
  have hleft : ∀ l ∈ part it.mBegin rg.mBegin, l.mBegin = it.mBegin ∧ l.mEnd = rg.mBegin :=
    fun l hl => (mem_part hl).1 ▸ ⟨rfl, rfl⟩
  have hright : ∀ l ∈ part rg.mEnd it.mEnd, l.mBegin = rg.mEnd ∧ l.mEnd = it.mEnd :=
    fun l hl => (mem_part hl).1 ▸ ⟨rfl, rfl⟩
  refine ⟨⟨h.pages, h.bounded, ?_⟩, fun a => ?_⟩
  · have hparts : Tidy s.mBaseRange (part it.mBegin rg.mBegin ++ part rg.mEnd it.mEnd) := by
      refine tidy_append.mpr ⟨tidy_part hle (by omega) (by omega), tidy_part hinEnd (by omega)
        (by omega), fun l hl r hr => ?_⟩
      rw [(hleft l hl).2, (hright r hr).1]
      -- with an empty range the two parts would touch
      by_contra hempty
      have hne := (mem_part hl).2
      exact hwhole ⟨by rw [Range.empty_iff]; omega, hbegin, it, hit, by omega, hlt⟩
    refine tidy_append.mpr ⟨tidy_append.mpr ⟨hfront, hparts, fun l hl r hr => ?_⟩, hback, fun l hl r hr => ?_⟩
    · have hcross := hfrontCross l hl it (by simp)
      rcases mem_append.mp hr with hr | hr
      · rwa [(hleft r hr).1]
      · rw [(hright r hr).1]
        omega
    · have hcross := hbackCross it (by simp) r hr
      rcases mem_append.mp hl with hl | hl
      · have hlit := hfrontCross l hl it (by simp)
        omega
      · rcases mem_append.mp hl with hl | hl
        · rw [(hleft l hl).2]
          omega
        · rwa [(hright l hl).2]
  · have hbef : Covered xs a → a < it.mBegin := by
      intro ⟨l, hl, hla⟩
      have hcross := hfrontCross l hl it (by simp)
      simp only [Range.contains_iff] at hla
      omega
    have hbeh : Covered ys a → it.mEnd < a := by
      intro ⟨l, hl, hla⟩
      have hcross := hbackCross it (by simp) l hl
      simp only [Range.contains_iff] at hla
      omega
    simp only [heq, covered_append, covered_cons, covered_part, Range.contains,
      Bool.and_eq_false_iff, decide_eq_false_iff_not, ge_iff_le]
    grind

/-- The two parts that are left touch. -/
lemma not_kept_of_cuts (h : Kept s) (hbound : rg.mEnd < addressSpace)
    (hcuts : Cuts s rg) : ∃ s', s.deallocate rg = .ok s' ∧ ¬ Kept s' := by
  obtain ⟨hempty, hbegin, it, hit, hlt, hgt⟩ := hcuts
  rw [Range.empty_iff] at hempty
  obtain ⟨xs, ys, heq⟩ := append_of_mem hit
  have hitInside := h.tidy.inside it hit
  have hcon : s.contains rg = true := by
    have hlast : lastOf rg = rg.mEnd - 1 := by
      unfold lastOf addressSpace at *
      omega
    simp only [contains, hlast, Bool.and_eq_true, Range.contains_iff]
    omega
  have hin : it.containsRange rg = true := by
    simp only [Range.containsRange, Bool.and_eq_true, Range.contains_iff, decide_eq_true_eq]
    omega
  have hlen : rg.length % pageSize = 0 := by simp [Range.length, hempty]
  refine ⟨_, deallocate_eq h heq (by omega) hbegin hlen hcon hin, fun hkept => ?_⟩
  have hparts := (tidy_append.mp (tidy_append.mp hkept.tidy).1).2.1
  rw [part, part, if_neg (by omega), if_neg (by omega)] at hparts
  have htouch := (pairwise_cons.mp hparts.apart).1 ⟨rg.mEnd, it.mEnd⟩ (by simp)
  dsimp only at htouch
  omega

end UltraOS.VirtualAllocator
