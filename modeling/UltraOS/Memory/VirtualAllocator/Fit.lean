import UltraOS.Memory.VirtualAllocator.Calls

/-!
# When the virtual allocator finds room

`allocate(length)` returns exactly when some whole pages of the base range are free, and
`allocate(range)` grants every request whose pages are free.
-/

namespace UltraOS.VirtualAllocator

open List Page

structure Place (s : VirtualAllocator) (length first : Nat) : Prop where
  aligned : first % 4096 = 0
  inside : s.mBaseRange.mBegin ≤ first ∧ first + length ≤ s.mBaseRange.mEnd
  free : ∀ a, first ≤ a → a < first + length → ¬Covered s.mAllocatedRanges a

variable {s s' : VirtualAllocator} {length a gapBegin first last : Nat} {b r : Range} {ranges : List Range}

/-- `allocate(length, alignment)` takes the lowest fit, and panics if there is none. -/
lemma allocateRounded_least (h : Arranged s.mBaseRange s.mAllocatedRanges) (hb : s.mBaseRange.mEnd < addressSpace)
    (hlen : 0 < length) (ha : 0 < a ∧ a < addressSpace) :
    (∃ s' first, s.allocateRounded length a = .ok (s', ⟨first, first + length⟩) ∧
    LeastFit s.mBaseRange s.mAllocatedRanges a length first) ∨ s.allocateRounded length a = failOnAllocation length a ∧
    ∀ first, ¬Fits s.mBaseRange s.mAllocatedRanges a length first := by
  rcases allocateRounded_cases h hb hlen a with ⟨before, after, first, hroom, hrun, hleast⟩ | ⟨hrun, hnone⟩
  · obtain ⟨xs, ys, heq, rfl, rfl, -, -⟩ := hroom.gap
    rw [heq] at h hrun
    obtain ⟨ranges, hmerge⟩ := @exists_mergeAndEmplace xs ys ⟨first, first + length⟩ h.proper le_self_add
    rw [hrun, hmerge]
    exact .inl ⟨_, first, rfl, hleast ha⟩
  · exact .inr ⟨hrun, hnone ha⟩

lemma allocate_eq (hne : length ≠ 0) (ha : a % pageSize = 0) (hround : length ≤ roundUp length) :
    s.allocate length a = s.allocateRounded (roundUp length) (max a pageSize) := by
  have hmax : (if a < pageSize then pageSize else a) = max a pageSize := by split <;> omega
  have hmod : max a pageSize % pageSize = 0 := by
    rcases le_total a pageSize with hle | hle
    · rw [max_eq_right hle, Nat.mod_self]
    · rw [max_eq_left hle, ha]
  rw [allocate, assert_bind hne, hmax]
  rw [assert_bind hmod, if_neg hround.not_gt]

/-- `allocate(length, alignment)` returns the pages at the lowest aligned address at which they are free, and panics
exactly if there is none. -/
theorem allocate_leastFit (h : Arranged s.mBaseRange s.mAllocatedRanges) (hbase : s.mBaseRange.mEnd < addressSpace)
    (hlength : 0 < length) (hround : length ≤ roundUp length) (halignment : a % pageSize = 0)
    (hword : a < addressSpace) : (∃ s' first, s.allocate length a = .ok (s', ⟨first, first + roundUp length⟩) ∧
        LeastFit s.mBaseRange s.mAllocatedRanges (max a pageSize) (roundUp length) first) ∨
      s.allocate length a = failOnAllocation (roundUp length) (max a pageSize) ∧
        ∀ first, ¬Fits s.mBaseRange s.mAllocatedRanges (max a pageSize) (roundUp length) first := by
  rw [allocate_eq hlength.ne' halignment hround]
  refine allocateRounded_least h hbase (hlength.trans_le hround) ?_
  unfold pageSize addressSpace at *
  omega

def threeRanges : VirtualAllocator := ⟨⟨0x1000, 0x10000⟩, [⟨0x1000, 0x2000⟩, ⟨0x2000, 0x3000⟩, ⟨0x5000, 0x6000⟩]⟩

theorem allocate_leastFit_threeRanges :
    (∃ s' first, threeRanges.allocate 0x1800 0x4000 = .ok (s', ⟨first, first + 0x2000⟩) ∧
        LeastFit threeRanges.mBaseRange threeRanges.mAllocatedRanges 0x4000 0x2000 first) ∨
      threeRanges.allocate 0x1800 0x4000 = failOnAllocation 0x2000 0x4000 ∧
        ∀ first, ¬Fits threeRanges.mBaseRange threeRanges.mAllocatedRanges 0x4000 0x2000 first :=
  allocate_leastFit ⟨by decide, by decide, by decide⟩ (by decide) (by decide) (by decide) (by decide) (by decide)

lemma Place.fits (h : Place s length first) (htidy : Tidy s.mBaseRange s.mAllocatedRanges) (hlen : 0 < length) :
    Fits s.mBaseRange s.mAllocatedRanges pageSize length first := by
  refine ⟨Nat.dvd_of_mod_eq_zero h.aligned, h.inside, fun r hr => ?_⟩
  have hprop := htidy.proper r hr
  by_contra hin
  refine h.free (max first r.mBegin) (by omega) (by omega) ⟨r, hr, ?_⟩
  rw [Range.contains_iff]
  omega

variable {rg : Range}

lemma allocateRange_of_free (h : Kept s) (hprop : rg.mBegin < rg.mEnd) (hbound : rg.mEnd < addressSpace)
    (hcon : s.contains rg = true) (hfree : ∀ a, (pagesOf rg).contains a = true → ¬Covered s.mAllocatedRanges a) : ∃ s',
    s.allocateRange rg = .ok (s', pagesOf rg) := by
  obtain ⟨hpages, hlt, hinside⟩ := pagesOf_spec h hprop hbound hcon
  have hout : ∀ r ∈ s.mAllocatedRanges, r.contains (pagesOf rg).mBegin = false := by
    intro r hr
    rw [Bool.eq_false_iff]
    intro hin
    refine hfree (pagesOf rg).mBegin ?_ ⟨r, hr, hin⟩
    rw [Range.contains_iff]
    omega
  obtain ⟨xs, ys, heq, hends, _, hcall⟩ := allocateRange_of_not_contains h hprop hbound hcon hout
  have hafter : (ys.head?.any fun r => r.contains ((pagesOf rg).mEnd - 1)) = false := by
    rw [Bool.eq_false_iff, ne_eq, Option.any_eq_true]
    rintro ⟨r, hr, hin⟩
    refine hfree ((pagesOf rg).mEnd - 1) ?_ ⟨r, heq ▸ mem_append_right _ (mem_of_mem_head? hr), hin⟩
    rw [Range.contains_iff]
    omega
  obtain ⟨ranges, hmerge⟩ := h.exists_mergeAndEmplace heq hlt.le
  rw [hcall, hafter, if_neg (by simp), hmerge]
  exact ⟨_, rfl⟩

lemma allocateRange_base (h : s.allocateRange rg = .ok (s', r)) : s'.mBaseRange = s.mBaseRange := by
  unfold allocateRange at h
  obtain ⟨_, _, h⟩ := of_bind h
  obtain ⟨_, _, h⟩ := of_bind h
  obtain ⟨_, _, h⟩ := of_bind h
  split at h
  · cases h
    rfl
  · dsimp only at h
    split at h
    · cases h
    · split at h
      · cases h
      · obtain ⟨_, _, h⟩ := of_bind h
        cases h
        rfl

lemma exists_containsRange (h : Tidy b ranges) (hprop : rg.mBegin < rg.mEnd)
    (hcov : ∀ a, rg.contains a = true → Covered ranges a) : ∃ it ∈ ranges, it.containsRange rg = true := by
  obtain ⟨it, hit, hin⟩ := hcov rg.mBegin ((Range.contains_iff _ _).mpr ⟨le_rfl, hprop⟩)
  have hbegin := (Range.contains_iff _ _).mp hin
  refine ⟨it, hit, ?_⟩
  rw [Range.containsRange, hin, Bool.true_and, decide_eq_true_iff]
  refine not_lt.mp fun hlt => ?_
  obtain ⟨r, hr, hrin⟩ := hcov it.mEnd ((Range.contains_iff _ _).mpr (by omega))
  have hend := (Range.contains_iff _ _).mp hrin
  obtain ⟨xs, ys, rfl⟩ := append_of_mem hit
  obtain ⟨_, hback, hcross⟩ := tidy_append.mp h
  rcases mem_append.mp hr with hr | hr
  · have hlt := hcross r hr it mem_cons_self
    omega
  · rcases mem_cons.mp hr with rfl | hr
    · omega
    · have hlt := (pairwise_cons.mp hback.apart).1 r hr
      omega

lemma deallocate_of_covered (h : Kept s) (hprop : rg.mBegin < rg.mEnd) (hbegin : rg.mBegin % pageSize = 0)
    (hlen : rg.length % pageSize = 0) (hcov : ∀ a, rg.contains a = true → Covered s.mAllocatedRanges a) : ∃ s',
    s.deallocate rg = .ok s' ∧ Released s s' rg ∧ s'.mBaseRange = s.mBaseRange := by
  obtain ⟨it, hit, hin⟩ := exists_containsRange h.tidy hprop hcov
  obtain ⟨hitBegin, hitEnd⟩ := h.tidy.inside it hit
  have hbounds : it.mBegin ≤ rg.mBegin ∧ rg.mEnd ≤ it.mEnd := by
    rw [Range.containsRange, Bool.and_eq_true, Range.contains_iff, decide_eq_true_iff] at hin
    exact ⟨hin.1.1, hin.2⟩
  have hcon : s.contains rg = true := (contains_iff hprop (by have := h.bounded; omega)).mpr (by omega)
  obtain ⟨xs, ys, heq⟩ := append_of_mem hit
  have hrun := deallocate_eq h heq hprop.le hbegin hlen hcon hin
  refine ⟨_, hrun, deallocate_spec h hprop.le (fun hcuts => ?_) hrun, rfl⟩
  have hempty := (Range.empty_iff _).mp hcuts.1
  omega

end UltraOS.VirtualAllocator
