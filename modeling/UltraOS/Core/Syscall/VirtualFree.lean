import UltraOS.Core.Syscall.VirtualAlloc

/-!
# VIRTUAL_FREE

The system call of `Kernel/Core/Syscall.cpp` that gives a region back. It calls `free_virtual_region` with
the lock of the process held, and that takes the lock once more unless the region is a stack: the stack of
the main thread is the only region of a process that it can free.
-/

namespace UltraOS.Syscall

open VirtualAllocator List UserProcess

def isExactly (region : VirtualRegion) (range : Range) : Bool :=
  region.virtualRange.mBegin == range.mBegin && region.virtualRange.length == range.length

def virtualFree (p : UserProcess) (arg0 arg1 : Nat) : Run (UserProcess × ErrorCode) := do
  let range ← Range.ofLength arg0 arg1
  let p ← p.lock
  match p.lowerBound range.mBegin with
  | none => return (p.unlock, .invalidArgument)
  | some region =>
    if !isExactly region range then return (p.unlock, .invalidArgument)
    else
      let p ← p.freeVirtualRegion region
      let p ← p.remove region
      return (p.unlock, .noError)

/-- What is left when a region has been freed. The process is as sound as before. -/
structure Freed (p p' : UserProcess) (region : VirtualRegion) : Prop where
  regions : ∀ r, r ∈ p'.virtualRegions ↔ r ∈ p.virtualRegions ∧ r ≠ region
  covers : ∀ a, Covered p'.allocator.mAllocatedRanges a ↔
    Covered p.allocator.mAllocatedRanges a ∧ region.virtualRange.contains a = false
  released : p'.releasedPages = p.releasedPages ++ if region.type.ownsPages then [region.virtualRange] else []
  sound : p'.Sound

/-- The region with exactly these bounds is freed, or there is none and nothing changes. -/
def FreeMeets (p : UserProcess) (arg0 arg1 : Nat) : Prop :=
  (∃ region ∈ p.virtualRegions, region.virtualRange.mBegin = arg0 ∧ region.virtualRange.length = arg1 ∧
    ∃ p', virtualFree p arg0 arg1 = .ok (p', .noError) ∧ Freed p p' region) ∨
  (∀ region ∈ p.virtualRegions, ¬(region.virtualRange.mBegin = arg0 ∧ region.virtualRange.length = arg1)) ∧
    virtualFree p arg0 arg1 = .ok (p, .invalidArgument)

/-- The end does not wrap around, and a region with these bounds is a stack. -/
def FreeFits (p : UserProcess) (arg0 arg1 : Nat) : Prop :=
  arg0 + arg1 < addressSpace ∧ ∀ region ∈ p.virtualRegions,
    region.virtualRange.mBegin = arg0 → region.virtualRange.length = arg1 → region.isStack = true

instance (p : UserProcess) (arg0 arg1 : Nat) : Decidable (FreeFits p arg0 arg1) :=
  inferInstanceAs (Decidable (_ ∧ _))

section

variable {p : UserProcess} {reg : VirtualRegion} {arg0 arg1 : Nat}

lemma isExactly_iff : isExactly reg ⟨arg0, arg0 + arg1⟩ = true ↔
    reg.virtualRange.mBegin = arg0 ∧ reg.virtualRange.length = arg1 := by
  have hlen : Range.length ⟨arg0, arg0 + arg1⟩ = arg1 := Nat.add_sub_cancel_left arg0 arg1
  rw [isExactly, Bool.and_eq_true, beq_iff_eq, beq_iff_eq, hlen]

variable (h : p.Sound) (hbound : arg0 + arg1 < addressSpace) (hreg : reg ∈ p.virtualRegions)

include h hreg in
lemma lowerBound_of_mem : p.lowerBound reg.virtualRange.mBegin = some reg := by
  obtain ⟨xs, ys, heq⟩ := append_of_mem hreg
  have hordered := h.ordered
  rw [heq] at hordered
  obtain ⟨_, hback, hcross⟩ := pairwise_append.mp hordered
  rw [UserProcess.lowerBound, heq, OrderedSet.lowerBound_append, List.head?_cons]
  · intro r hr
    exact hcross r hr reg mem_cons_self
  · intro r hr
    refine decide_eq_false (not_lt.mpr ?_)
    rcases mem_cons.mp hr with rfl | hr
    · exact le_rfl
    · exact le_of_lt ((VirtualRegion.less_iff _ _).mp ((pairwise_cons.mp hback).1 r hr))

lemma eq_of_mBegin_eq (h : p.Sound) {l r : VirtualRegion} (hl : l ∈ p.virtualRegions)
    (hr : r ∈ p.virtualRegions) (heq : l.virtualRange.mBegin = r.virtualRange.mBegin) : l = r := by
  refine Classical.byContradiction fun hne => ?_
  have hl' := h.proper l hl
  have hr' := h.proper r hr
  have hapart := h.apart l hl r hr hne
  omega

lemma unlock_lock (hunl : p.isLocked = false) : { p with isLocked := true }.unlock = p := by rw [unlock, ← hunl]

include h hbound in
lemma virtualFree_of_none (hnone : ∀ reg ∈ p.virtualRegions, ¬(reg.virtualRange.mBegin = arg0 ∧
    reg.virtualRange.length = arg1)) : virtualFree p arg0 arg1 = .ok (p, .invalidArgument) := by
  rw [virtualFree, Range.ofLength_eq_ok hbound, ok_bind, lock, h.unlocked, if_neg (by simp), ok_bind]
  split
  · rw [unlock_lock h.unlocked]
    rfl
  · rename_i reg hfound
    have hmem : reg ∈ p.virtualRegions := mem_of_find?_eq_some hfound
    have hu : isExactly reg ⟨arg0, arg0 + arg1⟩ = false :=
      Bool.eq_false_iff.mpr fun hexact => hnone reg hmem (isExactly_iff.mp hexact)
    rw [hu, unlock_lock h.unlocked]
    rfl

include h hbound hreg in
lemma virtualFree_of_mem (hbegin : reg.virtualRange.mBegin = arg0) (hlen : reg.virtualRange.length = arg1) :
    virtualFree p arg0 arg1 = do
      let p' ← { p with isLocked := true }.freeVirtualRegion reg
      let p' ← p'.remove reg
      return (p'.unlock, .noError) := by
  have hfound := lowerBound_of_mem h hreg
  replace hfound : { p with isLocked := true }.lowerBound arg0 = some reg := hbegin ▸ hfound
  rw [virtualFree, Range.ofLength_eq_ok hbound, ok_bind, lock, h.unlocked, if_neg (by simp), ok_bind]
  rw [hfound]
  dsimp only
  rw [isExactly_iff.mpr ⟨hbegin, hlen⟩]
  rfl

end

section

variable {p : UserProcess} {reg : VirtualRegion} {arg0 arg1 : Nat} (h : p.Sound) (hreg : reg ∈ p.virtualRegions)

include h hreg in
lemma deallocate_of_mem : ∃ allocator, p.allocator.deallocate reg.virtualRange = .ok allocator ∧
    Released p.allocator allocator reg.virtualRange ∧ allocator.mBaseRange = p.allocator.mBaseRange := by
  have hprop := h.proper reg hreg
  obtain ⟨hbegin, hend⟩ := h.pages reg hreg
  refine deallocate_of_covered h.kept hprop hbegin ?_ (h.allocated reg hreg)
  rw [pageSize] at *
  rw [Range.length]
  omega

lemma remove_markAsReleased : OrderedSet.remove VirtualRegion.less reg (p.markAsReleased reg).virtualRegions =
    p.virtualRegions.filter fun r => r.virtualRange.mBegin ≠ reg.virtualRange.mBegin := by
  rw [OrderedSet.remove, markAsReleased, filter_map]
  have hkept : (fun r => VirtualRegion.less r reg || VirtualRegion.less reg r) ∘
      (fun r : VirtualRegion => if r.virtualRange.mBegin = reg.virtualRange.mBegin then
        { r with isReleased := true } else r) =
      fun r => decide (r.virtualRange.mBegin ≠ reg.virtualRange.mBegin) := by
    funext r
    rw [Function.comp_apply, Bool.eq_iff_iff, Bool.or_eq_true, VirtualRegion.less_iff,
      VirtualRegion.less_iff, decide_eq_true_iff]
    split
    · dsimp only
      omega
    · omega
  rw [hkept]
  refine (map_congr_left fun r hr => ?_).trans (map_id _)
  rw [if_neg (of_decide_eq_true (mem_filter.mp hr).2)]
  rfl

variable {allocator : VirtualAllocator}

include h hreg in
lemma freed_of_released (hrel : Released p.allocator allocator reg.virtualRange)
    (hb : allocator.mBaseRange = p.allocator.mBaseRange) :
    Freed p { p with
      allocator := allocator
      virtualRegions := p.virtualRegions.filter fun r => r.virtualRange.mBegin ≠ reg.virtualRange.mBegin
      releasedPages :=
        p.releasedPages ++ if reg.type.ownsPages then [reg.virtualRange] else [] } reg := by
  have hleft : ∀ r, r ∈ p.virtualRegions.filter
      (fun r => r.virtualRange.mBegin ≠ reg.virtualRange.mBegin) ↔ r ∈ p.virtualRegions ∧ r ≠ reg := by
    intro r
    rw [mem_filter, decide_eq_true_iff]
    refine and_congr_right fun hr => not_congr ⟨fun heq => eq_of_mBegin_eq h hr hreg heq, ?_⟩
    intro heq
    rw [heq]
  refine ⟨hleft, hrel.covers, rfl, ?_⟩
  exact {
    kept := hrel.kept
    base := hb.trans h.base
    ordered := h.ordered.filter _
    proper := fun r hr => h.proper r ((hleft r).mp hr).1
    pages := fun r hr => h.pages r ((hleft r).mp hr).1
    allocated := by
      intro r hr a ha
      obtain ⟨hold, hne⟩ := (hleft r).mp hr
      refine (hrel.covers a).mpr ⟨h.allocated r hold a ha, Bool.eq_false_iff.mpr fun hin => ?_⟩
      have hapart := h.apart r hold reg hreg hne
      rw [Range.contains_iff] at ha hin
      omega
    apart := fun l hl r hr => h.apart l ((hleft l).mp hl).1 r ((hleft r).mp hr).1
    live := fun r hr => h.live r ((hleft r).mp hr).1
    ofStacks := fun r hr => h.ofStacks r ((hleft r).mp hr).1
    unlocked := h.unlocked }

include h hreg in
lemma freeVirtualRegion_of_mem (hrun : p.allocator.deallocate reg.virtualRange = .ok allocator) :
    { p with isLocked := true }.freeVirtualRegion reg = if reg.isStack then .ok { p with
        isLocked := true
        allocator := allocator
        virtualRegions := (p.markAsReleased reg).virtualRegions
        releasedPages :=
          p.releasedPages ++ if reg.type.ownsPages then [reg.virtualRange] else [] }
      else .error .outOfFuel := by
  obtain ⟨heternal, hrel⟩ := h.live reg hreg
  rw [freeVirtualRegion, heternal, hrel]
  rw [Bool.not_false, assert_true, ok_bind, assert_true, ok_bind, releasePages_eq]
  dsimp only [markAsReleased]
  rw [hrun, ok_bind]
  rfl

include hreg in
lemma remove_of_marked {p' : UserProcess} (hp' : p'.virtualRegions = (p.markAsReleased reg).virtualRegions) :
    p'.remove reg = .ok { p' with
      virtualRegions :=
        p.virtualRegions.filter fun r => r.virtualRange.mBegin ≠ reg.virtualRange.mBegin } := by
  have hany : (p'.virtualRegions.any fun r =>
      r.virtualRange.mBegin == reg.virtualRange.mBegin) = true := by
    rw [hp', markAsReleased, any_map]
    refine any_eq_true.mpr ⟨reg, hreg, ?_⟩
    rw [Function.comp_apply, if_pos rfl, beq_self_eq_true]
  rw [remove, if_pos hany, hp', remove_markAsReleased]

end

/-- `VIRTUAL_FREE` frees the region or refuses exactly when the end does not wrap around and the region is a
stack. Otherwise it waits for the lock that it holds itself. -/
theorem freeMeets_iff (p : UserProcess) (h : p.Sound) (arg0 arg1 : Nat) (hword : arg1 < addressSpace) :
    FreeMeets p arg0 arg1 ↔ FreeFits p arg0 arg1 := by
  constructor
  · intro hmeets
    obtain ⟨res, hrun⟩ : ∃ res, virtualFree p arg0 arg1 = .ok res := by
      rcases hmeets with ⟨_, _, _, _, _, hrun, _⟩ | ⟨_, hrun⟩
      · exact ⟨_, hrun⟩
      · exact ⟨_, hrun⟩
    obtain ⟨r, hr, _⟩ := of_bind hrun
    have hbound := Range.lt_of_ofLength hword hr
    refine ⟨hbound, fun reg hreg hbegin hlen => Classical.byContradiction fun hstack => ?_⟩
    obtain ⟨allocator, hdealloc, _⟩ := deallocate_of_mem h hreg
    rw [virtualFree_of_mem h hbound hreg hbegin hlen, freeVirtualRegion_of_mem h hreg hdealloc, if_neg hstack] at hrun
    cases hrun
  · intro hfits
    obtain ⟨hbound, hstacks⟩ := hfits
    by_cases hsome : ∃ reg ∈ p.virtualRegions, reg.virtualRange.mBegin = arg0 ∧ reg.virtualRange.length = arg1
    · obtain ⟨reg, hreg, hbegin, hlen⟩ := hsome
      obtain ⟨allocator, hdealloc, hrel, hb⟩ := deallocate_of_mem h hreg
      refine .inl ⟨reg, hreg, hbegin, hlen, _, ?_, freed_of_released h hreg hrel hb⟩
      rw [virtualFree_of_mem h hbound hreg hbegin hlen,
        freeVirtualRegion_of_mem h hreg hdealloc, if_pos (hstacks reg hreg hbegin hlen),
        ok_bind]
      refine bind_eq_ok.mpr ⟨_, remove_of_marked hreg rfl, ?_⟩
      rw [unlock, h.unlocked]
      rfl
    · have hnone : ∀ reg ∈ p.virtualRegions, ¬(reg.virtualRange.mBegin = arg0 ∧ reg.virtualRange.length = arg1) :=
        fun reg hreg hexact => hsome ⟨reg, hreg, hexact⟩
      exact .inr ⟨hnone, virtualFree_of_none h hbound hnone⟩

def stackAndRegion : UserProcess where
  allocator := ⟨⟨userspaceUsableBase, userspaceUsableCeiling⟩, [⟨0x200000, 0x202000⟩, ⟨0x300000, 0x304000⟩]⟩
  virtualRegions :=
    [{ virtualRange := ⟨0x200000, 0x202000⟩ }, { virtualRange := ⟨0x300000, 0x304000⟩, isStack := true }]

lemma stackAndRegion_sound : stackAndRegion.Sound where
  kept := ⟨by decide, by decide, ⟨by decide, by decide, by decide⟩⟩
  base := rfl
  ordered := by decide
  proper := by decide
  pages := by decide
  allocated := by
    intro reg hreg a ha
    rcases mem_cons.mp hreg with rfl | hreg
    · exact ⟨_, mem_cons_self, ha⟩
    · obtain rfl := mem_singleton.mp hreg
      exact ⟨_, mem_cons_of_mem _ mem_cons_self, ha⟩
  apart := by decide
  live := by decide
  ofStacks := by decide
  unlocked := rfl

theorem freeMeets_stack : FreeMeets stackAndRegion 0x300000 0x4000 ∧ FreeMeets stackAndRegion 0x200000 0x1000 :=
  ⟨(freeMeets_iff stackAndRegion stackAndRegion_sound 0x300000 0x4000 (by decide)).mpr (by decide),
    (freeMeets_iff stackAndRegion stackAndRegion_sound 0x200000 0x1000 (by decide)).mpr (by decide)⟩

lemma not_freeMeets_of_stop {p : UserProcess} {arg0 arg1 : Nat}
    (h : (virtualFree p arg0 arg1).toOption = none) : ¬FreeMeets p arg0 arg1 := by
  intro hmeets
  rcases hmeets with ⟨_, _, _, _, _, hrun, _⟩ | ⟨_, hrun⟩
  · rw [hrun] at h
    cases h
  · rw [hrun] at h
    cases h

/-- A region that `VIRTUAL_ALLOC` has made, and an end that wraps around. -/
theorem not_freeMeets : virtualFree stackAndRegion 0x200000 0x2000 = .error .outOfFuel ∧
    ¬FreeMeets stackAndRegion 0x200000 0x2000 ∧ ¬FreeMeets stackAndRegion 0xFFFFFFFFFFFFF000 0x1000 :=
  ⟨by decide, not_freeMeets_of_stop (by decide), not_freeMeets_of_stop (by decide)⟩

end UltraOS.Syscall
