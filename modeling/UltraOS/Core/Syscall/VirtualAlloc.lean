import UltraOS.Memory.VirtualRegion

/-!
# VIRTUAL_ALLOC

The system call of `Kernel/Core/Syscall.cpp` that gives a process new memory. Its arguments reach code that
was written for callers in the kernel: the constructor of a range stops when the end wraps around, and the
allocator stops when it cannot grant the request.
-/

namespace UltraOS.Syscall

open VirtualAllocator Page OrderedSet

def emplaceRegion (p : UserProcess) (virtualRange : Range) : Run (UserProcess × ErrorOr Nat) := do
  let p ← p.lock
  let p := { p with
    virtualRegions :=
      emplace VirtualRegion.less { virtualRange := virtualRange } p.virtualRegions }
  return (p.unlock, .ok virtualRange.mBegin)

def virtualAlloc (p : UserProcess) (arg0 arg1 : Nat) : Run (UserProcess × ErrorOr Nat) := do
  let range ← Range.ofLength arg0 (roundUp arg1)
  if range.mBegin % pageSize ≠ 0 then return (p, .error .invalidArgument)
  else if range.mBegin ≠ 0 then
    if !isPotentiallyValidUserspacePointer range.mBegin then return (p, .error .invalidArgument)
    else if !isPotentiallyValidUserspacePointer range.mEnd then return (p, .error .invalidArgument)
    else
      let (allocator, virtualRange) ← p.allocator.allocateRange range
      emplaceRegion { p with allocator := allocator } virtualRange
  else
    let (allocator, virtualRange) ← p.allocator.allocate range.length pageSize
    emplaceRegion { p with allocator := allocator } virtualRange

/-- What a new region has to be. The process is as sound as before. -/
structure NewRegion (p p' : UserProcess) (arg0 length address : Nat) : Prop where
  aligned : address % pageSize = 0
  inside : userspaceUsableBase ≤ address ∧ address + length ≤ userspaceUsableCeiling
  based : arg0 ≠ 0 → address = arg0
  fresh : ∀ a, address ≤ a → a < address + length → ¬Covered p.allocator.mAllocatedRanges a
  disjoint : ∀ region ∈ p.virtualRegions,
    region.virtualRange.mEnd ≤ address ∨ address + length ≤ region.virtualRange.mBegin
  stored : ∀ region, region ∈ p'.virtualRegions ↔
    region = { virtualRange := ⟨address, address + length⟩ } ∨ region ∈ p.virtualRegions
  sound : p'.Sound

/-- The call returns an error and changes nothing, or returns a new region. -/
def AllocMeets (p : UserProcess) (arg0 arg1 : Nat) : Prop :=
  (∃ code, virtualAlloc p arg0 arg1 = .ok (p, .error code)) ∨
    ∃ p' address, virtualAlloc p arg0 arg1 = .ok (p', .ok address) ∧ NewRegion p p' arg0 (roundUp arg1) address

def AllocRefused (arg0 length : Nat) : Prop :=
  arg0 % pageSize ≠ 0 ∨ arg0 ≠ 0 ∧ (¬InUserSpace arg0 ∨ ¬InUserSpace (arg0 + length))

/-- The rounded length is not zero and does not wrap around, and there is room where it is asked for. -/
def AllocFits (p : UserProcess) (arg0 arg1 : Nat) : Prop :=
  arg0 + roundUp arg1 < addressSpace ∧ (AllocRefused arg0 (roundUp arg1) ∨ roundUp arg1 ≠ 0 ∧
      ∃ first, Place p.allocator (roundUp arg1) first ∧ (arg0 ≠ 0 → first = arg0))

instance (arg0 length : Nat) : Decidable (AllocRefused arg0 length) :=
  inferInstanceAs (Decidable (_ ∨ _ ∧ (_ ∨ _)))

variable {addr : Nat} {allocator : VirtualAllocator} {virtualRange : Range}

section

variable {p : UserProcess} {arg0 arg1 length : Nat}

def request (p : UserProcess) (arg0 length : Nat) : Run (VirtualAllocator × Range) :=
  if arg0 ≠ 0 then p.allocator.allocateRange ⟨arg0, arg0 + length⟩
  else p.allocator.allocate length pageSize

lemma isPotentiallyValid_eq_false (h : ¬InUserSpace addr) : isPotentiallyValidUserspacePointer addr = false :=
  Bool.eq_false_iff.mpr fun htrue => h ((isPotentiallyValidUserspacePointer_iff addr).mp htrue)

variable (h : arg0 + roundUp arg1 < addressSpace) (hrefused : ¬AllocRefused arg0 (roundUp arg1))

include h in
lemma virtualAlloc_of_refused (hrefused : AllocRefused arg0 (roundUp arg1)) :
    virtualAlloc p arg0 arg1 = .ok (p, .error .invalidArgument) := by
  rw [virtualAlloc, Range.ofLength_eq_ok h, ok_bind]
  split
  · rfl
  · rename_i hal
    obtain ⟨hne, houtside⟩ := hrefused.resolve_left hal
    rw [if_pos hne]
    split
    · rfl
    · rename_i hfirst
      have hlast := houtside.resolve_left fun hout => by simp [isPotentiallyValid_eq_false hout] at hfirst
      rw [isPotentiallyValid_eq_false hlast]
      rfl

include h hrefused

lemma virtualAlloc_of_request : virtualAlloc p arg0 arg1 =
      request p arg0 (roundUp arg1) >>= fun (allocator, virtualRange) =>
        emplaceRegion { p with allocator := allocator } virtualRange := by
  obtain ⟨hal, hin⟩ := not_or.mp hrefused
  rw [virtualAlloc, Range.ofLength_eq_ok h, ok_bind]
  rw [if_neg hal, request]
  split
  · rename_i hne
    obtain ⟨hfirst, hlast⟩ := not_or.mp (not_and.mp hin hne)
    rw [(isPotentiallyValidUserspacePointer_iff _).mpr (not_not.mp hfirst),
      (isPotentiallyValidUserspacePointer_iff _).mpr (not_not.mp hlast)]
    rfl
  · rw [Range.length, Nat.add_sub_cancel_left]

lemma virtualAlloc_of_granted (hunl : p.isLocked = false)
    (hreq : request p arg0 (roundUp arg1) = .ok (allocator, virtualRange)) :
    virtualAlloc p arg0 arg1 = .ok ({ p with
      allocator := allocator
      virtualRegions := emplace VirtualRegion.less { virtualRange := virtualRange }
        p.virtualRegions }, .ok virtualRange.mBegin) := by
  rw [virtualAlloc_of_request h hrefused, hreq, ok_bind]
  dsimp only
  rw [emplaceRegion, UserProcess.lock, hunl, if_neg (by simp), ok_bind]
  rfl

end

section

variable {p : UserProcess} {arg0 length : Nat}

lemma newRegion_of_taken (h : p.Sound) (hal : addr % pageSize = 0) (hlen : length % pageSize = 0) (hpos : 0 < length)
    (hin : userspaceUsableBase ≤ addr ∧ addr + length ≤ userspaceUsableCeiling)
    (hbased : arg0 ≠ 0 → addr = arg0) (hb : allocator.mBaseRange = p.allocator.mBaseRange)
    (htaken : Taken p.allocator allocator ⟨addr, addr + length⟩) :
    NewRegion p { p with
      allocator := allocator
      virtualRegions := emplace VirtualRegion.less
        { virtualRange := ⟨addr, addr + length⟩ } p.virtualRegions } arg0 length addr := by
  have hfresh : ∀ a, addr ≤ a → a < addr + length → ¬Covered p.allocator.mAllocatedRanges a := fun a hle hlt =>
    htaken.fresh a ((Range.contains_iff _ _).mpr ⟨hle, hlt⟩)
  have hdisj : ∀ reg ∈ p.virtualRegions, reg.virtualRange.mEnd ≤ addr ∨ addr + length ≤ reg.virtualRange.mBegin := by
    intro reg hreg
    have hprop := h.proper reg hreg
    refine Classical.byContradiction fun hnot => ?_
    refine hfresh (max addr reg.virtualRange.mBegin) (by omega) (by omega)
      (h.allocated reg hreg _ ((Range.contains_iff _ _).mpr (by omega)))
  have hcompare : ∀ reg ∈ p.virtualRegions, VirtualRegion.less { virtualRange := ⟨addr, addr + length⟩ } reg = true ∨
        VirtualRegion.less reg { virtualRange := ⟨addr, addr + length⟩ } = true := by
    intro reg hreg
    have hprop := h.proper reg hreg
    have hdis := hdisj reg hreg
    rw [VirtualRegion.less_iff, VirtualRegion.less_iff]
    dsimp only
    omega
  have hst : ∀ reg, reg ∈ emplace VirtualRegion.less { virtualRange := ⟨addr, addr + length⟩ } p.virtualRegions ↔
        reg = { virtualRange := ⟨addr, addr + length⟩ } ∨ reg ∈ p.virtualRegions :=
    fun reg => mem_emplace hcompare
  refine ⟨hal, hin, hbased, hfresh, hdisj, hst, htaken.kept, hb.trans h.base,
    pairwise_emplace VirtualRegion.less_trans hcompare h.ordered, ?_, ?_, ?_, ?_, ?_, ?_,
    h.unlocked⟩
  · intro reg hreg
    rcases (hst reg).mp hreg with rfl | hold
    · exact Nat.lt_add_of_pos_right hpos
    · exact h.proper reg hold
  · intro reg hreg
    rcases (hst reg).mp hreg with rfl | hold
    · refine ⟨hal, ?_⟩
      rw [Nat.add_mod, hal, hlen]
      rfl
    · exact h.pages reg hold
  · intro reg hreg a ha
    rcases (hst reg).mp hreg with rfl | hold
    · exact (htaken.covers a).mpr (.inr ha)
    · exact (htaken.covers a).mpr (.inl (h.allocated reg hold a ha))
  · intro l hl r hr hne
    rcases (hst l).mp hl with rfl | hlold
    · rcases (hst r).mp hr with rfl | hrold
      · exact absurd rfl hne
      · exact (hdisj r hrold).symm
    · rcases (hst r).mp hr with rfl | hrold
      · exact hdisj l hlold
      · exact h.apart l hlold r hrold hne
  · intro reg hreg
    rcases (hst reg).mp hreg with rfl | hold
    · exact ⟨rfl, rfl⟩
    · exact h.live reg hold
  · intro reg hreg hstack
    rcases (hst reg).mp hreg with rfl | hold
    · rfl
    · exact h.ofStacks reg hold hstack

variable {first : Nat}

lemma pagesOf_eq_self (hfirst : first % 4096 = 0) (hlen : length % 4096 = 0) :
    pagesOf ⟨first, first + length⟩ = ⟨first, first + length⟩ := by
  have hfloor := floor_spec first
  have hceil := ceil_spec (first + length)
  rw [pagesOf]
  rw [show floor first = first by omega, show ceil (first + length) = first + length by omega]

lemma request_of_place (h : p.Sound) (hbound : arg0 + length < addressSpace)
    (hlen : length % pageSize = 0) (hpos : 0 < length) (hp : Place p.allocator length first)
    (hbased : arg0 ≠ 0 → first = arg0) :
    ∃ allocator addr, request p arg0 length = .ok (allocator, ⟨addr, addr + length⟩) ∧
      NewRegion p { p with
        allocator := allocator
        virtualRegions := emplace VirtualRegion.less
          { virtualRange := ⟨addr, addr + length⟩ } p.virtualRegions } arg0 length addr := by
  have hb := h.base
  by_cases hne : arg0 ≠ 0
  · obtain rfl := hbased hne
    obtain ⟨hal, hin, hfree⟩ := hp
    have hpages := pagesOf_eq_self hal hlen
    have hprop : first < first + length := Nat.lt_add_of_pos_right hpos
    have hcon : p.allocator.contains ⟨first, first + length⟩ = true := (contains_iff hprop hbound).mpr hin
    have hencloses : ¬Encloses p.allocator ⟨first, first + length⟩ := by
      intro hencloses
      obtain ⟨_, _, _, r, hr, hbegin, hend⟩ := hencloses
      have hrproper := h.kept.tidy.proper r hr
      rw [hpages] at hbegin hend
      dsimp only at hbegin hend
      refine hfree r.mBegin (by omega) (by omega) ⟨r, hr, ?_⟩
      rw [Range.contains_iff]
      omega
    obtain ⟨allocator, hrun⟩ := allocateRange_of_free h.kept hprop hbound hcon fun a ha => by
      rw [hpages, Range.contains_iff] at ha
      exact hfree a ha.1 ha.2
    obtain ⟨_, htaken⟩ := allocateRange_spec h.kept hprop.le hbound hencloses hrun
    rw [hpages] at hrun htaken
    refine ⟨allocator, first, ?_, ?_⟩
    · rw [request, if_pos hne, hrun]
    · rw [hb] at hin
      exact newRegion_of_taken h hal hlen hpos hin hbased (allocateRange_base hrun) htaken
  · rcases @allocateRounded_least p.allocator length pageSize h.kept.tidy.arranged h.kept.bounded hpos (by decide) with
      ⟨allocator, addr, hrun, hfits, -⟩ | ⟨-, hnone⟩
    · obtain ⟨htaken, hsame⟩ := allocateRounded_spec pageSize h.kept hpos hrun
      have hround := roundUp_eq_self hlen hpos.ne'
      have hin := hfits.inside
      refine ⟨allocator, addr, ?_, ?_⟩
      · rw [request, if_neg hne, allocate_eq hpos.ne' rfl hround.symm.le, hround, Nat.max_self, hrun]
      · rw [hb] at hin
        exact newRegion_of_taken h (Nat.mod_eq_zero_of_dvd hfits.aligned) hlen hpos hin
          (fun h => absurd h hne) hsame htaken
    · exact absurd (hp.fits h.kept.tidy hpos) (hnone first)

lemma length_pos_of_request (hrun : request p arg0 length = .ok (allocator, virtualRange)) : 0 < length := by
  rw [request] at hrun
  split at hrun
  · have hprop := (accepted_of_allocateRange le_self_add hrun).1
    dsimp only at hprop
    omega
  · rw [VirtualAllocator.allocate] at hrun
    obtain ⟨_, has, _⟩ := of_bind hrun
    exact Nat.pos_of_ne_zero (of_decide_eq_true (assert_eq_ok.mp has))

end

/-- `VIRTUAL_ALLOC` returns an error or a new region exactly when the rounded length does not wrap around
and the request is refused or there is room for it. -/
theorem allocMeets_iff (p : UserProcess) (h : p.Sound) (arg0 arg1 : Nat) (hword : arg1 < addressSpace) :
    AllocMeets p arg0 arg1 ↔ AllocFits p arg0 arg1 := by
  have hmod := roundUp_mod arg1
  constructor
  · intro hmeets
    obtain ⟨p', res, hrun⟩ : ∃ p' res, virtualAlloc p arg0 arg1 = .ok (p', res) := by
      rcases hmeets with ⟨code, hrun⟩ | ⟨p', addr, hrun, _⟩
      · exact ⟨_, _, hrun⟩
      · exact ⟨_, _, hrun⟩
    obtain ⟨r, hr, _⟩ := of_bind hrun
    have hbound := Range.lt_of_ofLength (roundUp_lt hword) hr
    refine ⟨hbound, ?_⟩
    by_cases hrefused : AllocRefused arg0 (roundUp arg1)
    · exact .inl hrefused
    · rw [virtualAlloc_of_request hbound hrefused] at hrun
      obtain ⟨⟨allocator, virtualRange⟩, hreq, _⟩ := of_bind hrun
      have hpos := length_pos_of_request hreq
      refine .inr ⟨hpos.ne', ?_⟩
      rcases hmeets with ⟨code, herror⟩ | ⟨p'', addr, _, hnew⟩
      · rw [virtualAlloc_of_granted hbound hrefused h.unlocked hreq] at herror
        exact nomatch congrArg Prod.snd (Except.ok.inj herror)
      · refine ⟨addr, ⟨hnew.aligned, ?_, hnew.fresh⟩, hnew.based⟩
        rw [h.base]
        exact hnew.inside
  · intro hfits
    obtain ⟨hbound, hor⟩ := hfits
    by_cases hrefused : AllocRefused arg0 (roundUp arg1)
    · exact .inl ⟨_, virtualAlloc_of_refused hbound hrefused⟩
    · obtain ⟨hne, first, hp, hbased⟩ := hor.resolve_left hrefused
      obtain ⟨allocator, addr, hreq, hnew⟩ := request_of_place h hbound hmod (Nat.pos_of_ne_zero hne) hp hbased
      exact .inr ⟨_, addr, virtualAlloc_of_granted hbound hrefused h.unlocked hreq, hnew⟩

def oneRegion : UserProcess where
  allocator := ⟨⟨userspaceUsableBase, userspaceUsableCeiling⟩, [⟨0x200000, 0x202000⟩]⟩
  virtualRegions := [{ virtualRange := ⟨0x200000, 0x202000⟩ }]

lemma oneRegion_sound : oneRegion.Sound where
  kept := ⟨by decide, by decide, ⟨by decide, by decide, by decide⟩⟩
  base := rfl
  ordered := by decide
  proper := by decide
  pages := by decide
  allocated := by
    intro reg hreg a ha
    obtain rfl := List.mem_singleton.mp hreg
    exact ⟨_, List.mem_singleton.mpr rfl, ha⟩
  apart := by decide
  live := by decide
  ofStacks := by decide
  unlocked := rfl

theorem allocMeets_oneRegion : AllocMeets oneRegion 0 1 ∧ AllocMeets oneRegion 0x202000 0x2000 := by
  have hcov : ∀ a, Covered oneRegion.allocator.mAllocatedRanges a → 0x200000 ≤ a ∧ a < 0x202000 := by
    intro a hcov
    obtain ⟨r, hr, hin⟩ := hcov
    obtain rfl := List.mem_singleton.mp hr
    exact (Range.contains_iff _ _).mp hin
  constructor
  · refine (allocMeets_iff oneRegion oneRegion_sound 0 1 (by decide)).mpr ⟨by decide, .inr ⟨by decide,
      userspaceUsableBase, ⟨by decide, by decide, fun a hle hlt ha => ?_⟩, fun h => absurd rfl h⟩⟩
    have hin := hcov a ha
    replace hlt : a < 0x101000 := hlt
    omega
  · refine (allocMeets_iff oneRegion oneRegion_sound 0x202000 0x2000 (by decide)).mpr ⟨by decide, .inr
      ⟨by decide, 0x202000, ⟨by decide, by decide, fun a hle hlt ha => ?_⟩, fun _ => rfl⟩⟩
    have hin := hcov a ha
    omega

lemma not_allocMeets_of_stop {p : UserProcess} {arg0 arg1 : Nat}
    (h : (virtualAlloc p arg0 arg1).toOption = none) : ¬AllocMeets p arg0 arg1 := by
  intro hmeets
  rcases hmeets with ⟨code, hrun⟩ | ⟨p', addr, hrun, _⟩
  · rw [hrun] at h
    cases h
  · rw [hrun] at h
    cases h

/-- A length that wraps around to zero, an end that wraps around, pages that are in use, more than there is,
and a request that encloses the region. -/
theorem not_allocMeets : ¬AllocMeets oneRegion 0 0xFFFFFFFFFFFFFFFF ∧
    ¬AllocMeets oneRegion 0xFFFFFFFFFFFFF000 0x2000 ∧ ¬AllocMeets oneRegion 0x200000 0x1000 ∧
    ¬AllocMeets oneRegion 0 0x800000000000 ∧ ¬AllocMeets oneRegion 0x1FF000 0x4000 := by
  refine ⟨not_allocMeets_of_stop (by decide), not_allocMeets_of_stop (by decide),
    not_allocMeets_of_stop (by decide), not_allocMeets_of_stop (by decide), fun hmeets => ?_⟩
  rcases hmeets with ⟨code, hrun⟩ | ⟨p', addr, _, hnew⟩
  · have hgranted : (virtualAlloc oneRegion 0x1FF000 0x4000).toOption.map (fun r => r.2.toOption) =
        some (some 0x1FF000) := by decide
    rw [hrun] at hgranted
    cases hgranted
  · obtain rfl := hnew.based (by decide)
    exact hnew.fresh 0x200000 (by decide) (by decide) (by decide)

end UltraOS.Syscall
