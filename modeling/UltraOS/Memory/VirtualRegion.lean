import UltraOS.Base.ErrorCode
import UltraOS.Memory.UserSpace
import UltraOS.Memory.VirtualAllocator.Fit

/-!
# Virtual regions of a process

`Kernel/Memory/VirtualRegion.h`, the tree of regions of `Kernel/Multitasking/Process.h`, and
`free_virtual_region` of `Kernel/Memory/MemoryManager.cpp` for a region of a user process whose address
space is active. The lock of the process is a spin lock that is not recursive.
-/

namespace UltraOS

inductive RegionType where
  | privateRegion
  /-- With the number of the regions that share the pages. -/
  | shared (refcount : Nat)
  | nonOwning
deriving DecidableEq

def RegionType.ownsPages : RegionType → Bool
  | .privateRegion => true
  | .shared refcount => refcount - 1 == 0
  | .nonOwning => false

structure VirtualRegion where
  virtualRange : Range
  type : RegionType := .privateRegion
  isStack : Bool := false
  isEternal : Bool := false
  isReleased : Bool := false
deriving DecidableEq

namespace VirtualRegion

def less (l r : VirtualRegion) : Bool := l.virtualRange.mBegin < r.virtualRange.mBegin

lemma less_iff (l r : VirtualRegion) :
    less l r = true ↔ l.virtualRange.mBegin < r.virtualRange.mBegin := decide_eq_true_iff

lemma less_trans (a b c : VirtualRegion) (hab : less a b = true) (hbc : less b c = true) : less a c = true := by
  rw [less_iff] at *
  exact hab.trans hbc

end VirtualRegion

structure UserProcess where
  allocator : VirtualAllocator
  virtualRegions : List VirtualRegion := []
  /-- The lock of the process is held by the processor that runs the thread. -/
  isLocked : Bool := false
  releasedPages : List Range := []
deriving DecidableEq

namespace UserProcess

variable (p : UserProcess)

/-- A processor that holds the lock spins until the `DeadlockWatcher` panics. -/
def lock : Run UserProcess := if p.isLocked then .error .outOfFuel else .ok { p with isLocked := true }

def unlock : UserProcess := { p with isLocked := false }

def lowerBound (address : Nat) : Option VirtualRegion :=
  OrderedSet.lowerBound (fun region => region.virtualRange.mBegin < address) p.virtualRegions

def remove (region : VirtualRegion) : Run UserProcess :=
  if p.virtualRegions.any fun r => r.virtualRange.mBegin == region.virtualRange.mBegin then
    .ok { p with virtualRegions := OrderedSet.remove VirtualRegion.less region p.virtualRegions }
  else .error .badPointer

/-- `release_all_pages`, as far as the region is the last one to use them. -/
def releasePages (vr : VirtualRegion) : UserProcess :=
  if vr.type.ownsPages then { p with releasedPages := p.releasedPages ++ [vr.virtualRange] } else p

lemma releasePages_eq (vr : VirtualRegion) : p.releasePages vr = { p with
    releasedPages := p.releasedPages ++ if vr.type.ownsPages then [vr.virtualRange] else [] } := by
  rw [releasePages]
  split
  · rfl
  · rw [List.append_nil]

def markAsReleased (vr : VirtualRegion) : UserProcess :=
  { p with
    virtualRegions := p.virtualRegions.map fun r =>
      if r.virtualRange.mBegin = vr.virtualRange.mBegin then { r with isReleased := true } else r }

def freeVirtualRegion (vr : VirtualRegion) : Run UserProcess := do
  assert (!vr.isEternal) "!vr.is_eternal()"
  assert (!vr.isReleased) "!vr.is_released()"
  let p := (p.markAsReleased vr).releasePages vr
  let allocator ← p.allocator.deallocate vr.virtualRange
  let p := { p with allocator := allocator }
  if vr.isStack then return p
  else
    let p ← p.lock
    let p ← p.remove vr
    return p.unlock

/-- The state that a process is in between its system calls: the regions are in order, they consist of
pages that are allocated, and the lock is free. -/
structure Sound : Prop where
  kept : p.allocator.Kept
  base : p.allocator.mBaseRange = ⟨userspaceUsableBase, userspaceUsableCeiling⟩
  ordered : p.virtualRegions.Pairwise fun l r => VirtualRegion.less l r = true
  proper : ∀ region ∈ p.virtualRegions, region.virtualRange.mBegin < region.virtualRange.mEnd
  pages : ∀ region ∈ p.virtualRegions, region.virtualRange.mBegin % pageSize = 0 ∧
    region.virtualRange.mEnd % pageSize = 0
  allocated : ∀ region ∈ p.virtualRegions, ∀ a, region.virtualRange.contains a = true →
    VirtualAllocator.Covered p.allocator.mAllocatedRanges a
  apart : ∀ l ∈ p.virtualRegions, ∀ r ∈ p.virtualRegions, l ≠ r →
    l.virtualRange.mEnd ≤ r.virtualRange.mBegin ∨ r.virtualRange.mEnd ≤ l.virtualRange.mBegin
  live : ∀ region ∈ p.virtualRegions, region.isEternal = false ∧ region.isReleased = false
  ofStacks : ∀ region ∈ p.virtualRegions, region.isStack = true → region.type = .privateRegion
  unlocked : p.isLocked = false

end UserProcess

end UltraOS
