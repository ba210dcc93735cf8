import UltraOS.Common.OrderedSet
import UltraOS.Memory.Range

/-!
# The virtual allocator

`Kernel/Memory/VirtualAllocator.h` and `VirtualAllocator.cpp`: a base range of virtual addresses and
the set of the ranges of it that are allocated, ordered by their begin. The spin lock that every
function holds is left out.
-/

namespace UltraOS

structure VirtualAllocator where
  mBaseRange : Range
  mAllocatedRanges : List Range := []
deriving DecidableEq

namespace VirtualAllocator

/-- `Set<Range, Less<>>::Iterator`, with `none` for `end()`. -/
abbrev RangeIterator : Type := Option Range

def less (l r : Range) : Bool := l.mBegin < r.mBegin

def lowerBound (ranges : List Range) (address : Nat) : RangeIterator :=
  OrderedSet.lowerBound (fun r => r.mBegin < address) ranges

def deref : RangeIterator → Run Range
  | some r => .ok r
  | none => .error .badPointer

def beginsAt (iterator : RangeIterator) (address : Nat) : Bool := iterator.any fun r => r.mBegin == address

def isAllocated (s : VirtualAllocator) (address : Nat) : Run Bool :=
  if !s.mBaseRange.contains address then .ok false
  else if s.mAllocatedRanges.isEmpty then .ok false
  else
    let range := lowerBound s.mAllocatedRanges address
    if beginsAt range address then do return (← deref range).contains address
    else if range = s.mAllocatedRanges.head? then .ok false
    else do return (← deref (OrderedSet.prev less range s.mAllocatedRanges)).contains address

def mergeAndEmplace (ranges : List Range) (before after : RangeIterator) (newRange : Range) : Run (List Range) :=
  match before.filter fun r => r.mEnd == newRange.mBegin, after.filter fun r => r.mBegin == newRange.mEnd with
  | some before, some after => do
    let mergedRange ← Range.fromTwoPointers before.mBegin after.mEnd
    let ranges := OrderedSet.remove less after (OrderedSet.remove less before ranges)
    return OrderedSet.emplace less mergedRange ranges
  | some before, none => do
    let mergedRange ← Range.fromTwoPointers before.mBegin newRange.mEnd
    return OrderedSet.emplace less mergedRange (OrderedSet.remove less before ranges)
  | none, some after => do
    let mergedRange ← Range.fromTwoPointers newRange.mBegin after.mEnd
    return OrderedSet.emplace less mergedRange (OrderedSet.remove less after ranges)
  | none, none => .ok (OrderedSet.emplace less newRange ranges)

def failOnAllocation {α : Type} (length alignment : Nat) : Run α :=
  .error (.panic ("VirtualAllocator: failed to allocate " ++ toString length ++ " (aligned at " ++
    toString alignment ++ ")!"))

/-- The loop over the gaps in front of the allocated ranges: the ranges around the last gap that was looked
at, its begin, and what is taken of it, which is empty if no gap was wide enough. -/
def searchGap (length alignment : Nat) (rangeBefore : RangeIterator) (gapBegin : Nat) :
    List Range → Run (RangeIterator × RangeIterator × Nat × Range)
  | [] => .ok (rangeBefore, none, gapBegin, {})
  | rangeAfter :: rest => do
    let gap ← Range.fromTwoPointers gapBegin rangeAfter.mBegin
    let potentialRange ← gap.alignedTo alignment
    if potentialRange.empty ∨ potentialRange.length < length then
      searchGap length alignment (some rangeAfter) rangeAfter.mEnd rest
    else return (rangeBefore, some rangeAfter, gapBegin, potentialRange.setLength length)

/-- The part of `allocate(length, alignment)` behind its checks. -/
def allocateRounded (s : VirtualAllocator) (length alignment : Nat) : Run (VirtualAllocator × Range) :=
  if s.mAllocatedRanges.isEmpty then do
    let allocatedRange ← s.mBaseRange.alignedTo alignment
    if allocatedRange.empty ∨ allocatedRange.length < length then
      failOnAllocation length alignment
    else
      let allocatedRange := allocatedRange.setLength length
      return ({ s with mAllocatedRanges :=
        OrderedSet.emplace less allocatedRange s.mAllocatedRanges }, allocatedRange)
  else do
    let (rangeBefore, rangeAfter, gapBegin, allocatedRange) ←
      searchGap length alignment none s.mBaseRange.mBegin s.mAllocatedRanges
    if allocatedRange.empty then
      let gap ← Range.fromTwoPointers gapBegin s.mBaseRange.mEnd
      let potentialRange ← gap.alignedTo alignment
      if potentialRange.empty ∨ potentialRange.length < length then
        failOnAllocation length alignment
      else
        let rangeBefore := OrderedSet.prev less none s.mAllocatedRanges
        let allocatedRange := potentialRange.setLength length
        let ranges ← mergeAndEmplace s.mAllocatedRanges rangeBefore rangeAfter allocatedRange
        return ({ s with mAllocatedRanges := ranges }, allocatedRange)
    else
      let ranges ← mergeAndEmplace s.mAllocatedRanges rangeBefore rangeAfter allocatedRange
      return ({ s with mAllocatedRanges := ranges }, allocatedRange)

def allocate (s : VirtualAllocator) (length alignment : Nat) : Run (VirtualAllocator × Range) := do
  assert (length ≠ 0) "length != 0"
  let alignment := if alignment < pageSize then pageSize else alignment
  assert (alignment % pageSize = 0) "(alignment & ~Page::alignment_mask) == 0"
  let roundedUpLength := Page.roundUp length
  if roundedUpLength < length then
    .error (.panic ("VirtualAllocator: Length overflow with length=" ++ toString length ++
      ", alignment=" ++ toString alignment))
  else s.allocateRounded roundedUpLength alignment

def lastOf (range : Range) : Nat := (range.mEnd + addressSpace - 1) % addressSpace

def contains (s : VirtualAllocator) (range : Range) : Bool :=
  s.mBaseRange.contains range.mBegin && s.mBaseRange.contains (lastOf range)

def failOnAllocatedRange {α : Type} (range : Range) : Run α :=
  .error (.panic ("VirtualAllocator: Couldn't allocate range ( " ++ range.describe ++ " )"))

/-- The ranges that `allocate(range)` and `deallocate` look at: the last one that begins at or before the
address, and the next. -/
def around (ranges : List Range) (address : Nat) : RangeIterator × RangeIterator :=
  let it := lowerBound ranges address
  if !beginsAt it address then
    if it ≠ ranges.head? then (OrderedSet.prev less it ranges, it) else (none, it)
  else (it, it.bind fun r => OrderedSet.next less r ranges)

def allocateRange (s : VirtualAllocator) (range : Range) : Run (VirtualAllocator × Range) := do
  assert (!range.empty) "range.empty() == false"
  assert (s.contains range) "contains(range)"
  let first := Page.roundDown range.mBegin
  let length := Page.roundUp (range.length + range.mBegin - first)
  let range ← Range.ofLength first length
  if s.mAllocatedRanges.isEmpty then
    return ({ s with mAllocatedRanges := OrderedSet.emplace less range s.mAllocatedRanges }, range)
  let (it, rangeAfter) := around s.mAllocatedRanges range.mBegin
  if rangeAfter.any fun r => r.contains (lastOf range) then failOnAllocatedRange range
  else if it.any fun r => r.mBegin == range.mBegin || r.contains range.mBegin then
    failOnAllocatedRange range
  else
    let ranges ← mergeAndEmplace s.mAllocatedRanges it rangeAfter range
    return ({ s with mAllocatedRanges := ranges }, range)

def failOnUnknownRange {α : Type} (range : Range) : Run α :=
  .error (.panic ("VirtualAllocator: range " ++ range.describe ++ " wasn't found as allocated!"))

def emplaceUnlessEmpty (range : Range) (ranges : List Range) : List Range :=
  if range.empty then ranges else OrderedSet.emplace less range ranges

def deallocate (s : VirtualAllocator) (range : Range) : Run VirtualAllocator := do
  assert (range.mBegin % pageSize = 0) "Page::is_aligned(range.begin())"
  assert (range.length % pageSize = 0) "Page::is_aligned(range.length())"
  if !s.contains range then
    .error (.panic ("VirtualAllocator: range " ++ range.describe ++ " doesn't belong to this allocator!"))
  else if s.mAllocatedRanges.isEmpty then failOnUnknownRange range
  else
    match (around s.mAllocatedRanges range.mBegin).1 with
    | none => failOnUnknownRange range
    | some it =>
      if !it.containsRange range then failOnUnknownRange range
      else
        let rangeBefore ← it.clippedWithEnd range.mBegin
        let rangeAfter ← it.clippedWithBegin range.mEnd
        let ranges := OrderedSet.remove less it s.mAllocatedRanges
        return { s with mAllocatedRanges :=
          emplaceUnlessEmpty rangeAfter (emplaceUnlessEmpty rangeBefore ranges) }

end VirtualAllocator

end UltraOS
