import UltraOS.Common.Sort
import UltraOS.Memory.Range

/-!
# The memory map

`Kernel/Memory/MemoryMap.h` and `MemoryMap.cpp`: the physical ranges that the kernel makes of the E820 list of the
BIOS. The entries are taken over, the free ones shrunk to whole pages, and sorted, and a walk over them merges
neighbours of one type and shatters neighbours that overlap. The entries are a list: `emplace_range` only warns
when its buffer is full. Addresses have the 64 bits of the 64-bit kernel.
-/

namespace UltraOS

structure E820Entry where
  baseAddress : Nat
  length : Nat
  type : Nat
deriving DecidableEq

/-- `MemoryMap::PhysicalRange`. The type is the number that the firmware gave, whether or not
`PhysicalRange::Type` names it. -/
structure PhysicalRange extends Range where
  type : Nat := 2
deriving DecidableEq

namespace PhysicalRange

def free : Nat := 1

def isFree (r : PhysicalRange) : Bool := r.type == free

def isReserved (r : PhysicalRange) : Bool := !r.isFree

def ofLength (start length type : Nat) : Run PhysicalRange := do
  return { toRange := ← Range.ofLength start length, type }

def setBegin (r : PhysicalRange) (first : Nat) : PhysicalRange := { r with mBegin := first }

def setEnd (r : PhysicalRange) (last : Nat) : PhysicalRange := { r with mEnd := last }

def setLength (r : PhysicalRange) (length : Nat) : PhysicalRange := r.setEnd ((r.mBegin + length) % addressSpace)

def alignedTo (r : PhysicalRange) (alignment : Nat) : Run PhysicalRange := do
  return { toRange := ← r.toRange.alignedTo alignment, type := r.type }

def typeAsString (r : PhysicalRange) : String :=
  if r.type = free then "free"
  else if r.type = 2 then "reserved"
  else if r.type = 3 then "reclaimable"
  else if r.type = 4 then "ACPI non-volatile"
  else if r.type = 5 then "bad"
  else if r.type = 0x100000000 then "kernel image"
  else if r.type = 0x100000001 then "kernel module"
  else if r.type = 0x100000002 then "initial heap block"
  else if r.type = 0x100000003 then "generic boot allocator reserved"
  else "unknown"

def describe (r : PhysicalRange) : String :=
  "begin:" ++ toHexString r.mBegin ++ " end:" ++ toHexString r.mEnd ++
    " size:" ++ toHexString r.length ++ " type: " ++ r.typeAsString

/-- The last piece of `shatter_against`: what is left behind a range that lies inside. -/
def partBehind (r other : PhysicalRange) : Run PhysicalRange :=
  if other.mEnd ≤ r.mEnd then do
    return { toRange := ← Range.fromTwoPointers other.mEnd r.mEnd, type := r.type }
  else .ok {}

/-- `shatter_against`: what two overlapping ranges leave of the first one, of the second one and of
the first one behind the second. -/
def shatterAgainst (r other : PhysicalRange) :
    Run (PhysicalRange × PhysicalRange × PhysicalRange) := do
  assert (r.contains other.mBegin) "contains(other.begin())"
  if r.type = other.type then
    return (r.setEnd (if r.mEnd > other.mEnd then r.mEnd else other.mEnd), {}, {})
  let behind ← r.partBehind other
  if r.type > other.type then
    if r.mEnd ≤ other.mEnd then
      return (r.setEnd r.mEnd, other.setBegin r.mEnd, behind)
    return (r.setEnd r.mEnd, {}, {})
  return (r.setEnd other.mBegin, other, behind)

end PhysicalRange

namespace MemoryMap

open PhysicalRange

def copyAlignedFrom : List E820Entry → Run (List PhysicalRange)
  | [] => .ok []
  | dirtyEntry :: rest => do
    let newRange ← PhysicalRange.ofLength dirtyEntry.baseAddress dirtyEntry.length dirtyEntry.type
    if newRange.type ≠ free then
      return newRange :: (← copyAlignedFrom rest)
    let newRange ← newRange.alignedTo pageSize
    if newRange.empty ∨ newRange.length < pageSize then
      copyAlignedFrom rest
    else
      return newRange.setLength (Page.roundDown newRange.length) :: (← copyAlignedFrom rest)

def sortByAddress (entries : List PhysicalRange) : Run (List PhysicalRange) :=
  insertionSort (fun l r => decide (l.mBegin < r.mBegin)) entries

def eraseRangeAt (entries : List PhysicalRange) (index : Nat) : Run (List PhysicalRange) := do
  assert (index < entries.length) "index < m_entry_count"
  return entries.eraseIdx index

def emplaceRangeAt (entries : List PhysicalRange) (index : Nat) (r : PhysicalRange) :
    Run (List PhysicalRange) := do
  assert (index ≤ entries.length) "index <= m_entry_count"
  return entries.insertIdx index r

def triviallyMergeable (l r : PhysicalRange) : Bool := l.mEnd == r.mBegin && l.type == r.type

/-- What is kept of a shattered piece: whole pages of a free one, all of another. -/
def trimmed (r : PhysicalRange) : Run PhysicalRange :=
  if r.isFree then do
    let aligned ← r.alignedTo pageSize
    return aligned.setLength (Page.roundDown aligned.length)
  else .ok r

def isValidRange (r : PhysicalRange) : Bool := !r.empty && (r.length ≥ pageSize || r.isReserved)

/-- Writes the valid pieces over the entries from `j` on, the third one between the entries, and
returns the index behind the last piece. -/
def emplacePieces (i j : Nat) (entries : List PhysicalRange) : List PhysicalRange → Run (List PhysicalRange × Nat)
  | [] => .ok (entries, j)
  | r :: rest =>
    if !isValidRange r then emplacePieces i j entries rest
    else if j - i = 2 then do
      return (← emplaceRangeAt entries j r, j + 1)
    else emplacePieces i (j + 1) (entries.set j r) rest

/-- The message for two ranges of which no piece is valid, cut to the 255 characters that the string
on the stack holds. -/
def couldNotMerge (l r : PhysicalRange) : String :=
  String.ofList (("MemoryMap: error while correcting ranges, couldn't merge:\n" ++ l.describe ++
    "\nwith\n" ++ r.describe).toList.take 255)

/-- The body of the `while` loop for two overlapping neighbours `l` and `r` at the index `i`. -/
def shatterAt (i : Nat) (l r : PhysicalRange) (entries : List PhysicalRange) :
    Run (List PhysicalRange) := do
  let (head, middle, behind) ← l.shatterAgainst r
  let head ← trimmed head
  let middle ← trimmed middle
  let behind ← trimmed behind
  let (entries, j) ← emplacePieces i i entries [head, middle, behind]
  if j = i then
    .error (.panic (couldNotMerge l r))
  else if j - i = 1 then eraseRangeAt entries j
  else return entries

/-- The loops of `correct_overlapping_ranges`, one iteration at a time: only a pair that lies apart moves
the index forward. -/
def correctFrom : Nat → Nat → List PhysicalRange → Run (List PhysicalRange)
  | 0, _, _ => .error .outOfFuel
  | fuel + 1, i, entries =>
    match entries[i]?, entries[i + 1]? with
    | some l, some r =>
      if triviallyMergeable l r then do
        correctFrom fuel i (← eraseRangeAt (entries.set i (l.setEnd r.mEnd)) (i + 1))
      else if l.overlaps r.toRange then do
        correctFrom fuel (i - 1) (← shatterAt i l r entries)
      else correctFrom fuel (i + 1) entries
    | _, _ => .ok entries

def correctOverlappingRanges (fuel hint : Nat) (entries : List PhysicalRange) :
    Run (List PhysicalRange) := do
  assert (entries.length ≠ 0) "m_entry_count != 0"
  correctFrom fuel hint entries

/-- `generate_from`, for the E820 list of the loader context. -/
def generateFrom (fuel : Nat) (e820 : List E820Entry) : Run (List PhysicalRange) := do
  correctOverlappingRanges fuel 0 (← sortByAddress (← copyAlignedFrom e820))

end MemoryMap

end UltraOS
