import UltraOS.Base.Fault
import UltraOS.Library.BitWords

/-!
# The heap of a user process

`Userland/LibC/malloc.c`, built for 64 bits: a list of blocks of four megabytes, each with a bitmap of its chunks.
The node of a block is itself allocated by `malloc`, except for the first one, and the list ends with a node that
is no block yet. Pointers are numbers without a bound, `os` gives the address that each call of the system returns,
and a call of `malloc` from `malloc` takes one from the depth that the stack allows. A header is what `malloc`
wrote last at its address.
-/

namespace UltraOS.LibC

open BitWords

def blockSize : Nat := 4 * 1024 * 1024

def chunkSize : Nat := 32

def bitmapBytes : Nat := blockSize / chunkSize / 8

def mallocThreshold : Nat := 16 * 1024

def bitsPerUnit : Nat := 64

def headerSize : Nat := 16

def nodeSize : Nat := 32

inductive Magic where
  | malloc
  | osAlloc

structure AllocHeader where
  typeMagic : Magic
  size : Nat

structure HeapBlock where
  bitmap : List (BitVec 64)
  data : Nat
  bytesLeft : Nat

/-- The bytes of an allocation with its header, rounded to chunks. -/
structure Piece where
  address : Nat
  size : Nat
deriving DecidableEq

structure Heap where
  blocks : List HeapBlock := []
  endBlock : Nat := 0
  headers : Nat → Option AllocHeader := fun _ => none
  osCalls : Nat := 0
  /-- What was handed out and not freed since. The code does not keep this. -/
  live : List Piece := []

/-- A shift by the width of the unit is a shift by nothing on the machine. -/
def markBitsStartingAt (set : Bool) : (count unitOffset bitOffset : Nat) → List (BitVec 64) → Run (List (BitVec 64))
  | 0, _, _, bitmap => .ok bitmap
  | count + 1, unitOffset, bitOffset, bitmap =>
    match bitmap[unitOffset]? with
    | none => .error .badPointer
    | some unit =>
      let bitmap := bitmap.set unitOffset (writeBit unit (bitOffset % bitsPerUnit) set)
      if bitOffset + 1 = bitsPerUnit then markBitsStartingAt set count (unitOffset + 1) 0 bitmap
      else markBitsStartingAt set count unitOffset (bitOffset + 1) bitmap

def markReservedStartingAt (bitmap : List (BitVec 64)) (unitOffset bitOffset count : Nat) : Run (List (BitVec 64)) :=
  markBitsStartingAt true count unitOffset bitOffset bitmap

def markFreeStartingAt (bitmap : List (BitVec 64)) (unitOffset bitOffset count : Nat) : Run (List (BitVec 64)) :=
  markBitsStartingAt false count unitOffset bitOffset bitmap

def holeLoop (unit : BitVec 64) (count : Nat) :
    (remaining i : Nat) → (firstIndex : Option Nat) → (contiguousCount : Nat) → Option Nat
  | 0, _, _, _ => none
  | remaining + 1, i, firstIndex, contiguousCount =>
    if unit.getLsbD i = false then
      let firstIndex := firstIndex.getD i
      if contiguousCount + 1 = count then some firstIndex
      else holeLoop unit count remaining (i + 1) (some firstIndex) (contiguousCount + 1)
    else holeLoop unit count remaining (i + 1) none 0

def findHoleInUnit (unit : BitVec 64) (count : Nat) : Option Nat := holeLoop unit count bitsPerUnit 0 none 0

/-- The free bits at the upper end of a unit. -/
def trailingBits (unit : BitVec 64) : Nat := if unit = 0#64 then bitsPerUnit else unit.clz.toNat

/-- The free bits at the lower end, which are only counted if the whole unit is free. -/
def leadingBits (unit : BitVec 64) : Nat := if unit = 0#64 then bitsPerUnit else 0

def findLoop (count : Nat) : (units : List (BitVec 64)) → (i contiguousCount : Nat) →
    (first : Option (Nat × Nat)) → Option (Nat × Nat)
  | [], _, _, _ => none
  | unit :: units, i, contiguousCount, first =>
    if unit = BitVec.allOnes 64 then findLoop count units (i + 1) 0 none
    else
      -- a small count is looked for inside the unit first
      match if count < bitsPerUnit then findHoleInUnit unit count else none with
      | some index => some (i, index)
      | none =>
        if contiguousCount + leadingBits unit ≥ count then first
        else if contiguousCount = 0 then
          findLoop count units (i + 1) (trailingBits unit) (some (i, bitsPerUnit - trailingBits unit))
        else if trailingBits unit = bitsPerUnit then
          findLoop count units (i + 1) (contiguousCount + bitsPerUnit) first
        else findLoop count units (i + 1) (trailingBits unit) (some (i, bitsPerUnit - trailingBits unit))

/-- The unit and the bit at which the search found room. -/
def findContiguousBits (bitmap : List (BitVec 64)) (count : Nat) : Option (Nat × Nat) := findLoop count bitmap 0 0 none

/-- The body of the loop of `do_alloc`: the block with the chunks reserved and their address, or nothing if
the loop goes on. -/
def takeChunks (blk : HeapBlock) (chunks : Nat) : Run (Option (HeapBlock × Nat)) :=
  if blk.bytesLeft < chunks * chunkSize then .ok none
  else
    match findContiguousBits blk.bitmap chunks with
    | none => .ok none
    | some (unitOffset, bitOffset) => do
      let bitmap ← markReservedStartingAt blk.bitmap unitOffset bitOffset chunks
      let blk := { blk with bitmap := bitmap, bytesLeft := blk.bytesLeft - chunks * chunkSize }
      return some (blk, blk.data + unitOffset * bitsPerUnit * chunkSize + bitOffset * chunkSize)

def takeFirst (chunks : Nat) : List HeapBlock → Run (Option (List HeapBlock × Nat))
  | [] => .ok none
  | blk :: blocks => do
    match ← takeChunks blk chunks with
    | some (blk, address) => return some (blk :: blocks, address)
    | none =>
      match ← takeFirst chunks blocks with
      | some (blocks, address) => return some (blk :: blocks, address)
      | none => return none

def newBlock (os : Nat → Nat) (h : Heap) : Heap × HeapBlock :=
  let data := os (h.osCalls + 1)
  ({ h with osCalls := h.osCalls + 2 },
    { bitmap := List.replicate (bitmapBytes / 8) 0#64, data := data, bytesLeft := blockSize })

/-- `add_heap_block` for the node at the end of the list. Its `next` is written last, so the call of
`malloc` for the next node does not see the new block. -/
def addHeapBlock (os : Nat → Nat) (mallocNode : Heap → Run (Heap × Nat)) (h : Heap) : Run (Heap × HeapBlock) :=
  if h.endBlock = 0 then .error .badPointer
  else do
    let (h, blk) := newBlock os h
    let (h, next) ← mallocNode h
    if next = 0 then .error .badPointer else return ({ h with endBlock := next }, blk)

def doAlloc (os : Nat → Nat) (mallocNode : Heap → Run (Heap × Nat)) (h : Heap) (chunks : Nat) :
    Run (Heap × Nat) := do
  match ← takeFirst chunks h.blocks with
  | some (blocks, address) => return ({ h with blocks := blocks }, address)
  | none =>
    let (h, blk) ← addHeapBlock os mallocNode h
    let blk := { blk with bytesLeft := blk.bytesLeft - chunks * chunkSize }
    return ({ h with blocks := h.blocks ++ [blk] }, blk.data)

def roundToChunks (size : Nat) : Nat := if size % chunkSize ≠ 0 then size + (chunkSize - size % chunkSize) else size

def writeHeader (h : Heap) (address : Nat) (header : AllocHeader) : Heap :=
  { h with headers := fun a => if a = address then some header else h.headers a }

def malloc (os : Nat → Nat) : (depth : Nat) → Heap → (size : Nat) → Run (Heap × Nat)
  | 0, _, _ => .error .outOfFuel
  | depth + 1, h, size =>
    if size = 0 then .ok (h, 0)
    else if size ≥ mallocThreshold then
      let address := os h.osCalls
      let h := writeHeader { h with osCalls := h.osCalls + 1 } address ⟨.osAlloc, size + headerSize⟩
      .ok (h, address + headerSize)
    else do
      let sizeWithHeader := roundToChunks (size + headerSize)
      let (h, address) ← doAlloc os (malloc os depth · nodeSize) h (sizeWithHeader / chunkSize)
      if address = 0 then return (h, 0)
      else
        let h := writeHeader h address ⟨.malloc, sizeWithHeader⟩
        return ({ h with live := ⟨address, sizeWithHeader⟩ :: h.live }, address + headerSize)

/-- `block_responsible_for`, and what `free` does with the block. -/
def freeChunks (address size : Nat) : List HeapBlock → Run (List HeapBlock)
  | [] => .error (.panic "malloc: free called on an invalid pointer")
  | blk :: blocks =>
    if blk.data ≤ address ∧ address < blk.data + blockSize then do
      let chunkOffset := (address - blk.data) / chunkSize
      let bitmap ← markFreeStartingAt blk.bitmap (chunkOffset / bitsPerUnit) (chunkOffset % bitsPerUnit)
        (size / chunkSize)
      return { blk with bitmap := bitmap, bytesLeft := blk.bytesLeft + size } :: blocks
    else do
      let blocks ← freeChunks address size blocks
      return blk :: blocks

def free (h : Heap) (ptr : Nat) : Run Heap :=
  if ptr = 0 then .ok h
  else
    match h.headers (ptr - headerSize) with
    | none => .error .badPointer
    | some ⟨.osAlloc, _⟩ => .ok h
    | some ⟨.malloc, size⟩ => do
      let blocks ← freeChunks (ptr - headerSize) size h.blocks
      return { h with
        blocks := blocks
        live := h.live.eraseP fun piece => piece.address == ptr - headerSize }

/-- `malloc_init`. The `next` of `main_block` is null, so the block is in the list when its own call of
`malloc` looks for room. -/
def mallocInit (os : Nat → Nat) (depth : Nat) : Run Heap := do
  let (h, blk) := newBlock os {}
  let (h, next) ← malloc os depth { h with blocks := [blk] } nodeSize
  if next = 0 then .error .badPointer else return { h with endBlock := next }

structure Program where
  heap : Heap
  owned : List Nat := []

inductive HeapOp where
  | malloc (size : Nat)
  | free (ptr : Nat)

def Program.step (os : Nat → Nat) (depth : Nat) (s : Program) : HeapOp → Run Program
  | .malloc size => do
    let (heap, ptr) ← malloc os depth s.heap size
    return { heap := heap, owned := ptr :: s.owned }
  | .free ptr => do
    let heap ← free s.heap ptr
    return { heap := heap, owned := s.owned.erase ptr }

/-- Sizes that are served from blocks, and pointers that the program got and did not free since. -/
def Program.Admits (s : Program) : HeapOp → Prop
  | .malloc size => 1 ≤ size ∧ size < mallocThreshold
  | .free ptr => ptr ∈ s.owned

instance (s : Program) (o : HeapOp) : Decidable (s.Admits o) :=
  match o with
  | .malloc size => inferInstanceAs (Decidable (1 ≤ size ∧ size < mallocThreshold))
  | .free ptr => inferInstanceAs (Decidable (ptr ∈ s.owned))

end UltraOS.LibC
