import UltraOS.Memory.Range

/-!
# The kernel heap

`Kernel/Memory/HeapAllocator.h` and `HeapAllocator.cpp`: a list of blocks, each a header, a map with two bits per
chunk, and the chunks. An allocation is a run of chunks whose entries in the map carry one id; its length is
recorded nowhere else. Reading the map behind its last byte, where the chunks begin, is a fault. Counters are
natural numbers, and of the locks there is only the one that makes a refill be skipped.
-/

namespace UltraOS

structure HeapBlock where
  address : Nat
  data : Nat
  chunkCount : Nat
  chunkSize : Nat
  freeChunks : Nat
  bitmap : List (BitVec 8)
deriving DecidableEq

structure HeapAllocator where
  heapBlocks : List HeapBlock := []
  totalFreeBytes : Nat := 0
  callsToAllocate : Nat := 0
  callsToFree : Nat := 0
  isBeingRefilled : Bool := false
deriving DecidableEq

namespace HeapBlock

def headerSize : Nat := 40

def dataEnd (heap : HeapBlock) : Nat := heap.data + heap.chunkCount * heap.chunkSize

def whichBit (heap : HeapBlock) (ptr : Nat) : Nat := (ptr - heap.data) / heap.chunkSize * 2

def freeBytes (heap : HeapBlock) : Nat := heap.freeChunks * heap.chunkSize

def contains (heap : HeapBlock) (ptr : Nat) : Bool := ptr ≤ heap.dataEnd && ptr ≥ heap.data

def controlByte (bitmap : List (BitVec 8)) (i : Nat) : Run (BitVec 8) :=
  match bitmap[i / 8]? with
  | some byte => .ok byte
  | none => .error .badPointer

def bitIndex (i : Nat) : Nat := i - 8 * (i / 8)

def allocationMask (bitIndex : Nat) : BitVec 8 := (1#8 <<< (bitIndex + 1)) ||| (1#8 <<< bitIndex)

/-- The loop of `allocate` over the map: the bit at which enough free chunks in a row begin. -/
def search (heap : HeapBlock) (chunksNeeded bitsPerAlignedBlock alignedOffset : Nat) :
    (fuel i currentFreeBlock atBit : Nat) → Run (Option Nat)
  | 0, _, _, _ => .error .outOfFuel
  | fuel + 1, i, currentFreeBlock, atBit =>
    if i < heap.chunkCount * 2 then do
      let allocationId := (← controlByte heap.bitmap i) &&& allocationMask (bitIndex i)
      if allocationId = 0 then
        let currentFreeBlock := currentFreeBlock + 1
        let atBit := if currentFreeBlock = 1 then i else atBit
        if currentFreeBlock = chunksNeeded then return some atBit
        else
          search heap chunksNeeded bitsPerAlignedBlock alignedOffset fuel (i + 2) currentFreeBlock atBit
      else
        -- masking with ~(bits_per_aligned_block - 1) takes the remainder away
        let aligned := i - alignedOffset + bitsPerAlignedBlock
        let i :=
          if bitsPerAlignedBlock > 2 then
            aligned - aligned % bitsPerAlignedBlock + alignedOffset - 2
          else i
        search heap chunksNeeded bitsPerAlignedBlock alignedOffset fuel (i + 2) 0 0
    else .ok none

def neighborId (bitmap : List (BitVec 8)) (i : Nat) : Run (BitVec 8) := do
  return ((← controlByte bitmap i) &&& allocationMask (bitIndex i)) >>> bitIndex i

def leftNeighbor (heap : HeapBlock) (trueIndex : Nat) : Run (BitVec 8) :=
  if trueIndex ≠ 0 then neighborId heap.bitmap (trueIndex - 2) else .ok 0

def rightNeighbor (heap : HeapBlock) (trueIndex chunksNeeded : Nat) : Run (BitVec 8) :=
  if trueIndex / 2 < heap.chunkCount then neighborId heap.bitmap (trueIndex + chunksNeeded * 2)
  else .ok 0

/-- The loop that counts up to an id that neither neighbor has. -/
def uniqueId (leftNeighbor rightNeighbor : BitVec 8) : (fuel : Nat) → BitVec 8 → Run (BitVec 8)
  | 0, _ => .error .outOfFuel
  | fuel + 1, thisId =>
    if thisId = leftNeighbor ∨ thisId = rightNeighbor ∨ thisId = 0 then
      uniqueId leftNeighbor rightNeighbor fuel (thisId + 1)
    else .ok thisId

def mark (thisId : BitVec 8) : (chunks i : Nat) → List (BitVec 8) → Run (List (BitVec 8))
  | 0, _, bitmap => .ok bitmap
  | chunks + 1, i, bitmap => do
    let byte ← controlByte bitmap i
    mark thisId chunks (i + 2) (bitmap.set (i / 8) (byte ||| (thisId <<< bitIndex i)))

def chunksNeeded (heap : HeapBlock) (bytes : Nat) : Nat := 1 + (bytes - 1) / heap.chunkSize

def bitsPerAlignedBlock (heap : HeapBlock) (alignment : Nat) : Nat := max (alignment / heap.chunkSize * 2) 2

/-- How far the first chunk that meets the alignment is into the map. -/
def alignedOffset (heap : HeapBlock) (alignment : Nat) : Nat :=
  if alignment > heap.chunkSize then
    let rem := heap.data % alignment
    if rem ≠ 0 then (alignment - rem) / heap.chunkSize * 2 else 0
  else 0

/-- The body of the loop of `allocate` over the blocks: the block with the chunks marked and the
pointer to them, or nothing if the loop goes on. -/
def take (heap : HeapBlock) (bytes alignment : Nat) : Run (Option (HeapBlock × Nat)) :=
  if heap.freeBytes < bytes then .ok none
  else do
    let chunksNeeded := heap.chunksNeeded bytes
    let alignedOffset := heap.alignedOffset alignment
    match ← heap.search chunksNeeded (heap.bitsPerAlignedBlock alignment) alignedOffset
        (heap.chunkCount + 1) alignedOffset 0 0 with
    | none => return none
    | some atBit =>
      let leftNeighbor ← heap.leftNeighbor atBit
      let rightNeighbor ← heap.rightNeighbor atBit chunksNeeded
      let thisId ← uniqueId leftNeighbor rightNeighbor 256 0
      let bitmap ← mark thisId chunksNeeded atBit heap.bitmap
      let heap := { heap with bitmap, freeChunks := heap.freeChunks - chunksNeeded }
      return some (heap, heap.data + atBit / 2 * heap.chunkSize)

def release (heap : HeapBlock) (i : Nat) (byte scaledId : BitVec 8) : HeapBlock :=
  { heap with
    bitmap := heap.bitmap.set (i / 8) (byte ^^^ scaledId)
    freeChunks := heap.freeChunks + 1 }

/-- The loop of `free` over the map, from the first chunk on as long as the id stays the same. The
second result counts the freed bytes. -/
def clear (ptr : Nat) : (fuel i : Nat) → (allocationId : BitVec 8) → HeapBlock → (freed : Nat) → Run (HeapBlock × Nat)
  | 0, _, _, _, _ => .error .outOfFuel
  | fuel + 1, i, allocationId, heap, freed => do
    let byte ← controlByte heap.bitmap i
    if allocationId = 0 then
      let scaledId := byte &&& allocationMask (bitIndex i)
      let allocationId := scaledId >>> bitIndex i
      if allocationId = 0 then
        .error (.panic ("HeapAllocator: double free at address " ++ toHexString ptr))
      else
        clear ptr fuel (i + 2) allocationId (heap.release i byte scaledId) (freed + heap.chunkSize)
    else
      let scaledId := allocationId <<< bitIndex i
      if byte &&& (3#8 <<< bitIndex i) ≠ scaledId then return (heap, freed)
      else
        clear ptr fuel (i + 2) allocationId (heap.release i byte scaledId) (freed + heap.chunkSize)

end HeapBlock

namespace HeapAllocator

def defaultChunkSize : Nat := 32

def upperAllocationThreshold : Nat := 2 * 1024 * 1024

/-- The difference of two numbers of type `size_t`. -/
def sizeSub (l r : Nat) : Nat := (l + (addressSpace - r)) % addressSpace

def layOut (ptr size chunkSizeInBytes : Nat) : HeapBlock :=
  let pureSize := sizeSub size HeapBlock.headerSize
  let chunkCount := pureSize / chunkSizeInBytes
  let bitmapBytes := 1 + sizeSub chunkCount 1 / 4
  let dataPtr := ptr + HeapBlock.headerSize + bitmapBytes
  let alignmentOverhead :=
    if dataPtr % chunkSizeInBytes ≠ 0 then chunkSizeInBytes - dataPtr % chunkSizeInBytes else 0
  let bitmapBytes := bitmapBytes + alignmentOverhead
  let pureSize := sizeSub pureSize bitmapBytes
  let pureSize := pureSize - pureSize % chunkSizeInBytes
  { address := ptr
    data := ptr + HeapBlock.headerSize + bitmapBytes
    chunkCount := pureSize / chunkSizeInBytes
    chunkSize := chunkSizeInBytes
    freeChunks := pureSize / chunkSizeInBytes
    bitmap := List.replicate bitmapBytes 0 }

def feedBlock (s : HeapAllocator) (ptr size : Nat) (chunkSizeInBytes : Nat := defaultChunkSize) : HeapAllocator :=
  let newHeap := layOut ptr size chunkSizeInBytes
  { s with
    heapBlocks :=
      match s.heapBlocks with
      | [] => [newHeap]
      | first :: rest => first :: newHeap :: rest
    totalFreeBytes := s.totalFreeBytes + newHeap.chunkCount * chunkSizeInBytes }

/-- What a refill finds: its lock taken, no memory manager yet, or the region that the memory
manager hands out. -/
inductive Refill where
  | locked
  | uninitialized
  | region (range : Range)

def refillIfNeeded (s : HeapAllocator) (bytesLeft : Nat) : Refill → Run HeapAllocator
  | .locked => .ok s
  | .uninitialized =>
    if bytesLeft > upperAllocationThreshold then .ok s
    else if bytesLeft = 0 then
      .error (.panic "HeapAllocator: ran out of initial heap memory before MM initialization!")
    else .ok { s with isBeingRefilled := true }
  | .region range =>
    if bytesLeft > upperAllocationThreshold then .ok s
    else .ok { s.feedBlock range.mBegin range.length with isBeingRefilled := false }

def countBits : (width number : Nat) → Nat
  | 0, _ => 0
  | width + 1, number => number % 2 + countBits width (number / 2)

def countSetBits (number : Nat) : Nat := countBits 64 number

/-- The loop of `allocate` over the blocks: the blocks after it, the pointer, and how many bytes are
no longer free. -/
def takeFirst (bytes alignment : Nat) : List HeapBlock → Run (Option (List HeapBlock × Nat × Nat))
  | [] => .ok none
  | heap :: rest => do
    match ← heap.take bytes alignment with
    | some (heap, data) => return some (heap :: rest, data, heap.chunksNeeded bytes * heap.chunkSize)
    | none =>
      match ← takeFirst bytes alignment rest with
      | some (rest, result) => return some (heap :: rest, result)
      | none => return none

def outOfMemory (s : HeapAllocator) (bytes : Nat) : Fault :=
  match s.heapBlocks with
  | [] => .badPointer
  | first :: _ =>
    .panic ("HeapAllocator: Out of memory! (tried to allocate " ++ toString bytes ++ " bytes)" ++
      " " ++ toString s.callsToAllocate ++ " " ++ toString first.freeBytes ++ " " ++
      toString (first.chunkSize * first.chunkCount))

/-- The part of `allocate` behind its checks and the refill. -/
def allocateRefilled (s : HeapAllocator) (bytes alignment : Nat) : Run (HeapAllocator × Nat) := do
  let s := { s with callsToAllocate := s.callsToAllocate + 1 }
  match ← takeFirst bytes alignment s.heapBlocks with
  | some (heapBlocks, data, taken) => return ({ s with heapBlocks, totalFreeBytes := s.totalFreeBytes - taken }, data)
  | none => .error (s.outOfMemory bytes)

def allocate (s : HeapAllocator) (bytes alignment : Nat) (refill : Refill) : Run (HeapAllocator × Nat) :=
  if bytes = 0 ∨ bytes > upperAllocationThreshold then
    .error (.panic ("HeapAllocator: invalid allocation size " ++ toString bytes))
  else if countSetBits alignment ≠ 1 ∨ alignment > 4096 then
    .error (.panic ("HeapAllocator: tried to allocate with bad alignment value of " ++
      toString alignment ++ " with " ++ toString bytes ++ " bytes"))
  else do
    -- truncated subtraction is the comparison with the bytes left
    let s ← s.refillIfNeeded (s.totalFreeBytes - bytes) refill
    s.allocateRefilled bytes alignment

/-- The loop of `free` over the blocks: the blocks after it and how many bytes were freed. -/
def clearFirst (ptr : Nat) : List HeapBlock → Run (List HeapBlock × Nat)
  | [] => .error (.panic ("HeapAllocator: Couldn't find a heap block to free from. ptr: " ++ toHexString ptr))
  | heap :: rest =>
    if heap.contains ptr then do
      let (heap, freed) ← heap.clear ptr (4 * heap.bitmap.length + 1) (heap.whichBit ptr) 0 0
      return (heap :: rest, freed)
    else do
      let (rest, freed) ← clearFirst ptr rest
      return (heap :: rest, freed)

def free (s : HeapAllocator) (ptr : Nat) : Run HeapAllocator :=
  if ptr = 0 then .ok s
  else do
    let (heapBlocks, freed) ← clearFirst ptr s.heapBlocks
    return { s with
      heapBlocks
      totalFreeBytes := s.totalFreeBytes + freed
      callsToFree := s.callsToFree + 1 }

end HeapAllocator

end UltraOS
