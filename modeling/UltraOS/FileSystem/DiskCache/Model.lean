import UltraOS.Library.CellMemory
import UltraOS.Memory.Range

/-!
# The disk cache

`Kernel/FileSystem/DiskCache.cpp`. The objects of the cache are numbered as they are made, and a pointer to one is
its number, also in the list of the cached blocks, the most recently used one first, and in the map from their first
file system blocks. The buffers are part of one memory, and the device is the bytes of its sectors. Copies succeed.
-/

namespace UltraOS

open CellMemory

inductive MediumType where
  | hdd
  | ssd
  | cd
  | usb
  | remote
  | ram
deriving DecidableEq

/-- `StorageDevice::Info`, as far as the cache reads it. -/
structure StorageInfo where
  logicalBlockSize : Nat
  mediumType : MediumType

/-- `DiskCache::CachedBlock`. The dirty bit is the lowest bit of the address in the source. -/
structure CachedBlock where
  virtualAddress : Nat := 0
  isDirty : Bool := false
  firstBlock : Nat := 0

structure DiskCache where
  mFsLbaRange : Range
  mIoSize : Nat := 0
  mLogicalBlockSize : Nat
  mFsBlockSize : Nat
  mFsBlocksPerIo : Nat := 0
  mCapacity : Nat
  mRegion : Nat := 0
  mOffsetWithinRegion : Nat := 0
  mCachedBlocks : List Nat := []
  mBlockToCache : Nat → Option Nat := fun _ => none
  objects : Nat → CachedBlock := fun _ => {}
  nextObject : Nat := 0
  memory : Nat → UInt8
  device : Nat → UInt8

namespace DiskCache

def complement (n : Nat) : Nat := addressSpace - 1 - n

/-- `m_io_size`, and the checks of the block size in front of it. -/
def ioSizeOf (filesystemBlockSize : Nat) : Run Nat :=
  if pageSize ≤ filesystemBlockSize then do
    assert (filesystemBlockSize % pageSize = 0) "Page::is_aligned(m_fs_block_size)"
    return filesystemBlockSize
  else do
    assert (0 % filesystemBlockSize = 0) "(m_io_size % m_fs_block_size) == 0"
    return pageSize

/-- The constructor `DiskCache(device, filesystem_lba_range, filesystem_block_size, block_capacity)`,
with the region that the memory manager allocates. -/
def create (info : StorageInfo) (device memory : Nat → UInt8) (filesystemLbaRange : Range)
    (filesystemBlockSize blockCapacity region : Nat) : Run DiskCache := do
  assert (blockCapacity ≠ 0) "block_capacity != 0"
  assert (info.logicalBlockSize = 512 ∨ info.logicalBlockSize = 4096)
    "info.logical_block_size == 512 || info.logical_block_size == 4096"
  let cache : DiskCache :=
    { mFsLbaRange := filesystemLbaRange
      mLogicalBlockSize := info.logicalBlockSize
      mFsBlockSize := filesystemBlockSize
      mCapacity := blockCapacity
      memory := memory
      device := device }
  if info.mediumType = .ram then return cache
  else
    let ioSize ← ioSizeOf filesystemBlockSize
    let fsBlocksPerIo := ioSize / filesystemBlockSize
    assert (blockCapacity / fsBlocksPerIo ≠ 0) "m_capacity != 0"
    return { cache with
      mIoSize := ioSize
      mFsBlocksPerIo := fsBlocksPerIo
      mRegion := region
      mCapacity := blockCapacity / fsBlocksPerIo }

section

variable (cache : DiskCache)

def blockToFirstLba (blockIndex : Nat) : Nat := blockIndex * cache.mFsBlockSize % addressSpace / cache.mLogicalBlockSize

def blockToLbaRange (blockIndex : Nat) : Run Range :=
  let lba := cache.blockToFirstLba blockIndex
  let logicalBlocksPerCacheBlock := cache.mIoSize / cache.mLogicalBlockSize
  let lba :=
    if cache.mFsBlockSize < cache.mIoSize ∧ cache.mLogicalBlockSize = 512 then
      lba &&& complement 0b111
    else lba
  Range.ofLength ((cache.mFsLbaRange.mBegin + lba) % addressSpace) logicalBlocksPerCacheBlock

def blockIndexToCachedIndex (blockIndex : Nat) : Nat := blockIndex &&& complement (cache.mFsBlocksPerIo - 1)

/-- `new CachedBlock()` with `allocate_next_block_buffer`. -/
def newCachedBlock : DiskCache × Nat :=
  ({ cache with
      mOffsetWithinRegion := cache.mOffsetWithinRegion + cache.mIoSize
      objects := Function.update cache.objects cache.nextObject
        { virtualAddress := cache.mRegion + cache.mOffsetWithinRegion }
      nextObject := cache.nextObject + 1 },
    cache.nextObject)

def readSectors (virtualAddress : Nat) (lbaRange : Range) : DiskCache :=
  { cache with
    memory := store cache.memory virtualAddress (load cache.device (lbaRange.mBegin * cache.mLogicalBlockSize)
        (lbaRange.length * cache.mLogicalBlockSize)) }

def writeSectors (virtualAddress : Nat) (lbaRange : Range) : DiskCache :=
  { cache with
    device := store cache.device (lbaRange.mBegin * cache.mLogicalBlockSize)
      (load cache.memory virtualAddress (lbaRange.length * cache.mLogicalBlockSize)) }

def popOff (block : Nat) : Run DiskCache := do
  assert (block ∈ cache.mCachedBlocks) "m_my_list != nullptr"
  return { cache with mCachedBlocks := cache.mCachedBlocks.erase block }

def insertFront (block : Nat) : Run DiskCache := do
  assert (block ∉ cache.mCachedBlocks) "list == nullptr || m_my_list == nullptr"
  return { cache with mCachedBlocks := block :: cache.mCachedBlocks }

def popBack : Run (DiskCache × Nat) :=
  match cache.mCachedBlocks.getLast? with
  | none => .error (.assertion "!empty()")
  | some block => .ok ({ cache with mCachedBlocks := cache.mCachedBlocks.dropLast }, block)

def markClean (block : Nat) : DiskCache :=
  { cache with
    objects := Function.update cache.objects block { cache.objects block with isDirty := false } }

def markDirty (block : Nat) : DiskCache :=
  { cache with
    objects := Function.update cache.objects block { cache.objects block with isDirty := true } }

def setFirstBlock (block blockIndex : Nat) : DiskCache :=
  { cache with
    objects := Function.update cache.objects block { cache.objects block with firstBlock := blockIndex } }

def flushBlock (block : Nat) : Run DiskCache :=
  if (cache.objects block).isDirty then do
    let range ← cache.blockToLbaRange (cache.objects block).firstBlock
    assert (cache.mFsLbaRange.containsRange range) "m_fs_lba_range.contains(range)"
    return (cache.writeSectors (cache.objects block).virtualAddress range).markClean block
  else .ok cache

def evictOne : Run (DiskCache × Nat) := do
  let (cache, blockToEvict) ← cache.popBack
  let cache ← if (cache.objects blockToEvict).isDirty then cache.flushBlock blockToEvict else .ok cache
  let cache : DiskCache := { cache with
    mBlockToCache := Function.update cache.mBlockToCache (cache.objects blockToEvict).firstBlock none }
  return (cache.setFirstBlock blockToEvict 0, blockToEvict)

/-- The part of `cached_block` for a block that is not cached, whose index is a cached one. -/
def loadBlock (blockIndex : Nat) : Run (DiskCache × Nat) := do
  let (cache, newBlock) ←
    if cache.mCachedBlocks.length = cache.mCapacity then cache.evictOne else .ok cache.newCachedBlock
  let lbaRange ← cache.blockToLbaRange blockIndex
  assert (cache.mFsLbaRange.containsRange lbaRange) "m_fs_lba_range.contains(lba_range)"
  let cache := cache.readSectors (cache.objects newBlock).virtualAddress lbaRange
  let cache := cache.setFirstBlock newBlock blockIndex
  let cache ← cache.insertFront newBlock
  return ({ cache with
      mBlockToCache := Function.update cache.mBlockToCache blockIndex (some newBlock) }, newBlock)

/-- `cached_block`: the cached block with the file system block, and the offset in it. -/
def cachedBlock (originalIndex : Nat) : Run (DiskCache × Nat × Nat) := do
  let blockIndex := cache.blockIndexToCachedIndex originalIndex
  let offset := (originalIndex - blockIndex) * cache.mFsBlockSize
  match cache.mBlockToCache blockIndex with
  | some cachedEntry => do
    let cache ← cache.popOff cachedEntry
    let cache ← cache.insertFront cachedEntry
    return (cache, cachedEntry, offset)
  | none => do
    let (cache, newBlock) ← cache.loadBlock blockIndex
    return (cache, newBlock, offset)

end

variable (cache : DiskCache)

/-- `read_one` with the bytes that it copies into the buffer. -/
def readOne (blockIndex offset bytes : Nat) : Run (DiskCache × List UInt8) := do
  assert ((offset + bytes) % addressSpace ≤ cache.mFsBlockSize) "(offset + bytes) <= m_fs_block_size"
  if cache.mIoSize = 0 then
    let fullOffset := (offset + blockIndex * cache.mFsBlockSize) % addressSpace
    return (cache, load cache.device fullOffset bytes)
  else
    let (cache, block, blockOffset) ← cache.cachedBlock blockIndex
    let start := (cache.objects block).virtualAddress + blockOffset + offset
    return (cache, load cache.memory start bytes)

/-- `write_one` with what its buffer holds afterwards. On a RAM disk the request reads. -/
def writeOne (blockIndex offset : Nat) (buffer : List UInt8) : Run (DiskCache × List UInt8) := do
  assert ((offset + buffer.length) % addressSpace ≤ cache.mFsBlockSize) "(offset + bytes) <= m_fs_block_size"
  if cache.mIoSize = 0 then
    let fullOffset := (offset + blockIndex * cache.mFsBlockSize) % addressSpace
    return (cache, load cache.device fullOffset buffer.length)
  else
    let (cache, block, blockOffset) ← cache.cachedBlock blockIndex
    let start := (cache.objects block).virtualAddress + blockOffset + offset
    let cache := cache.markDirty block
    return ({ cache with memory := store cache.memory start buffer }, buffer)

def zeroFillOne (blockIndex : Nat) : Run DiskCache :=
  if cache.mIoSize = 0 then
    let fullOffset := blockIndex * cache.mFsBlockSize % addressSpace
    .ok { cache with
      device := store cache.device fullOffset (List.replicate cache.mFsBlockSize 0) }
  else do
    let (cache, block, blockOffset) ← cache.cachedBlock blockIndex
    let start := (cache.objects block).virtualAddress + blockOffset
    let cache : DiskCache := { cache with
      memory := store cache.memory start (List.replicate cache.mFsBlockSize 0) }
    return cache.markDirty block

def flushBlocks (cache : DiskCache) : (blocks : List Nat) → Run DiskCache
  | [] => .ok cache
  | block :: blocks =>
    if (cache.objects block).isDirty then do
      let cache ← cache.flushBlock block
      flushBlocks cache blocks
    else flushBlocks cache blocks

def flushAll : Run DiskCache := if cache.mIoSize = 0 then .ok cache else cache.flushBlocks cache.mCachedBlocks

def flushSpecific (blockIndex : Nat) : Run DiskCache :=
  if cache.mIoSize = 0 then .ok cache
  else
    match cache.mBlockToCache (cache.blockIndexToCachedIndex blockIndex) with
    | none => .ok cache
    | some block => cache.flushBlock block

end DiskCache

end UltraOS
