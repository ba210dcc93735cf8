import UltraOS.Common.LowerBound

/-!
# FAT32 volumes and files

The parts of `Kernel/FileSystem/FAT32/FAT32.h` and `FAT32.cpp` for the file allocation table and the contents of
files. The two disk caches are what they hold: a number for each entry of the table, and a byte for each offset in
each block of the data area, where block `n` holds cluster `n + 2`. Copies succeed, and locks are left out.
-/

namespace UltraOS

def toU32 (value : Nat) : Nat := value % 0x100000000

def subU32 (l r : Nat) : Nat := (l + (0x100000000 - r)) % 0x100000000

def subSize (l r : Nat) : Nat := (l + (0x10000000000000000 - r)) % 0x10000000000000000

def ceilingDivide (l r : Nat) : Nat := (if l ≠ 0 then 1 else 0) + (l - if l ≠ 0 then 1 else 0) / r

def neverReached {α : Type} : Run α := .error (.assertion "!\"Tried to execute a non-reachable area\"")

structure FAT32 where
  /-- The entries of the table behind `m_fat_cache`. -/
  mFatCache : Nat → Nat
  /-- The blocks of the data area behind `m_data_cache`. -/
  mDataCache : Nat → Nat → UInt8
  mLastFreeCluster : Nat := 0
  mFreeClusters : Nat := 0
  mClusterCount : Nat
  mBytesPerCluster : Nat
  mEndOfChain : Nat

namespace FAT32

structure Identifier where
  fileDirectoryEntryCluster : Nat := 0
  fileDirectoryEntryOffsetWithinCluster : Nat := 0
deriving DecidableEq

structure ContiguousFileRange where
  fileOffsetCluster : Nat
  globalCluster : Nat
deriving DecidableEq

structure File where
  mContiguousRanges : List ContiguousFileRange := []
  mIdentifier : Identifier := {}
  mFirstCluster : Nat := 0
  mSize : Nat := 0
  mIsDirty : Bool := false
deriving DecidableEq

inductive FATEntryType where
  | free
  | reserved
  | bad
  | endOfChain
  | link
deriving DecidableEq

def freeCluster : Nat := 0
def badCluster : Nat := 0x0FFFFFF7
def endOfChainMinCluster : Nat := 0x0FFFFFF8
def reservedClusterCount : Nat := 2

def entryTypeOfFatValue (value : Nat) : FATEntryType :=
  if value = 0 then .free
  else if value = 1 then .reserved
  else if value ≥ endOfChainMinCluster then .endOfChain
  else if value = badCluster then .bad
  else .link

def pureClusterValue (value : Nat) : Run Nat := do
  assert (value ≥ reservedClusterCount) "value >= reserved_cluster_count"
  return value - reservedClusterCount

def fatEntryAt (fs : FAT32) (index : Nat) : Nat := fs.mFatCache index

def setFatEntryAt (fs : FAT32) (index value : Nat) : FAT32 :=
  { fs with mFatCache := fun i => if i = index then value else fs.mFatCache i }

def lockedRead (fs : FAT32) (blockIndex offset bytes : Nat) : Run (List UInt8) := do
  assert (offset + bytes ≤ fs.mBytesPerCluster) "(offset + bytes) <= m_fs_block_size"
  return (List.range bytes).map fun i => fs.mDataCache blockIndex (offset + i)

def lockedWrite (fs : FAT32) (blockIndex offset : Nat) (buffer : List UInt8) : Run FAT32 := do
  assert (offset + buffer.length ≤ fs.mBytesPerCluster) "(offset + bytes) <= m_fs_block_size"
  return { fs with
    mDataCache := fun block i =>
      if block = blockIndex ∧ offset ≤ i ∧ i < offset + buffer.length then
        buffer.getD (i - offset) 0
      else fs.mDataCache block i }

def lockedZeroFill (fs : FAT32) (blockIndex count : Nat) : FAT32 :=
  { fs with
    mDataCache := fun block i =>
      if blockIndex ≤ block ∧ block < blockIndex + count then 0 else fs.mDataCache block i }

/-- Cluster numbers have 28 bits, so no chain that ends is longer. -/
def chainFuel : Nat := 0x10000000

/-- The loop of `calculate_capacity`: what is stored as the last free cluster is the value of the
entry, not its index. -/
def capacityLoop (fs : FAT32) : (lastFatEntry : Nat) → FAT32
  | 0 => fs
  | lastFatEntry + 1 =>
    if lastFatEntry + 1 > 1 then
      let cluster := fs.fatEntryAt (lastFatEntry + 1)
      capacityLoop (if cluster = freeCluster then
          { fs with mFreeClusters := fs.mFreeClusters + 1, mLastFreeCluster := cluster }
        else fs)
        lastFatEntry
    else fs

def calculateCapacity (fs : FAT32) : FAT32 := fs.capacityLoop (fs.mClusterCount + 2 - 1)

/-- The inner loop of `allocate_cluster_chain`, over `steps` clusters. It stops early when the chain
has `count` clusters. -/
def allocatePass (count : Nat) : (steps cluster : Nat) → FAT32 → (prev : Nat) →
    (chain : List Nat) → FAT32 × Nat × List Nat
  | 0, _, fs, prev, chain => (fs, prev, chain)
  | steps + 1, cluster, fs, prev, chain =>
    if entryTypeOfFatValue (fs.fatEntryAt cluster) ≠ .free then
      allocatePass count steps (cluster + 1) fs prev chain
    else
      let chain := chain ++ [cluster]
      let fs := if prev ≠ freeCluster then fs.setFatEntryAt prev cluster else fs
      if chain.length = count then
        ({ fs with
            mFreeClusters := fs.mFreeClusters - count
            mLastFreeCluster := cluster + 1 }.setFatEntryAt cluster fs.mEndOfChain,
          cluster, chain)
      else allocatePass count steps (cluster + 1) fs cluster chain

def allocateClusterChain (fs : FAT32) (count linkTo : Nat) : Run (FAT32 × List Nat) := do
  assert (count ≠ 0) "count != 0"
  assert (count ≤ fs.mFreeClusters) "count <= m_free_clusters.load(MemoryOrder::ACQUIRE)"
  let hint := fs.mLastFreeCluster
  let (fs, prev, chain) := allocatePass count (fs.mClusterCount - hint) hint fs linkTo []
  if chain.length = count then return (fs, chain)
  else
    let (fs, _, chain) := allocatePass count (hint - reservedClusterCount) reservedClusterCount fs prev chain
    if chain.length = count then return (fs, chain)
    else
      .error (.panic ("FAT32: Failed to allocate enough clusters, requested: " ++ toString count))

inductive FreeMode where
  | keepFirst
  | includingFirst
deriving DecidableEq

def freeLoop : (fuel : Nat) → FAT32 → (current : Nat) → Run FAT32
  | 0, _, _ => .error .outOfFuel
  | fuel + 1, fs, current =>
    let next := fs.fatEntryAt current
    let fs := fs.setFatEntryAt current freeCluster
    if entryTypeOfFatValue next = .endOfChain then .ok fs else freeLoop fuel fs next

def freeClusterChainStartingAt (fs : FAT32) (first : Nat) : FreeMode → Run FAT32
  | .keepFirst => freeLoop chainFuel (fs.setFatEntryAt first fs.mEndOfChain) (fs.fatEntryAt first)
  | .includingFirst => freeLoop chainFuel fs first

def contiguousRangesLoop (fs : FAT32) (size : Nat) : (fuel : Nat) → (range : ContiguousFileRange) →
    (currentFileOffset currentCluster : Nat) → (ranges : List ContiguousFileRange) → Run (List ContiguousFileRange)
  | 0, _, _, _, _ => .error .outOfFuel
  | fuel + 1, range, currentFileOffset, currentCluster, ranges =>
    let nextCluster := fs.fatEntryAt currentCluster
    match entryTypeOfFatValue nextCluster with
    | .endOfChain => do
      assert (toU32 (currentFileOffset * fs.mBytesPerCluster) ≥ size)
        "current_file_offset * fs.bytes_per_cluster() >= m_size"
      return ranges ++ [range]
    | .link =>
      if nextCluster = toU32 (currentCluster + 1) then
        contiguousRangesLoop fs size fuel range (toU32 (currentFileOffset + 1)) nextCluster ranges
      else
        contiguousRangesLoop fs size fuel ⟨toU32 (currentFileOffset + 1), nextCluster⟩
          (toU32 (currentFileOffset + 1)) nextCluster (ranges ++ [range])
    | _ => neverReached

def computeContiguousRanges (fs : FAT32) (f : File) : Run File := do
  let ranges ← fs.contiguousRangesLoop f.mSize chainFuel ⟨0, f.mFirstCluster⟩ 1 f.mFirstCluster f.mContiguousRanges
  return { f with mContiguousRanges := ranges }

def rangeAt (f : File) (itr : Nat) : Run ContiguousFileRange :=
  match f.mContiguousRanges[itr]? with
  | some range => .ok range
  | none => .error .badPointer

def rangeBefore (f : File) (itr : Nat) : Run ContiguousFileRange :=
  match itr with
  | 0 => .error .badPointer
  | itr + 1 => rangeAt f itr

/-- The range that `cluster_from_offset` settles on, from the result of the binary search. -/
def rangeForOffset (f : File) (offset itr : Nat) : Run ContiguousFileRange := do
  let itr := if itr = f.mContiguousRanges.length then itr - 1 else itr
  let range ← rangeAt f itr
  if range.fileOffsetCluster > offset then rangeBefore f itr else return range

def clusterFromOffset (fs : FAT32) (f : File) (offset : Nat) : Run Nat := do
  assert (!f.mContiguousRanges.isEmpty) "!m_contiguous_ranges.empty()"
  assert (offset < ceilingDivide f.mSize fs.mBytesPerCluster)
    "offset < ceiling_divide(m_size, fs_as_fat32().bytes_per_cluster())"
  let itr ← lowerBound (fun key (range : ContiguousFileRange) => key < range.fileOffsetCluster)
    (fun range key => range.fileOffsetCluster < key) f.mContiguousRanges offset
  let range ← rangeForOffset f offset itr
  let globalCluster := toU32 (range.globalCluster + subU32 offset range.fileOffsetCluster)
  assert (entryTypeOfFatValue globalCluster = .link)
    "fs_as_fat32().entry_type_of_fat_value(global_cluster) == FATEntryType::LINK"
  return globalCluster

def lastCluster (fs : FAT32) (f : File) : Run Nat :=
  match f.mContiguousRanges.getLast? with
  | none => .error (.assertion "!m_contiguous_ranges.empty()")
  | some range =>
    if f.mSize < fs.mBytesPerCluster then .ok f.mFirstCluster
    else
      let lastFileClusterOffset := ceilingDivide f.mSize fs.mBytesPerCluster - 1
      .ok (toU32 (range.globalCluster + subU32 lastFileClusterOffset range.fileOffsetCluster))

/-- The ranges are computed when the file is first used. -/
def withRanges (fs : FAT32) (f : File) : Run File :=
  if f.mContiguousRanges.isEmpty then fs.computeContiguousRanges f else .ok f

/-- The loop of `read`, with the bytes that are already in the buffer. -/
def readLoop (fs : FAT32) (f : File) :
    (fuel clusterOffset offsetWithinCluster bytesToRead : Nat) → (byteBuffer : List UInt8) → Run (List UInt8)
  | 0, _, _, _, _ => .error .outOfFuel
  | fuel + 1, clusterOffset, offsetWithinCluster, bytesToRead, byteBuffer => do
    let currentCluster ← fs.clusterFromOffset f clusterOffset
    let bytesForThisCluster := min bytesToRead (fs.mBytesPerCluster - offsetWithinCluster)
    let block ← pureClusterValue currentCluster
    let bytes ← fs.lockedRead block offsetWithinCluster bytesForThisCluster
    if bytesToRead - bytesForThisCluster = 0 then return byteBuffer ++ bytes
    else
      readLoop fs f fuel (clusterOffset + 1) 0 (bytesToRead - bytesForThisCluster) (byteBuffer ++ bytes)

/-- `read`: the file with its ranges, and the bytes. -/
def read (fs : FAT32) (f : File) (offset size : Nat) : Run (File × List UInt8) :=
  if offset ≥ f.mSize then .ok (f, [])
  else do
    let f ← fs.withRanges f
    let clusterOffset := offset / fs.mBytesPerCluster
    let offsetWithinCluster := offset - clusterOffset * fs.mBytesPerCluster
    let bytesToRead := min size (f.mSize - offset)
    let bytes ← fs.readLoop f (bytesToRead + 1) clusterOffset offsetWithinCluster bytesToRead []
    return (f, bytes)

def setFirstCluster (f : File) (firstCluster : Nat) : File := { f with mFirstCluster := firstCluster, mIsDirty := true }

def setSize (f : File) (size : Nat) : File :=
  { f with
    mIsDirty := true
    mSize := toU32 size
    mFirstCluster := if toU32 size = 0 then 0 else f.mFirstCluster }

def directoryEntrySize : Nat := 32

/-- The bytes of a directory entry with `cluster_high`, `cluster_low` and `size` set. -/
def updatedEntry (entry : List UInt8) (firstCluster size : Nat) : List UInt8 :=
  let entry := entry.set 20 (UInt8.ofNat (firstCluster / 0x10000 % 0x100))
  let entry := entry.set 21 (UInt8.ofNat (firstCluster / 0x1000000 % 0x100))
  let entry := entry.set 26 (UInt8.ofNat (firstCluster % 0x100))
  let entry := entry.set 27 (UInt8.ofNat (firstCluster / 0x100 % 0x100))
  let entry := entry.set 28 (UInt8.ofNat (size % 0x100))
  let entry := entry.set 29 (UInt8.ofNat (size / 0x100 % 0x100))
  let entry := entry.set 30 (UInt8.ofNat (size / 0x10000 % 0x100))
  entry.set 31 (UInt8.ofNat (size / 0x1000000 % 0x100))

def flushMetaModifications (fs : FAT32) (f : File) : Run (FAT32 × File) :=
  if !f.mIsDirty then .ok (fs, f)
  else do
    let block ← pureClusterValue f.mIdentifier.fileDirectoryEntryCluster
    let offset := f.mIdentifier.fileDirectoryEntryOffsetWithinCluster
    let entry ← fs.lockedRead block offset directoryEntrySize
    let fs ← fs.lockedWrite block offset (updatedEntry entry f.mFirstCluster f.mSize)
    return (fs, { f with mIsDirty := false })

/-- The loop of `write` that zero fills the clusters in front of the offset. -/
def zeroClusters (fs : FAT32) : List Nat → Run FAT32
  | [] => .ok fs
  | cluster :: rest => do
    let block ← pureClusterValue cluster
    zeroClusters (fs.lockedZeroFill block 1) rest

def chainFirst (chain : List Nat) : Run Nat :=
  match chain.head? with
  | some cluster => .ok cluster
  | none => .error .badPointer

def chainLast (chain : List Nat) : Run Nat :=
  match chain.getLast? with
  | some cluster => .ok cluster
  | none => .error .badPointer

/-- The last allocated cluster is zero filled when the write is unaligned. The cluster number is
passed as a block index here. -/
def zeroFillLast (fs : FAT32) (chain : List Nat) (size offsetWithinCluster : Nat) : Run FAT32 :=
  if subSize size offsetWithinCluster % fs.mBytesPerCluster ≠ 0 then do
    return fs.lockedZeroFill (← chainLast chain) 1
  else .ok fs

def linkFirst (f : File) (chain : List Nat) : Run File :=
  if f.mFirstCluster = 0 then do return setFirstCluster f (← chainFirst chain) else .ok f

/-- The part of `write` that allocates the clusters that are missing. -/
def extendChain (fs : FAT32) (f : File) (offset size : Nat) : Run (FAT32 × File) := do
  let fileClusterCount := ceilingDivide f.mSize fs.mBytesPerCluster
  let neededClusterCount := ceilingDivide (offset + size) fs.mBytesPerCluster
  let offsetClusters := ceilingDivide offset fs.mBytesPerCluster
  let offsetWithinCluster := offset - offset / fs.mBytesPerCluster * fs.mBytesPerCluster
  let clustersToZero :=
    if fileClusterCount < offsetClusters then offsetClusters - fileClusterCount else 0
  let clustersToAllocate :=
    clustersToZero + (neededClusterCount - (fileClusterCount + clustersToZero))
  let (fs, chain) ← fs.allocateClusterChain clustersToAllocate (← fs.lastCluster f)
  let fs ← fs.zeroClusters (chain.take clustersToZero)
  let fs ← fs.zeroFillLast chain size offsetWithinCluster
  let f ← linkFirst f chain
  return (fs, f)

def extendIfNeeded (fs : FAT32) (f : File) (offset size : Nat) : Run (FAT32 × File) :=
  if ceilingDivide f.mSize fs.mBytesPerCluster < ceilingDivide (offset + size) fs.mBytesPerCluster then
    fs.extendChain f offset size
  else .ok (fs, f)

def growIfNeeded (fs : FAT32) (f : File) (endOfWrite : Nat) : Run (FAT32 × File) :=
  if endOfWrite > f.mSize then do
    let (fs, f) ← fs.flushMetaModifications (setSize f endOfWrite)
    let f ← fs.computeContiguousRanges { f with mContiguousRanges := [] }
    return (fs, f)
  else .ok (fs, f)

def writeLoop (f : File) : (fuel : Nat) → FAT32 →
    (offsetClusterIndex offsetWithinCluster : Nat) → (byteBuff : List UInt8) → Run FAT32
  | 0, _, _, _, _ => .error .outOfFuel
  | fuel + 1, fs, offsetClusterIndex, offsetWithinCluster, byteBuff => do
    let currentCluster ← fs.clusterFromOffset f offsetClusterIndex
    let bytesForThisWrite := min byteBuff.length (fs.mBytesPerCluster - offsetWithinCluster)
    let block ← pureClusterValue currentCluster
    let fs ← fs.lockedWrite block offsetWithinCluster (byteBuff.take bytesForThisWrite)
    if byteBuff.length - bytesForThisWrite = 0 then return fs
    else writeLoop f fuel fs (offsetClusterIndex + 1) 0 (byteBuff.drop bytesForThisWrite)

/-- `write`: the volume and the file after it, and the number of bytes written. -/
def write (fs : FAT32) (f : File) (buffer : List UInt8) (offset : Nat) : Run (FAT32 × File × Nat) :=
  if buffer.length = 0 then .ok (fs, f, 0)
  else do
    let f ← fs.withRanges f
    let offsetClusterIndex := offset / fs.mBytesPerCluster
    let offsetWithinCluster := offset - offsetClusterIndex * fs.mBytesPerCluster
    let (fs, f) ← fs.extendIfNeeded f offset buffer.length
    let (fs, f) ← fs.growIfNeeded f (offset + buffer.length)
    let fs ← writeLoop f (buffer.length + 1) fs offsetClusterIndex offsetWithinCluster buffer
    return (fs, f, buffer.length)

end FAT32

end UltraOS
