import UltraOS.FileSystem.FAT32.Model

/-!
# FAT32 directories

Directory entries of `Kernel/FileSystem/FAT32/Structures.h`, and `FAT32::Directory` with its
iteration over the entries and its allocation of slots for new ones. An entry on the disk is a list
of 32 bytes. The name of an entry is the C string in its name field. Checksums are only compared for
a warning and left out, and so are times.
-/

namespace UltraOS

def isUpper (c : UInt8) : Bool := 0x41 ≤ c && c ≤ 0x5A

def isLower (c : UInt8) : Bool := 0x61 ≤ c && c ≤ 0x7A

def toLower (c : UInt8) : UInt8 := if isUpper c then c + 0x20 else c

def toUpper (c : UInt8) : UInt8 := if isLower c then c - 0x20 else c

/-- The characters in front of the terminator. -/
def cString (bytes : List UInt8) : List UInt8 := bytes.takeWhile (· ≠ 0)

namespace FAT32

def maxNameLength : Nat := 255

def shortNameLength : Nat := 8
def shortExtensionLength : Nat := 3
def maxSequenceNumber : Nat := 20

def isDirectoryAttribute : Nat := 1

namespace DirectoryEntry

def deletedMark : UInt8 := 0xE5
def endOfDirectoryMark : UInt8 := 0x00

variable (entry : List UInt8)

def filename : List UInt8 := entry.take shortNameLength
def extension : List UInt8 := (entry.drop shortNameLength).take shortExtensionLength
def attributes : UInt8 := entry.getD 11 0
def caseInfo : UInt8 := entry.getD 12 0

def u16At (offset : Nat) : Nat := (entry.getD offset 0).toNat + 0x100 * (entry.getD (offset + 1) 0).toNat

def clusterHigh : Nat := u16At entry 20
def clusterLow : Nat := u16At entry 26
def size : Nat := u16At entry 28 + 0x10000 * u16At entry 30

def hasAttributes (mask : UInt8) : Bool := attributes entry &&& mask == mask

def isVolumeLabel : Bool := hasAttributes entry 0x08
def isDirectory : Bool := hasAttributes entry 0x10
def isDevice : Bool := hasAttributes entry 0x40
def isLongName : Bool := hasAttributes entry 0x0F

def isLowercaseName : Bool := caseInfo entry &&& 0x08 == 0x08
def isLowercaseExtension : Bool := caseInfo entry &&& 0x10 == 0x10

def isDeleted : Bool := entry.getD 0 0 == deletedMark
def isEndOfDirectory : Bool := entry.getD 0 0 == endOfDirectoryMark

end DirectoryEntry

namespace LongNameDirectoryEntry

def name1Characters : Nat := 5
def name2Characters : Nat := 6
def name3Characters : Nat := 2
def charactersPerEntry : Nat := name1Characters + name2Characters + name3Characters

variable (entry : List UInt8)

def name1 : List UInt8 := (entry.drop 1).take 10
def name2 : List UInt8 := (entry.drop 14).take 12
def name3 : List UInt8 := (entry.drop 28).take 4

def extractSequenceNumber : Nat := (entry.getD 0 0 &&& 0x1F).toNat
def isLastLogical : Bool := entry.getD 0 0 &&& 0x40 != 0

end LongNameDirectoryEntry

structure NativeEntry where
  name : List UInt8 := []
  attributes : Nat := 0
  size : Nat := 0
  shortName : List UInt8 := List.replicate (shortNameLength + shortExtensionLength) 0
  sequenceCount : Nat := 0
  entryOffsetWithinCluster : Nat := 0
  fileEntryCluster1 : Nat := 0
  fileEntryCluster2 : Nat := 0
  fileEntryCluster3 : Nat := 0
  firstDataCluster : Nat := 0
  metadataEntryCluster : Nat := 0
  metadataEntryOffsetWithinCluster : Nat := 0
deriving DecidableEq

namespace NativeEntry

def identifier (entry : NativeEntry) : Identifier :=
  ⟨entry.metadataEntryCluster, entry.metadataEntryOffsetWithinCluster⟩

def isEmpty (entry : NativeEntry) : Bool := entry.name.isEmpty

def isDirectory (entry : NativeEntry) : Bool := entry.attributes % 2 == isDirectoryAttribute

end NativeEntry

/-- The position of an iteration over a directory. -/
structure Directory where
  mCurrentCluster : Nat
  mOffsetWithinCluster : Nat := 0
  mExhausted : Bool := false

def Directory.ofCluster (firstCluster : Nat) : Directory where
  mCurrentCluster := firstCluster
  mExhausted := firstCluster == freeCluster

/-- The step of `fetch_next` to the next cluster. There is none behind the last one. -/
def nextCluster (fs : FAT32) (dir : Directory) : Run (Option Directory) :=
  if dir.mOffsetWithinCluster = fs.mBytesPerCluster then
    let cluster := fs.fatEntryAt dir.mCurrentCluster
    match entryTypeOfFatValue cluster with
    | .endOfChain => .ok none
    | .link => .ok (some { dir with mCurrentCluster := cluster, mOffsetWithinCluster := 0 })
    | _ => .error (.panic ("FAT32: cluster chain contains invalid cluster value of " ++ toString cluster))
  else .ok (some dir)

def fetchNext (fs : FAT32) (dir : Directory) : Run (Option (List UInt8) × Directory) :=
  if dir.mExhausted then .ok (none, dir)
  else do
    match ← fs.nextCluster dir with
    | none =>
      return (none, { dir with
        mCurrentCluster := fs.fatEntryAt dir.mCurrentCluster
        mExhausted := true })
    | some dir =>
      let block ← pureClusterValue dir.mCurrentCluster
      let entry ← fs.lockedRead block dir.mOffsetWithinCluster directoryEntrySize
      return (some entry, { dir with
        mOffsetWithinCluster := dir.mOffsetWithinCluster + directoryEntrySize })

def unpadded (field : List UInt8) : List UInt8 := field.takeWhile (· ≠ 0x20)

def lowered (lowercase : Bool) (field : List UInt8) : List UInt8 := if lowercase then field.map toLower else field

def loweredFilename (entry : List UInt8) : List UInt8 :=
  lowered (DirectoryEntry.isLowercaseName entry) (DirectoryEntry.filename entry)

def loweredExtension (entry : List UInt8) : List UInt8 :=
  lowered (DirectoryEntry.isLowercaseExtension entry) (DirectoryEntry.extension entry)

def normalName (entry : List UInt8) : List UInt8 :=
  unpadded (loweredFilename entry) ++ if (unpadded (loweredExtension entry)).isEmpty then []
    else 0x2E :: unpadded (loweredExtension entry)

def processNormalEntry (dir : Directory) (entry : List UInt8) (out : NativeEntry) (isSmall : Bool) : NativeEntry :=
  { out with
    name := if isSmall then out.name else cString (normalName entry)
    shortName := loweredFilename entry ++ loweredExtension entry
    size := DirectoryEntry.size entry
    firstDataCluster := DirectoryEntry.clusterHigh entry * 0x10000 + DirectoryEntry.clusterLow entry
    metadataEntryCluster := dir.mCurrentCluster
    metadataEntryOffsetWithinCluster := dir.mOffsetWithinCluster - directoryEntrySize
    attributes :=
      if DirectoryEntry.isDirectory entry then isDirectoryAttribute else out.attributes }

/-- `process_ucs2`: the characters that it stores. -/
def processUcs2 : (ucs2 : List UInt8) → List UInt8
  | low :: high :: rest =>
    if low.toNat + 0x100 * high.toNat = 0 then []
    else (if low.toNat + 0x100 * high.toNat > 127 then 0x3F else low) :: processUcs2 rest
  | _ => []

def pieceCharacters (entry : List UInt8) : List UInt8 :=
  let characters := processUcs2 (LongNameDirectoryEntry.name1 entry)
  if characters.length = LongNameDirectoryEntry.name1Characters then
    let more := processUcs2 (LongNameDirectoryEntry.name2 entry)
    if more.length = LongNameDirectoryEntry.name2Characters then
      characters ++ more ++ processUcs2 (LongNameDirectoryEntry.name3 entry)
    else characters ++ more
  else characters

/-- What the loop over the long entries has done so far. Characters are stored at offsets from the begin of
the entry, so those from 256 on are behind its name. -/
structure LongNameState where
  dir : Directory
  entry : List UInt8
  previousCluster : Nat
  curNameBufferPtr : Nat
  stores : List (UInt8 × Nat) := []
  fileEntryCluster2 : Nat := freeCluster
  fileEntryCluster3 : Nat := freeCluster

def recordCluster (state : LongNameState) : Run LongNameState :=
  let cluster := state.dir.mCurrentCluster
  if cluster = state.previousCluster then .ok state
  else if state.fileEntryCluster2 = freeCluster then
    .ok { state with fileEntryCluster2 := cluster, previousCluster := cluster }
  else if state.fileEntryCluster3 = freeCluster then
    .ok { state with fileEntryCluster3 := cluster, previousCluster := cluster }
  else neverReached

/-- A fetch inside a name must not meet the end of the directory. -/
def fetchInside (fs : FAT32) (dir : Directory) : Run (List UInt8 × Directory) := do
  match ← fs.fetchNext dir with
  | (some entry, dir) => return (entry, dir)
  | (none, _) => .error (.assertion "did_fetch")

/-- The loop over the long entries, by the sequence number. It ends with the normal entry. A number
of zero would index the checksums with -1. -/
def longNameLoop (fs : FAT32) : (sequenceNumber : Nat) → LongNameState → Run LongNameState
  | 0, _ => .error .badPointer
  | sequenceNumber + 1, state => do
    let state ← recordCluster state
    let stores :=
      state.stores ++ (pieceCharacters state.entry).zipIdx state.curNameBufferPtr
    let (entry, dir) ← fs.fetchInside state.dir
    if sequenceNumber = 0 then return { state with dir, entry, stores }
    else
      longNameLoop fs sequenceNumber { state with
        dir, entry, stores
        curNameBufferPtr :=
          state.curNameBufferPtr - LongNameDirectoryEntry.charactersPerEntry }

def imageOf (stores : List (UInt8 × Nat)) : Nat → UInt8 :=
  stores.foldl (fun image store offset => if offset = store.2 then store.1 else image offset)
    fun _ => 0

/-- The attributes lie behind the 256 bytes of the name. -/
def attributesOf (image : Nat → UInt8) : Nat :=
  (image 256).toNat + 0x100 * (image 257).toNat + 0x10000 * (image 258).toNat + 0x1000000 * (image 259).toNat

/-- The part of `next_native` for a long name, which is moved from the last value of `cur_name_buffer_ptr`
to the begin and terminated. The result has the offsets of all bytes that are stored. -/
def nextLongName (fs : FAT32) (dir : Directory) (entry : List UInt8) (out : NativeEntry) :
    Run (NativeEntry × Directory × List Nat) := do
  let initialSequenceNumber := LongNameDirectoryEntry.extractSequenceNumber entry
  assert (initialSequenceNumber ≤ maxSequenceNumber) "initial_sequence_number <= max_sequence_number"
  assert (LongNameDirectoryEntry.isLastLogical entry) "long_entry.is_last_logical()"
  let state ← fs.longNameLoop initialSequenceNumber
    { dir, entry, previousCluster := dir.mCurrentCluster, curNameBufferPtr := maxNameLength - 8 }
  let charsWritten := state.stores.length
  assert (charsWritten ≤ maxNameLength) "chars_written <= File::max_name_length"
  let image := imageOf state.stores
  let out := { out with
    sequenceCount := initialSequenceNumber
    fileEntryCluster2 := state.fileEntryCluster2
    fileEntryCluster3 := state.fileEntryCluster3
    name := cString ((List.range charsWritten).map fun i => image (state.curNameBufferPtr + i))
    attributes := attributesOf image }
  return (processNormalEntry state.dir state.entry out true, state.dir,
    state.stores.map Prod.snd ++ List.range (charsWritten + 1))

def nextNativeLoop (fs : FAT32) : (fuel : Nat) → Directory → NativeEntry → Run (NativeEntry × Directory × List Nat)
  | 0, _, _ => .error .outOfFuel
  | fuel + 1, dir, out => do
    match ← fs.fetchNext dir with
    | (none, dir) => return (out, dir, [])
    | (some entry, dir) =>
      if DirectoryEntry.isDeleted entry then nextNativeLoop fs fuel dir out
      else if DirectoryEntry.isEndOfDirectory entry then
        return (out, { dir with mExhausted := true }, [])
      else if DirectoryEntry.isDevice entry then nextNativeLoop fs fuel dir out
      else
        let out := { out with
          fileEntryCluster1 := dir.mCurrentCluster
          entryOffsetWithinCluster := dir.mOffsetWithinCluster - directoryEntrySize
          sequenceCount := 0 }
        if DirectoryEntry.isLongName entry then fs.nextLongName dir entry out
        else if DirectoryEntry.isVolumeLabel entry then nextNativeLoop fs fuel dir out
        else
          return (processNormalEntry dir entry out false, dir, List.range (normalName entry).length)

/-- No directory has more slots than fit into a chain that ends. -/
def directoryFuel (fs : FAT32) : Nat := chainFuel * fs.mBytesPerCluster

/-- `next_native` together with the offsets of the bytes that are stored as the name. -/
def nextNativeStores (fs : FAT32) (dir : Directory) : Run (NativeEntry × Directory × List Nat) :=
  if dir.mExhausted then .ok ({}, dir, [])
  else fs.nextNativeLoop fs.directoryFuel dir {}

def nextNative (fs : FAT32) (dir : Directory) : Run (NativeEntry × Directory) := do
  let (entry, dir, _) ← fs.nextNativeStores dir
  return (entry, dir)

structure EntryCoordinates where
  cluster : Nat
  offsetWithinCluster : Nat

structure Slot where
  mCurrentOffsetWithinCluster : Nat
  mCurrentClusterIndex : Nat := 0
  mAllocatedClusters : List Nat

def Slot.advance (slot : Slot) (bytesPerCluster : Nat) : Run Slot :=
  if slot.mCurrentOffsetWithinCluster = bytesPerCluster then do
    assert (slot.mCurrentClusterIndex ≠ 2) "m_current_cluster_index != 2"
    assert (slot.mAllocatedClusters.getD (slot.mCurrentClusterIndex + 1) freeCluster ≠ freeCluster)
      "m_allocated_clusters[m_current_cluster_index] != free_cluster"
    return { slot with
      mCurrentClusterIndex := slot.mCurrentClusterIndex + 1
      mCurrentOffsetWithinCluster := 0 }
  else .ok slot

def Slot.nextEntry (slot : Slot) (bytesPerCluster : Nat) : Run (EntryCoordinates × Slot) := do
  let slot ← slot.advance bytesPerCluster
  return (⟨slot.mAllocatedClusters.getD slot.mCurrentClusterIndex freeCluster, slot.mCurrentOffsetWithinCluster⟩,
    { slot with
      mCurrentOffsetWithinCluster := slot.mCurrentOffsetWithinCluster + directoryEntrySize })

structure SlotScan where
  allocatedClusters : List Nat := [0, 0, 0]
  lastAllocatedCluster : Nat := 0
  lastAllocatedIndex : Nat := 0
  initialOffset : Nat := 0
  currentCluster : Nat
  currentOffset : Nat := 0
  contiguousEmpty : Nat := 0

def SlotScan.append (scan : SlotScan) (cluster : Nat) : Run SlotScan :=
  if scan.lastAllocatedIndex < 3 then
    .ok { scan with
      allocatedClusters := scan.allocatedClusters.set scan.lastAllocatedIndex cluster
      lastAllocatedIndex := scan.lastAllocatedIndex + 1 }
  else .error .badPointer

def SlotScan.extend (scan : SlotScan) : Run SlotScan :=
  if scan.lastAllocatedCluster ≠ scan.currentCluster then do
    let scan ← scan.append scan.currentCluster
    return { scan with
      initialOffset := if scan.initialOffset = 0 then scan.currentOffset else scan.initialOffset
      lastAllocatedCluster := scan.currentCluster
      contiguousEmpty := scan.contiguousEmpty + 1 }
  else .ok { scan with contiguousEmpty := scan.contiguousEmpty + 1 }

def SlotScan.reset (scan : SlotScan) : SlotScan :=
  { currentCluster := scan.currentCluster, currentOffset := scan.currentOffset }

def SlotScan.toSlot (scan : SlotScan) : Slot :=
  { mCurrentOffsetWithinCluster := scan.initialOffset, mAllocatedClusters := scan.allocatedClusters }

def isFreeMark (firstByte : UInt8) : Bool :=
  firstByte == DirectoryEntry.endOfDirectoryMark || firstByte == DirectoryEntry.deletedMark

/-- The loop of `allocate_entries`: the slot that it returns, or the variables at its end. The offset
is not reset when the scan goes on to the next cluster. -/
def allocateEntriesLoop (fs : FAT32) (count : Nat) : (fuel : Nat) → SlotScan → Run (Slot ⊕ SlotScan)
  | 0, _ => .error .outOfFuel
  | fuel + 1, scan => do
    let block ← pureClusterValue scan.currentCluster
    let firstByte ← fs.lockedRead block scan.currentOffset 1
    let scan ← if isFreeMark (firstByte.getD 0 0) then scan.extend else .ok scan.reset
    if scan.contiguousEmpty = count ∧ isFreeMark (firstByte.getD 0 0) then
      return .inl scan.toSlot
    else
      let scan := { scan with currentOffset := scan.currentOffset + directoryEntrySize }
      if scan.currentOffset = fs.mBytesPerCluster then
        let scan := { scan with currentCluster := fs.fatEntryAt scan.currentCluster }
        if entryTypeOfFatValue scan.currentCluster = .endOfChain then return .inr scan
        else allocateEntriesLoop fs count fuel scan
      else allocateEntriesLoop fs count fuel scan

def appendAll (scan : SlotScan) : List Nat → Run SlotScan
  | [] => .ok scan
  | cluster :: chain => do appendAll (← scan.append cluster) chain

def zeroFillRest (fs : FAT32) (chain : List Nat) (extraBytes : Nat) : Run FAT32 :=
  if extraBytes ≠ ceilingDivide extraBytes fs.mBytesPerCluster * fs.mBytesPerCluster then do
    let block ← pureClusterValue (← chainLast chain)
    return fs.lockedZeroFill block 1
  else .ok fs

def extendDirectory (fs : FAT32) (f : File) (count : Nat) (scan : SlotScan) :
    Run (FAT32 × Slot) := do
  let extraToAllocate := count - scan.contiguousEmpty
  let extraBytes := extraToAllocate * directoryEntrySize
  let clustersToAllocate := ceilingDivide extraBytes fs.mBytesPerCluster
  let (fs, chain) ← fs.allocateClusterChain clustersToAllocate (← fs.lastCluster f)
  let fs ← fs.zeroFillRest chain extraBytes
  let scan ← appendAll scan chain
  return (fs, scan.toSlot)

def allocateEntries (fs : FAT32) (f : File) (count : Nat) : Run (FAT32 × Slot) := do
  match ← fs.allocateEntriesLoop count fs.directoryFuel { currentCluster := f.mFirstCluster } with
  | .inl slot => return (fs, slot)
  | .inr scan => fs.extendDirectory f count scan

def writeOne (fs : FAT32) (entry : List UInt8) (slot : Slot) : Run (FAT32 × Slot) := do
  let (coordinates, slot) ← slot.nextEntry fs.mBytesPerCluster
  let block ← pureClusterValue coordinates.cluster
  let fs ← fs.lockedWrite block coordinates.offsetWithinCluster entry
  return (fs, slot)

end FAT32

end UltraOS
