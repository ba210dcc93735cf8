import UltraOS.FileSystem.FAT32.Directory.Create

/-!
# Removal of directory entries

The part of `FAT32::remove_file` behind its walk: the loop over the last directory, which removes the
entries with the name of the last component.
-/

namespace UltraOS.FAT32

inductive OnlyIf where
  | file
  | directory
deriving DecidableEq

def OnlyIf.admits (isDirectory : Bool) : OnlyIf → Bool
  | .file => !isDirectory
  | .directory => isDirectory

/-- A directory has more than its first two entries. -/
def isNonEmptyDirectory (fs : FAT32) (entry : NativeEntry) : Run Bool :=
  if entry.isDirectory ∧ entry.firstDataCluster ≠ freeCluster then do
    let block ← pureClusterValue entry.firstDataCluster
    let firstByte ← fs.lockedRead block (directoryEntrySize * 2) 1
    return firstByte.getD 0 0 != DirectoryEntry.endOfDirectoryMark
  else .ok false

def freeData (fs : FAT32) (entry : NativeEntry) : Run FAT32 :=
  if entry.firstDataCluster ≠ freeCluster then
    fs.freeClusterChainStartingAt entry.firstDataCluster .includingFirst
  else .ok fs

def isEndMarkAt (fs : FAT32) (cluster offset : Nat) : Run Bool := do
  let block ← pureClusterValue cluster
  let mark ← fs.lockedRead block offset 1
  return mark.getD 0 0 == DirectoryEntry.endOfDirectoryMark

def isLastFileInDirectory (fs : FAT32) (entry : NativeEntry) : Run Bool :=
  let currentCluster := entry.metadataEntryCluster
  let currentOffset := entry.metadataEntryOffsetWithinCluster
  if currentOffset = fs.mBytesPerCluster - directoryEntrySize then
    let nextCluster := fs.fatEntryAt currentCluster
    match entryTypeOfFatValue nextCluster with
    | .endOfChain => .ok true
    | .link => fs.isEndMarkAt nextCluster 0
    | _ => neverReached
  else fs.isEndMarkAt currentCluster (currentOffset + directoryEntrySize)

def deletedEntry (lastFileInDirectory : Bool) : List UInt8 :=
  (if lastFileInDirectory then DirectoryEntry.endOfDirectoryMark else DirectoryEntry.deletedMark) ::
    List.replicate (directoryEntrySize - 1) 0

def followingCluster (entry : NativeEntry) (currentCluster : Nat) : Run Nat :=
  if currentCluster = entry.fileEntryCluster1 then do
    assert (entry.fileEntryCluster2 ≠ freeCluster) "entry.file_entry_cluster_2"
    return entry.fileEntryCluster2
  else if currentCluster = entry.fileEntryCluster2 then do
    assert (entry.fileEntryCluster3 ≠ freeCluster) "entry.file_entry_cluster_3"
    return entry.fileEntryCluster3
  else neverReached

def eraseLoop (entry : NativeEntry) (lastFileInDirectory : Bool) : (entriesToDelete : Nat) → FAT32 →
    (currentCluster currentOffset : Nat) → Run FAT32
  | 0, fs, _, _ => .ok fs
  | entriesToDelete + 1, fs, currentCluster, currentOffset =>
    if currentOffset = fs.mBytesPerCluster then
      if lastFileInDirectory then .ok fs
      else do
        let currentCluster ← followingCluster entry currentCluster
        let block ← pureClusterValue currentCluster
        let fs ← fs.lockedWrite block 0 (deletedEntry lastFileInDirectory)
        eraseLoop entry lastFileInDirectory entriesToDelete fs currentCluster directoryEntrySize
    else do
      let block ← pureClusterValue currentCluster
      let fs ← fs.lockedWrite block currentOffset (deletedEntry lastFileInDirectory)
      eraseLoop entry lastFileInDirectory entriesToDelete fs currentCluster (currentOffset + directoryEntrySize)

def removeSlots (fs : FAT32) (previousCluster : Nat) (entry : NativeEntry) :
    Run (FAT32 × Option ErrorCode) := do
  let lastFileInDirectory ← fs.isLastFileInDirectory entry
  if lastFileInDirectory ∧ entry.entryOffsetWithinCluster = 0 then
    let fs ← fs.freeClusterChainStartingAt previousCluster .keepFirst
    return (fs, some .noError)
  else
    let fs ← eraseLoop entry lastFileInDirectory (entry.sequenceCount + 1) fs
      entry.fileEntryCluster1 entry.entryOffsetWithinCluster
    if lastFileInDirectory then
      let fs ← fs.freeClusterChainStartingAt entry.fileEntryCluster1 .keepFirst
      return (fs, none)
    else return (fs, none)

def removeEntry (fs : FAT32) (isOpen : Identifier → Bool) (constraint : OnlyIf)
    (previousCluster : Nat) (entry : NativeEntry) : Run (FAT32 × Option ErrorCode) :=
  if entry.isDirectory ∧ constraint = .file then .ok (fs, some .isDirectory)
  else if !entry.isDirectory ∧ constraint = .directory then .ok (fs, some .isFile)
  else if isOpen entry.identifier then .ok (fs, some .fileIsBusy)
  else do
    if ← fs.isNonEmptyDirectory entry then return (fs, some .fileIsBusy)
    else
      let fs ← fs.freeData entry
      fs.removeSlots previousCluster entry

def removeLoop (isOpen : Identifier → Bool) (constraint : OnlyIf) (node : List UInt8) :
    (fuel : Nat) → FAT32 → Directory → (previousCluster : Nat) → (code : ErrorCode) → Run (FAT32 × ErrorCode)
  | 0, _, _, _, _ => .error .outOfFuel
  | fuel + 1, fs, dir, previousCluster, code => do
    let (entry, dir) ← fs.nextNative dir
    if entry.isEmpty then return (fs, code)
    else if entry.name ≠ node then
      removeLoop isOpen constraint node fuel fs dir entry.fileEntryCluster1 code
    else
      match ← fs.removeEntry isOpen constraint previousCluster entry with
      | (fs, some code) => return (fs, code)
      | (fs, none) => removeLoop isOpen constraint node fuel fs dir previousCluster .noError

/-- `remove_file` with the last component of the path in the last directory. -/
def removeIn (fs : FAT32) (isOpen : Identifier → Bool) (constraint : OnlyIf) (firstCluster : Nat)
    (node : List UInt8) : Run (FAT32 × ErrorCode) :=
  removeLoop isOpen constraint node fs.directoryFuel fs (Directory.ofCluster firstCluster) firstCluster .noSuchFile

end UltraOS.FAT32
