import UltraOS.Base.ErrorCode
import UltraOS.FileSystem.FAT32.Directory.Model

/-!
# Creating directory entries

`FAT32::create_file` from the last directory on, with the name helpers of `Kernel/FileSystem/FAT32/Utilities.h`. A
name is a plain 8.3 entry with case bits, or long entries with a generated 8.3 name behind them. A string is the
list of its characters, and behind them lies the terminator, which some names make the code read.
-/

namespace UltraOS

structure HumanReadable where
  year : UInt16
  month : UInt8
  day : UInt8
  hour : UInt8
  minute : UInt8
  second : UInt8

def rstrip (c : UInt8) (string : List UInt8) : List UInt8 := (string.reverse.dropWhile (· == c)).reverse

def findLast (c : UInt8) : (string : List UInt8) → Option Nat
  | [] => none
  | first :: rest =>
    match findLast c rest with
    | some index => some (index + 1)
    | none => if first = c then some 0 else none

def caseInsensitiveEquals (lhs rhs : List UInt8) : Bool := lhs.map toLower == rhs.map toLower

namespace FAT32

def lengthOfNameAndExtension (fileName : List UInt8) : Nat × Nat :=
  let nameLength := (findLast 0x2E fileName).getD fileName.length
  let extensionLength :=
    if nameLength = 0 then fileName.length
    else if nameLength < fileName.length then fileName.length - nameLength - 1
    else 0
  (nameLength, extensionLength)

def charAt (string : List UInt8) (i : Nat) : Run UInt8 := do
  assert (i < string.length) "i < m_size"
  return string.getD i 0

def charsAt (string : List UInt8) : (start count : Nat) → Run (List UInt8)
  | _, 0 => .ok []
  | start, count + 1 => do
    let c ← charAt string start
    let rest ← charsAt string (start + 1) count
    return c :: rest

def generateShortName (longName : List UInt8) : Run (List UInt8) := do
  let (nameLength, extensionLength) := lengthOfNameAndExtension longName
  let needsNumericTail :=
    decide (nameLength > shortNameLength ∨ extensionLength > shortExtensionLength)
  let nameCharsToCopy :=
    min (if needsNumericTail then shortNameLength - 2 else shortNameLength) nameLength
  let copied :=
    ((longName.take nameLength).filter fun c => c != 0x2E && c != 0x20).take nameCharsToCopy
  let name := if needsNumericTail then copied ++ [0x7E, 0x31] else copied
  let padding : List UInt8 := List.replicate (shortNameLength - name.length) 0x20
  let extensionChars := min shortExtensionLength extensionLength
  let extension ← charsAt longName (nameLength + 1) extensionChars
  let extensionPadding : List UInt8 :=
    List.replicate (shortExtensionLength - extensionChars) 0x20
  return (name ++ padding ++ extension ++ extensionPadding).map toUpper

def setChar (string : List UInt8) (index : Nat) (c : UInt8) : Run (List UInt8) := do
  assert (index < string.length) "index < size()"
  return string.set index c

/-- The digits of a number, stored downwards to the index behind `start`. -/
def writeNumber (start : Nat) : (count number : Nat) → (name : List UInt8) → Run (List UInt8)
  | 0, _, name => .ok name
  | count + 1, number, name => do
    let name ← setChar name (start + count + 1) (UInt8.ofNat (number % 10) + 0x30)
    writeNumber start count (number / 10) name

/-- The number in a numeric tail. A character that is not a digit wraps around. -/
def numberIn (tail : List UInt8) : Nat :=
  tail.foldl (fun number c => (((number : Int) * 10 + (c.toInt8.toInt - 0x30)) % 0x10000000000000000).toNat) 0

/-- `next_short_name`, or none if there are too many names. The subtraction in front of the whole
name wraps around. -/
def nextShortName (current : List UInt8) : Run (Option (List UInt8)) :=
  if (current.drop 1).take 7 = [0x7E, 0x39, 0x39, 0x39, 0x39, 0x39, 0x39] then .ok none
  else
    let endOfName := current.idxOf? 0x20
    match findLast 0x7E current with
    | none => do
      let newTailPos := min (shortNameLength - 2) (endOfName.getD (shortNameLength - 2))
      let name ← setChar current newTailPos 0x7E
      let name ← setChar name (newTailPos + 1) 0x31
      return some name
    | some numericTailPos => do
      let endOfNumericTail := min (endOfName.getD (shortNameLength + 1)) shortNameLength
      let tail := (current.take endOfNumericTail).drop (numericTailPos + 1)
      let number := (numberIn tail + 1) % 0x10000000000000000
      if tail.all (· == 0x39) then
        let canGrowDownwards := endOfNumericTail ≠ shortNameLength
        let newStart :=
          if canGrowDownwards then numericTailPos
          else (numericTailPos + 0xFFFFFFFFFFFFFFFF) % 0x10000000000000000
        let newEnd := if canGrowDownwards then endOfNumericTail + 1 else endOfNumericTail
        let name ← writeNumber newStart (newEnd - 1 - newStart) number current
        let name ← setChar name newStart 0x7E
        return some name
      else
        let name ←
          writeNumber numericTailPos (endOfNumericTail - 1 - numericTailPos) number current
        return some name

def generateShortNameChecksum (name : List UInt8) : UInt8 :=
  (name.take (shortNameLength + shortExtensionLength)).foldl
    (fun sum byte => (sum >>> 1) + ((sum &&& 1) <<< 7) + byte) 0

def bannedCharacters : List UInt8 := [0x22, 0x2A, 0x2F, 0x3A, 0x3C, 0x3E, 0x3F, 0x5C, 0x7C]

def bannedButAllowedInVfatCharacters : List UInt8 := [0x2E, 0x2B, 0x2C, 0x3B, 0x3D, 0x5B, 0x5D]

/-- A banned character, or one below the space. A `char` is signed. -/
def isBanned (c : UInt8) : Bool := bannedCharacters.contains c || c < 0x20 || 0x80 ≤ c

def nameView (name : List UInt8) : List UInt8 := name.take (lengthOfNameAndExtension name).1

/-- `extension_view`. It begins behind the character that follows the name, and the extension of a
name that begins with its only dot has the length of the whole name. -/
def extensionView (name : List UInt8) : List UInt8 :=
  ((name ++ [0]).drop ((lengthOfNameAndExtension name).1 + 1)).take (lengthOfNameAndExtension name).2

def isEntirelyLower (view : List UInt8) : Bool := view.any isLower && !view.any isUpper

def isEntirelyUpper (view : List UInt8) : Bool := !view.any isLower

def isVfat (name : List UInt8) : Bool :=
  let (nameLength, extensionLength) := lengthOfNameAndExtension name
  if nameLength > shortNameLength ∨ extensionLength > shortExtensionLength then true
  else if !((isEntirelyLower (nameView name) || isEntirelyUpper (nameView name)) &&
      (isEntirelyLower (extensionView name) || isEntirelyUpper (extensionView name))) then true
  else (nameView name ++ extensionView name).any bannedButAllowedInVfatCharacters.contains

def u16Bytes (value : UInt16) : List UInt8 := [value.toUInt8, (value >>> 8).toUInt8]

def padded (length : Nat) (field : List UInt8) : List UInt8 :=
  field.map toUpper ++ List.replicate (length - field.length) 0x20

def createdTime (time : HumanReadable) : UInt16 :=
  (time.hour.toUInt16 <<< 11) ||| (time.minute.toUInt16 <<< 5) ||| (time.second / 2).toUInt16

def createdDate (time : HumanReadable) : UInt16 :=
  ((time.year - 1980) <<< 9) ||| (time.month.toUInt16 <<< 5) ||| time.day.toUInt16

/-- The fields of an entry behind its name. -/
def entryRest (lowercaseName lowercaseExtension isDirectory : Bool) (firstCluster : Nat)
    (time : HumanReadable) : List UInt8 :=
  [if isDirectory then 0x10 else 0,
      (if lowercaseName then 0x08 else 0) ||| (if lowercaseExtension then 0x10 else 0), 0] ++
    u16Bytes (createdTime time) ++ u16Bytes (createdDate time) ++ u16Bytes (createdDate time) ++
    u16Bytes (UInt16.ofNat (firstCluster / 0x10000)) ++ u16Bytes (createdTime time) ++
    u16Bytes (createdDate time) ++ u16Bytes (UInt16.ofNat firstCluster) ++ [0, 0, 0, 0]

def normalEntry (name extension : List UInt8) (lowercaseName lowercaseExtension isDirectory : Bool)
    (firstCluster : Nat) (time : HumanReadable) : List UInt8 :=
  padded shortNameLength name ++ padded shortExtensionLength extension ++
    entryRest lowercaseName lowercaseExtension isDirectory firstCluster time

/-- A character of a long name, which is sign extended. -/
def ucs2Of (c : UInt8) : List UInt8 := [c, if 0x80 ≤ c then 0xFF else 0]

def ucs2Units (characters : List UInt8) : List UInt8 :=
  (characters.flatMap ucs2Of ++ [0, 0] ++ List.replicate (2 * LongNameDirectoryEntry.charactersPerEntry) 0xFF).take
      (2 * LongNameDirectoryEntry.charactersPerEntry)

def longEntry (sequenceNumber checksum : UInt8) (characters : List UInt8) : List UInt8 :=
  let units := ucs2Units characters
  sequenceNumber :: units.take 10 ++ [0x0F, 0, checksum] ++ (units.drop 10).take 12 ++ [0, 0] ++ units.drop 22

def namePieces (name : List UInt8) : List (List UInt8) :=
  (List.range (ceilingDivide name.length LongNameDirectoryEntry.charactersPerEntry)).map fun i =>
    (name.drop (i * LongNameDirectoryEntry.charactersPerEntry)).take LongNameDirectoryEntry.charactersPerEntry

def longEntries (name : List UInt8) (checksum : UInt8) : List (List UInt8) :=
  let pieces := namePieces name
  (pieces.zipIdx.map fun piece =>
    longEntry (if piece.2 + 1 = pieces.length then 0x40 ||| UInt8.ofNat (piece.2 + 1)
      else UInt8.ofNat (piece.2 + 1)) checksum piece.1).reverse

def findLoop (fs : FAT32) (isWanted : NativeEntry → Bool) : (fuel : Nat) → Directory → Run (Option NativeEntry)
  | 0, _ => .error .outOfFuel
  | fuel + 1, dir => do
    let (entry, dir) ← fs.nextNative dir
    if entry.isEmpty then return none
    else if isWanted entry then return some entry
    else findLoop fs isWanted fuel dir

def findEntry (fs : FAT32) (firstCluster : Nat) (isWanted : NativeEntry → Bool) : Run (Option NativeEntry) :=
  fs.findLoop isWanted fs.directoryFuel (Directory.ofCluster firstCluster)

def Directory.rewind (f : File) : Directory where
  mCurrentCluster := f.mFirstCluster

/-- The loop for a short name that no entry has. Short names that come in a circle never end it. -/
def uniqueShortName (fs : FAT32) (f : File) :
    (fuel : Nat) → Directory → (shortName : List UInt8) → Run (Option (List UInt8))
  | 0, _, _ => .error .outOfFuel
  | fuel + 1, dir, shortName => do
    let (entry, dir) ← fs.nextNative dir
    if entry.isEmpty then return some shortName
    else if entry.shortName = shortName then
      match ← nextShortName shortName with
      | none => return none
      | some shortName => uniqueShortName fs f fuel (Directory.rewind f) shortName
    else uniqueShortName fs f fuel dir shortName

/-- No more passes than entries, and no more steps in a pass. -/
def shortNameFuel (fs : FAT32) : Nat := fs.directoryFuel * fs.directoryFuel

def writeAll (fs : FAT32) (slot : Slot) : (entries : List (List UInt8)) → Run (FAT32 × Slot)
  | [] => .ok (fs, slot)
  | entry :: entries => do
    let (fs, slot) ← fs.writeOne entry slot
    writeAll fs slot entries

/-- What `create_file` is called for, next to the name: the kind of the file, the first cluster of
the root directory and the time. -/
structure NewFile where
  isDirectory : Bool
  rootDirCluster : Nat
  time : HumanReadable

/-- `generate_dot_and_dot_dot`. The case bits are those of the new name. -/
def generateDotAndDotDot (fs : FAT32) (new : NewFile) (lowercaseName lowercaseExtension : Bool)
    (firstClusterOfDirectory firstClusterOfPreviousDirectory : Nat) : Run FAT32 := do
  let previous :=
    if firstClusterOfPreviousDirectory = new.rootDirCluster then 0
    else firstClusterOfPreviousDirectory
  let (fs, _) ← fs.writeAll { mCurrentOffsetWithinCluster := 0, mAllocatedClusters := [firstClusterOfDirectory, 0, 0] }
    [normalEntry [0x2E] [] lowercaseName lowercaseExtension new.isDirectory firstClusterOfDirectory new.time,
      normalEntry [0x2E, 0x2E] [] lowercaseName lowercaseExtension new.isDirectory previous new.time]
  return fs

def newFirstCluster (fs : FAT32) (new : NewFile) (f : File)
    (lowercaseName lowercaseExtension : Bool) : Run (FAT32 × Nat) :=
  if new.isDirectory then do
    let (fs, chain) ← fs.allocateClusterChain 1 freeCluster
    let firstCluster ← chainLast chain
    let fs ← fs.generateDotAndDotDot new lowercaseName lowercaseExtension firstCluster f.mFirstCluster
    return (fs, firstCluster)
  else .ok (fs, 0)

/-- The end of `create_file` for a name that is not VFAT. -/
def createShort (fs : FAT32) (new : NewFile) (f : File) (name : List UInt8) : Run FAT32 := do
  let lowercaseName := isEntirelyLower (nameView name)
  let lowercaseExtension := isEntirelyLower (extensionView name)
  let (fs, slot) ← fs.allocateEntries f 1
  let (fs, firstCluster) ← fs.newFirstCluster new f lowercaseName lowercaseExtension
  let (fs, _) ← fs.writeAll slot [normalEntry (nameView name) (extensionView name) lowercaseName
    lowercaseExtension new.isDirectory firstCluster new.time]
  return fs

def createLong (fs : FAT32) (new : NewFile) (f : File) (name shortName : List UInt8) :
    Run FAT32 := do
  let entries := longEntries name (generateShortNameChecksum shortName)
  let (fs, slot) ← fs.allocateEntries f (entries.length + 1)
  let (fs, slot) ← fs.writeAll slot entries
  let (fs, firstCluster) ← fs.newFirstCluster new f false false
  let (fs, _) ← fs.writeAll slot [normalEntry (shortName.take shortNameLength)
    ((shortName.drop shortNameLength).take shortExtensionLength) false false new.isDirectory
    firstCluster new.time]
  return fs

def createEntry (fs : FAT32) (new : NewFile) (f : File) (name : List UInt8) : Run (FAT32 × ErrorCode) :=
  if name.any isBanned then .ok (fs, .badFilename)
  else if isVfat name then do
    let shortName ← generateShortName name
    match ← fs.uniqueShortName f fs.shortNameFuel (Directory.rewind f) shortName with
    | none => return (fs, .badFilename)
    | some shortName =>
      let fs ← fs.createLong new f name shortName
      return (fs, .noError)
  else do
    let fs ← fs.createShort new f name
    return (fs, .noError)

/-- `create_file` with the last component of the path in the last directory. -/
def createIn (fs : FAT32) (new : NewFile) (f : File) (node : List UInt8) : Run (FAT32 × ErrorCode) :=
  let newFileName := rstrip 0x2E (rstrip 0x20 node)
  if newFileName.isEmpty then .ok (fs, .badFilename)
  else if newFileName.length > maxNameLength then .ok (fs, .nameTooLong)
  else do
    match ← fs.findEntry f.mFirstCluster fun entry => caseInsensitiveEquals newFileName entry.name with
    | some _ => return (fs, .fileAlreadyExists)
    | none => fs.createEntry new f newFileName

end FAT32

end UltraOS
