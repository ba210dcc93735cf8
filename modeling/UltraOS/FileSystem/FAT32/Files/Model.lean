import Mathlib.Logic.Function.Basic
import UltraOS.FileSystem.FAT32.Directory.Remove

/-!
# Open files and path walks

`FAT32::open_file_from_path`, `remove_file`, `create_file` and `close`, with the map of open files and
the mutexes of the files. One thread calls them, and another thread that holds a mutex lets it go some
time. A walk that stops keeps its state, which has the mutexes that the thread holds and remembers the two
ways to misuse them. A deleted object is never at the address of a new one.
-/

namespace UltraOS.FAT32

structure FileObject where
  file : File
  attributes : Nat
  name : List UInt8

def FileObject.isDirectory (object : FileObject) : Bool := object.attributes % 2 == isDirectoryAttribute

structure OpenFile where
  ptr : Nat
  refcount : Nat

structure Mount where
  fs : FAT32
  rootDirCluster : Nat
  mRootDirectory : Nat
  mIdentifierToFile : Identifier → Option OpenFile
  objects : Nat → Option FileObject
  nextAddress : Nat
  held : List Nat := []
  /-- A mutex was unlocked that the thread did not hold. -/
  unlockedUnheld : Bool := false
  /-- A file was closed while the thread held its mutex. -/
  closedHeld : Bool := false

abbrev Walk (α : Type) : Type := EStateM Fault Mount α

namespace Walk

def ofRun {α : Type} (run : FAT32 → Run α) : Walk α := fun m =>
  match run m.fs with
  | .ok a => .ok a m
  | .error fault => .error fault m

def objectAt (ptr : Nat) : Walk FileObject := fun m =>
  match m.objects ptr with
  | some object => .ok object m
  | none => .error .badPointer m

def take (ptr : Nat) : Walk Unit := fun m =>
  if ptr ∈ m.held then .error (.assertion "Mutex deadlock") m
  else .ok () { m with held := ptr :: m.held }

def giveBack (ptr : Nat) : Walk Unit := fun m =>
  if ptr ∈ m.held then .ok () { m with held := m.held.erase ptr }
  else .error (.assertion "m_owner == Thread::current()") { m with unlockedUnheld := true }

def lock (ptr : Nat) : Walk Unit := do
  let _ ← objectAt ptr
  take ptr

def unlock (ptr : Nat) : Walk Unit := do
  let _ ← objectAt ptr
  giveBack ptr

def setCount (m : Mount) (identifier : Identifier) (openFile : OpenFile) (refcount : Nat) : Mount :=
  { m with
    mIdentifierToFile := Function.update m.mIdentifierToFile identifier (some { openFile with refcount := refcount }) }

def insert (m : Mount) (object : FileObject) : Mount :=
  { m with
    objects := Function.update m.objects m.nextAddress (some object)
    nextAddress := m.nextAddress + 1
    mIdentifierToFile := Function.update m.mIdentifierToFile object.file.mIdentifier
      (some { ptr := m.nextAddress, refcount := 1 }) }

def rootObject (rootDirCluster : Nat) : FileObject where
  file := { mFirstCluster := rootDirCluster }
  attributes := isDirectoryAttribute
  name := "root directory".toList.map fun c => UInt8.ofNat c.toNat

def mount (fs : FAT32) (rootDirCluster : Nat) : Mount :=
  insert
    { fs, rootDirCluster
      mRootDirectory := 0
      mIdentifierToFile := fun _ => none
      objects := fun _ => none
      nextAddress := 0 }
    (rootObject rootDirCluster)

def openOrIncref (object : FileObject) : Walk Nat := fun m =>
  match m.mIdentifierToFile object.file.mIdentifier with
  | some openFile => .ok openFile.ptr (setCount m object.file.mIdentifier openFile (openFile.refcount + 1))
  | none => .ok m.nextAddress (insert m object)

def delete (m : Mount) (identifier : Identifier) (openFile : OpenFile) : Mount :=
  { m with
    objects := Function.update m.objects openFile.ptr none
    mIdentifierToFile := Function.update m.mIdentifierToFile identifier none }

def textOf (name : List UInt8) : String := String.ofList (name.map fun c => Char.ofNat c.toNat)

def decref (object : FileObject) : Walk Unit := fun m =>
  match m.mIdentifierToFile object.file.mIdentifier with
  | none =>
    .error (.panic ("FAT32: close() called on an unknown file " ++ textOf object.name ++
      " cluster " ++ toString object.file.mFirstCluster)) m
  | some openFile =>
    if openFile.refcount - 1 = 0 then .ok () (delete m object.file.mIdentifier openFile)
    else .ok () (setCount m object.file.mIdentifier openFile (openFile.refcount - 1))

/-- The part of `close` behind the test for the root directory. -/
def closeObject (ptr : Nat) : Walk Unit := do
  let object ← objectAt ptr
  decref object

def close (ptr : Nat) : Walk Unit := fun m =>
  let m := { m with closedHeld := m.closedHeld || decide (ptr ∈ m.held) }
  if ptr = m.mRootDirectory then .ok () m else closeObject ptr m

def unlockAndClose (ptr : Nat) : Walk Unit := do
  unlock ptr
  close ptr

def dot : List UInt8 := [0x2E]
def dotDot : List UInt8 := [0x2E, 0x2E]

/-- The nodes of an `IterablePath`: what lies between slashes and is not empty. -/
def nodesOf (path : List UInt8) : List (List UInt8) := (path.splitOn 0x2F).filter fun node => !node.isEmpty

/-- The nodes that `*itr_path` and `++itr_path` give until the end. A path without nodes gives an empty
one. -/
def walkedNodes (path : List UInt8) : List (List UInt8) :=
  match nodesOf path with
  | [] => [[]]
  | node :: nodes => node :: nodes

def firstClusterOf (rootDirCluster : Nat) (entry : NativeEntry) : Nat :=
  if entry.name = dotDot ∧ entry.firstDataCluster = 0 then rootDirCluster
  else entry.firstDataCluster

def objectOf (rootDirCluster : Nat) (entry : NativeEntry) : FileObject where
  file :=
    { mIdentifier := entry.identifier
      mFirstCluster := firstClusterOf rootDirCluster entry
      mSize := entry.size }
  attributes := entry.attributes
  name := entry.name

def openEntry (entry : NativeEntry) : Walk Nat := fun m => openOrIncref (objectOf m.rootDirCluster entry) m

def openWanted (object : FileObject) (isWanted : NativeEntry → Bool) : Walk (Option Nat) := do
  match ← ofRun fun fs => fs.findEntry object.file.mFirstCluster isWanted with
  | none => return none
  | some entry =>
    let ptr ← openEntry entry
    return some ptr

/-- The file of the last node becomes the current one. -/
def enter (leave : Nat → Walk Unit) (curFile : Nat) : (nextFile : Option Nat) → Walk Nat
  | none => return curFile
  | some nextFile => do
    leave curFile
    return nextFile

def openResult (constraint : OnlyIf) (curFile : Nat) (nextFile : Option Nat) :
    Walk (Except ErrorCode Nat) := do
  unlockAndClose curFile
  match nextFile with
  | none => return .error .noSuchFile
  | some nextFile =>
    let object ← objectAt nextFile
    if constraint = .file ∧ object.isDirectory then
      close nextFile
      return .error .isDirectory
    else if constraint = .directory ∧ !object.isDirectory then
      close nextFile
      return .error .isFile
    else return .ok nextFile

def openLoop (constraint : OnlyIf) : (nodes : List (List UInt8)) → (curFile : Nat) →
    (nextFile : Option Nat) → Walk (Except ErrorCode Nat)
  | [], curFile, nextFile => openResult constraint curFile nextFile
  | node :: nodes, curFile, nextFile =>
    if node = dot then openLoop constraint nodes curFile nextFile
    else do
      let curFile ← enter unlockAndClose curFile nextFile
      lock curFile
      let object ← objectAt curFile
      if !object.isDirectory then
        unlockAndClose curFile
        return .error .isFile
      else
        match ← openWanted object fun entry => entry.name == node with
        | none => openResult constraint curFile none
        | some nextFile => openLoop constraint nodes curFile (some nextFile)

def openFileFromPath (path : List UInt8) (constraint : OnlyIf) : Walk (Except ErrorCode Nat) :=
  fun m => openLoop constraint (nodesOf path) m.mRootDirectory none m

/-- The loop over the last directory. It reads the map of open files. -/
def removeLast (constraint : OnlyIf) (object : FileObject) (node : List UInt8) : Walk ErrorCode :=
  fun m =>
    match m.fs.removeIn (fun i => (m.mIdentifierToFile i).isSome) constraint
        object.file.mFirstCluster node with
    | .ok (fs, code) => .ok code { m with fs := fs }
    | .error fault => .error fault m

def removeNodes (constraint : OnlyIf) : (nodes : List (List UInt8)) → (curFile : Nat) →
    (nextFile : Option Nat) → Walk ErrorCode
  | [], _, _ => return .noSuchFile
  | node :: nodes, curFile, nextFile =>
    if node = dot ∧ nodes ≠ [] then removeNodes constraint nodes curFile nextFile
    else if (node = dot ∨ node = dotDot) ∧ nodes = [] then do
      unlockAndClose curFile
      return .invalidArgument
    else do
      let curFile ← enter unlockAndClose curFile nextFile
      lock curFile
      let object ← objectAt curFile
      if !object.isDirectory then
        unlockAndClose curFile
        return .isFile
      else if nodes = [] then
        let code ← removeLast constraint object node
        unlockAndClose curFile
        return code
      else
        match ← openWanted object fun entry => entry.name == node with
        | none =>
          unlockAndClose curFile
          return .noSuchFile
        | some nextFile => removeNodes constraint nodes curFile (some nextFile)

def removeFile (path : List UInt8) (constraint : OnlyIf) : Walk ErrorCode := fun m =>
  removeNodes constraint (walkedNodes path) m.mRootDirectory none m

/-- What `create_file` does in the directory of the last node. -/
def createLast (new : NewFile) (object : FileObject) (node : List UInt8) : Walk ErrorCode := fun m =>
  match m.fs.createIn new object.file node with
  | .ok (fs, code) => .ok code { m with fs := fs }
  | .error fault => .error fault m

/-- The loop of `create_file`. A file that is not a directory is closed with its mutex held. -/
def createNodes (new : NewFile) : (nodes : List (List UInt8)) → (curFile : Nat) →
    (nextFile : Option Nat) → Walk ErrorCode
  | [], _, _ => return .noError
  | node :: nodes, curFile, nextFile =>
    if node = dot ∧ nodes ≠ [] then createNodes new nodes curFile nextFile
    else if (node = dot ∨ node = dotDot) ∧ nodes = [] then do
      close curFile
      return .invalidArgument
    else do
      let curFile ← enter close curFile nextFile
      lock curFile
      let object ← objectAt curFile
      if !object.isDirectory then
        close curFile
        return .isFile
      else if nodes = [] then
        let code ← createLast new object node
        unlockAndClose curFile
        return code
      else
        match ← openWanted object fun entry => caseInsensitiveEquals entry.name node with
        | none =>
          unlockAndClose curFile
          return .badPath
        | some nextFile =>
          unlock curFile
          createNodes new nodes curFile (some nextFile)

def createFile (path : List UInt8) (isDirectory : Bool) (time : HumanReadable) : Walk ErrorCode :=
  fun m =>
    createNodes { isDirectory, rootDirCluster := m.rootDirCluster, time } (walkedNodes path) m.mRootDirectory none m

end Walk

end UltraOS.FAT32
