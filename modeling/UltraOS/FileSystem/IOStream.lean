import UltraOS.FileSystem.FAT32.Model
import UltraOS.FileSystem.Pipe.Stream

/-!
# Streams

`Kernel/FileSystem/IOStream.h` with its two implementations, the file iterator of
`Kernel/FileSystem/FileIterator.cpp` and the ends of a pipe. A stream is given together with what it
refers to: the volume and the file, or the state of the pipe.
-/

namespace UltraOS

namespace FAT32

/-- `write` of `size` bytes of which only those of `copied` can be copied from the buffer: the file has
grown by then. -/
def writeUntilFault (fs : FAT32) (f : File) (offset size : Nat) (copied : List UInt8) :
    Run (FAT32 × File) := do
  let f ← fs.withRanges f
  let offsetClusterIndex := offset / fs.mBytesPerCluster
  let offsetWithinCluster := offset - offsetClusterIndex * fs.mBytesPerCluster
  let (fs, f) ← fs.extendIfNeeded f offset size
  let (fs, f) ← fs.growIfNeeded f (offset + size)
  let fs ← writeLoop f (copied.length + 1) fs offsetClusterIndex offsetWithinCluster copied
  return (fs, f)

end FAT32

structure FileIterator where
  fs : FAT32
  mFile : FAT32.File
  mOffset : Nat := 0
  mIsClosed : Bool := false

namespace FileIterator

variable (it : FileIterator)

/-- `read`, with the bytes that have been put into the buffer of the user. -/
def read (size : Nat) (user : UserBuffer) : Run (FileIterator × ErrorOr Nat × List UInt8) :=
  if it.mIsClosed then .ok (it, .error .streamClosed, [])
  else do
    let bytesToRead := min size (it.mFile.mSize - it.mOffset)
    let copied := user.copyCount 0 bytesToRead
    if copied < bytesToRead then
      -- The loop ends at the cluster of the first byte that cannot be copied.
      let (file, bytes) ← it.fs.read it.mFile it.mOffset (copied + 1)
      return ({ it with mFile := file }, .error .memoryAccessViolation, bytes.take copied)
    else
      let (file, bytes) ← it.fs.read it.mFile it.mOffset size
      return ({ it with mFile := file, mOffset := (it.mOffset + bytes.length) % addressSpace }, .ok bytes.length, bytes)

def write (size : Nat) (user : UserBuffer) : Run (FileIterator × ErrorOr Nat) :=
  if it.mIsClosed then .ok (it, .error .streamClosed)
  else do
    let copied := user.copyCount 0 size
    if copied < size then
      let (fs, file) ←
        it.fs.writeUntilFault it.mFile it.mOffset size (CellMemory.load user.data 0 copied)
      return ({ it with fs := fs, mFile := file }, .error .memoryAccessViolation)
    else
      let (fs, file, written) ← it.fs.write it.mFile (CellMemory.load user.data 0 size) it.mOffset
      return ({ it with
        fs := fs, mFile := file, mOffset := (it.mOffset + written) % addressSpace }, .ok written)

end FileIterator

inductive IOStream where
  | fileIterator (it : FileIterator)
  | pipe (state : Pipe.State) (thisEnd : Pipe.End)

/-- What `block_until_readable` and `block_until_writable` come to. -/
inductive Blocking where
  | failed (code : ErrorCode)
  | passed
  | waits

namespace IOStream

def isClosed : IOStream → Bool
  | fileIterator it => it.mIsClosed
  | pipe _ thisEnd => thisEnd.mIsClosed

/-- `read`, with the bytes that have been put into the buffer of the user. -/
def read (size : Nat) (user : UserBuffer) : IOStream → Run (IOStream × ErrorOr Nat × List UInt8)
  | fileIterator it => do
    let (it, result, received) ← it.read size user
    return (fileIterator it, result, received)
  | pipe state thisEnd =>
    if thisEnd.mSide = .write then .ok (pipe state thisEnd, .error .accessDenied, [])
    else if thisEnd.mIsClosed then .ok (pipe state thisEnd, .error .streamClosed, [])
    else do
      let (state, result, received) ← state.read size user
      return (pipe state thisEnd, result, received)

def write (size : Nat) (user : UserBuffer) : IOStream → Run (IOStream × ErrorOr Nat)
  | fileIterator it => do
    let (it, result) ← it.write size user
    return (fileIterator it, result)
  | pipe state thisEnd =>
    if thisEnd.mSide = .read then .ok (pipe state thisEnd, .error .accessDenied)
    else if thisEnd.mIsClosed then .ok (pipe state thisEnd, .error .streamClosed)
    else do
      let (state, result) ← state.write size user
      return (pipe state thisEnd, result)

def readSize (size : Nat) : IOStream → Nat
  | fileIterator it => if it.mIsClosed then 0 else min size (it.mFile.mSize - it.mOffset)
  | pipe state thisEnd =>
    if thisEnd.mSide = .write ∨ thisEnd.mIsClosed = true then 0 else min size state.size

def writeSize (size : Nat) : IOStream → Nat
  | fileIterator it => if it.mIsClosed then 0 else size
  | pipe state thisEnd =>
    if thisEnd.mSide = .read ∨ thisEnd.mIsClosed = true then 0
    else min size (state.capacity - state.size)

/-- No stream overrides the answer of the base class. -/
def canReadWithoutBlocking (_ : IOStream) : Bool := true

def canWriteWithoutBlocking (_ : IOStream) : Bool := true

/-- What the first section of a wait of a pipe has come to. -/
def blockingOf : ErrorOr Bool → Blocking
  | .error code => .failed code
  | .ok false => .passed
  | .ok true => .waits

/-- Files do not override the functions of the base class. -/
def blockUntilReadable (blocker : Nat) : IOStream → IOStream × Blocking
  | fileIterator it => (fileIterator it, .failed .unsupported)
  | pipe state thisEnd =>
    if thisEnd.mSide ≠ .read then (pipe state thisEnd, .failed .accessDenied)
    else if thisEnd.mIsClosed then (pipe state thisEnd, .failed .streamClosed)
    else
      let (state, queued) := state.queueReader blocker
      (pipe state thisEnd, blockingOf queued)

def blockUntilWritable (blocker : Nat) : IOStream → IOStream × Blocking
  | fileIterator it => (fileIterator it, .failed .unsupported)
  | pipe state thisEnd =>
    if thisEnd.mSide ≠ .write then (pipe state thisEnd, .failed .accessDenied)
    else if thisEnd.mIsClosed then (pipe state thisEnd, .failed .streamClosed)
    else
      let (state, queued) := state.queueWriter blocker
      (pipe state thisEnd, blockingOf queued)

end IOStream

end UltraOS
