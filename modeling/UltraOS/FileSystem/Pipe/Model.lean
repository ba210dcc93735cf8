import UltraOS.Base.ErrorCode
import UltraOS.Library.CellMemory
import UltraOS.Library.Machine
import UltraOS.Memory.UserSpace

/-!
# Pipes

`Kernel/FileSystem/Pipe.cpp`. The ends of a pipe share a ring of bytes, the counts of the open ends and
two lists of waiters. Each section under the lock of the state is one step, and so is a `clone`. A copy
from or to the user stops at the first byte that cannot be accessed.
-/

namespace UltraOS

namespace Pipe

inductive Side where
  | read
  | write
deriving DecidableEq

structure End where
  mSide : Side
  mIsClosed : Bool := false

/-- `Pipe::State`. A waiter is the number of its blocker. -/
structure State where
  readerCount : Nat := 0
  writerCount : Nat := 0
  readOffset : Nat := 0
  writeOffset : Nat := 0
  capacity : Nat
  size : Nat := 0
  readWaiters : List Nat := []
  writeWaiters : List Nat := []
  buffer : Nat → UInt8 := fun _ => 0
  unblocked : List Nat := []

namespace State

variable (s : State)

def unblockAll (waiters : List Nat) : State :=
  { s with unblocked := waiters.foldl (fun unblocked waiter => waiter :: unblocked) s.unblocked }

def wakeReaders : State := { s.unblockAll s.readWaiters with readWaiters := [] }

def wakeWriters : State := { s.unblockAll s.writeWaiters with writeWaiters := [] }

def readLoop (user : UserBuffer) : (fuel : Nat) → State → (bytesToRead : Nat) → (received : List UInt8) →
    Run (State × Bool × List UInt8)
  | 0, _, _, _ => .error .outOfFuel
  | fuel + 1, s, bytesToRead, received =>
    if bytesToRead = 0 then .ok (s, true, received)
    else
      let thisReadBytes := min bytesToRead (s.capacity - s.readOffset)
      let bytes := CellMemory.load s.buffer s.readOffset thisReadBytes
      let copied := user.copyCount received.length thisReadBytes
      if copied < thisReadBytes then .ok (s, false, received ++ bytes.take copied)
      else
        let readOffset := s.readOffset + thisReadBytes
        let s := { s with
          readOffset := if readOffset = s.capacity then 0 else readOffset
          size := s.size - thisReadBytes }
        readLoop user fuel s (bytesToRead - thisReadBytes) (received ++ bytes)

/-- `read` from the test for an empty pipe on. The bytes are those in the buffer of the user. -/
def read (bytes : Nat) (user : UserBuffer) : Run (State × ErrorOr Nat × List UInt8) :=
  if s.size = 0 then .ok (s, .ok 0, [])
  else do
    let bytesToRead := min bytes s.size
    let (s', success, received) ← readLoop user (bytesToRead + 1) s bytesToRead []
    if success then return (s'.wakeWriters, .ok bytesToRead, received)
    else
      return ({ s' with readOffset := s.readOffset, size := s.size }, .error .memoryAccessViolation, received)

def writeLoop (user : UserBuffer) : (fuel : Nat) → State → (byteToWrite written : Nat) → Run (State × Bool)
  | 0, _, _, _ => .error .outOfFuel
  | fuel + 1, s, byteToWrite, written =>
    if byteToWrite = 0 then .ok (s, true)
    else
      let thisWriteBytes := min byteToWrite (s.capacity - s.writeOffset)
      let copied := user.copyCount written thisWriteBytes
      let s := { s with
        buffer := CellMemory.store s.buffer s.writeOffset (CellMemory.load user.data written copied) }
      if copied < thisWriteBytes then .ok (s, false)
      else
        let writeOffset := s.writeOffset + thisWriteBytes
        let s := { s with
          writeOffset := if writeOffset = s.capacity then 0 else writeOffset
          size := s.size + thisWriteBytes }
        writeLoop user fuel s (byteToWrite - thisWriteBytes) (written + thisWriteBytes)

def write (bytes : Nat) (user : UserBuffer) : Run (State × ErrorOr Nat) :=
  if s.capacity - s.size = 0 then .ok (s, .ok 0)
  else do
    let byteToWrite := min bytes (s.capacity - s.size)
    let (s', success) ← writeLoop user (byteToWrite + 1) s byteToWrite 0
    if success then return (s'.wakeReaders, .ok byteToWrite)
    else
      return ({ s' with writeOffset := s.writeOffset, size := s.size }, .error .memoryAccessViolation)

def countEnd (side : Side) : State :=
  match side with
  | .read => { s with readerCount := s.readerCount + 1 }
  | .write => { s with writerCount := s.writerCount + 1 }

def close (side : Side) : State :=
  match side with
  | .read =>
    let s := { s with readerCount := s.readerCount - 1 }
    if s.readerCount = 0 then s.wakeWriters else s
  | .write =>
    let s := { s with writerCount := s.writerCount - 1 }
    if s.writerCount = 0 then s.wakeReaders else s

def queueReader (blocker : Nat) : State × ErrorOr Bool :=
  if s.size ≠ 0 then (s, .ok false)
  else if s.writerCount = 0 then (s, .error .wouldBlockForever)
  else ({ s with readWaiters := s.readWaiters ++ [blocker] }, .ok true)

def queueWriter (blocker : Nat) : State × ErrorOr Bool :=
  if s.capacity ≠ s.size then (s, .ok false)
  else if s.readerCount = 0 then (s, .error .wouldBlockForever)
  else ({ s with writeWaiters := s.writeWaiters ++ [blocker] }, .ok true)

/-- The second section of both: `pop_off` of a blocker that is still on a list. -/
def popOff (blocker : Nat) : State :=
  { s with
    readWaiters := s.readWaiters.erase blocker
    writeWaiters := s.writeWaiters.erase blocker }

end State

end Pipe

structure Pipe where
  state : Pipe.State
  ends : List Pipe.End
  /-- The calls of `block_until_readable` and `block_until_writable` between their two sections. -/
  blocked : List (Nat × Pipe.Side) := []
  blockerCount : Nat := 0
  result : ErrorOr Nat := .ok 0
  /-- The bytes that successful writes have accepted. -/
  accepted : List UInt8 := []
  returned : List UInt8 := []

namespace Pipe

variable (p : Pipe)

def create (side : Side) (capacity : Nat) : Pipe where
  state := State.countEnd { capacity := capacity } side
  ends := [{ mSide := side }]

def failWith (code : ErrorCode) : Pipe := { p with result := .error code }

def endAt (index : Nat) : Run End :=
  match p.ends[index]? with
  | none => .error .badPointer
  | some e => .ok e

def clone (index : Nat) (side : Side) : Run Pipe := do
  let e ← p.endAt index
  if e.mIsClosed then return p.failWith .streamClosed
  else
    return { p with
      state := p.state.countEnd side, ends := p.ends ++ [{ mSide := side }], result := .ok 0 }

def read (index bytes : Nat) (user : UserBuffer) : Run Pipe := do
  let e ← p.endAt index
  if e.mSide = .write then return p.failWith .accessDenied
  else if e.mIsClosed then return p.failWith .streamClosed
  else
    let (state, result, received) ← p.state.read bytes user
    let returned := match result with
      | .ok _ => p.returned ++ received
      | .error _ => p.returned
    return { p with state := state, result := result, returned := returned }

def write (index bytes : Nat) (user : UserBuffer) : Run Pipe := do
  let e ← p.endAt index
  if e.mSide = .read then return p.failWith .accessDenied
  else if e.mIsClosed then return p.failWith .streamClosed
  else
    let (state, result) ← p.state.write bytes user
    let accepted := match result with
      | .ok written => p.accepted ++ CellMemory.load user.data 0 written
      | .error _ => p.accepted
    return { p with state := state, result := result, accepted := accepted }

def close (index : Nat) : Run Pipe := do
  let e ← p.endAt index
  if e.mIsClosed then return p.failWith .streamClosed
  else
    return { p with
      state := p.state.close e.mSide
      ends := p.ends.set index { e with mIsClosed := true }
      result := .ok 0 }

/-- The first section of `block_until_readable` or `block_until_writable` for a new blocker. -/
def blockUntil (side : Side) (index : Nat) : Run Pipe := do
  let e ← p.endAt index
  if e.mSide ≠ side then return p.failWith .accessDenied
  else if e.mIsClosed then return p.failWith .streamClosed
  else
    let (state, queued) := match side with
      | .read => p.state.queueReader p.blockerCount
      | .write => p.state.queueWriter p.blockerCount
    match queued with
    | .error code => return p.failWith code
    | .ok false => return { p with result := .ok 0 }
    | .ok true =>
      return { p with
        state := state
        blocked := (p.blockerCount, side) :: p.blocked
        blockerCount := p.blockerCount + 1
        result := .ok 0 }

def unlink (blocker : Nat) : Pipe :=
  { p with
    state := p.state.popOff blocker
    blocked := p.blocked.filter fun call => call.1 != blocker
    result := .ok 0 }

inductive Action where
  | clone (index : Nat) (side : Side)
  | read (index bytes : Nat) (user : UserBuffer)
  | write (index bytes : Nat) (user : UserBuffer)
  | close (index : Nat)
  | blockUntil (side : Side) (index : Nat)
  | unlink (blocker : Nat)

def step : Action → Run Pipe
  | .clone index side => p.clone index side
  | .read index bytes user => p.read index bytes user
  | .write index bytes user => p.write index bytes user
  | .close index => p.close index
  | .blockUntil side index => p.blockUntil side index
  | .unlink blocker => .ok (p.unlink blocker)

/-- The calls are made on ends that exist. A call that waits may return at any time, as it can be
interrupted. -/
def Permits : Action → Prop
  | .clone index _ => index < p.ends.length
  | .read index _ _ => index < p.ends.length
  | .write index _ _ => index < p.ends.length
  | .close index => index < p.ends.length
  | .blockUntil _ index => index < p.ends.length
  | .unlink blocker => ∃ call ∈ p.blocked, call.1 = blocker

def machine : Machine Pipe Action Fault where
  step := step
  admits := Permits

instance (action : Action) : Decidable (machine.admits p action) := by
  cases action <;> dsimp only [machine, Permits] <;> infer_instance

end Pipe

end UltraOS
