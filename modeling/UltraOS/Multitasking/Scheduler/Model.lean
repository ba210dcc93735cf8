import Mathlib.Data.List.Basic
import UltraOS.Base.Fault

/-!
# The scheduler

`Kernel/Multitasking/Scheduler.cpp` with the parts of `Thread`, `Process`, `Blocker` and `TaskFinalizer` that it
uses. Threads, blockers and processes are numbered as they are made, and pointers are these numbers. A thread is a
node of at most one of the three lists of threads. The queue of the sleeping blockers is ordered by wake-up times.
-/

namespace UltraOS

open Function

inductive ThreadState where
  | undefined
  | running
  | dead
  | blocked
  | ready
deriving DecidableEq

inductive ProcessState where
  | alive
  | exiting
  | exited
deriving DecidableEq

inductive BlockerType where
  | diskIo
  | mutex
  | io
  | processLoad
  | sleep
  | irq
deriving DecidableEq

inductive BlockResult where
  | undefined
  | unblocked
  | interrupted
  | timeout
deriving DecidableEq

def BlockerType.isInterruptable : BlockerType → Bool
  | .diskIo => false
  | .mutex => false
  | .processLoad => false
  | .io => true
  | .sleep => true
  | .irq => true

structure Blocker where
  thread : Nat
  type : BlockerType
  wakeTime : Nat := 0
  result : BlockResult := .undefined
  shouldBlock : Bool := true

def Blocker.setResult (blocker : Blocker) (result : BlockResult) : Blocker :=
  if blocker.result = .undefined then { blocker with result := result, shouldBlock := false }
  else blocker

/-- Where the code of a thread stands in a call of `Blocker::block`, from the making of the blocker on. -/
inductive BlockCall where
  | outside
  | preparing (blocker : Nat)
  | inside (blocker : Nat)
deriving DecidableEq

structure Thread where
  owner : Nat
  state : ThreadState := .undefined
  requestedState : ThreadState := .undefined
  blocker : Option Nat := none
  shouldDie : Bool := false
  isInvulnerable : Bool := false
  shouldKillAllThreads : Bool := false
  exitCode : Int := 0
  call : BlockCall := .outside

structure Process where
  threads : List Nat := []
  state : ProcessState := .alive
  aliveThreadCount : Nat := 0
  exitCode : Int := 0

/-- Where a CPU stands: in the code of its thread, on the way into `pick_next`, inside the section under
`s_queues_lock`, or between the end of it and `switch_task`. -/
inductive CpuPhase where
  | thread
  | scheduling
  | locked
  | unlocked
deriving DecidableEq

structure Cpu where
  currentThread : Nat
  idleTask : Nat
  phase : CpuPhase := .thread
  /-- The thread whose kernel stack the CPU executes on. -/
  stack : Nat

/-- The objects, the queues and the lists. The sleeping blockers are kept in a queue of any kind. -/
structure Tasks (Q : Type := List Nat) where
  threads : Nat → Thread
  threadCount : Nat
  blockers : Nat → Blocker
  blockerCount : Nat
  processes : Nat → Process
  processCount : Nat
  cpus : Nat → Cpu
  cpuCount : Nat
  mProcesses : List Nat := []
  mSleepingThreads : Q
  mDeferredDeletedDeadThreads : List Nat := []
  mReadyThreads : List Nat := []
  mThreadsToFree : List Nat := []
  queuesLock : Option Nat := none
  /-- The callers of `Blocker::unblock` that have found that the blocker should block. -/
  unblockers : List Nat := []
  /-- The blockers that `Scheduler::unblock` has been called with. -/
  unblocked : List Nat := []
  /-- The mutexes that are locked, with their owners. -/
  mutexOwners : List (Nat × Nat) := []

namespace Tasks

variable {Q : Type} (k : Tasks Q)

def updateThread (thread : Nat) (f : Thread → Thread) : Tasks Q :=
  { k with threads := update k.threads thread (f (k.threads thread)) }

def updateProcess (process : Nat) (f : Process → Process) : Tasks Q :=
  { k with processes := update k.processes process (f (k.processes process)) }

def updateBlocker (blocker : Nat) (f : Blocker → Blocker) : Tasks Q :=
  { k with blockers := update k.blockers blocker (f (k.blockers blocker)) }

def updateCpu (cpu : Nat) (f : Cpu → Cpu) : Tasks Q := { k with cpus := update k.cpus cpu (f (k.cpus cpu)) }

def setState (thread : Nat) (state : ThreadState) : Tasks Q := k.updateThread thread fun t => { t with state := state }

def exitWith (thread : Nat) (code : Int) : Tasks Q :=
  k.updateThread thread fun t => { t with shouldDie := true, exitCode := code }

/-- `request_state`, which only takes effect on the expected state. -/
def requestState (thread : Nat) (newState expected : ThreadState) : Tasks Q :=
  k.updateThread thread fun t =>
    if t.requestedState = expected then { t with requestedState := newState } else t

def setResult (blocker : Nat) (result : BlockResult) : Tasks Q := k.updateBlocker blocker fun b => b.setResult result

/-- `Process::exit`: whether this call was the first one. -/
def exitProcessWith (process : Nat) (code : Int) : Tasks Q × Bool :=
  if (k.processes process).state = .alive then
    (k.updateProcess process fun p => { p with state := .exiting, exitCode := code }, true)
  else (k, false)

def incrementAliveThreadCount (process : Nat) : Tasks Q :=
  k.updateProcess process fun p => { p with aliveThreadCount := p.aliveThreadCount + 1 }

def decrementAliveThreadCount (process : Nat) : Run (Tasks Q) := do
  assert ((k.processes process).aliveThreadCount ≠ 0) "value != 0"
  return k.updateProcess process fun p => { p with aliveThreadCount := p.aliveThreadCount - 1 }

def isOnAList (thread : Nat) : Bool :=
  thread ∈ k.mReadyThreads || thread ∈ k.mDeferredDeletedDeadThreads || thread ∈ k.mThreadsToFree

def insertReady (thread : Nat) : Run (Tasks Q) := do
  assert (!k.isOnAList thread) "list == nullptr || m_my_list == nullptr"
  return { k with mReadyThreads := k.mReadyThreads ++ [thread] }

def insertDeferred (thread : Nat) : Run (Tasks Q) := do
  assert (!k.isOnAList thread) "list == nullptr || m_my_list == nullptr"
  return { k with mDeferredDeletedDeadThreads := k.mDeferredDeletedDeadThreads ++ [thread] }

def freeThread (thread : Nat) : Run (Tasks Q) := do
  assert (!k.isOnAList thread) "list == nullptr || m_my_list == nullptr"
  return { k with mThreadsToFree := k.mThreadsToFree ++ [thread] }

def popOff (thread : Nat) : Run (Tasks Q) := do
  assert (k.isOnAList thread) "m_my_list != nullptr"
  return { k with
    mReadyThreads := k.mReadyThreads.erase thread
    mDeferredDeletedDeadThreads := k.mDeferredDeletedDeadThreads.erase thread
    mThreadsToFree := k.mThreadsToFree.erase thread }

def threadUnblock (thread : Nat) : Run (Tasks Q) :=
  match (k.threads thread).blocker with
  | none => .error (.assertion "m_blocker != nullptr")
  | some blocker =>
    let k := if (k.blockers blocker).shouldBlock then k.setResult blocker .unblocked else k
    .ok (k.updateThread thread fun t =>
      { t with blocker := none, state := if t.state = .blocked then .ready else t.state })

def threadInterrupt (thread : Nat) : Run (Tasks Q × Bool) :=
  match (k.threads thread).blocker with
  | none => .error (.assertion "m_blocker != nullptr")
  | some blocker =>
    if (k.blockers blocker).type.isInterruptable then
      let k := k.setResult blocker .interrupted
      .ok (k.updateThread thread fun t => { t with blocker := none, state := .ready }, true)
    else .ok (k, false)

def unblockUnchecked (blocker : Nat) : Run (Tasks Q) :=
  let thread := (k.blockers blocker).thread
  if (k.threads thread).state ≠ .blocked then .ok (k.setResult blocker .unblocked)
  else do
    let k ← k.threadUnblock thread
    k.insertReady thread

/-- What the scheduler does with the queue of the sleeping blockers: `m_sleeping_threads.emplace`, the removal of the
blocker of a killed thread, and `wake_ready_threads`. -/
class SleepQueue (Q : Type) where
  emplace : Tasks Q → Nat → Run (Tasks Q)
  removeBlocker : Tasks Q → Nat → Run (Tasks Q)
  wake : Tasks Q → Nat → Run (Tasks Q)

section

variable (k : Tasks)

/-- In front of the blockers with the same time. -/
def insertSleeping (blocker : Nat) : Tasks :=
  let isEarlier (other : Nat) : Bool :=
    (k.blockers other).wakeTime < (k.blockers blocker).wakeTime
  { k with
    mSleepingThreads := k.mSleepingThreads.takeWhile isEarlier ++ blocker :: k.mSleepingThreads.dropWhile isEarlier }

/-- The search of `kill_current_thread` for a sleeping blocker, from its lower bound on. -/
def removeSleepingBlocker (blocker : Nat) : Run Tasks := do
  let isLess (other : Nat) : Bool := (k.blockers other).wakeTime < (k.blockers blocker).wakeTime
  assert (blocker ∈ k.mSleepingThreads.dropWhile isLess) "lb != m_sleeping_threads.end()"
  return { k with mSleepingThreads := k.mSleepingThreads.erase blocker }

/-- The loop of `wake_ready_threads`, which always removes the first blocker. -/
def wakeLoop (now : Nat) : (sleeping : List Nat) → Tasks → Run Tasks
  | [], k => .ok k
  | blocker :: sleeping, k =>
    if (k.blockers blocker).wakeTime ≤ now then do
      let k ← { k with mSleepingThreads := sleeping }.unblockUnchecked blocker
      wakeLoop now sleeping k
    else .ok k

def wakeReadyThreads (now : Nat) : Run Tasks := wakeLoop now k.mSleepingThreads k

end

/-- An ordered list in place of the multiset. -/
instance : SleepQueue (List Nat) where
  emplace k blocker := .ok (k.insertSleeping blocker)
  removeBlocker := removeSleepingBlocker
  wake := wakeReadyThreads

/-- The loop of `free_deferred_threads`. A position is that of the iterator, which is advanced twice, and
the node behind the last one is the first. -/
def freeDeferredLoop : (fuel : Nat) → Tasks Q → (position : Nat) → Run (Tasks Q)
  | 0, _, _ => .error .outOfFuel
  | fuel + 1, k, position =>
    if position = k.mDeferredDeletedDeadThreads.length then .ok k
    else do
      let thread := k.mDeferredDeletedDeadThreads.getD position 0
      let k : Tasks Q := { k with
        mDeferredDeletedDeadThreads := k.mDeferredDeletedDeadThreads.eraseIdx position }
      let k ← k.freeThread thread
      let next :=
        if position = k.mDeferredDeletedDeadThreads.length then 0 else position + 1
      freeDeferredLoop fuel k next

def freeDeferredThreads : Run (Tasks Q) := freeDeferredLoop (k.mDeferredDeletedDeadThreads.length + 1) k 0

variable [SleepQueue Q]

def killThread (process currentThread thread : Nat) : Run (Tasks Q) :=
  if thread = currentThread then do
    let k ← k.decrementAliveThreadCount process
    k.insertDeferred currentThread
  else
    let k := k.exitWith thread 0
    match (k.threads thread).state with
    | .blocked =>
      match (k.threads thread).blocker with
      | none => .error .badPointer
      | some blocker =>
        if (k.blockers blocker).type = .sleep then do
          let k ← k.decrementAliveThreadCount process
          let k ← SleepQueue.removeBlocker k blocker
          k.freeThread thread
        else do
          let (k, interrupted) ← k.threadInterrupt thread
          if interrupted then k.insertReady thread else return k
    | .ready => do
      let k ← k.decrementAliveThreadCount process
      let k ← k.popOff thread
      k.freeThread thread
    | _ => .ok k

def killLoop (process currentThread : Nat) : (threads : List Nat) → Tasks Q → Run (Tasks Q)
  | [], k => .ok k
  | thread :: threads, k => do
    let k ← k.killThread process currentThread thread
    killLoop process currentThread threads k

def killCurrentThread (currentThread : Nat) : Run (Tasks Q) :=
  let k := k.setState currentThread .dead
  let process := (k.threads currentThread).owner
  if (k.threads currentThread).shouldKillAllThreads then
    killLoop process currentThread (k.processes process).threads k
  else do
    let k ← k.decrementAliveThreadCount process
    let k :=
      if (k.processes process).aliveThreadCount = 0 then
        (k.exitProcessWith process (k.threads currentThread).exitCode).1
      else k
    k.insertDeferred currentThread

/-- The requested state of the thread that enters `pick_next`. -/
def applyRequest (currentThread : Nat) : Run (Tasks Q) :=
  let requestedState := (k.threads currentThread).requestedState
  match requestedState with
  | .undefined => .ok k
  | .blocked =>
    match (k.threads currentThread).blocker with
    | none => .error .badPointer
    | some blocker => do
      let k ←
        if (k.blockers blocker).shouldBlock then
          let k := k.setState currentThread .blocked
          if (k.blockers blocker).type = .sleep then SleepQueue.emplace k blocker else .ok k
        else k.threadUnblock currentThread
      return k.requestState currentThread .undefined requestedState
  | _ => .error (.assertion "!\"Tried to execute a non-reachable area\"")

def pickNextThread (cpu : Nat) : Tasks Q × Nat :=
  match k.mReadyThreads with
  | [] => (k, (k.cpus cpu).idleTask)
  | thread :: threads => ({ k with mReadyThreads := threads }, thread)

def deactivate (thread : Nat) : Tasks Q := if (k.threads thread).state = .running then k.setState thread .ready else k

def activate (cpu thread : Nat) : Run (Tasks Q) := do
  assert ((k.threads thread).state = .ready) "m_state == State::READY"
  return (k.setState thread .running).updateCpu cpu fun c => { c with currentThread := thread }

/-- The end of `pick_next`: the current thread is put back if it still runs, and another one is taken. -/
def switchThreads (cpu currentThread : Nat) : Run (Tasks Q) := do
  let k ←
    if (k.threads currentThread).state = .running ∧ currentThread ≠ (k.cpus cpu).idleTask then
      k.insertReady currentThread
    else .ok k
  let (k, nextThread) := k.pickNextThread cpu
  if currentThread ≠ nextThread then (k.deactivate currentThread).activate cpu nextThread
  else return k

/-- The section of `pick_next` under the lock. -/
def pickNext (cpu now : Nat) : Run (Tasks Q) := do
  let currentThread := (k.cpus cpu).currentThread
  let k ← k.freeDeferredThreads
  let k ← SleepQueue.wake k now
  let k ←
    if (k.threads currentThread).shouldDie && !(k.threads currentThread).isInvulnerable then
      k.killCurrentThread currentThread
    else k.applyRequest currentThread
  let k ← k.switchThreads cpu currentThread
  return { k.updateCpu cpu fun c => { c with phase := .unlocked } with queuesLock := none }

def registerLoop (process : Nat) : (threads : List Nat) → Tasks Q → Run (Tasks Q)
  | [], k => .ok k
  | thread :: threads, k => do
    let k := k.setState thread .ready
    let k := k.incrementAliveThreadCount process
    let k ← k.insertReady thread
    registerLoop process threads k

def registerProcess (process : Nat) : Run (Tasks Q) := do
  assert (process ∉ k.mProcesses) "!m_processes.contains(process->id())"
  registerLoop process (k.processes process).threads { k with mProcesses := process :: k.mProcesses }

def registerThread (thread : Nat) : Run (Tasks Q) := do
  let process := (k.threads thread).owner
  if (k.processes process).state ≠ .alive then
    let k := k.exitWith thread 0
    let k := k.setState thread .dead
    k.freeThread thread
  else
    assert (process ∈ k.mProcesses) "m_processes.contains(thread.owner().id())"
    let k := k.incrementAliveThreadCount process
    let k := k.setState thread .ready
    k.insertReady thread

def createProcess : Tasks Q :=
  { k with
    threads := update k.threads k.threadCount { owner := k.processCount }
    threadCount := k.threadCount + 1
    processes := update k.processes k.processCount { threads := [k.threadCount] }
    processCount := k.processCount + 1 }

/-- `Process::create_thread` in front of `register_thread`. -/
def createThread (process : Nat) : Tasks Q :=
  if (k.processes process).state = .alive then
    { k with
      threads := update k.threads k.threadCount { owner := process }
      threadCount := k.threadCount + 1
      processes := update k.processes process
        { k.processes process with threads := (k.processes process).threads ++ [k.threadCount] } }
  else k

def prepare (cpu : Nat) (type : BlockerType) (wakeTime : Nat) : Tasks Q :=
  let thread := (k.cpus cpu).currentThread
  { k.updateThread thread fun t => { t with call := .preparing k.blockerCount } with
    blockers := update k.blockers k.blockerCount { thread := thread, type := type, wakeTime := wakeTime }
    blockerCount := k.blockerCount + 1 }

def enterScheduler (cpu : Nat) : Tasks Q := k.updateCpu cpu fun c => { c with phase := .scheduling }

/-- `Scheduler::block` in front of `save_state_and_schedule`. -/
def block (cpu blocker : Nat) : Run (Tasks Q) := do
  let thread := (k.cpus cpu).currentThread
  assert ((k.threads thread).blocker = none) "m_blocker == nullptr"
  let k := k.updateThread thread fun t =>
    { t with blocker := some blocker, call := .inside blocker }
  return (k.requestState thread .blocked .undefined).enterScheduler cpu

/-- `Scheduler::sleep` in front of `save_state_and_schedule`. -/
def sleep (cpu wakeTime : Nat) : Run (Tasks Q) := (k.prepare cpu .sleep wakeTime).block cpu k.blockerCount

def returnFromBlock (cpu : Nat) : Tasks Q :=
  k.updateThread (k.cpus cpu).currentThread fun t => { t with call := .outside }

def testUnblock (blocker : Nat) : Tasks Q :=
  if (k.blockers blocker).shouldBlock then { k with unblockers := blocker :: k.unblockers } else k

def unblock (blocker : Nat) : Run (Tasks Q) :=
  { k with
    unblockers := k.unblockers.erase blocker
    unblocked := blocker :: k.unblocked }.unblockUnchecked blocker

/-- `exit_thread` in front of `pick_next`. -/
def exitThread (cpu : Nat) (code : Int) : Tasks Q := (k.exitWith (k.cpus cpu).currentThread code).enterScheduler cpu

/-- `exit_process` in front of `pick_next`. -/
def exitProcess (cpu : Nat) (code : Int) : Tasks Q :=
  let thread := (k.cpus cpu).currentThread
  let (k, first) := k.exitProcessWith (k.threads thread).owner code
  let k :=
    if first then k.updateThread thread fun t => { t with shouldKillAllThreads := true } else k
  (k.exitWith thread code).enterScheduler cpu

/-- `crash` in front of `pick_next`. -/
def crash (cpu : Nat) (code : Int) : Tasks Q :=
  let thread := (k.cpus cpu).currentThread
  let k := k.exitProcess cpu (-code)
  k.updateProcess (k.threads thread).owner fun p => { p with exitCode := (k.threads thread).exitCode }

def setInvulnerable (cpu : Nat) (value : Bool) : Tasks Q :=
  k.updateThread (k.cpus cpu).currentThread fun t => { t with isInvulnerable := value }

def mutexOwner (mutex : Nat) : Option Nat := k.mutexOwners.lookup mutex

/-- `Mutex::lock`. A thread that has to wait makes a blocker. -/
def lockMutex (cpu mutex : Nat) : Run (Tasks Q) := do
  let thread := (k.cpus cpu).currentThread
  assert (k.threads thread).isInvulnerable "current_thread->is_invulnerable()"
  assert (k.mutexOwner mutex ≠ some thread) "Mutex deadlock"
  if k.mutexOwner mutex = none then
    return { k with mutexOwners := (mutex, thread) :: k.mutexOwners }
  else return k.prepare cpu .mutex 0

/-- `Mutex::unlock`, without the waiter that it unblocks. -/
def unlockMutex (cpu mutex : Nat) : Run (Tasks Q) := do
  assert (k.mutexOwner mutex = some (k.cpus cpu).currentThread) "m_owner == Thread::current()"
  return { k with mutexOwners := k.mutexOwners.filter fun owned => owned.1 != mutex }

def acquire (cpu : Nat) : Tasks Q :=
  { k.updateCpu cpu fun c => { c with phase := .locked } with queuesLock := some cpu }

def switchTask (cpu : Nat) : Tasks Q := k.updateCpu cpu fun c => { c with phase := .thread, stack := c.currentThread }

end Tasks

end UltraOS
